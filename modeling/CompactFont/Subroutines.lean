import CompactFont.Index

/-! Subroutine programs, called by biased numbers so that small operands reach as many of them as
possible. -/

namespace CompactFont

structure Subroutines where
  programs : Array (List UInt8) := #[]
deriving Repr, Inhabited

namespace Subroutines

def ofList (programs : List (List UInt8)) : Subroutines := ⟨programs.toArray⟩

def ofIndex (index : Index) : Subroutines := ofList index.items

def size (table : Subroutines) : Nat := table.programs.size

/-- What is added to an operand to give the number of a subroutine in a table of that size. -/
def biasOf (size : Nat) : Nat :=
  if size < 1240 then 107 else if size < 33900 then 1131 else 32768

def bias (table : Subroutines) : Nat := biasOf table.size

/-- The number of the subroutine that an operand calls. The sum is one of 64-bit integers and wraps around above the
largest of them, as in a build without overflow checks; a build with checks stops there. -/
def number (table : Subroutines) (operand : Float) : Int :=
  (Int64.ofInt (Number.word64 operand) + Int64.ofNat table.bias).toInt

/-- The program that an operand calls. -/
def get (table : Subroutines) (operand : Float) : Except Fault (List UInt8) :=
  match (table.number operand).toNat?.bind (table.programs[·]?) with
  | some program => .ok program
  | none => .error (.glyph (.subroutineBeyond (table.number operand) table.size))

/-- The length of the longest program. -/
def longest (table : Subroutines) : Nat := table.programs.toList.foldr (fun program n => max program.length n) 0

theorem length_le_longest {table : Subroutines} {operand : Float} {program : List UInt8}
    (found : table.get operand = .ok program) : program.length ≤ table.longest := by
  have member : program ∈ table.programs.toList := by
    unfold get at found
    split at found
    next other chosen =>
      cases found
      obtain ⟨number, _, there⟩ := Option.bind_eq_some_iff.1 chosen
      exact Array.mem_toList_iff.2 (Array.mem_of_getElem? there)
    next => cases found
  unfold longest
  generalize table.programs.toList = programs at member
  induction programs with
  | nil => cases member
  | cons first rest ih =>
    cases member with
    | head => exact Nat.le_max_left ..
    | tail _ later => exact Nat.le_trans (ih later) (Nat.le_max_right ..)

end Subroutines
end CompactFont
