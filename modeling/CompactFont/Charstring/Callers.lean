/-! The programs that wait while a subroutine runs. Their number is kept beside them, as calls ask for it
each time. -/

namespace CompactFont.Charstring

structure Callers where
  /-- The unread bytes of each program, the innermost caller first. -/
  programs : List (List UInt8)
  depth : Nat
  depth_eq : depth = programs.length
deriving Repr

namespace Callers

def empty : Callers := ⟨[], 0, rfl⟩

instance : Inhabited Callers := ⟨empty⟩

/-- Sets a program aside. -/
def push (callers : Callers) (program : List UInt8) : Callers where
  programs := program :: callers.programs
  depth := callers.depth + 1
  depth_eq := by simp [callers.depth_eq]

/-- The innermost caller and the others. -/
def pop? (callers : Callers) : Option (List UInt8 × Callers) :=
  match callers with
  | ⟨[], _, _⟩ => none
  | ⟨program :: programs, depth, depth_eq⟩ => some (program, ⟨programs, depth - 1, by simp [depth_eq]⟩)

@[simp] theorem programs_push (callers : Callers) (program : List UInt8) :
    (callers.push program).programs = program :: callers.programs := rfl

theorem programs_of_pop? {callers outer : Callers} {program : List UInt8}
    (popped : callers.pop? = some (program, outer)) : callers.programs = program :: outer.programs := by
  obtain ⟨programs, depth, depth_eq⟩ := callers
  cases programs with
  | nil => cases popped
  | cons first rest => cases popped; rfl

end Callers
end CompactFont.Charstring
