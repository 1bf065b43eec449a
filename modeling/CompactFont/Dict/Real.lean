import CompactFont.Number.Reading
import CompactFont.Reader.Advance

/-! Real numbers in a DICT: their text, one or two characters to a half-byte, up to a terminator. What is
left of the last byte is not looked at. -/

namespace CompactFont.Dict

/-- What a half-byte stands for. -/
inductive Nibble where
  | text (characters : List Char)
  | reserved
  | terminator
deriving DecidableEq, Repr

def Nibble.ofNat (n : Nat) : Nibble :=
  if n < 10 then .text [Char.ofNat ('0'.toNat + n)]
  else if n = 10 then .text ['.']
  else if n = 11 then .text ['E']
  else if n = 12 then .text ['E', '-']
  else if n = 14 then .text ['-']
  else if n = 15 then .terminator
  else .reserved

/-- The text up to the terminator, after what has been `written` already, the latest character first. -/
def spelling (written : List Char) : Reader (List Char)
  | [] => .error .endOfData []
  | b :: rest =>
    let high := b.toNat / 16
    let low := b.toNat % 16
    match Nibble.ofNat high with
    | .terminator => .ok written.reverse rest
    | .reserved => .error (.reservedNibble high) rest
    | .text characters =>
      let written := characters.reverse ++ written
      match Nibble.ofNat low with
      | .terminator => .ok written.reverse rest
      | .reserved => .error (.reservedNibble low) rest
      | .text characters => spelling (characters.reverse ++ written) rest

def real : Reader Float := do
  let characters ← spelling []
  match Number.ofText? characters with
  | some x => return x
  | none => throw (.dict (.malformedReal (String.ofList characters)))

theorem advances_spelling (written : List Char) : Reader.Advances (spelling written) := by
  intro bytes
  induction bytes generalizing written with
  | nil => exact List.suffix_rfl
  | cons b rest ih =>
    unfold spelling
    have here : rest <:+ b :: rest := List.suffix_cons b rest
    dsimp only
    split
    · exact here
    · exact here
    · split
      · exact here
      · exact here
      · exact (ih _).trans here

theorem advances_real : Reader.Advances real := by
  refine Reader.advances_bind (advances_spelling []) fun characters => ?_
  split
  · exact Reader.advances_pure _
  · exact Reader.advances_throw _

end CompactFont.Dict
