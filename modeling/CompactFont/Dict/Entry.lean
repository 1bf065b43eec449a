import CompactFont.Dict.Real

/-! The common form of DICTs: operands and, after them, the key they belong to. -/

namespace CompactFont.Dict

/-- The bytes of a key: one byte, or an escape byte and one more. -/
inductive KeyCode where
  | single (code : UInt8)
  | escaped (code : UInt8)
deriving DecidableEq, Repr

inductive Lexeme where
  | operand (x : Float)
  | key (code : KeyCode)
deriving Repr

namespace Lexeme

/-- The lexeme that begins with `lead`. -/
def after (lead : UInt8) : Reader Lexeme :=
  if lead = 12 then do
    let code ← Reader.byte
    return .key (.escaped code)
  else if lead ≤ 21 then return .key (.single lead)
  else if lead = 28 then do
    let value ← Reader.signed 2
    return .operand (Float.ofInt value)
  else if lead = 29 then do
    let value ← Reader.signed 4
    return .operand (Float.ofInt value)
  else if lead = 30 then do
    let x ← real
    return .operand x
  else if 32 ≤ lead ∧ lead ≤ 254 then do
    let value ← Reader.shortInteger lead
    return .operand (Float.ofInt value)
  else throw (.unknownKey lead none)

theorem advances_after (lead : UInt8) : Reader.Advances (after lead) := by
  unfold after
  split
  · exact Reader.advances_bind Reader.advances_byte fun _ => Reader.advances_pure _
  split
  · exact Reader.advances_pure _
  split
  · exact Reader.advances_bind (Reader.advances_signed 2) fun _ => Reader.advances_pure _
  split
  · exact Reader.advances_bind (Reader.advances_signed 4) fun _ => Reader.advances_pure _
  split
  · exact Reader.advances_bind advances_real fun _ => Reader.advances_pure _
  split
  · exact Reader.advances_bind (Reader.advances_shortInteger lead) fun _ => Reader.advances_pure _
  · exact Reader.advances_throw _

end Lexeme

/-- Decodes the entries of a DICT in order. Every key is given all operands since the key before it;
`pending` holds those read so far, the latest first. -/
def decode {δ : Type} (assign : KeyCode → List Float → δ → Except Fault δ) (pending : List Float) (dict : δ) :
    List UInt8 → Except Fault δ
  | [] => if pending = [] then .ok dict else .error (.dict (.leftover pending.length))
  | lead :: bytes =>
    match _ : Lexeme.after lead bytes with
    | .error fault _ => .error fault
    | .ok (.operand x) rest => decode assign (x :: pending) dict rest
    | .ok (.key code) rest =>
      match assign code pending.reverse dict with
      | .error fault => .error fault
      | .ok dict => decode assign [] dict rest
termination_by bytes => bytes.length
decreasing_by
  all_goals
    have moves := (Reader.suffix_of_ok (Lexeme.advances_after lead) ‹_›).length_le
    exact Nat.lt_succ_of_le moves

end CompactFont.Dict
