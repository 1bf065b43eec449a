import CompactFont.Reader.Footprint

/-! The tokens of a glyph program: numbers, which are pushed, and operators. The mask bytes after a mask
operator are not tokens; how many there are depends on the hints declared before it. -/

namespace CompactFont.Charstring

inductive Token where
  | integer (value : Int)
  /-- Sixteen bits of integer part and sixteen bits of fraction, without a sign. -/
  | fixed (raw : UInt32)
  | operator (op : Operator)
deriving DecidableEq, Repr, Inhabited

namespace Token

def number? : Token → Option Float
  | .integer value => some (Float.ofInt value)
  | .fixed raw => some (Float.ofNat raw.toNat / 65536.0)
  | .operator _ => none

def isMask : Token → Bool
  | .operator (.mask _) => true
  | _ => false

def ofOpcode (code : Opcode) : Reader Token :=
  match Operator.ofOpcode? code, code with
  | some op, _ => return .operator op
  | none, .single code => throw (.reservedOperator code none)
  | none, .escaped code => throw (.reservedOperator 12 (some code))

/-- The token that begins with `lead`. -/
def after (lead : UInt8) : Reader Token :=
  if lead = 12 then do
    let code ← Reader.byte
    ofOpcode (.escaped code)
  else if lead = 28 then do
    let value ← Reader.signed 2
    return .integer value
  else if lead = 255 then do
    let raw ← Reader.unsigned 4
    return .fixed (UInt32.ofNat raw)
  else if 32 ≤ lead then do
    let value ← Reader.shortInteger lead
    return .integer value
  else ofOpcode (.single lead)

/-- The next token, if the program is not at its end. -/
def read : Reader (Option Token)
  | [] => .ok none []
  | lead :: rest => (some <$> after lead : Reader (Option Token)) rest

/-- These bytes are the token, whatever follows them. -/
def Takes (used : List UInt8) (token : Token) : Prop := read.Finds used (some token)

theorem local_ofOpcode (code : Opcode) : (ofOpcode code).Local := by
  unfold ofOpcode
  split
  · exact Reader.local_pure _
  · exact Reader.local_throw _
  · exact Reader.local_throw _

theorem local_after (lead : UInt8) : (after lead).Local := by
  unfold after
  split
  · exact Reader.local_bind Reader.local_byte fun _ => local_ofOpcode _
  split
  · exact Reader.local_bind (Reader.local_signed 2) fun _ => Reader.local_pure _
  split
  · exact Reader.local_bind (Reader.local_unsigned 4) fun _ => Reader.local_pure _
  split
  · exact Reader.local_bind (Reader.local_shortInteger lead) fun _ => Reader.local_pure _
  · exact local_ofOpcode _

theorem read_eq_none_iff {bytes rest : List UInt8} : read bytes = .ok none rest ↔ bytes = [] ∧ rest = [] := by
  constructor
  · intro reads
    cases bytes with
    | nil => cases reads; exact ⟨rfl, rfl⟩
    | cons lead bytes =>
      have found : (some <$> after lead : Reader (Option Token)) bytes = .ok none rest := reads
      rw [map_eq_pure_bind] at found
      obtain ⟨token, between, _, ends⟩ := Reader.ok_bind_iff.1 found
      cases ends
  · intro ⟨empty, done⟩
    rw [empty, done]
    rfl

theorem takes_of_read {bytes rest : List UInt8} {token : Token} (reads : read bytes = .ok (some token) rest) :
    ∃ used, bytes = used ++ rest ∧ Takes used token := by
  cases bytes with
  | nil => cases reads
  | cons lead bytes =>
    obtain ⟨used, rfl, found⟩ := Reader.local_map some (local_after lead) _ _ _ reads
    exact ⟨lead :: used, rfl, found⟩

theorem Takes.read {used : List UInt8} {token : Token} (takes : Takes used token) (rest : List UInt8) :
    Token.read (used ++ rest) = .ok (some token) rest := takes rest

/-- A program begins with one token only. -/
theorem Takes.unique {used more rest tail : List UInt8} {token other : Token} (takes : Takes used token)
    (also : Takes more other) (same : used ++ rest = more ++ tail) : token = other ∧ used = more ∧ rest = tail := by
  have reads := takes.read rest
  rw [same, also.read tail] at reads
  cases reads
  exact ⟨rfl, List.append_cancel_right same, rfl⟩

theorem Takes.length_pos {used : List UInt8} {token : Token} (takes : Takes used token) : 0 < used.length := by
  cases used with
  | nil => cases takes []
  | cons => exact Nat.succ_pos _

/-- A token takes at least one byte. -/
theorem length_lt_of_read {bytes rest : List UInt8} {token : Token}
    (found : read bytes = .ok (some token) rest) : rest.length < bytes.length := by
  obtain ⟨used, rfl, takes⟩ := takes_of_read found
  have consumed := takes.length_pos
  rw [List.length_append]
  omega

/-- All tokens of a program without mask operators. -/
def readAll (bytes : List UInt8) : Except Fault (List Token) :=
  match _ : read bytes with
  | .error fault _ => .error fault
  | .ok none _ => .ok []
  | .ok (some token) rest =>
    if token.isMask then .error (.glyph .maskWithoutHints) else (readAll rest).map (token :: ·)
termination_by bytes.length
decreasing_by exact length_lt_of_read ‹_›

end Token
end CompactFont.Charstring
