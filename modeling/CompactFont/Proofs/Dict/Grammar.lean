import CompactFont.Dict.Entry
import CompactFont.Proofs.Dict.Real

/-! The grammar of DICTs: a sequence of entries, each of them operands and, after them, the key that they belong
to. Decoding succeeds on what the grammar allows and on nothing else. -/

namespace CompactFont.Dict

/-- The written forms of an operand. -/
inductive Operand : List UInt8 → Float → Prop where
  | one {lead : UInt8} (low : 32 ≤ lead) (high : lead ≤ 246) :
      Operand [lead] (Float.ofInt ((lead.toNat : Int) - 139))
  | above {lead next : UInt8} (low : 247 ≤ lead) (high : lead ≤ 250) :
      Operand [lead, next] (Float.ofInt (((lead.toNat : Int) - 247) * 256 + next.toNat + 108))
  | below {lead next : UInt8} (low : 251 ≤ lead) (high : lead ≤ 254) :
      Operand [lead, next] (Float.ofInt (-((lead.toNat : Int) - 251) * 256 - next.toNat - 108))
  | two {bytes : List UInt8} (size : bytes.length = 2) :
      Operand (28 :: bytes) (Float.ofInt ((BigEndian.value bytes : Int).bmod (Nat.pow 256 2)))
  | four {bytes : List UInt8} (size : bytes.length = 4) :
      Operand (29 :: bytes) (Float.ofInt ((BigEndian.value bytes : Int).bmod (Nat.pow 256 4)))
  | real {bytes : List UInt8} {characters : List Char} {x : Float} (spelled : SpellsReal bytes characters)
      (value : Number.ofText? characters = some x) : Operand (30 :: bytes) x

/-- The operands of one key. -/
inductive Operands : List UInt8 → List Float → Prop where
  | nil : Operands [] []
  | cons {used more : List UInt8} {x : Float} {rest : List Float} (first : Operand used x)
      (others : Operands more rest) : Operands (used ++ more) (x :: rest)

def KeyCode.bytes : KeyCode → List UInt8
  | .single code => [code]
  | .escaped code => [12, code]

/-- A code that cannot be taken for an operand or an escape. -/
def KeyCode.IsKey : KeyCode → Prop
  | .single code => code ≤ 21 ∧ code ≠ 12
  | .escaped _ => True

/-- A whole DICT: entries back to back, each of them operands and a key. -/
inductive Entries {κ : Type} (code : κ → KeyCode) : List UInt8 → List (κ × List Float) → Prop where
  | nil : Entries code [] []
  | cons {used bytes : List UInt8} {operands : List Float} {entries : List (κ × List Float)} {key : κ}
      (first : Operands used operands) (others : Entries code bytes entries) :
      Entries code (used ++ (code key).bytes ++ bytes) ((key, operands) :: entries)

/-! ### Lexemes -/

namespace Lexeme

/-- The written forms of a lexeme. -/
def Spelled (bytes : List UInt8) : Lexeme → Prop
  | .operand x => Operand bytes x
  | .key code => code.IsKey ∧ bytes = code.bytes

variable {lead : UInt8} {used : List UInt8} {lexeme : Lexeme}

theorem local_after (lead : UInt8) : Reader.Local (after lead) := by
  unfold after
  split
  · exact Reader.local_bind Reader.local_byte fun _ => Reader.local_pure _
  split
  · exact Reader.local_pure _
  split
  · exact Reader.local_bind (Reader.local_signed 2) fun _ => Reader.local_pure _
  split
  · exact Reader.local_bind (Reader.local_signed 4) fun _ => Reader.local_pure _
  split
  · exact Reader.local_bind local_real fun _ => Reader.local_pure _
  split
  · exact Reader.local_bind (Reader.local_shortInteger lead) fun _ => Reader.local_pure _
  · exact Reader.local_throw _

theorem after_of_short (low : 32 ≤ lead) (high : lead ≤ 254) :
    after lead = do let value ← Reader.shortInteger lead; return .operand (Float.ofInt value) := by
  have other (code : UInt8) (less : code < 32) : lead ≠ code := by
    rintro rfl
    exact absurd (UInt8.lt_of_lt_of_le less low) (UInt8.lt_irrefl _)
  have beyond : ¬ lead ≤ 21 := fun small => absurd (UInt8.le_trans low small) (by decide)
  rw [after, if_neg (other 12 (by decide)), if_neg beyond, if_neg (other 28 (by decide)),
    if_neg (other 29 (by decide)), if_neg (other 30 (by decide)), if_pos ⟨low, high⟩]

theorem spelled_of_finds_after (finds : (after lead).Finds used lexeme) : Spelled (lead :: used) lexeme := by
  unfold after at finds
  split at finds
  next escape =>
    obtain ⟨code, here, rfl⟩ := (Reader.finds_return_iff Reader.local_byte).1 finds
    rw [Reader.finds_byte_iff.1 here, escape]
    exact ⟨trivial, rfl⟩
  split at finds
  next other small =>
    obtain ⟨rfl, rfl⟩ := Reader.finds_pure_iff.1 finds
    exact ⟨⟨small, other⟩, rfl⟩
  split at finds
  next two =>
    obtain ⟨value, here, rfl⟩ := (Reader.finds_return_iff (Reader.local_signed 2)).1 finds
    obtain ⟨size, same⟩ := Reader.finds_signed_iff.1 here
    rw [two, same]
    exact .two size
  split at finds
  next four =>
    obtain ⟨value, here, rfl⟩ := (Reader.finds_return_iff (Reader.local_signed 4)).1 finds
    obtain ⟨size, same⟩ := Reader.finds_signed_iff.1 here
    rw [four, same]
    exact .four size
  split at finds
  next marked =>
    obtain ⟨x, here, rfl⟩ := (Reader.finds_return_iff local_real).1 finds
    obtain ⟨characters, spelled, value⟩ := finds_real_iff.1 here
    rw [marked]
    exact .real spelled value
  split at finds
  next short =>
    obtain ⟨value, here, rfl⟩ := (Reader.finds_return_iff (Reader.local_shortInteger lead)).1 finds
    rcases Reader.finds_shortInteger_iff.1 here with
      ⟨small, rfl, rfl⟩ | ⟨large, small, next, rfl, rfl⟩ | ⟨_, large, next, rfl, rfl⟩
    · exact .one short.1 (UInt8.le_iff_toNat_le.2 (Nat.le_of_lt_succ (UInt8.lt_iff_toNat_lt.1 small)))
    · exact .above (UInt8.not_lt.1 large) (UInt8.le_iff_toNat_le.2 (Nat.le_of_lt_succ (UInt8.lt_iff_toNat_lt.1 small)))
    · exact .below (UInt8.not_lt.1 large) short.2
  next => exact absurd finds Reader.not_finds_throw

theorem finds_after_of_operand {bytes : List UInt8} {x : Float} (form : Operand bytes x) :
    ∃ lead used, bytes = lead :: used ∧ (after lead).Finds used (.operand x) := by
  cases form with
  | @one lead low high =>
    have small : lead < 247 := UInt8.lt_iff_toNat_lt.2 (Nat.lt_succ_of_le (UInt8.le_iff_toNat_le.1 high))
    refine ⟨lead, [], rfl, ?_⟩
    rw [after_of_short low (UInt8.le_trans high (by decide)), Reader.finds_return_iff (Reader.local_shortInteger lead)]
    exact ⟨_, Reader.finds_shortInteger_iff.2 (.inl ⟨small, rfl, rfl⟩), rfl⟩
  | @above lead next low high =>
    have small : lead < 251 := UInt8.lt_iff_toNat_lt.2 (Nat.lt_succ_of_le (UInt8.le_iff_toNat_le.1 high))
    have short : 32 ≤ lead := UInt8.le_trans (by decide) low
    refine ⟨lead, [next], rfl, ?_⟩
    rw [after_of_short short (UInt8.le_trans high (by decide)), Reader.finds_return_iff (Reader.local_shortInteger lead)]
    exact ⟨_, Reader.finds_shortInteger_iff.2 (.inr (.inl ⟨UInt8.not_lt.2 low, small, next, rfl, rfl⟩)), rfl⟩
  | @below lead next low high =>
    have large : ¬ lead < 247 := UInt8.not_lt.2 (UInt8.le_trans (by decide) low)
    have short : 32 ≤ lead := UInt8.le_trans (by decide) low
    refine ⟨lead, [next], rfl, ?_⟩
    rw [after_of_short short high, Reader.finds_return_iff (Reader.local_shortInteger lead)]
    exact ⟨_, Reader.finds_shortInteger_iff.2 (.inr (.inr ⟨large, UInt8.not_lt.2 low, next, rfl, rfl⟩)), rfl⟩
  | @two used size =>
    refine ⟨28, used, rfl, (Reader.finds_return_iff (Reader.local_signed 2)).2 ⟨_, ?_, rfl⟩⟩
    exact Reader.finds_signed_iff.2 ⟨size, rfl⟩
  | @four used size =>
    refine ⟨29, used, rfl, (Reader.finds_return_iff (Reader.local_signed 4)).2 ⟨_, ?_, rfl⟩⟩
    exact Reader.finds_signed_iff.2 ⟨size, rfl⟩
  | @real used characters x spelled value =>
    refine ⟨30, used, rfl, (Reader.finds_return_iff local_real).2 ⟨_, ?_, rfl⟩⟩
    exact finds_real_iff.2 ⟨characters, spelled, value⟩

theorem finds_after_of_key {code : KeyCode} (valid : code.IsKey) :
    ∃ lead used, code.bytes = lead :: used ∧ (after lead).Finds used (.key code) := by
  cases code with
  | single code =>
    refine ⟨code, [], rfl, ?_⟩
    rw [after, if_neg valid.2, if_pos valid.1]
    exact Reader.finds_pure _
  | escaped code =>
    exact ⟨12, [code], rfl, (Reader.finds_return_iff Reader.local_byte).2 ⟨code, Reader.finds_byte_iff.2 rfl, rfl⟩⟩

end Lexeme

/-! ### Decoding -/

variable {κ δ : Type} {assign : KeyCode → List Float → δ → Except Fault δ} {pending : List Float}
  {dict result : δ} {bytes used rest : List UInt8}

theorem decode_of_operand {x : Float} (form : Operand used x) :
    decode assign pending dict (used ++ rest) = decode assign (x :: pending) dict rest := by
  obtain ⟨lead, used, rfl, finds⟩ := Lexeme.finds_after_of_operand form
  have reads := finds rest
  rw [List.cons_append, decode]
  split
  next failed => rw [failed] at reads; cases reads
  next found => rw [found] at reads; cases reads; rfl
  next found => rw [found] at reads; cases reads

theorem decode_of_key {code : KeyCode} (valid : code.IsKey) :
    decode assign pending dict (code.bytes ++ rest) =
      (assign code pending.reverse dict >>= fun dict => decode assign [] dict rest) := by
  obtain ⟨lead, used, split, finds⟩ := Lexeme.finds_after_of_key valid
  have reads := finds rest
  rw [split, List.cons_append, decode]
  split
  next failed => rw [failed] at reads; cases reads
  next found => rw [found] at reads; cases reads
  next found =>
    rw [found] at reads
    cases reads
    cases assign code pending.reverse dict <;> rfl

theorem decode_of_operands {xs : List Float} (form : Operands used xs) :
    decode assign pending dict (used ++ rest) = decode assign (xs.reverse ++ pending) dict rest := by
  induction form generalizing pending with
  | nil => rfl
  | cons first _ ih => rw [List.append_assoc, decode_of_operand first, ih, List.reverse_cons, List.append_assoc]; rfl

/-- What decoding can begin with if it ends well: nothing, an operand or a key. -/
theorem decode_cases (decoded : decode assign pending dict bytes = .ok result) :
    (bytes = [] ∧ pending = []) ∨
    (∃ used rest x, bytes = used ++ rest ∧ rest.length < bytes.length ∧ Operand used x ∧
      decode assign (x :: pending) dict rest = .ok result) ∨
    (∃ code rest after, bytes = code.bytes ++ rest ∧ rest.length < bytes.length ∧
      assign code pending.reverse dict = .ok after ∧ decode assign [] after rest = .ok result) := by
  cases bytes with
  | nil =>
    rw [decode] at decoded
    split at decoded
    next none => exact .inl ⟨rfl, none⟩
    next => cases decoded
  | cons lead bytes =>
    rw [decode] at decoded
    right
    split at decoded
    next => cases decoded
    next x rest found =>
      obtain ⟨used, rfl, finds⟩ := Lexeme.local_after lead _ _ _ found
      have form : Operand (lead :: used) x := Lexeme.spelled_of_finds_after finds
      refine .inl ⟨lead :: used, rest, x, rfl, ?_, form, decoded⟩
      simp only [List.length_cons, List.length_append]
      omega
    next code rest found =>
      obtain ⟨used, rfl, finds⟩ := Lexeme.local_after lead _ _ _ found
      obtain ⟨_, split⟩ : code.IsKey ∧ lead :: used = code.bytes := Lexeme.spelled_of_finds_after finds
      split at decoded
      next => cases decoded
      next after assigned =>
        refine .inr ⟨code, rest, after, ?_, ?_, assigned, decoded⟩
        · rw [← split, List.cons_append]
        · simp only [List.length_cons, List.length_append]
          omega

variable {κ : Type} {code : κ → KeyCode}

theorem decode_of_entries (valid : ∀ key, (code key).IsKey) {entries : List (κ × List Float)}
    (form : Entries code bytes entries) :
    decode assign [] dict bytes = entries.foldlM (fun dict entry => assign (code entry.1) entry.2 dict) dict := by
  induction form generalizing dict with
  | nil =>
    rw [decode]
    rfl
  | @cons used bytes operands entries key first _ ih =>
    rw [List.append_assoc, decode_of_operands first, decode_of_key (valid key), List.append_nil,
      List.reverse_reverse, List.foldlM_cons]
    exact bind_congr fun after => ih

/-- What is decoded is made of entries, the first of which goes on with the operands that are pending. -/
theorem exists_entries (known : ∀ keyCode operands dict after,
      assign keyCode operands dict = .ok after → ∃ key, code key = keyCode)
    (decoded : decode assign pending dict bytes = .ok result) :
    (bytes = [] ∧ pending = []) ∨
    ∃ used rest operands key entries, bytes = used ++ (code key).bytes ++ rest ∧ Operands used operands ∧
      Entries code rest entries := by
  induction measured : bytes.length using Nat.strongRecOn generalizing bytes pending dict with
  | _ size ih =>
    subst measured
    rcases decode_cases decoded with
      ended | ⟨used, rest, x, rfl, shorter, first, later⟩ | ⟨keyCode, rest, after, rfl, shorter, assigned, later⟩
    · exact .inl ended
    · rcases ih _ shorter later rfl with ⟨_, more⟩ | ⟨front, last, xs, key, entries, rfl, others, form⟩
      · cases more
      · refine .inr ⟨used ++ front, last, x :: xs, key, entries, ?_, .cons first others, form⟩
        simp only [List.append_assoc]
    · obtain ⟨key, rfl⟩ := known _ _ _ _ assigned
      rcases ih _ shorter later rfl with ⟨rfl, _⟩ | ⟨front, last, xs, next, entries, rfl, others, form⟩
      · exact .inr ⟨[], [], [], key, [], rfl, .nil, .nil⟩
      · exact .inr ⟨[], _, [], key, (next, xs) :: entries, rfl, .nil, .cons others form⟩

/-- Decoding gives what the entries of a DICT make of it, one after the other, and fails on what is not made of
entries. -/
theorem decode_eq_ok_iff (valid : ∀ key, (code key).IsKey)
    (known : ∀ keyCode operands dict after, assign keyCode operands dict = .ok after → ∃ key, code key = keyCode) :
    decode assign [] dict bytes = .ok result ↔
      ∃ entries, Entries code bytes entries ∧
        entries.foldlM (fun dict entry => assign (code entry.1) entry.2 dict) dict = .ok result := by
  constructor
  · intro decoded
    have form : ∃ entries, Entries code bytes entries := by
      rcases exists_entries known decoded with ⟨rfl, _⟩ | ⟨used, rest, xs, key, entries, rfl, first, others⟩
      · exact ⟨[], .nil⟩
      · exact ⟨_, .cons first others⟩
    obtain ⟨entries, form⟩ := form
    exact ⟨entries, form, (decode_of_entries valid form).symm.trans decoded⟩
  · rintro ⟨entries, form, folded⟩
    exact (decode_of_entries valid form).trans folded

end CompactFont.Dict
