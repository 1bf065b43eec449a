import CompactFont.Dict.Real
import CompactFont.Reader.Written

/-! The written form of a real number in a DICT: half-bytes up to the first terminator, and one more of any kind
if the terminator is the high half of its byte. -/

namespace CompactFont.Dict

/-- The half-bytes of bytes, the high one of each first. -/
def halves (bytes : List UInt8) : List Nat := bytes.flatMap fun b => [b.toNat / 16, b.toNat % 16]

/-- The characters of a half-byte that has any. -/
def halfText : Nat → List Char
  | 10 => ['.']
  | 11 => ['E']
  | 12 => ['E', '-']
  | 14 => ['-']
  | digit => [Char.ofNat ('0'.toNat + digit)]

/-- A half-byte that stands for characters, being neither reserved nor the terminator. -/
def Legible (half : Nat) : Prop := half ≠ 13 ∧ half ≠ 15

instance (half : Nat) : Decidable (Legible half) := inferInstanceAs (Decidable (_ ∧ _))

/-- The bytes hold the characters, half-byte by half-byte, and end with the byte of the terminator. -/
def SpellsReal (bytes : List UInt8) (characters : List Char) : Prop :=
  ∃ legible filler, halves bytes = legible ++ 15 :: filler ∧ filler.length ≤ 1 ∧
    (∀ half ∈ legible, Legible half) ∧ characters = legible.flatMap halfText

theorem Nibble.ofNat_of_legible : ∀ half < 16, Legible half → ofNat half = .text (halfText half) := by decide

theorem Nibble.reserved_or : ∀ half < 16, half = 13 ∨ half = 15 ∨ Legible half := by decide

theorem high_lt (b : UInt8) : b.toNat / 16 < 16 := Nat.div_lt_of_lt_mul b.toNat_lt

theorem low_lt (b : UInt8) : b.toNat % 16 < 16 := Nat.mod_lt _ (by decide)

theorem halves_eq_nil {bytes : List UInt8} (few : (halves bytes).length ≤ 1) : bytes = [] := by
  cases bytes with
  | nil => rfl
  | cons b rest =>
    rw [halves, List.flatMap_cons, List.length_append, List.length_cons, List.length_cons] at few
    omega

theorem spellsReal_nil {characters : List Char} : ¬ SpellsReal [] characters := by
  rintro ⟨legible, filler, split, _⟩
  cases legible <;> cases split

/-- A terminator in the high half ends a number whatever stands behind it. -/
theorem spellsReal_of_high {b : UInt8} (ends : b.toNat / 16 = 15) {bytes : List UInt8} {characters : List Char} :
    SpellsReal (b :: bytes) characters ↔ bytes = [] ∧ characters = [] := by
  constructor
  · rintro ⟨legible, filler, split, few, all, rfl⟩
    have here : b.toNat / 16 :: b.toNat % 16 :: halves bytes = legible ++ 15 :: filler := split
    cases legible with
    | nil =>
      obtain ⟨_, rfl⟩ := List.cons.inj here
      have none : (halves bytes).length ≤ 1 := Nat.le_of_succ_le few
      exact ⟨halves_eq_nil none, rfl⟩
    | cons first rest =>
      obtain ⟨rfl, _⟩ := List.cons.inj here
      exact absurd ends (all _ (List.mem_cons_self ..)).2
  · rintro ⟨rfl, rfl⟩
    refine ⟨[], [b.toNat % 16], ?_, Nat.le_refl 1, List.forall_mem_nil _, rfl⟩
    rw [halves, List.flatMap_cons, ends]
    rfl

/-- A legible high half is followed by the terminator or by another legible half. -/
theorem spellsReal_of_legible {b : UInt8} (legible : Legible (b.toNat / 16)) {bytes : List UInt8}
    {characters : List Char} :
    SpellsReal (b :: bytes) characters ↔
      (b.toNat % 16 = 15 ∧ bytes = [] ∧ characters = halfText (b.toNat / 16)) ∨
      (Legible (b.toNat % 16) ∧ ∃ rest, SpellsReal bytes rest ∧
        characters = halfText (b.toNat / 16) ++ (halfText (b.toNat % 16) ++ rest)) := by
  constructor
  · rintro ⟨written, filler, split, few, all, rfl⟩
    have here : b.toNat / 16 :: b.toNat % 16 :: halves bytes = written ++ 15 :: filler := split
    match written with
    | [] => exact absurd (List.cons.inj here).1 legible.2
    | [high] =>
      obtain ⟨rfl, later⟩ := List.cons.inj here
      obtain ⟨ends, rfl⟩ := List.cons.inj later
      exact .inl ⟨ends, halves_eq_nil few, List.flatMap_singleton ..⟩
    | high :: low :: written =>
      obtain ⟨rfl, later⟩ := List.cons.inj here
      obtain ⟨rfl, last⟩ := List.cons.inj later
      obtain ⟨_, others⟩ := List.forall_mem_cons.1 all
      obtain ⟨next, others⟩ := List.forall_mem_cons.1 others
      exact .inr ⟨next, _, ⟨written, filler, last, few, others, rfl⟩, rfl⟩
  · rintro (⟨ends, rfl, rfl⟩ | ⟨next, rest, ⟨written, filler, split, few, all, rfl⟩, rfl⟩)
    · refine ⟨[b.toNat / 16], [], ?_, Nat.zero_le 1, ?_, ?_⟩
      · rw [halves, List.flatMap_cons, ends]
        rfl
      · exact List.forall_mem_singleton.2 legible
      · exact (List.flatMap_singleton ..).symm
    · refine ⟨b.toNat / 16 :: b.toNat % 16 :: written, filler, ?_, few, ?_, rfl⟩
      · rw [halves, List.flatMap_cons, ← halves, split]
        rfl
      · exact List.forall_mem_cons.2 ⟨legible, List.forall_mem_cons.2 ⟨next, all⟩⟩

theorem not_spellsReal_of_reserved {b : UInt8} (reserved : b.toNat / 16 = 13) {bytes : List UInt8}
    {characters : List Char} : ¬ SpellsReal (b :: bytes) characters := by
  rintro ⟨legible, filler, split, _, all, _⟩
  have here : b.toNat / 16 :: b.toNat % 16 :: halves bytes = legible ++ 15 :: filler := split
  cases legible with
  | nil => exact absurd ((List.cons.inj here).1.symm.trans reserved) (by decide)
  | cons first rest => exact (all first (List.mem_cons_self ..)).1 ((List.cons.inj here).1.symm.trans reserved)

/-- The form of what a number begins with, given that it begins with that byte. -/
theorem exists_cons_iff {b : UInt8} {bytes rest : List UInt8} {form : List UInt8 → List Char → Prop}
    {goal : List Char → Prop} (nonempty : ∀ spelled, ¬ form [] spelled) :
    (∃ used spelled, b :: bytes = used ++ rest ∧ form used spelled ∧ goal spelled) ↔
      ∃ used spelled, bytes = used ++ rest ∧ form (b :: used) spelled ∧ goal spelled := by
  constructor
  · rintro ⟨used, spelled, split, here, there⟩
    cases used with
    | nil => exact absurd here (nonempty spelled)
    | cons first used =>
      obtain ⟨rfl, same⟩ := List.cons.inj split
      exact ⟨used, spelled, same, here, there⟩
  · rintro ⟨used, spelled, rfl, here, there⟩
    exact ⟨b :: used, spelled, rfl, here, there⟩

theorem spelling_eq_ok_iff {before characters : List Char} {bytes rest : List UInt8} :
    spelling before bytes = .ok characters rest ↔
      ∃ used spelled, bytes = used ++ rest ∧ SpellsReal used spelled ∧ characters = before.reverse ++ spelled := by
  induction bytes generalizing before with
  | nil =>
    constructor
    · intro found
      cases found
    · rintro ⟨used, spelled, split, form, _⟩
      obtain ⟨rfl, _⟩ := List.append_eq_nil_iff.1 split.symm
      exact absurd form spellsReal_nil
  | cons b bytes ih =>
    rw [exists_cons_iff fun _ => spellsReal_nil, spelling]
    rcases Nibble.reserved_or _ (high_lt b) with reserved | ends | legible
    · rw [reserved]
      constructor
      · intro found
        cases found
      · rintro ⟨used, spelled, _, form, _⟩
        exact absurd form (not_spellsReal_of_reserved reserved)
    · rw [ends]
      constructor
      · intro found
        cases found
        exact ⟨[], [], rfl, (spellsReal_of_high ends).2 ⟨rfl, rfl⟩, (List.append_nil _).symm⟩
      · rintro ⟨used, spelled, rfl, form, rfl⟩
        obtain ⟨rfl, rfl⟩ := (spellsReal_of_high ends).1 form
        rw [List.append_nil]
        rfl
    · rw [Nibble.ofNat_of_legible _ (high_lt b) legible]
      simp only [spellsReal_of_legible legible]
      rcases Nibble.reserved_or _ (low_lt b) with reserved | ends | follows
      · rw [reserved]
        constructor
        · intro found
          cases found
        · rintro ⟨used, spelled, _, ⟨other, _⟩ | ⟨other, _⟩, _⟩
          · cases other
          · exact absurd rfl other.1
      · rw [ends]
        constructor
        · intro found
          cases found
          refine ⟨[], _, rfl, .inl ⟨rfl, rfl, rfl⟩, ?_⟩
          rw [List.reverse_append, List.reverse_reverse]
        · rintro ⟨used, spelled, rfl, ⟨_, rfl, rfl⟩ | ⟨other, _⟩, rfl⟩
          · rw [← List.reverse_reverse (halfText (b.toNat / 16)), ← List.reverse_append, List.reverse_reverse]
            rfl
          · exact absurd rfl other.2
      · rw [Nibble.ofNat_of_legible _ (low_lt b) follows]
        have written : (((halfText (b.toNat % 16)).reverse ++ ((halfText (b.toNat / 16)).reverse ++ before)).reverse)
            = before.reverse ++ (halfText (b.toNat / 16) ++ halfText (b.toNat % 16)) := by
          simp only [List.reverse_append, List.reverse_reverse, List.append_assoc]
        refine ih.trans ?_
        rw [written]
        constructor
        · rintro ⟨used, spelled, split, form, rfl⟩
          refine ⟨used, _, split, .inr ⟨follows, spelled, form, rfl⟩, ?_⟩
          simp only [List.append_assoc]
        · rintro ⟨used, _, split, ⟨other, _⟩ | ⟨_, spelled, form, rfl⟩, rfl⟩
          · exact absurd other follows.2
          · refine ⟨used, spelled, split, form, ?_⟩
            simp only [List.append_assoc]

/-- The number of characters that have been found. -/
theorem ok_ofText?_iff {characters : List Char} {bytes rest : List UInt8} {x : Float} :
    (match Number.ofText? characters with
      | some x => pure x
      | none => throw (.dict (.malformedReal (String.ofList characters))) : Reader Float) bytes = .ok x rest ↔
      Number.ofText? characters = some x ∧ bytes = rest := by
  cases Number.ofText? characters with
  | none => exact ⟨nofun, nofun⟩
  | some y =>
    constructor
    · intro found
      cases found
      exact ⟨rfl, rfl⟩
    · rintro ⟨same, rfl⟩
      cases same
      rfl

/-- A real number is found in its characters, if they are those of a number. -/
theorem real_eq_ok_iff {bytes rest : List UInt8} {x : Float} :
    real bytes = .ok x rest ↔ ∃ used, bytes = used ++ rest ∧
      ∃ characters, SpellsReal used characters ∧ Number.ofText? characters = some x := by
  rw [real, Reader.ok_bind_iff]
  constructor
  · rintro ⟨characters, between, reads, number⟩
    obtain ⟨value, rfl⟩ := ok_ofText?_iff.1 number
    obtain ⟨used, spelled, rfl, form, rfl⟩ := spelling_eq_ok_iff.1 reads
    exact ⟨used, rfl, characters, form, value⟩
  · rintro ⟨used, rfl, characters, form, value⟩
    exact ⟨characters, rest, spelling_eq_ok_iff.2 ⟨used, characters, rfl, form, rfl⟩, ok_ofText?_iff.2 ⟨value, rfl⟩⟩

theorem local_real : Reader.Local real := Reader.local_of_law fun _ _ _ => real_eq_ok_iff

theorem finds_real_iff {used : List UInt8} {x : Float} :
    real.Finds used x ↔ ∃ characters, SpellsReal used characters ∧ Number.ofText? characters = some x :=
  Reader.finds_iff_of_law fun _ _ _ => real_eq_ok_iff

end CompactFont.Dict
