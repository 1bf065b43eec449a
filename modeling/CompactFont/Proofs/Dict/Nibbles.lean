import CompactFont.Proofs.Dict.Real

/-! Reading a real number by its half-bytes. The first that is reserved or the terminator decides what comes of it; if
there is neither, the data ends too early. Half-bytes up to a terminator, packed into bytes, are read in full and
nothing behind them. -/

namespace CompactFont.Dict

/-! ### Packed half-bytes -/

/-- Half-bytes in bytes, the high one first; the last byte is filled up if it has only one. -/
def packed (filler : Nat) : List Nat → List UInt8
  | [] => []
  | [high] => [UInt8.ofNat (16 * high + filler)]
  | high :: low :: rest => UInt8.ofNat (16 * high + low) :: packed filler rest

theorem length_packed (filler : Nat) (written : List Nat) : (packed filler written).length = (written.length + 1) / 2 := by
  induction written using packed.induct with
  | case1 => rfl
  | case2 high => rw [packed, List.length_singleton, List.length_singleton]
  | case3 high low rest ih =>
    rw [packed, List.length_cons, ih, List.length_cons, List.length_cons]
    omega

theorem halves_cons {high low : Nat} (first : high < 16) (second : low < 16) (bytes : List UInt8) :
    halves (UInt8.ofNat (16 * high + low) :: bytes) = high :: low :: halves bytes := by
  have value : (UInt8.ofNat (16 * high + low)).toNat = 16 * high + low := Nat.mod_eq_of_lt (by omega)
  have upper : (16 * high + low) / 16 = high := by omega
  have lower : (16 * high + low) % 16 = low := by omega
  rw [halves, List.flatMap_cons, value, upper, lower]
  rfl

/-- Nothing is added but the filler, and that to an odd number of half-bytes only. -/
theorem halves_packed {filler : Nat} (fills : filler < 16) {written : List Nat} (all : ∀ half ∈ written, half < 16) :
    halves (packed filler written) = written ++ if written.length % 2 = 0 then [] else [filler] := by
  induction written using packed.induct with
  | case1 => rfl
  | case2 high => exact halves_cons (all high (List.mem_singleton_self high)) fills []
  | case3 high low rest ih =>
    obtain ⟨first, others⟩ := List.forall_mem_cons.1 all
    obtain ⟨second, others⟩ := List.forall_mem_cons.1 others
    have parity : (high :: low :: rest).length % 2 = rest.length % 2 := Nat.add_mod_right rest.length 2
    rw [packed, halves_cons first second, ih others, parity]
    rfl

theorem spellsReal_packed {filler : Nat} (fills : filler < 16) {written : List Nat}
    (all : ∀ half ∈ written, half < 16 ∧ Legible half) :
    SpellsReal (packed filler (written ++ [15])) (written.flatMap halfText) := by
  have small : ∀ half ∈ written ++ [15], half < 16 := by
    rw [List.forall_mem_append, List.forall_mem_singleton]
    exact ⟨fun half member => (all half member).1, by decide⟩
  refine ⟨written, if (written ++ [15]).length % 2 = 0 then [] else [filler], ?_, ?_, fun half member => (all half member).2,
    rfl⟩
  · rw [halves_packed fills small, List.append_assoc]
    rfl
  · split
    · exact Nat.zero_le 1
    · exact Nat.le_refl 1

/-- The number that the characters before the terminator spell, or a refusal of them. -/
theorem real_packed {filler : Nat} (fills : filler < 16) {written : List Nat}
    (all : ∀ half ∈ written, half < 16 ∧ Legible half) (tail : List UInt8) :
    real (packed filler (written ++ [15]) ++ tail) =
      match Number.ofText? (written.flatMap halfText) with
      | some x => .ok x tail
      | none => .error (.dict (.malformedReal (String.ofList (written.flatMap halfText)))) tail := by
  have reads : spelling [] (packed filler (written ++ [15]) ++ tail) = .ok (written.flatMap halfText) tail :=
    spelling_eq_ok_iff.2 ⟨_, _, rfl, spellsReal_packed fills all, rfl⟩
  rw [real, Reader.bind_of_ok reads]
  cases Number.ofText? (written.flatMap halfText) <;> rfl

/-! ### The half-byte that decides -/

/-- The first half-byte that is not legible, if there is one. -/
def decisive? (bytes : List UInt8) : Option Nat := (halves bytes).find? fun half => !decide (Legible half)

theorem decisive?_cons (b : UInt8) (bytes : List UInt8) :
    decisive? (b :: bytes) =
      if Legible (b.toNat / 16) then if Legible (b.toNat % 16) then decisive? bytes else some (b.toNat % 16)
      else some (b.toNat / 16) := by
  have split : halves (b :: bytes) = b.toNat / 16 :: b.toNat % 16 :: halves bytes := rfl
  rw [decisive?, split]
  by_cases high : Legible (b.toNat / 16)
  · rw [List.find?_cons_of_neg (by simp [high]), if_pos high]
    by_cases low : Legible (b.toNat % 16)
    · rw [List.find?_cons_of_neg (by simp [low]), if_pos low]
      rfl
    · rw [List.find?_cons_of_pos (by simp [low]), if_neg low]
  · rw [List.find?_cons_of_pos (by simp [high]), if_neg high]

theorem spelling_of_decisive? (bytes : List UInt8) (before : List Char) :
    (decisive? bytes = some 13 ∧ ∃ rest, spelling before bytes = .error (.reservedNibble 13) rest) ∨
    (decisive? bytes = some 15 ∧ ∃ characters rest, spelling before bytes = .ok characters rest) ∨
    (decisive? bytes = none ∧ spelling before bytes = .error .endOfData []) := by
  induction bytes generalizing before with
  | nil => exact .inr (.inr ⟨rfl, rfl⟩)
  | cons b bytes ih =>
    rw [decisive?_cons, spelling]
    rcases Nibble.reserved_or _ (high_lt b) with reserved | ends | legible
    · rw [reserved]
      exact .inl ⟨rfl, bytes, rfl⟩
    · rw [ends]
      exact .inr (.inl ⟨rfl, _, bytes, rfl⟩)
    · rw [Nibble.ofNat_of_legible _ (high_lt b) legible, if_pos legible]
      rcases Nibble.reserved_or _ (low_lt b) with reserved | ends | follows
      · rw [reserved]
        exact .inl ⟨rfl, bytes, rfl⟩
      · rw [ends]
        exact .inr (.inl ⟨rfl, _, bytes, rfl⟩)
      · rw [Nibble.ofNat_of_legible _ (low_lt b) follows, if_pos follows]
        exact ih _

/-- What comes of a real number is decided with its characters, except that they may spell none. -/
theorem real_of_decisive? (bytes : List UInt8) :
    (decisive? bytes = some 13 ∧ ∃ rest, real bytes = .error (.reservedNibble 13) rest) ∨
    (decisive? bytes = some 15 ∧ ((∃ x rest, real bytes = .ok x rest) ∨
      ∃ cause rest, real bytes = .error (.dict cause) rest)) ∨
    (decisive? bytes = none ∧ real bytes = .error .endOfData []) := by
  rcases spelling_of_decisive? bytes [] with ⟨half, rest, fails⟩ | ⟨half, characters, rest, reads⟩ | ⟨half, fails⟩
  · exact .inl ⟨half, rest, Reader.bind_of_error fails⟩
  · refine .inr (.inl ⟨half, ?_⟩)
    rw [real, Reader.bind_of_ok reads]
    cases Number.ofText? characters with
    | some x => exact .inl ⟨x, rest, rfl⟩
    | none => exact .inr ⟨_, rest, rfl⟩
  · exact .inr (.inr ⟨half, Reader.bind_of_error fails⟩)

theorem legible_iff {half : Nat} : (!decide (Legible half)) = true ↔ half = 13 ∨ half = 15 := by
  rw [Bool.not_eq_true', decide_eq_false_iff_not, Legible, not_and_or, not_not, not_not]

theorem decisive?_eq_reserved_iff {bytes : List UInt8} :
    decisive? bytes = some 13 ↔ ∃ front back, halves bytes = front ++ 13 :: back ∧ 15 ∉ front := by
  constructor
  · intro found
    obtain ⟨_, front, back, split, legible⟩ := List.find?_eq_some_iff_append.1 found
    exact ⟨front, back, split, fun ends => absurd (legible 15 ends) (by decide)⟩
  · rintro ⟨front, back, split, unended⟩
    rw [decisive?, split, List.find?_append]
    cases found : front.find? fun half => !decide (Legible half) with
    | none => rfl
    | some half =>
      have illegible := List.find?_some found
      rcases legible_iff.1 illegible with rfl | rfl
      · rfl
      · exact absurd (List.mem_of_find?_eq_some found) unended

theorem decisive?_eq_none_iff {bytes : List UInt8} : decisive? bytes = none ↔ 13 ∉ halves bytes ∧ 15 ∉ halves bytes := by
  rw [decisive?, List.find?_eq_none]
  constructor
  · intro legible
    exact ⟨fun member => legible 13 member rfl, fun member => legible 15 member rfl⟩
  · rintro ⟨unreserved, unended⟩ half member illegible
    rcases legible_iff.1 illegible with rfl | rfl
    · exact unreserved member
    · exact unended member

/-- Half-bytes up to a terminator are read to the last byte that they are packed in, whatever fills that byte or stands
behind it: the result is the number that their characters spell, or a refusal of characters that spell none. Any other
bytes are refused for a reserved half-byte if one comes before every terminator, and for their end if there is neither. -/
theorem real_read_to_terminator :
    (∀ (written : List Nat) (filler : Nat) (tail : List UInt8), (∀ half ∈ written, half < 16 ∧ Legible half) →
      filler < 16 →
      (packed filler (written ++ [15])).length = (written.length + 2) / 2 ∧
      (∀ x, real (packed filler (written ++ [15]) ++ tail) = .ok x tail ↔
        Number.ofText? (written.flatMap halfText) = some x) ∧
      (real (packed filler (written ++ [15]) ++ tail) =
          .error (.dict (.malformedReal (String.ofList (written.flatMap halfText)))) tail ↔
        Number.ofText? (written.flatMap halfText) = none)) ∧
    ∀ bytes : List UInt8,
      (∀ half, (∃ rest, real bytes = .error (.reservedNibble half) rest) ↔
        half = 13 ∧ ∃ front back, halves bytes = front ++ 13 :: back ∧ 15 ∉ front) ∧
      ((∃ rest, real bytes = .error .endOfData rest) ↔ 13 ∉ halves bytes ∧ 15 ∉ halves bytes) := by
  refine ⟨fun written filler tail all fills => ⟨?_, ?_⟩, fun bytes => ?_⟩
  · rw [length_packed, List.length_append, List.length_singleton]
  · rw [real_packed fills all]
    cases Number.ofText? (written.flatMap halfText) with
    | some y =>
      refine ⟨fun x => ⟨fun reads => ?_, fun same => ?_⟩, ⟨nofun, nofun⟩⟩
      · cases reads
        rfl
      · cases same
        rfl
    | none => exact ⟨fun x => ⟨nofun, nofun⟩, ⟨fun _ => rfl, fun _ => rfl⟩⟩
  · rw [← decisive?_eq_reserved_iff, ← decisive?_eq_none_iff]
    rcases real_of_decisive? bytes with
      ⟨decides, rest, fails⟩ | ⟨decides, ⟨x, rest, reads⟩ | ⟨cause, rest, fails⟩⟩ | ⟨decides, fails⟩
    · simp [decides, fails, eq_comm]
    · simp [decides, reads]
    · simp [decides, fails]
    · simp [decides, fails]

/-- The text -2 in three half-bytes, the last of them before a reserved one that nobody reads; and 1.5 in four. -/
theorem real_read_to_terminator_filled :
    (∀ half ∈ [14, 2], half < 16 ∧ Legible half) ∧ packed 13 [14, 2, 15] = [0xE2, 0xFD] ∧
      real [0xE2, 0xFD, 7] = .ok (-2.0) [7] ∧
      (∀ half ∈ [1, 10, 5], half < 16 ∧ Legible half) ∧ packed 13 [1, 10, 5, 15] = [0x1A, 0x5F] ∧
      real [0x1A, 0x5F, 7] = .ok 1.5 [7] := by
  have short : ∀ half ∈ [14, 2], half < 16 ∧ Legible half := by decide
  have long : ∀ half ∈ [1, 10, 5], half < 16 ∧ Legible half := by decide
  refine ⟨short, by decide, ?_, long, by decide, ?_⟩
  · exact ((real_read_to_terminator.1 [14, 2] 13 [7] short (by decide)).2.1 (-2.0)).2 (by decide +kernel)
  · exact ((real_read_to_terminator.1 [1, 10, 5] 13 [7] long (by decide)).2.1 1.5).2 (by decide +kernel)

end CompactFont.Dict
