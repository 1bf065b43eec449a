import CompactFont.Proofs.Charset.Formats

/-! The ids that a charset gives to any number of glyphs are the first ones of a list that does not depend on that
number. A predefined charset fails when its list is too short; ranges fail when an id that a glyph would receive does not
fit in 16 bits; listed ids do not fail. -/

namespace CompactFont

namespace SidRange

/-- The ids of ranges, one range after the other. -/
def spread (ranges : List SidRange) : List Nat :=
  ranges.flatMap fun range => List.range' range.first (range.following + 1)

theorem length_spread (ranges : List SidRange) : (spread ranges).length = total ranges := by
  induction ranges with
  | nil => rfl
  | cons range ranges ih =>
    rw [spread, List.flatMap_cons, List.length_append, List.length_range', total]
    exact congrArg _ ih

end SidRange

namespace Charset

open SidRange (spread total)

/-- The ids of the glyphs, from glyph 0 on, as far as the charset goes. -/
def declared : Charset → List Nat
  | .isoAdobe => List.range (isoAdobeLastSid + 1)
  | .expert => expertCharset
  | .expertSubset => expertSubsetCharset
  | .listed sids => 0 :: sids
  | .narrow ranges => 0 :: spread ranges
  | .wide ranges => 0 :: spread ranges

/-- How many glyphs the charset has an id for. -/
def capacity : Charset → Nat
  | .isoAdobe => 229
  | .expert => 166
  | .expertSubset => 87
  | .listed sids => 1 + sids.length
  | .narrow ranges => 1 + total ranges
  | .wide ranges => 1 + total ranges

/-- The condition under which so many glyphs can be given their ids. -/
def Serves (glyphs : Nat) (charset : Charset) : Prop :=
  match charset with
  | .isoAdobe | .expert | .expertSubset => glyphs ≤ charset.capacity
  | .listed _ => True
  | .narrow _ | .wide _ => ∀ sid ∈ charset.declared.take glyphs, sid ≤ 65535

variable {glyphs : Nat} {charset : Charset} {ranges : List SidRange} {sids : List Nat}

theorem length_declared (charset : Charset) : charset.declared.length = charset.capacity := by
  cases charset with
  | isoAdobe => exact List.length_range
  | expert => exact expertCharset_length
  | expertSubset => exact expertSubsetCharset_length
  | listed sids => exact Nat.add_comm sids.length 1
  | narrow ranges => rw [declared, List.length_cons, SidRange.length_spread, capacity, Nat.add_comm]
  | wide ranges => rw [declared, List.length_cons, SidRange.length_spread, capacity, Nat.add_comm]

theorem head?_declared (charset : Charset) : charset.declared.head? = some 0 := by
  cases charset <;> rfl

theorem Serves.of_le {fewer : Nat} (serves : charset.Serves glyphs) (less : fewer ≤ glyphs) : charset.Serves fewer := by
  have among {sid : Nat} (member : sid ∈ charset.declared.take fewer) : sid ∈ charset.declared.take glyphs :=
    (List.take_prefix_take_left less).mem member
  cases charset with
  | isoAdobe | expert | expertSubset => exact Nat.le_trans less serves
  | listed => trivial
  | narrow | wide => exact fun sid member => serves sid (among member)

theorem firstOf_eq_ok_iff {all : List Nat} {fault : CharsetFault} :
    firstOf glyphs all fault = .ok sids ↔ glyphs ≤ all.length ∧ sids = all.take glyphs := by
  unfold firstOf
  split
  next enough => simp [enough, eq_comm]
  next short => simp [short]

/-- The ids of a range that glyphs receive fit if the last of them does. -/
theorem forall_mem_range'_le_iff {first taken limit : Nat} (some : taken ≠ 0) :
    (∀ sid ∈ List.range' first taken, sid ≤ limit) ↔ first + taken ≤ limit + 1 := by
  constructor
  · intro fits
    have greatest := fits (first + taken - 1) (List.mem_range'_1.2 (by omega))
    omega
  · intro fits sid member
    have bounds := List.mem_range'_1.1 member
    omega

theorem assign_eq_ok_iff {slots : Nat} :
    assign slots ranges = .ok sids ↔
      (∀ sid ∈ (spread ranges).take slots, sid ≤ 65535) ∧ sids = (spread ranges).take slots := by
  induction ranges generalizing slots sids with
  | nil => cases slots <;> simp [assign, spread, eq_comm]
  | cons range ranges ih =>
    by_cases left : slots = 0
    · subst left
      simp [assign, eq_comm]
    obtain ⟨first, following⟩ := range
    -- what the first range gives, and what the others give to the slots that it leaves
    have parted : (spread (⟨first, following⟩ :: ranges)).take slots =
        List.range' first (min slots (following + 1)) ++ (spread ranges).take (slots - min slots (following + 1)) := by
      have front : (List.range' first (following + 1)).take slots = List.range' first (min slots (following + 1)) := by
        rcases Nat.le_total slots (following + 1) with inside | beyond
        · rw [Nat.min_eq_left inside, List.take_range'_of_length_ge inside]
        · rw [Nat.min_eq_right beyond, List.take_range'_of_length_le beyond]
      have behind : slots - (following + 1) = slots - min slots (following + 1) := by omega
      rw [spread, List.flatMap_cons, List.take_append, front, List.length_range', behind]
      rfl
    have inhabited : min slots (following + 1) ≠ 0 := by omega
    rw [assign_cons_eq_ok_iff left, parted, List.forall_mem_append, forall_mem_range'_le_iff inhabited]
    simp only [ih]
    constructor
    · rintro ⟨here, others, ⟨there, rfl⟩, rfl⟩
      exact ⟨⟨here, there⟩, rfl⟩
    · rintro ⟨⟨here, there⟩, rfl⟩
      exact ⟨here, _, ⟨there, rfl⟩, rfl⟩

theorem ranged_eq_ok_iff_spread :
    ranged glyphs ranges = .ok sids ↔
      (∀ sid ∈ (0 :: spread ranges).take glyphs, sid ≤ 65535) ∧ sids = (0 :: spread ranges).take glyphs := by
  cases glyphs with
  | zero => simp [ranged, assign, Except.map, eq_comm]
  | succ others =>
    rw [List.take_succ_cons, List.forall_mem_cons, and_iff_right (Nat.zero_le 65535), ranged, Nat.add_sub_cancel]
    constructor
    · intro found
      cases assigned : assign others ranges with
      | error fault =>
        rw [assigned] at found
        cases found
      | ok given =>
        rw [assigned] at found
        cases found
        obtain ⟨fits, rfl⟩ := assign_eq_ok_iff.1 assigned
        refine ⟨fits, ?_⟩
        dsimp only
        rw [List.take_succ_cons, List.take_take, Nat.min_self]
    · rintro ⟨fits, rfl⟩
      rw [assign_eq_ok_iff.2 ⟨fits, rfl⟩, Except.map, List.take_succ_cons, List.take_take, Nat.min_self]

/-- The ids of so many glyphs, and when they are given. -/
theorem sids_eq_ok_iff :
    charset.sids glyphs = .ok sids ↔ charset.Serves glyphs ∧ sids = charset.declared.take glyphs := by
  cases charset with
  | isoAdobe | expert | expertSubset =>
    refine firstOf_eq_ok_iff.trans (and_congr_left fun _ => ?_)
    rw [Serves, ← length_declared, declared]
  | listed ids => simp [Charset.sids, Serves, declared, eq_comm]
  | narrow ranges | wide ranges => exact ranged_eq_ok_iff_spread

section Failing

variable {kind : Fault → Prop} (blamed : ∀ cause, kind (.charset cause))
include blamed

theorem failsWith_firstOf (glyphs : Nat) (sids : List Nat) (fault : CharsetFault) :
    FailsWith kind (firstOf glyphs sids fault) := by
  unfold firstOf
  split
  · exact failsWith_ok _
  · exact failsWith_error (blamed fault)

theorem failsWith_assign (slots : Nat) (ranges : List SidRange) : FailsWith kind (assign slots ranges) := by
  fun_induction assign slots ranges with
  | case1 => exact failsWith_ok _
  | case2 => exact failsWith_ok _
  | case3 => exact failsWith_error (blamed _)
  | case4 _ _ _ _ _ _ ih => exact failsWith_map _ ih

theorem failsWith_sids (glyphs : Nat) (charset : Charset) : FailsWith kind (charset.sids glyphs) := by
  cases charset with
  | isoAdobe | expert | expertSubset => exact failsWith_firstOf blamed _ _ _
  | listed => exact failsWith_ok _
  | narrow | wide => exact failsWith_map _ (failsWith_assign blamed _ _)

end Failing

theorem exists_error_iff : (∃ fault, charset.sids glyphs = .error fault) ↔ ¬ charset.Serves glyphs := by
  constructor
  · rintro ⟨fault, failed⟩ serves
    rw [sids_eq_ok_iff.2 ⟨serves, rfl⟩] at failed
    cases failed
  · intro beyond
    cases result : charset.sids glyphs with
    | error fault => exact ⟨fault, rfl⟩
    | ok sids => exact absurd (sids_eq_ok_iff.1 result).1 beyond

/-- Whatever the charset and the number of glyphs, the ids that are given are the first ones of those that the charset
declares, so that they begin with 0, fewer glyphs receive the first of them, and there is one for every glyph unless too
few are declared; a predefined charset and one that is read for the glyphs declare enough. A predefined charset fails
beyond its size, listed ids never, and ranges when an id for one of the glyphs is beyond 65535; all these are faults of
the charset. -/
theorem sids_take_declared (charset : Charset) (glyphs : Nat) :
    (∀ sids, charset.sids glyphs = .ok sids →
      sids = charset.declared.take glyphs ∧
      sids.length = min glyphs charset.capacity ∧
      ((∃ number, predefined? number = some charset) ∨ (∃ bytes rest, read glyphs bytes = .ok charset rest) →
        sids.length = glyphs) ∧
      (0 < glyphs → sids.head? = some 0) ∧
      ∀ fewer ≤ glyphs, charset.sids fewer = .ok (sids.take fewer)) ∧
    (∀ number, predefined? number = some charset →
      ((∃ fault, charset.sids glyphs = .error fault) ↔ charset.capacity < glyphs)) ∧
    (∀ ids, charset = .listed ids → ∃ sids, charset.sids glyphs = .ok sids) ∧
    (∀ ranges, charset = .narrow ranges ∨ charset = .wide ranges →
      ((∃ fault, charset.sids glyphs = .error fault) ↔ ∃ sid ∈ charset.declared.take glyphs, 65535 < sid)) ∧
    ∀ fault, charset.sids glyphs = .error fault → ∃ cause, fault = .charset cause := by
  refine ⟨?given, ?predefined, ?listed, ?ranges, ?fault⟩
  case given =>
    intro sids found
    obtain ⟨serves, same⟩ := sids_eq_ok_iff.1 found
    refine ⟨same, ?length, ?enough, ?head, ?fewer⟩
    case length => rw [same, List.length_take, length_declared]
    case enough =>
      rintro (named | ⟨bytes, rest, reads⟩)
      · exact length_sids (.inl named) found
      · obtain ⟨used, _, finds⟩ := local_read glyphs bytes charset rest reads
        exact length_sids (.inr (finds_read_iff.1 finds).1) found
    case head =>
      intro inhabited
      rw [same, List.head?_take, if_neg (Nat.ne_of_gt inhabited), head?_declared]
    case fewer =>
      intro fewer less
      refine sids_eq_ok_iff.2 ⟨serves.of_le less, ?_⟩
      rw [same, List.take_take, Nat.min_eq_left less]
  case predefined =>
    intro number named
    rw [exists_error_iff]
    match number, named with
    | 0, rfl | 1, rfl | 2, rfl => exact Nat.not_le
  case listed =>
    rintro ids rfl
    exact ⟨_, rfl⟩
  case ranges =>
    have beyond : (¬ ∀ sid ∈ charset.declared.take glyphs, sid ≤ 65535) ↔
        ∃ sid ∈ charset.declared.take glyphs, 65535 < sid := by
      simp only [Classical.not_forall, Nat.not_le, exists_prop]
    rintro ranges (rfl | rfl) <;> exact exists_error_iff.trans beyond
  case fault => exact failsWith_sids (fun cause => ⟨cause, rfl⟩) glyphs charset

/-- Ranges of which the last is read as going on beyond the greatest id, for the glyphs that they were read for and for
one more; a predefined charset for one glyph too many. -/
theorem sids_take_declared_overshooting :
    let charset : Charset := .narrow [⟨34, 1⟩, ⟨65534, 9⟩]
    let sids := [0, 34, 35, 65534, 65535]
    (charset.sids 5 = .ok sids ∧ read 5 [1, 0, 34, 1, 255, 254, 9, 7] = .ok charset [7] ∧
      predefined? 0 = some .isoAdobe) ∧
      sids.length = 5 ∧ charset.sids 3 = .ok (sids.take 3) ∧ (∃ fault, charset.sids 6 = .error fault) ∧
      ∃ fault, Charset.isoAdobe.sids 230 = .error fault := by
  intro charset sids
  have found : charset.sids 5 = .ok sids := by rfl
  have reads : read 5 [1, 0, 34, 1, 255, 254, 9, 7] = .ok charset [7] := by cbv
  have given := (sids_take_declared charset 5).1 sids found
  have beyond : ∃ sid ∈ charset.declared.take 6, 65535 < sid := ⟨65536, by decide, by decide⟩
  refine ⟨⟨found, reads, rfl⟩, given.2.2.1 (.inr ⟨_, _, reads⟩), given.2.2.2.2 3 (by decide), ?_, ?_⟩
  · exact ((sids_take_declared charset 6).2.2.2.1 _ (.inl rfl)).2 beyond
  · exact ((sids_take_declared .isoAdobe 230).2.1 0 rfl).2 (by decide)

end Charset
end CompactFont
