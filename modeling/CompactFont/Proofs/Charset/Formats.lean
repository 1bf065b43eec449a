import CompactFont.Proofs.Charset

/-! The formats in which a charset can be stored agree. Ids one by one and ranges of ids, in whatever way they are cut
into ranges, are read as far as they go and give every glyph the same id; and nothing else gives the glyphs these ids. -/

namespace CompactFont

namespace SidRange

/-- Ranges that cut ids into runs of consecutive ids, of which none counts `limit` or more after its first. Only the
last may go on beyond the ids, to whatever number. -/
inductive Cuts (limit : Nat) : List SidRange → List Nat → Prop where
  | none : Cuts limit [] []
  | last {first following size : Nat} (inhabited : 1 ≤ size) (enough : size ≤ following + 1) (short : following < limit) :
      Cuts limit [⟨first, following⟩] (List.range' first size)
  | more {first following : Nat} {ranges : List SidRange} {sids : List Nat} (short : following < limit)
      (others : Cuts limit ranges sids) :
      Cuts limit (⟨first, following⟩ :: ranges) (List.range' first (following + 1) ++ sids)

variable {limit : Nat} {ranges : List SidRange} {sids : List Nat}

theorem Cuts.short (cuts : Cuts limit ranges sids) : ∀ range ∈ ranges, range.following < limit := by
  induction cuts with
  | none => exact List.forall_mem_nil _
  | last _ _ short => exact List.forall_mem_singleton.2 short
  | more short _ ih => exact List.forall_mem_cons.2 ⟨short, ih⟩

/-- The first id of every range is one of the ids. -/
theorem Cuts.first_mem (cuts : Cuts limit ranges sids) : ∀ range ∈ ranges, range.first ∈ sids := by
  induction cuts with
  | none => exact List.forall_mem_nil _
  | last inhabited =>
    refine List.forall_mem_singleton.2 (List.mem_range'_1.2 ?_)
    dsimp only
    omega
  | more _ _ ih =>
    refine List.forall_mem_cons.2 ⟨List.mem_append_left _ (List.mem_range'_1.2 ?_), fun range member => ?_⟩
    · dsimp only
      omega
    · exact List.mem_append_right _ (ih range member)

theorem Cuts.covers (cuts : Cuts limit ranges sids) : Covers sids.length ranges := by
  induction cuts with
  | none => exact covers_zero_iff.2 rfl
  | @last first following size inhabited enough =>
    obtain ⟨slots, rfl⟩ : ∃ slots, size = slots + 1 := ⟨size - 1, by omega⟩
    have all : slots - following = 0 := by omega
    rw [List.length_range', covers_succ_iff]
    exact ⟨_, [], rfl, all ▸ covers_zero_iff.2 rfl⟩
  | @more first following ranges sids _ _ ih =>
    have size : (List.range' first (following + 1) ++ sids).length = following + sids.length + 1 := by
      rw [List.length_append, List.length_range']
      omega
    rw [size, covers_succ_iff]
    exact ⟨_, ranges, rfl, by rwa [Nat.add_sub_cancel_left]⟩

end SidRange

namespace Charset

open SidRange (Covers Cuts Fits)

variable {limit : Nat} {ranges : List SidRange} {sids : List Nat}

/-- A range gives its ids to as many glyphs as are left, and only these ids have to fit. -/
theorem assign_cons_eq_ok_iff {slots first following : Nat} (left : slots ≠ 0) :
    assign slots (⟨first, following⟩ :: ranges) = .ok sids ↔
      first + min slots (following + 1) ≤ 65536 ∧
        ∃ others, assign (slots - min slots (following + 1)) ranges = .ok others ∧
          sids = List.range' first (min slots (following + 1)) ++ others := by
  rw [assign]
  · dsimp only
    split
    next beyond =>
      constructor
      · intro failed
        cases failed
      · intro within
        exact absurd within.1 (Nat.not_le.2 beyond)
    next within =>
      rw [and_iff_right (Nat.not_lt.1 within)]
      cases assign (slots - min slots (following + 1)) ranges with
      | error fault =>
        constructor
        · intro failed
          cases failed
        · rintro ⟨_, absent, _⟩
          cases absent
      | ok others =>
        constructor
        · intro same
          cases same
          exact ⟨others, rfl, rfl⟩
        · rintro ⟨_, same, rfl⟩
          cases same
          rfl
  · exact left

theorem assign_of_cuts (cuts : Cuts limit ranges sids) (fits : ∀ sid ∈ sids, sid < 65536) :
    assign sids.length ranges = .ok sids := by
  induction cuts with
  | none => rfl
  | @last first following size inhabited enough =>
    have all : min size (following + 1) = size := Nat.min_eq_left enough
    have greatest := fits (first + size - 1) (List.mem_range'_1.2 (by omega))
    rw [List.length_range', assign_cons_eq_ok_iff (by omega), all, Nat.sub_self]
    exact ⟨by omega, [], rfl, (List.append_nil _).symm⟩
  | @more first following ranges sids _ _ ih =>
    have size : (List.range' first (following + 1) ++ sids).length = following + 1 + sids.length := by
      rw [List.length_append, List.length_range']
    have all : min (following + 1 + sids.length) (following + 1) = following + 1 := Nat.min_eq_right (by omega)
    have greatest := fits (first + following) (List.mem_append_left _ (List.mem_range'_1.2 (by omega)))
    rw [size, assign_cons_eq_ok_iff (by omega), all, Nat.add_sub_cancel_left]
    exact ⟨by omega, sids, ih fun sid member => fits sid (List.mem_append_right _ member), rfl⟩

/-- Ranges that cover their ids cut them. -/
theorem cuts_of_assign (covers : Covers sids.length ranges) (short : ∀ range ∈ ranges, range.following < limit)
    (assigned : assign sids.length ranges = .ok sids) : Cuts limit ranges sids := by
  induction ranges generalizing sids with
  | nil =>
    have none : sids.length = 0 := Nat.le_zero.1 covers.1
    rw [List.length_eq_zero_iff.1 none]
    exact .none
  | cons range ranges ih =>
    obtain ⟨first, following⟩ := range
    obtain ⟨here, others⟩ := List.forall_mem_cons.1 short
    cases size : sids.length with
    | zero =>
      rw [size, SidRange.covers_zero_iff] at covers
      cases covers
    | succ slots =>
      rw [size, SidRange.covers_succ_iff] at covers
      obtain ⟨_, _, same, covers⟩ := covers
      cases same
      dsimp only at covers
      rw [size, assign_cons_eq_ok_iff (Nat.succ_ne_zero slots)] at assigned
      obtain ⟨_, rest, later, rfl⟩ := assigned
      rw [List.length_append, List.length_range'] at size
      by_cases last : slots ≤ following
      · have all : min (slots + 1) (following + 1) = slots + 1 := Nat.min_eq_left (Nat.succ_le_succ last)
        have none : rest.length = 0 := by omega
        have left : slots - following = 0 := Nat.sub_eq_zero_of_le last
        rw [left, SidRange.covers_zero_iff] at covers
        rw [covers, List.length_eq_zero_iff.1 none, all, List.append_nil]
        exact .last (Nat.succ_pos slots) (Nat.succ_le_succ last) here
      · have all : min (slots + 1) (following + 1) = following + 1 := Nat.min_eq_right (by omega)
        have counted : rest.length = slots - following := by omega
        rw [all, Nat.succ_sub_succ, ← counted] at later
        rw [← counted] at covers
        rw [all]
        exact .more here (ih covers others later)

/-- The charsets in which the glyphs after the first have the given ids, each in its own format. -/
inductive Gives (sids : List Nat) : Charset → Prop where
  | listed : Gives sids (.listed sids)
  | narrow {ranges : List SidRange} (cuts : Cuts 256 ranges sids) : Gives sids (.narrow ranges)
  | wide {ranges : List SidRange} (cuts : Cuts 65536 ranges sids) : Gives sids (.wide ranges)

theorem ranged_eq_ok_iff {glyphs : Nat} (inhabited : 1 ≤ glyphs) (counted : sids.length = glyphs - 1)
    (covers : Covers sids.length ranges) :
    ranged glyphs ranges = .ok (0 :: sids) ↔ assign sids.length ranges = .ok sids := by
  rw [ranged, counted]
  cases assigned : assign (glyphs - 1) ranges with
  | error fault => exact ⟨nofun, nofun⟩
  | ok others =>
    have enough := covers.1
    have size := length_assign assigned
    have whole : (0 :: others).take glyphs = 0 :: others :=
      List.take_of_length_le (show others.length + 1 ≤ glyphs by omega)
    rw [Except.map, whole, Except.ok.injEq, Except.ok.injEq, List.cons.injEq, and_iff_right rfl]

/-- What is stored for some number of glyphs and gives them the ids is one of the charsets of these ids. -/
theorem gives_iff {glyphs : Nat} (inhabited : 1 ≤ glyphs) (counted : sids.length = glyphs - 1)
    (fits : ∀ sid ∈ sids, sid < 65536) {charset : Charset} :
    charset.Gives sids ↔ charset.Stored glyphs ∧ charset.sids glyphs = .ok (0 :: sids) := by
  have written {limit width : Nat} {ranges : List SidRange} (same : Nat.pow 256 width = limit)
      (cuts : Cuts limit ranges sids) : ∀ range ∈ ranges, Fits width range := by
    intro range member
    exact ⟨fits _ (cuts.first_mem range member), same ▸ cuts.short range member⟩
  constructor
  · intro gives
    cases gives with
    | listed =>
      have whole : (0 :: sids).take glyphs = 0 :: sids :=
        List.take_of_length_le (show sids.length + 1 ≤ glyphs by omega)
      exact ⟨.listed counted fits, congrArg Except.ok whole⟩
    | narrow cuts =>
      refine ⟨.narrow (counted ▸ cuts.covers) (written rfl cuts), ?_⟩
      exact (ranged_eq_ok_iff inhabited counted cuts.covers).2 (assign_of_cuts cuts fits)
    | wide cuts =>
      refine ⟨.wide (counted ▸ cuts.covers) (written rfl cuts), ?_⟩
      exact (ranged_eq_ok_iff inhabited counted cuts.covers).2 (assign_of_cuts cuts fits)
  · rintro ⟨stored, found⟩
    cases stored with
    | @listed others size =>
      have whole : (0 :: others).take glyphs = 0 :: others :=
        List.take_of_length_le (show others.length + 1 ≤ glyphs by omega)
      rw [Charset.sids, whole, Except.ok.injEq, List.cons.injEq, and_iff_right rfl] at found
      rw [found]
      exact .listed
    | narrow covers fits =>
      rw [← counted] at covers
      have assigned := (ranged_eq_ok_iff inhabited counted covers).1 found
      exact .narrow (cuts_of_assign covers (fun range member => (fits range member).2) assigned)
    | wide covers fits =>
      rw [← counted] at covers
      have assigned := (ranged_eq_ok_iff inhabited counted covers).1 found
      exact .wide (cuts_of_assign covers (fun range member => (fits range member).2) assigned)

/-- For ids of all glyphs but the first, the charset that lists them and those that cut them into ranges, of up to 256
ids or of up to 65536, are each read from their written form, in front of any bytes and no further than it goes, and
give the glyphs these ids; no other charset does so. -/
theorem formats_agree {glyphs : Nat} (inhabited : 1 ≤ glyphs) {sids : List Nat} (counted : sids.length = glyphs - 1)
    (fits : ∀ sid ∈ sids, sid < 65536) (charset : Charset) :
    charset.Gives sids ↔
      (∀ (source : Source) (rest : List UInt8), source.remaining = charset.encode ++ rest →
        source.read (read glyphs) = (.ok charset, source.seek (source.position + charset.encode.length))) ∧
      charset.sids glyphs = .ok (0 :: sids) := by
  rw [gives_iff inhabited counted fits]
  refine and_congr_left fun _ => ?_
  constructor
  · intro stored source rest split
    exact (Source.read_eq_ok_iff (local_read glyphs)).2
      ⟨charset.encode, rest, split, finds_read_iff.2 ⟨stored, rfl⟩, rfl⟩
  · intro reads
    have alone := reads { bytes := charset.encode } [] (List.append_nil _).symm
    obtain ⟨used, rest, _, finds, _⟩ := (Source.read_eq_ok_iff (local_read glyphs)).1 alone
    exact (finds_read_iff.1 finds).1

/-- Two runs, of which the last is read as going on beyond the greatest id. -/
theorem formats_agree_overshooting :
    let sids := [34, 35, 65534, 65535]
    let charset : Charset := .narrow [⟨34, 1⟩, ⟨65534, 9⟩]
    let source : Source := { bytes := [3, 1, 0, 34, 1, 255, 254, 9, 7], position := 1 }
    (sids.length = 5 - 1 ∧ (∀ sid ∈ sids, sid < 65536) ∧ charset.Gives sids ∧
      source.remaining = charset.encode ++ [7]) ∧
      source.read (read 5) = (.ok charset, source.seek 8) ∧ charset.sids 5 = .ok (0 :: sids) := by
  intro sids charset source
  have counted : sids.length = 5 - 1 := rfl
  have fits : ∀ sid ∈ sids, sid < 65536 := by decide
  have last : Cuts 256 [⟨65534, 9⟩] (List.range' 65534 2) := .last (by decide) (by decide) (by decide)
  have gives : charset.Gives sids := .narrow (.more (by decide) last)
  have written : source.remaining = charset.encode ++ [7] := by decide
  obtain ⟨reads, found⟩ := (formats_agree (by decide) counted fits charset).1 gives
  exact ⟨⟨counted, fits, gives, written⟩, reads source [7] written, found⟩

end Charset
end CompactFont
