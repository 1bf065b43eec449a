import Mathlib.Data.List.Nodup
import CompactFont.Font

/-! Glyphs by name: names are resolved only if they all differ, and glyphs whose names differ are found by them. -/

namespace CompactFont

theorem SidTable.get_eq_ok_iff {strings : SidTable} {sid : Nat} {name : String} :
    strings.get sid = .ok name ↔ strings.get? sid = some name := by
  unfold get
  cases strings.get? sid with
  | none => exact ⟨nofun, nofun⟩
  | some found => rw [Except.ok.injEq, Option.some.injEq]

namespace Font

/-! ### Names -/

theorem resolveNames_eq_ok_iff {strings : SidTable} {seen : Std.HashSet String} {sids : List Nat}
    {names : List String} :
    resolveNames strings seen sids = .ok names ↔
      sids.map strings.get? = names.map some ∧ names.Nodup ∧ ∀ name ∈ names, name ∉ seen := by
  induction sids generalizing seen names with
  | nil =>
    rw [resolveNames]
    constructor
    · intro same
      cases same
      exact ⟨rfl, List.nodup_nil, List.forall_mem_nil _⟩
    · rintro ⟨all, _, _⟩
      rw [List.map_eq_nil_iff.1 all.symm]
  | cons sid sids ih =>
    rw [resolveNames, bind_eq_ok_iff]
    constructor
    · rintro ⟨name, here, later⟩
      split at later
      next => cases later
      next fresh =>
        obtain ⟨rest, resolved, same⟩ := bind_eq_ok_iff.1 later
        cases same
        obtain ⟨all, distinct, unseen⟩ := ih.1 resolved
        refine ⟨?_, List.nodup_cons.2 ⟨fun again => ?_, distinct⟩, List.forall_mem_cons.2 ⟨?_, ?_⟩⟩
        · rw [List.map_cons, List.map_cons, SidTable.get_eq_ok_iff.1 here, all]
        · exact unseen name again (Std.HashSet.mem_insert.2 (.inl (beq_self_eq_true name)))
        · exact fun known => fresh (Std.HashSet.contains_iff_mem.2 known)
        · exact fun other member known => unseen other member (Std.HashSet.mem_insert.2 (.inr known))
    · rintro ⟨all, distinct, unseen⟩
      cases names with
      | nil => cases all
      | cons name rest =>
        obtain ⟨here, others⟩ := List.cons.inj all
        obtain ⟨single, distinct⟩ := List.nodup_cons.1 distinct
        obtain ⟨fresh, unseen⟩ := List.forall_mem_cons.1 unseen
        refine ⟨name, SidTable.get_eq_ok_iff.2 here, ?_⟩
        rw [if_neg fun known => fresh (Std.HashSet.contains_iff_mem.1 known)]
        refine bind_eq_ok_iff.2 ⟨rest, ih.2 ⟨others, distinct, fun other member known => ?_⟩, rfl⟩
        rcases Std.HashSet.mem_insert.1 known with same | earlier
        · exact single (beq_iff_eq.1 same ▸ member)
        · exact unseen other member earlier

/-- Glyphs get their names if every id has one and no two are the same. -/
theorem glyphNames_eq_ok_iff {strings : SidTable} {sids : List Nat} {names : List String} :
    glyphNames strings sids = .ok names ↔ sids.map strings.get? = names.map some ∧ names.Nodup := by
  rw [glyphNames, resolveNames_eq_ok_iff]
  constructor
  · rintro ⟨all, distinct, _⟩
    exact ⟨all, distinct⟩
  · rintro ⟨all, distinct⟩
    exact ⟨all, distinct, fun _ _ => Std.HashSet.not_mem_empty⟩

/-! ### Places -/

/-- Every name leads to its place. -/
theorem getElem?_placesOf_eq_some_iff {names : List String} (distinct : names.Nodup) {name : String} {place : Nat} :
    (placesOf names)[name]? = some place ↔ names[place]? = some name := by
  -- of two entries with one name the table would keep only the later place
  have apart : names.zipIdx.Pairwise fun first second => (first.1 == second.1) = false := by
    rw [← List.zipIdx_map_fst 0 names, List.Nodup, List.pairwise_map] at distinct
    exact distinct.imp beq_eq_false_iff_ne.2
  have known {place : Nat} (here : names[place]? = some name) : (placesOf names)[name]? = some place :=
    Std.HashMap.getElem?_ofList_of_mem (beq_self_eq_true name) apart (List.mk_mem_zipIdx_iff_getElem?.2 here)
  constructor
  · intro found
    by_cases member : name ∈ names
    · obtain ⟨other, here⟩ := List.mem_iff_getElem?.1 member
      cases (known here).symm.trans found
      exact here
    · have absent : (names.zipIdx.map Prod.fst).contains name = false := by
        rw [List.zipIdx_map_fst, ← Bool.not_eq_true, List.contains_iff_mem]
        exact member
      rw [placesOf, Std.HashMap.getElem?_ofList_of_contains_eq_false absent] at found
      cases found
  · exact known

/-- A glyph is found by its name and by no other. -/
theorem glyph?_eq_some_iff {font : Font} (places : font.places = placesOf (font.glyphs.map Glyph.name))
    (distinct : (font.glyphs.map Glyph.name).Nodup) {name : String} {glyph : Glyph} :
    font.glyph? name = some glyph ↔ glyph ∈ font.glyphs ∧ glyph.name = name := by
  have unfolded : font.glyph? name = some glyph ↔
      ∃ place, font.places[name]? = some place ∧ font.glyphs[place]? = some glyph := by
    rw [glyph?, glyphs]
    simp only [Option.bind_eq_bind, Option.bind_eq_some_iff, Array.getElem?_toList]
  rw [unfolded, places]
  constructor
  · rintro ⟨place, found, here⟩
    have named := (getElem?_placesOf_eq_some_iff distinct).1 found
    rw [List.getElem?_map, here] at named
    exact ⟨List.mem_of_getElem? here, Option.some.inj named⟩
  · rintro ⟨member, rfl⟩
    obtain ⟨place, here⟩ := List.mem_iff_getElem?.1 member
    refine ⟨place, (getElem?_placesOf_eq_some_iff distinct).2 ?_, here⟩
    rw [List.getElem?_map, here]
    rfl

end Font
end CompactFont
