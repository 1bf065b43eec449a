import Mathlib.Data.List.Forall2
import CompactFont.Proofs.Font.Lookup
import CompactFont.Proofs.Index

/-! The names of glyphs, and what is told when there are none. An id stands for a standard string or for one of the
font's own; glyphs get their names if every id stands for a string and no two of these read the same, whichever
table they come from. The first id that breaks this rule is the one that is told of. -/

namespace CompactFont

/-- Latin-1 text has a character for every byte, and that of the same code. -/
theorem Text.latin_eq_iff {bytes : List UInt8} {text : String} :
    latin bytes = text ↔ text.toList.map Char.toNat = bytes.map UInt8.toNat := by
  have code (byte : UInt8) : (latinCharacter byte).toNat = byte.toNat := by
    have valid : byte.toNat.isValidChar := .inl (Nat.lt_trans byte.toNat_lt (by decide))
    rw [latinCharacter, Char.ofNat, dif_pos valid]
    rfl
  have codes : (latin bytes).toList.map Char.toNat = bytes.map UInt8.toNat := by
    rw [latin, String.toList_ofList, List.map_map]
    exact List.map_congr_left fun byte _ => code byte
  have distinct : Function.Injective (List.map Char.toNat) :=
    List.map_injective_iff.2 fun _ _ same => Char.toNat_inj.1 same
  rw [← codes, ← String.toList_inj, eq_comm]
  exact distinct.eq_iff.symm

namespace SidTable

variable {custom : Index} {sid : Nat} {name : String}

/-- The strings that an id can stand for: those that every font has, and the font's own behind them. -/
inductive Spells (custom : Index) (sid : Nat) (name : String) : Prop where
  | standard (below : sid < 391) (known : standardStrings[sid]? = some name)
  | own {bytes : List UInt8} (beyond : 391 ≤ sid) (known : custom.items[sid - 391]? = some bytes)
      (codes : name.toList.map Char.toNat = bytes.map UInt8.toNat)

theorem get?_ofIndex_eq_some_iff : (ofIndex custom).get? sid = some name ↔ Spells custom sid name := by
  unfold get? ofIndex
  rw [standardStrings_size]
  by_cases below : sid < 391
  · rw [if_pos below]
    constructor
    · exact .standard below
    · rintro (⟨_, known⟩ | ⟨beyond, _, _⟩)
      · exact known
      · exact absurd below (Nat.not_lt.2 beyond)
  · rw [if_neg below, List.getElem?_toArray, List.getElem?_map, Option.map_eq_some_iff]
    constructor
    · intro ⟨bytes, known, same⟩
      exact .own (Nat.not_lt.1 below) known (Text.latin_eq_iff.1 same)
    · rintro (⟨least, _⟩ | ⟨_, known, codes⟩)
      · exact absurd least below
      · exact ⟨_, known, Text.latin_eq_iff.2 codes⟩

theorem get_of_spells (spells : Spells custom sid name) : (ofIndex custom).get sid = .ok name :=
  get_eq_ok_iff.2 (get?_ofIndex_eq_some_iff.2 spells)

theorem get_of_nameless (nameless : ¬ ∃ name, Spells custom sid name) :
    (ofIndex custom).get sid = .error (.unknownStringId sid) := by
  have absent : (ofIndex custom).get? sid = none :=
    Option.eq_none_iff_forall_ne_some.2 fun name found => nameless ⟨name, get?_ofIndex_eq_some_iff.1 found⟩
  unfold get
  rw [absent]

theorem Spells.unique {other : String} (spells : Spells custom sid name) (also : Spells custom sid other) :
    name = other :=
  Option.some.inj ((get?_ofIndex_eq_some_iff.2 spells).symm.trans (get?_ofIndex_eq_some_iff.2 also))

/-- The ids that stand for nothing are those behind both tables. -/
theorem exists_spells_iff : (∃ name, Spells custom sid name) ↔ sid < 391 + custom.count := by
  constructor
  · rintro ⟨name, ⟨below, _⟩ | ⟨beyond, known, _⟩⟩
    · omega
    · have within := (List.getElem?_eq_some_iff.1 known).1
      rw [Index.length_items] at within
      omega
  · intro known
    by_cases below : sid < 391
    · exact ⟨_, .standard below (Array.getElem?_eq_getElem (by rwa [standardStrings_size]))⟩
    · have within : sid - 391 < custom.items.length := by
        rw [Index.length_items]
        omega
      have there := List.getElem?_eq_getElem within
      exact ⟨Text.latin custom.items[sid - 391], .own (Nat.not_lt.1 below) there (Text.latin_eq_iff.1 rfl)⟩

end SidTable

namespace Font

open SidTable (Spells)

variable {custom : Index} {seen : Std.HashSet String} {before sids : List Nat} {names : List String}
  {sid : Nat} {name : String} {fault : Fault}

/-- What is wrong with an id that comes after others: it stands for nothing, or for the name of one of them. -/
inductive Flaw (custom : Index) (before : List Nat) (sid : Nat) : Fault → Prop where
  | unknown (nameless : ¬ ∃ name, Spells custom sid name) : Flaw custom before sid (.unknownStringId sid)
  | repeated {name : String} {other : Nat} (named : Spells custom sid name) (earlier : other ∈ before)
      (same : Spells custom other name) : Flaw custom before sid (.duplicateName name)

theorem Flaw.unique {other : Fault} (flaw : Flaw custom before sid fault) (also : Flaw custom before sid other) :
    fault = other := by
  cases flaw with
  | unknown nameless =>
    cases also with
    | unknown => rfl
    | repeated named => exact absurd ⟨_, named⟩ nameless
  | repeated named =>
    cases also with
    | unknown nameless => exact absurd ⟨_, named⟩ nameless
    | repeated again => rw [named.unique again]

/-- The first id with a flaw, where `before` comes before all of them. -/
def FirstFlaw (custom : Index) (before sids : List Nat) (fault : Fault) : Prop :=
  ∃ place sid, sids[place]? = some sid ∧ Flaw custom (before ++ sids.take place) sid fault ∧
    ∀ earlier other, earlier < place → sids[earlier]? = some other →
      ∀ told, ¬ Flaw custom (before ++ sids.take earlier) other told

theorem firstFlaw_of_flaw (flaw : Flaw custom before sid fault) {told : Fault} :
    FirstFlaw custom before (sid :: sids) told ↔ told = fault := by
  have here : Flaw custom (before ++ (sid :: sids).take 0) sid fault := by simpa using flaw
  constructor
  · intro ⟨place, _, there, first, sound⟩
    cases place with
    | zero =>
      cases there
      exact first.unique here
    | succ place => exact absurd here (sound 0 sid (Nat.succ_pos place) rfl fault)
  · rintro rfl
    exact ⟨0, sid, rfl, here, nofun⟩

theorem firstFlaw_of_sound (sound : ∀ told, ¬ Flaw custom before sid told) :
    FirstFlaw custom before (sid :: sids) fault ↔ FirstFlaw custom (before ++ [sid]) sids fault := by
  have taken (place : Nat) : before ++ (sid :: sids).take (place + 1) = before ++ [sid] ++ sids.take place := by simp
  constructor
  · intro ⟨place, found, there, flaw, earliest⟩
    cases place with
    | zero =>
      cases there
      exact absurd (by simpa using flaw) (sound fault)
    | succ place =>
      refine ⟨place, found, there, by rwa [← taken], fun earlier other less same => ?_⟩
      rw [← taken]
      exact earliest (earlier + 1) other (Nat.succ_lt_succ less) same
  · intro ⟨place, found, there, flaw, earliest⟩
    refine ⟨place + 1, found, there, by rwa [taken], fun earlier other less same => ?_⟩
    cases earlier with
    | zero =>
      cases same
      simpa using sound
    | succ earlier =>
      rw [taken]
      exact earliest earlier other (Nat.lt_of_succ_lt_succ less) same

/-- The names that are known are those of the ids that came before. -/
def Known (custom : Index) (before : List Nat) (seen : Std.HashSet String) : Prop :=
  ∀ name, name ∈ seen ↔ ∃ other ∈ before, Spells custom other name

theorem Known.insert (known : Known custom before seen) (spells : Spells custom sid name) :
    Known custom (before ++ [sid]) (seen.insert name) := by
  intro other
  rw [Std.HashSet.mem_insert, known other]
  constructor
  · rintro (same | ⟨earlier, member, also⟩)
    · exact ⟨sid, by simp, beq_iff_eq.1 same ▸ spells⟩
    · exact ⟨earlier, List.mem_append_left _ member, also⟩
  · intro ⟨earlier, member, also⟩
    rcases List.mem_append.1 member with member | last
    · exact .inr ⟨earlier, member, also⟩
    · rw [List.mem_singleton.1 last] at also
      exact .inl (beq_iff_eq.2 (spells.unique also))

/-- Resolving names breaks off at the first flaw. -/
theorem resolveNames_eq_error_iff (known : Known custom before seen) :
    resolveNames (SidTable.ofIndex custom) seen sids = .error fault ↔ FirstFlaw custom before sids fault := by
  have blames {told : Fault} : (.error told : Except Fault (List String)) = .error fault ↔ fault = told := by
    rw [Except.error.injEq, eq_comm]
  induction sids generalizing before seen with
  | nil => exact ⟨nofun, fun ⟨_, _, absent, _⟩ => nomatch absent⟩
  | cons sid sids ih =>
    rw [resolveNames]
    by_cases spelled : ∃ name, Spells custom sid name
    case neg =>
      rw [firstFlaw_of_flaw (.unknown spelled), SidTable.get_of_nameless spelled]
      exact blames
    case pos =>
      obtain ⟨name, spells⟩ := spelled
      rw [SidTable.get_of_spells spells, ok_bind]
      split
      next again =>
        obtain ⟨other, earlier, same⟩ := (known name).1 (Std.HashSet.contains_iff_mem.1 again)
        rw [firstFlaw_of_flaw (.repeated spells earlier same)]
        exact blames
      next fresh =>
        have sound : ∀ told, ¬ Flaw custom before sid told := by
          intro told flaw
          cases flaw with
          | unknown nameless => exact nameless ⟨name, spells⟩
          | repeated also earlier same =>
            rw [also.unique spells] at same
            exact fresh (Std.HashSet.contains_iff_mem.2 ((known name).2 ⟨_, earlier, same⟩))
        have later := (ih (known.insert spells)).trans (firstFlaw_of_sound sound).symm
        refine bind_eq_error_iff.trans (Iff.trans ⟨?_, .inl⟩ later)
        rintro (failed | ⟨_, _, absent⟩)
        · exact failed
        · cases absent

theorem map_get?_eq_iff_forall₂ :
    sids.map (SidTable.ofIndex custom).get? = names.map some ↔ List.Forall₂ (Spells custom) sids names := by
  rw [← List.forall₂_eq_eq_eq, List.forall₂_map_left_iff, List.forall₂_map_right_iff]
  simp only [SidTable.get?_ofIndex_eq_some_iff]

/-- Glyphs get the strings of their ids as names if there is one for every id and no two are the same text; otherwise
the smallest place decides at which an id stands for nothing or for an earlier name. An id stands for nothing if and
only if it is beyond the standard strings and the font's own. -/
theorem glyphNames_exact (custom : Index) (sids : List Nat) :
    (∀ names, glyphNames (SidTable.ofIndex custom) sids = .ok names ↔
      List.Forall₂ (Spells custom) sids names ∧ names.Nodup) ∧
    (∀ fault, glyphNames (SidTable.ofIndex custom) sids = .error fault ↔
      ∃ place sid, sids[place]? = some sid ∧ Flaw custom (sids.take place) sid fault ∧
        ∀ earlier other, earlier < place → sids[earlier]? = some other →
          ∀ told, ¬ Flaw custom (sids.take earlier) other told) ∧
    ∀ sid, (¬ ∃ name, Spells custom sid name) ↔ 391 + custom.count ≤ sid := by
  refine ⟨fun names => ?_, fun fault => ?_, fun sid => ?_⟩
  · rw [glyphNames_eq_ok_iff, map_get?_eq_iff_forall₂]
  · have nothing : Known custom [] ∅ := by
      intro name
      simp
    exact resolveNames_eq_error_iff nothing
  · rw [SidTable.exists_spells_iff, Nat.not_lt]

end Font
end CompactFont
