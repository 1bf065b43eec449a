import CompactFont.Proofs.Font.Lookup
import CompactFont.Proofs.Font.Programs
import CompactFont.Proofs.FontFile.Layout

/-! What becomes of the glyph programs of a font. Every program that draws a glyph has it in the font, under the name
that the charset gives it and in the order of the programs; no glyph is found for another program. A program that
fails is left out if it may be, and else the first of them is what the font fails with. -/

namespace CompactFont.Font

open Charstring (Outline)

variable {options : Options} {file : FontFile}

/-! ### What is there before the programs are run -/

/-- What a font needs of its file before any program is run. -/
structure Prepared (file : FontFile) (fontName fullName : String) (sids : List Nat) (names : List String) :
    Prop where
  named : resolveName file = .ok fontName
  fullyNamed : resolveFullName file (SidTable.ofIndex file.strings) fontName = .ok fullName
  numbered : file.charset.sids file.charstrings.count = .ok sids
  resolved : glyphNames (SidTable.ofIndex file.strings) sids = .ok names

variable {fontName fullName : String} {sids : List Nat} {names : List String}

/-- The font of a file whose programs all pass. -/
def assembled (options : Options) (file : FontFile) (fontName fullName : String) (sids : List Nat)
    (names : List String) : Font :=
  ofGlyphs file (context options file) fontName fullName sids
    ((drafts 0 sids names file.charstrings.items).filterMap (slot options file))

theorem result_ofFile (prepared : Prepared file fontName fullName sids names) :
    (ofFile options file).result =
      outcomes options file (drafts 0 sids names file.charstrings.items) >>= fun slots =>
        .ok (ofGlyphs file (context options file) fontName fullName sids (slots.filterMap id)) := by
  rw [ofFile]
  simp only [Logged.result_bind, Logged.result_quiet, Logged.result_note, Logged.result_pure, ok_bind, FontFile.bare,
    prepared.named, prepared.fullyNamed, prepared.numbered, prepared.resolved]
  rfl

theorem prepared_of_ofFile {font : Font} (made : (ofFile options file).result = .ok font) :
    ∃ fontName fullName sids names, Prepared file fontName fullName sids names := by
  rw [ofFile] at made
  simp only [Logged.result_bind, Logged.result_quiet, bind_eq_ok_iff, FontFile.bare_eq_ok_iff] at made
  obtain ⟨fontName, name, fullName, full, sids, charset, names, resolved, _⟩ := made
  exact ⟨fontName, fullName, sids, names, name, full, charset, resolved⟩

theorem ofFile_eq_ok_iff (prepared : Prepared file fontName fullName sids names) {font : Font} :
    (ofFile options file).result = .ok font ↔
      (∀ draft ∈ drafts 0 sids names file.charstrings.items, Passes options file draft.program) ∧
        font = assembled options file fontName fullName sids names := by
  rw [result_ofFile prepared, bind_eq_ok_iff]
  simp only [outcomes_eq_ok_iff]
  constructor
  · rintro ⟨_, ⟨passes, rfl⟩, same⟩
    cases same
    rw [List.filterMap_map]
    exact ⟨passes, rfl⟩
  · rintro ⟨passes, rfl⟩
    refine ⟨_, ⟨passes, rfl⟩, ?_⟩
    rw [List.filterMap_map]
    rfl

theorem ofFile_eq_error_iff (prepared : Prepared file fontName fullName sids names) {failure : Failure} :
    (ofFile options file).result = .error failure ↔
      outcomes options file (drafts 0 sids names file.charstrings.items) = .error failure := by
  rw [result_ofFile prepared, bind_eq_error_iff]
  constructor
  · rintro (failed | ⟨_, _, absent⟩)
    · exact failed
    · cases absent
  · exact .inl

/-! ### Glyphs by index and by name -/

/-- The glyph that the program at an index draws with the subroutines and the Private DICT of the font, under the name
that the font has for it. -/
def glyphOf? (options : Options) (file : FontFile) (font : Font) (index : Nat) : Option Glyph := do
  let program ← file.charstrings.get? index
  let outline ← (interpret options font.globals font.locals? font.privateDict? program).toOption
  let sid ← font.charset[index]?
  let name ← font.strings.get? sid
  return { sid, name, width := outline.width, path := outline.path }

theorem glyphOf?_of_interpret {font : Font} {index sid : Nat} {name : String} {program : List UInt8} {outline : Outline}
    (there : file.charstrings.get? index = some program)
    (draws : interpret options font.globals font.locals? font.privateDict? program = .ok outline)
    (listed : font.charset[index]? = some sid) (named : font.strings.get? sid = some name) :
    glyphOf? options file font index = some { sid, name, width := outline.width, path := outline.path } := by
  rw [glyphOf?, there]
  simp only [Option.bind_eq_bind, Option.bind_some, draws, Except.toOption, listed, named]
  rfl

/-- Every program has an id, and a name by it that no other program has. -/
structure Labelled (file : FontFile) (sids : List Nat) (names : List String) : Prop where
  sound : file.charstrings.WellFormed
  listed : file.charset.sids file.charstrings.count = .ok sids
  numbered : sids.length = file.charstrings.count
  named : sids.map (SidTable.ofIndex file.strings).get? = names.map some
  distinct : names.Nodup

/-- What is prepared from a file that was read is labelled. -/
theorem Prepared.labelled {data : List UInt8} (laid : FontFile.Layout data file)
    (prepared : Prepared file fontName fullName sids names) : Labelled file sids names := by
  obtain ⟨_, _, sound, _⟩ := laid.charstrings
  obtain ⟨named, distinct⟩ := glyphNames_eq_ok_iff.1 prepared.resolved
  exact ⟨sound, prepared.numbered, Charset.length_sids laid.charset.known prepared.numbered, named, distinct⟩

theorem drafts_eq_none {index : Nat} (beyond : file.charstrings.count ≤ index) :
    (drafts 0 sids names file.charstrings.items)[index]? = none := by
  rw [Option.eq_none_iff_forall_ne_some]
  intro draft here
  obtain ⟨_, _, program, _⟩ := getElem?_drafts_eq_some_iff.1 here
  rw [List.getElem?_eq_none (by rwa [Index.length_items])] at program
  cases program

theorem glyphOf?_eq_none {font : Font} {index : Nat} (beyond : file.charstrings.count ≤ index) :
    glyphOf? options file font index = none := by
  rw [glyphOf?, Index.get?_eq_none beyond]
  rfl

namespace Labelled

variable (labelled : Labelled file sids names)

include labelled

theorem length_names : names.length = file.charstrings.count := by
  rw [← labelled.numbered, ← List.length_map (f := some), ← labelled.named, List.length_map]

theorem exists_draft {index : Nat} (lt : index < file.charstrings.count) :
    ∃ draft, (drafts 0 sids names file.charstrings.items)[index]? = some draft := by
  have first : index < sids.length := by rwa [labelled.numbered]
  have second : index < names.length := by rwa [labelled.length_names]
  have third : index < file.charstrings.items.length := by rwa [Index.length_items]
  exact ⟨⟨index, sids[index], names[index], file.charstrings.items[index]⟩, getElem?_drafts_eq_some_iff.2
    ⟨List.getElem?_eq_getElem first, List.getElem?_eq_getElem second, List.getElem?_eq_getElem third,
      (Nat.zero_add index).symm⟩⟩

/-- The font has the id and the name of a draft where the draft is. -/
theorem label_assembled (options : Options) (fontName fullName : String) {index : Nat} {draft : Draft}
    (here : (drafts 0 sids names file.charstrings.items)[index]? = some draft) :
    (assembled options file fontName fullName sids names).charset[index]? = some draft.sid ∧
      (assembled options file fontName fullName sids names).strings.get? draft.sid = some draft.name := by
  obtain ⟨sid, name, _, _⟩ := getElem?_drafts_eq_some_iff.1 here
  have same := congrArg (·[index]?) labelled.named
  simp only [List.getElem?_map, sid, name, Option.map_some] at same
  exact ⟨sid, Option.some.inj same⟩

/-- A draft and its program, which the file has at the same index. -/
theorem exists_draft_of_get? {index : Nat} {program : List UInt8}
    (there : file.charstrings.get? index = some program) :
    ∃ draft, (drafts 0 sids names file.charstrings.items)[index]? = some draft ∧ draft.program = program := by
  rw [Index.get?_eq_getElem? labelled.sound] at there
  have lt : index < file.charstrings.count := by
    rw [← Index.length_items]
    exact (List.getElem?_eq_some_iff.1 there).1
  obtain ⟨draft, here⟩ := labelled.exists_draft lt
  have program := (getElem?_drafts_eq_some_iff.1 here).2.2.1
  exact ⟨draft, here, Option.some.inj (program.symm.trans there)⟩

theorem get?_program {index : Nat} {draft : Draft}
    (here : (drafts 0 sids names file.charstrings.items)[index]? = some draft) :
    file.charstrings.get? index = some draft.program := by
  rw [Index.get?_eq_getElem? labelled.sound]
  exact (getElem?_drafts_eq_some_iff.1 here).2.2.1

theorem glyphOf?_eq_slot {index : Nat} {draft : Draft}
    (here : (drafts 0 sids names file.charstrings.items)[index]? = some draft) :
    glyphOf? options file (assembled options file fontName fullName sids names) index = slot options file draft := by
  obtain ⟨sid, name⟩ := labelled.label_assembled options fontName fullName here
  rw [glyphOf?, labelled.get?_program here, slot]
  change ((evaluate options file draft.program).toOption.bind _) = _
  simp only [Option.bind_eq_bind, Option.bind_some, sid, name]
  cases evaluate options file draft.program <;> rfl

/-- The drafts come to the glyphs of the programs, one for each index. -/
theorem map_slot_drafts :
    (drafts 0 sids names file.charstrings.items).map (slot options file) =
      (List.range file.charstrings.count).map
        (glyphOf? options file (assembled options file fontName fullName sids names)) := by
  apply List.ext_getElem?
  intro index
  rw [List.getElem?_map, List.getElem?_map]
  by_cases lt : index < file.charstrings.count
  · obtain ⟨draft, here⟩ := labelled.exists_draft lt
    rw [here, List.getElem?_range lt, Option.map_some, Option.map_some, labelled.glyphOf?_eq_slot here]
  · have beyond : file.charstrings.count ≤ index := Nat.le_of_not_lt lt
    rw [drafts_eq_none beyond, List.getElem?_eq_none (by rwa [List.length_range])]
    rfl

/-- Names that differ leave the names of the glyphs different. -/
theorem nodup_names_assembled :
    ((assembled options file fontName fullName sids names).glyphs.map Glyph.name).Nodup :=
  labelled.distinct.sublist ((sublist_name_slots _).trans (sublist_name_drafts ..))

/-- The name of a draft leads to its glyph, or nowhere if it has none. -/
theorem glyph?_name {index : Nat} {draft : Draft}
    (here : (drafts 0 sids names file.charstrings.items)[index]? = some draft) :
    (assembled options file fontName fullName sids names).glyph? draft.name = slot options file draft := by
  ext glyph
  rw [glyph?_eq_some_iff rfl labelled.nodup_names_assembled]
  constructor
  · rintro ⟨member, same⟩
    obtain ⟨other, among, drawn⟩ := List.mem_filterMap.1 member
    obtain ⟨place, there⟩ := List.mem_iff_getElem?.1 among
    have name := (getElem?_drafts_eq_some_iff.1 here).2.1
    have otherName := (getElem?_drafts_eq_some_iff.1 there).2.1
    rw [← name_of_slot drawn, same, ← name] at otherName
    have inside : place < names.length := by
      by_contra beyond
      rw [List.getElem?_eq_none (Nat.le_of_not_lt beyond), name] at otherName
      cases otherName
    -- no two programs have one name, so it is the same draft
    rw [(List.getElem?_inj inside labelled.distinct).1 otherName, here] at there
    cases there
    exact drawn
  · intro drawn
    exact ⟨List.mem_filterMap.2 ⟨draft, List.mem_of_getElem? here, drawn⟩, name_of_slot drawn⟩

theorem glyphAt?_assembled (index : Nat) :
    (assembled options file fontName fullName sids names).glyphAt? index =
      glyphOf? options file (assembled options file fontName fullName sids names) index := by
  by_cases lt : index < file.charstrings.count
  · obtain ⟨draft, here⟩ := labelled.exists_draft lt
    obtain ⟨sid, name⟩ := labelled.label_assembled options fontName fullName here
    rw [charset, Array.getElem?_toList] at sid
    rw [glyphAt?, labelled.glyphOf?_eq_slot here]
    simp only [Option.bind_eq_bind, Option.bind_some, sid, name]
    exact labelled.glyph?_name here
  · have beyond : file.charstrings.count ≤ index := Nat.le_of_not_lt lt
    have short : sids.length ≤ index := by rwa [labelled.numbered]
    have none : (assembled options file fontName fullName sids names).charset[index]? = none :=
      List.getElem?_eq_none short
    rw [charset, Array.getElem?_toList] at none
    rw [glyphOf?_eq_none beyond, glyphAt?, none]
    rfl

/-- A program has no glyph only if there is no such program or it fails. -/
theorem glyphOf?_assembled_eq_none_iff (index : Nat) :
    glyphOf? options file (assembled options file fontName fullName sids names) index = none ↔
      file.charstrings.count ≤ index ∨ ∃ program fault, file.charstrings.get? index = some program ∧
        evaluate options file program = .error fault := by
  by_cases lt : index < file.charstrings.count
  · obtain ⟨draft, here⟩ := labelled.exists_draft lt
    rw [labelled.glyphOf?_eq_slot here, labelled.get?_program here, slot]
    cases ran : evaluate options file draft.program with
    | ok outline =>
      constructor
      · intro absent
        cases absent
      · rintro (beyond | ⟨_, _, same, failed⟩)
        · exact absurd lt (Nat.not_lt.2 beyond)
        · cases same
          cases ran.symm.trans failed
    | error fault => exact ⟨fun _ => .inr ⟨_, fault, rfl, ran⟩, fun _ => rfl⟩
  · have beyond : file.charstrings.count ≤ index := Nat.le_of_not_lt lt
    exact ⟨fun _ => .inl beyond, fun _ => glyphOf?_eq_none beyond⟩

/-- Programs that are labelled fail with the first of them that does not pass. -/
theorem outcomes_eq_error_iff {failure : Failure} :
    outcomes options file (drafts 0 sids names file.charstrings.items) = .error failure ↔
      ∃ index name program fault, names[index]? = some name ∧ file.charstrings.get? index = some program ∧
        evaluate options file program = .error fault ∧ ¬ Passes options file program ∧
        (∀ earlier < index, ∀ before, file.charstrings.get? earlier = some before → Passes options file before) ∧
        failure = { stage? := some (.glyph index name), fault } := by
  simp only [Font.outcomes_eq_error_iff, outcome_eq_error_iff]
  constructor
  · rintro ⟨index, draft, here, ⟨refused, fault, failed, rfl⟩, passes⟩
    obtain ⟨_, name, _, place⟩ := getElem?_drafts_eq_some_iff.1 here
    rw [Nat.zero_add] at place
    refine ⟨index, draft.name, draft.program, fault, name, labelled.get?_program here, failed, refused, ?_, ?_⟩
    · intro earlier less before there
      obtain ⟨other, found, rfl⟩ := labelled.exists_draft_of_get? there
      exact passes earlier other less found
    · rw [place]
  · rintro ⟨index, name, program, fault, named, there, failed, refused, passes, rfl⟩
    obtain ⟨draft, here, rfl⟩ := labelled.exists_draft_of_get? there
    obtain ⟨_, itsName, _, place⟩ := getElem?_drafts_eq_some_iff.1 here
    rw [Nat.zero_add] at place
    cases named.symm.trans itsName
    refine ⟨index, draft, here, ⟨refused, fault, failed, by rw [place]⟩, ?_⟩
    intro earlier before less found
    exact passes earlier less before.program (labelled.get?_program found)

end Labelled

/-! ### The whole font -/

/-- A font holds what the glyph programs of its file come to with its own subroutines and its own Private DICT, under the
names that its charset gives them. -/
structure Faithful (options : Options) (file : FontFile) (names : List String) (font : Font) : Prop where
  strings : font.strings = SidTable.ofIndex file.strings
  globals : font.globals = Subroutines.ofIndex file.globals
  locals : font.locals? = file.locals?.map Subroutines.ofIndex
  privateDict : font.privateDict? = file.privateDict?
  listed : file.charset.sids file.charstrings.count = .ok font.charset
  numbered : font.charset.length = file.charstrings.count
  named : font.charset.map font.strings.get? = names.map some
  distinct : names.Nodup
  passes : ∀ index < file.charstrings.count, ∃ program, file.charstrings.get? index = some program ∧
    ((∃ outline, interpret options font.globals font.locals? font.privateDict? program = .ok outline) ∨
      options.skipUnsupported = true ∧
        ∃ feature, interpret options font.globals font.locals? font.privateDict? program = .error (.unsupported feature))
  glyphs : font.glyphs = (List.range file.charstrings.count).filterMap (glyphOf? options file font)
  byName : ∀ glyph ∈ font.glyphs, font.glyph? glyph.name = some glyph
  byIndex : ∀ index, font.glyphAt? index = glyphOf? options file font index
  leftOut : ∀ index, font.glyphAt? index = none ↔ file.charstrings.count ≤ index ∨
    ∃ program fault, file.charstrings.get? index = some program ∧
      interpret options font.globals font.locals? font.privateDict? program = .error fault

theorem faithful_assembled (labelled : Labelled file sids names)
    (passes : ∀ draft ∈ drafts 0 sids names file.charstrings.items, Passes options file draft.program) :
    Faithful options file names (assembled options file fontName fullName sids names) where
  strings := rfl
  globals := rfl
  locals := rfl
  privateDict := rfl
  listed := labelled.listed
  numbered := labelled.numbered
  named := labelled.named
  distinct := labelled.distinct
  passes := by
    intro index lt
    obtain ⟨draft, here⟩ := labelled.exists_draft lt
    exact ⟨draft.program, labelled.get?_program here, passes_iff.1 (passes draft (List.mem_of_getElem? here))⟩
  glyphs := by
    rw [← Function.id_comp (glyphOf? options file _), ← List.filterMap_map, ← labelled.map_slot_drafts,
      List.filterMap_map]
    rfl
  byName := by
    intro glyph member
    exact (glyph?_eq_some_iff rfl labelled.nodup_names_assembled).2 ⟨member, rfl⟩
  byIndex := labelled.glyphAt?_assembled
  leftOut := by
    intro index
    rw [labelled.glyphAt?_assembled]
    exact labelled.glyphOf?_assembled_eq_none_iff index

/-- The file in the bytes, and the names of its glyphs, are there before any program is run. -/
def Ready (bytes : List UInt8) (file : FontFile) (names : List String) : Prop :=
  ∃ data fontName fullName sids, (FontSet.data bytes).result = .ok data ∧ (FontFile.read data).result = .ok file ∧
    Prepared file fontName fullName sids names

/-- The bytes decide the file and the names. -/
theorem Ready.unique {bytes : List UInt8} {file other : FontFile} {names others : List String}
    (ready : Ready bytes file names) (again : Ready bytes other others) : other = file ∧ others = names := by
  obtain ⟨data, fontName, fullName, sids, marked, read, prepared⟩ := ready
  obtain ⟨sameData, _, _, sameSids, alsoMarked, alsoRead, alsoPrepared⟩ := again
  cases marked.symm.trans alsoMarked
  cases read.symm.trans alsoRead
  cases prepared.numbered.symm.trans alsoPrepared.numbered
  cases prepared.resolved.symm.trans alsoPrepared.resolved
  exact ⟨rfl, rfl⟩

/-- A font whose programs all pass is the one that they make up. -/
theorem decode_eq_assembled {bytes data : List UInt8} (marked : (FontSet.data bytes).result = .ok data)
    (read : (FontFile.read data).result = .ok file) (prepared : Prepared file fontName fullName sids names)
    (passes : ∀ program ∈ file.charstrings.items, Passes options file program) :
    (decode options bytes).result = .ok (assembled options file fontName fullName sids names) := by
  have made : (ofFile options file).result = .ok (assembled options file fontName fullName sids names) := by
    apply (ofFile_eq_ok_iff prepared).2
    refine ⟨?_, rfl⟩
    intro draft member
    obtain ⟨place, here⟩ := List.mem_iff_getElem?.1 member
    exact passes _ (List.mem_of_getElem? (getElem?_drafts_eq_some_iff.1 here).2.2.1)
  simp only [decode, Logged.result_bind, ok_bind, marked, read, made]

/-- A font that is decoded holds the glyph of every program that draws one, in the order of the programs, under the
name that its charset gives the program, and finds it by that name and by that index alone; programs are left out
only for unsupported features and only if the options allow it. A font whose names are all there fails, if it does,
with the first program that is not left out and draws nothing. -/
theorem decode_faithful (options : Options) (bytes : List UInt8) :
    (∀ font, (decode options bytes).result = .ok font →
      ∃ file names, Ready bytes file names ∧ Faithful options file names font) ∧
    ∀ file names, Ready bytes file names → ∀ failure, (decode options bytes).result = .error failure ↔
      ∃ index name program fault, names[index]? = some name ∧ file.charstrings.get? index = some program ∧
        evaluate options file program = .error fault ∧ ¬ Passes options file program ∧
        (∀ earlier < index, ∀ before, file.charstrings.get? earlier = some before → Passes options file before) ∧
        failure = { stage? := some (.glyph index name), fault } := by
  constructor
  · intro font decoded
    simp only [decode, Logged.result_bind, bind_eq_ok_iff] at decoded
    obtain ⟨data, marked, file, read, made⟩ := decoded
    obtain ⟨fontName, fullName, sids, names, prepared⟩ := prepared_of_ofFile made
    have labelled := prepared.labelled (FontFile.layout_of_read read)
    obtain ⟨passes, rfl⟩ := (ofFile_eq_ok_iff prepared).1 made
    exact ⟨file, names, ⟨data, fontName, fullName, sids, marked, read, prepared⟩, faithful_assembled labelled passes⟩
  · rintro file names ⟨data, fontName, fullName, sids, marked, read, prepared⟩ failure
    have labelled := prepared.labelled (FontFile.layout_of_read read)
    have reduced : (decode options bytes).result = (ofFile options file).result := by
      simp only [decode, Logged.result_bind, ok_bind, marked, read]
    rw [reduced, ofFile_eq_error_iff prepared, labelled.outcomes_eq_error_iff]

/-! ### A font with widths -/

/-- The file in font data that can be read. -/
def fileOf (data : List UInt8) : FontFile := (FontFile.read data).result.toOption.getD default

/-- What a font needs of its file, as it can be evaluated. -/
def Evaluated (data : List UInt8) (fontName fullName : String) (sids : List Nat) (names : List String) : Prop :=
  (FontFile.read data).result.toOption.isSome = true ∧
    (resolveName (fileOf data)).toOption = some fontName ∧
    (resolveFullName (fileOf data) (.ofIndex (fileOf data).strings) fontName).toOption = some fullName ∧
    ((fileOf data).charset.sids (fileOf data).charstrings.count).toOption = some sids ∧
    sids.map (SidTable.ofIndex (fileOf data).strings).get? = names.map some ∧ names.Nodup

instance (data : List UInt8) (fontName fullName : String) (sids : List Nat) (names : List String) :
    Decidable (Evaluated data fontName fullName sids names) :=
  inferInstanceAs (Decidable (_ ∧ _))

theorem prepared_of_evaluated {data : List UInt8} (evaluated : Evaluated data fontName fullName sids names) :
    (FontFile.read data).result = .ok (fileOf data) ∧ Prepared (fileOf data) fontName fullName sids names := by
  obtain ⟨reads, named, fullyNamed, numbered, labelled, distinct⟩ := evaluated
  have found := Option.getD_of_ne_none (Option.isSome_iff_ne_none.1 reads) default
  exact ⟨eq_ok_of_toOption found.symm, eq_ok_of_toOption named, eq_ok_of_toOption fullyNamed,
    eq_ok_of_toOption numbered, glyphNames_eq_ok_iff.2 ⟨labelled, distinct⟩⟩

/-- The data of a font of three glyphs with the nominal width 500. The second glyph asks for an accented letter, and the
third tells a width and moves in a local subroutine. -/
def accented : List UInt8 :=
  [1, 0, 4, 1] ++ [0, 1, 1, 1, 2, 65] ++ [0, 1, 1, 1, 6, 163, 17, 145, 181, 18] ++ [0, 0] ++ [0, 0] ++
    [0, 3, 1, 1, 2, 7, 12, 14, 139, 139, 139, 139, 14, 189, 149, 32, 10, 14] ++
    [28, 1, 244, 21, 145, 19] ++ [0, 1, 1, 1, 2, 22]

def accentedFile : FontFile := fileOf accented

theorem ready_accented : Ready (FontSet.marker ++ 32 :: accented) accentedFile [".notdef", "space", "exclam"] := by
  have evaluated : Evaluated accented "A" "A" [0, 1, 2] [".notdef", "space", "exclam"] := by decide +kernel
  obtain ⟨read, prepared⟩ := prepared_of_evaluated evaluated
  exact ⟨accented, "A", "A", [0, 1, 2], rfl, read, prepared⟩

/-- The font is decoded without its second glyph, or not at all, by what the options say. -/
theorem decode_faithful_accented :
    let bytes := FontSet.marker ++ 32 :: accented
    let exclam : Glyph := { sid := 2, name := "exclam", width := 550.0, path := [.line ⟨10.0, 0.0⟩ ⟨10.0, 0.0⟩] }
    (Ready bytes accentedFile [".notdef", "space", "exclam"] ∧
      ∃ font, (decode { skipUnsupported := true } bytes).result = .ok font ∧
        font.privateDict?.map PrivateDict.nominalWidth = some 500.0 ∧ font.charset = [0, 1, 2] ∧
        font.glyphAt? 1 = none ∧ font.glyphAt? 2 = some exclam) ∧
      ∃ failure, (decode {} bytes).result = .error failure ∧ failure.stage? = some (.glyph 1 "space") := by
  intro bytes exclam
  let lenient : Options := { skipUnsupported := true }
  have first : accentedFile.charstrings.get? 0 = some [14] := by decide +kernel
  have second : accentedFile.charstrings.get? 1 = some [139, 139, 139, 139, 14] := by decide +kernel
  have third : accentedFile.charstrings.get? 2 = some [189, 149, 32, 10, 14] := by decide +kernel
  have passes : ∀ program ∈ accentedFile.charstrings.items, Passes lenient accentedFile program := by decide +kernel
  obtain ⟨fault, failed⟩ : ∃ fault, evaluate {} accentedFile [139, 139, 139, 139, 14] = .error fault :=
    exists_fault_of_not_passes (by decide +kernel)
  refine ⟨⟨ready_accented, ?_⟩, ?_⟩
  · obtain ⟨font, decoded⟩ : ∃ font, (decode lenient bytes).result = .ok font := by
      obtain ⟨data, fontName, fullName, sids, marked, read, prepared⟩ := ready_accented
      exact ⟨_, decode_eq_assembled marked read prepared passes⟩
    obtain ⟨file, names, ready, faithful⟩ := (decode_faithful lenient bytes).1 font decoded
    obtain ⟨rfl, rfl⟩ := ready_accented.unique ready
    have charset : font.charset = [0, 1, 2] := by
      have listed : accentedFile.charset.sids accentedFile.charstrings.count = .ok [0, 1, 2] :=
        eq_ok_of_toOption (by decide +kernel)
      exact Except.ok.inj (faithful.listed.symm.trans listed)
    refine ⟨font, decoded, ?_, charset, ?_, ?_⟩
    · rw [faithful.privateDict]
      decide +kernel
    · refine (faithful.leftOut 1).2 (.inr ⟨_, fault, second, ?_⟩)
      rw [faithful.globals, faithful.locals, faithful.privateDict]
      exact failed
    · have drawn : evaluate lenient accentedFile [189, 149, 32, 10, 14] = .ok ⟨exclam.width, exclam.path⟩ :=
        eq_ok_of_toOption (by decide +kernel)
      have draws : interpret lenient font.globals font.locals? font.privateDict? [189, 149, 32, 10, 14] =
          .ok ⟨exclam.width, exclam.path⟩ := by
        rw [faithful.globals, faithful.locals, faithful.privateDict]
        exact drawn
      have named := congrArg (·[2]?) faithful.named
      rw [charset] at named
      rw [faithful.byIndex]
      exact glyphOf?_of_interpret third draws (congrArg (·[2]?) charset) (Option.some.inj named)
  · refine ⟨{ stage? := some (.glyph 1 "space"), fault }, ?_, rfl⟩
    refine ((decode_faithful {} bytes).2 _ _ ready_accented _).2
      ⟨1, "space", _, fault, rfl, second, failed, by decide +kernel, ?_, rfl⟩
    intro earlier less program there
    obtain rfl : earlier = 0 := Nat.lt_one_iff.1 less
    cases first.symm.trans there
    decide +kernel

end CompactFont.Font
