import CompactFont.Proofs.CommandLine.Places
import CompactFont.Proofs.Font.Assembly
import CompactFont.Proofs.Storage.Laws

/-! What drawing a font can touch. The directory of a font lies below the output directory unless the full name of the
font begins with a slash, its glyphs are written directly in that directory, and nothing else is changed but for missing
directories on the way, which are made. -/

namespace CompactFont

/-- Strictly below a place. -/
def FileTree.Inside (upper place : Place) : Prop := upper <+: place ∧ place ≠ upper

/-- One name further down. -/
theorem FileTree.inside_append {upper place : Place} (above : upper <+: place) (name : String) :
    Inside upper (place ++ [name]) := by
  refine ⟨above.trans (List.prefix_append _ _), ?_⟩
  intro same
  have longer := congrArg List.length same
  have shorter := above.length_le
  rw [List.length_append, List.length_singleton] at longer
  omega

namespace CommandLine

open FileTree

/-! ### Where the directory of a font lies -/

/-- No name becomes absolute, and none ceases to be. -/
theorem isAbsolute_ofFont (fullName : String) :
    isAbsolute (FileName.ofFont fullName ++ ".d").toList = isAbsolute fullName.toList := by
  rw [String.toList_append, FileName.ofFont, FileName.blank, String.toList_ofList]
  cases fullName.toList with
  | nil => rfl
  | cons c rest =>
    have slash : '/' ∉ FileName.punctuation := by decide
    by_cases barred : c ∈ FileName.punctuation
    · have other : c ≠ '/' := fun same => slash (same ▸ barred)
      simp [isAbsolute, barred, other]
    · simp [isAbsolute, barred]

theorem fontDirectory_of_absolute {fullName : String} (absolute : isAbsolute fullName.toList = true) (output : String) :
    fontDirectory output fullName = FileName.ofFont fullName ++ ".d" :=
  joinPath_of_absolute ((isAbsolute_ofFont fullName).trans absolute) output

theorem fontDirectory_joinPath (home output fullName : String) :
    fontDirectory (joinPath home output) fullName = joinPath home (fontDirectory output fullName) :=
  (joinPath_assoc home output _).symm

theorem glyphPath_joinPath (home directory name : String) :
    glyphPath (joinPath home directory) name = joinPath home (glyphPath directory name) :=
  (joinPath_assoc home directory _).symm

/-- A path below a directory is followed from there. -/
theorem destination_joinPath {name : String} (relative : isAbsolute name.toList = false) (directory : String) :
    destination (joinPath directory name) = (namesOf name).foldl descend (destination directory) := by
  by_cases empty : directory = ""
  · subst empty
    rw [joinPath_empty, destination, origin, relative]
    rfl
  · have full : directory.toList ≠ [] := by simpa using empty
    have start : origin (joinPath directory name) = origin directory := by
      unfold origin
      rw [joinPath_of_relative relative, String.append_assoc, String.toList_append, isAbsolute_append full]
    rw [destination, destination, start, ← List.foldl_append]
    by_cases ends : directory.toList.getLast? = some '/'
    · obtain ⟨front, split⟩ := List.getLast?_eq_some_iff.1 ends
      have none : separator directory = "" := if_pos (.inr ends)
      have joined : namesOf (joinPath directory name) = (pathNames front).map String.ofList ++ namesOf name := by
        rw [joinPath_of_relative relative, none, String.append_empty, namesOf, String.toList_append, split,
          List.append_assoc, List.singleton_append, pathNames_append_slash, List.map_append, namesOf]
      have outer : namesOf directory = (pathNames front).map String.ofList ++ [""] := by
        rw [namesOf, split, pathNames_append_slash, List.map_append]
        rfl
      have still (place : Place) : descend place "" = place := if_pos (.inl rfl)
      rw [joined, outer, List.foldl_append, List.foldl_append, List.foldl_append, List.foldl_cons, List.foldl_nil,
        still]
    · have slash : separator directory = "/" := if_neg (not_or.2 ⟨empty, ends⟩)
      have joined : namesOf (joinPath directory name) = namesOf directory ++ namesOf name := by
        rw [joinPath_of_relative relative, slash, namesOf, String.toList_append, String.toList_append,
          List.append_assoc]
        rw [show "/".toList = ['/'] from rfl, List.singleton_append, pathNames_append_slash, List.map_append]
        rfl
      rw [joined]

/-- The directory of a font whose full name does not begin with a slash is below the output directory. -/
theorem inside_fontDirectory {fullName : String} (relative : isAbsolute fullName.toList = false) (output : String) :
    Inside (destination output) (destination (fontDirectory output fullName)) := by
  have level : ".." ∉ namesOf (FileName.ofFont fullName ++ ".d") := by
    have level := @level_fontDirectory "" (by decide) fullName
    rwa [fontDirectory, joinPath_empty] at level
  obtain ⟨front, last, _, names⟩ :=
    pathNames_append_plain (FileName.ofFont fullName).toList (show '/' ∉ ['.', 'd'] by decide)
  have split : namesOf (FileName.ofFont fullName ++ ".d") =
      front.map String.ofList ++ [String.ofList (last ++ ['.', 'd'])] := by
    rw [namesOf, String.toList_append]
    exact (congrArg (List.map String.ofList) names).trans (List.map_append)
  have ordinary : Ordinary (String.ofList (last ++ ['.', 'd'])) := by
    have ends : (String.ofList (last ++ ['.', 'd'])).toList.getLast? = some 'd' := by simp
    exact ordinary_of_last ends (by decide) (by decide)
  rw [split, List.mem_append, not_or] at level
  have above := prefix_foldl_descend level.1 (destination output)
  have lies : destination (fontDirectory output fullName) =
      (front.map String.ofList).foldl descend (destination output) ++ [String.ofList (last ++ ['.', 'd'])] := by
    rw [fontDirectory, destination_joinPath ((isAbsolute_ofFont fullName).trans relative), split, List.foldl_append]
    exact ordinary.descend_eq _
  rw [lies]
  exact inside_append above _

/-- The file of a glyph is one name below the directory of its font. -/
theorem destination_glyphPath_within (home output fullName name : String) :
    destination (joinPath home (glyphPath (fontDirectory output fullName) name)) =
      destination (joinPath home (fontDirectory output fullName)) ++ [FileName.ofGlyph name ++ ".svg"] := by
  rw [← glyphPath_joinPath, ← fontDirectory_joinPath]
  exact destination_glyphPath _ fullName name

/-! ### What drawing a font does -/

section Exports

variable {home : String} {storage : Storage (StateM FileTree)} {arguments : Arguments} {font : Font}
  {tree after : FileTree} {place : Place}

/-- The place of the directory of a font is free, or has been cleared. -/
inductive Clears (storage : Storage (StateM FileTree)) (force : Bool) (directory : String) (tree : FileTree) :
    FileTree → Prop where
  | vacant (unseen : (storage.occupied directory tree).1 = false) : Clears storage force directory tree tree
  | emptied (forced : force = true) : Clears storage force directory tree (storage.removeTree directory tree).2

/-- The tree after a font has been drawn, or drawing it has failed. -/
inductive Exports (storage : Storage (StateM FileTree)) (arguments : Arguments) (font : Font) (tree : FileTree) :
    FileTree → Prop where
  | refused (gentle : arguments.force = false) : Exports storage arguments font tree tree
  | stuck (forced : arguments.force = true) :
      Exports storage arguments font tree
        (storage.removeTree (fontDirectory arguments.output font.fullName) tree).2
  | unmade {cleared : FileTree}
      (clears : Clears storage arguments.force (fontDirectory arguments.output font.fullName) tree cleared) :
      Exports storage arguments font tree
        (storage.createTree (fontDirectory arguments.output font.fullName) cleared).2
  | written {cleared : FileTree}
      (clears : Clears storage arguments.force (fontDirectory arguments.output font.fullName) tree cleared)
      (made : (storage.createTree (fontDirectory arguments.output font.fullName) cleared).1 = .ok ()) :
      Exports storage arguments font tree
        (writeAll storage (documents (fontDirectory arguments.output font.fullName) font)
          (storage.createTree (fontDirectory arguments.output font.fullName) cleared).2).2

theorem clear_cases (faithful : Faithful home storage) {force : Bool} {directory : String}
    {result : Except ExportFailure Unit} (runs : clear storage force directory tree = (result, after)) :
    result = .ok () ∧ Clears storage force directory tree after ∨
      result ≠ .ok () ∧ (force = false ∧ after = tree ∨
        force = true ∧ after = (storage.removeTree directory tree).2) := by
  have looks := faithful.looks directory tree
  simp only [clear, bind, StateT.bind] at runs
  generalize seen : storage.occupied directory tree = given at looks runs
  obtain ⟨occupied, state⟩ := given
  obtain rfl : tree = state := looks.symm
  cases occupied with
  | false =>
    cases runs
    exact .inl ⟨rfl, .vacant (congrArg Prod.fst seen)⟩
  | true =>
    cases force with
    | false =>
      cases runs
      exact .inr ⟨nofun, .inl ⟨rfl, rfl⟩⟩
    | true =>
      simp only [if_true, StateT.bind] at runs
      generalize removed : storage.removeTree directory tree = given at runs
      obtain ⟨outcome, emptied⟩ := given
      cases outcome with
      | ok =>
        cases runs
        have there : (storage.removeTree directory tree).2 = emptied := congrArg Prod.snd removed
        exact .inl ⟨rfl, there ▸ .emptied rfl⟩
      | error error =>
        cases runs
        exact .inr ⟨nofun, .inr ⟨rfl, rfl⟩⟩

/-- Whatever comes of drawing a font, it is one of these. -/
theorem exports_exportFont (faithful : Faithful home storage) (arguments : Arguments) (font : Font) (tree : FileTree) :
    Exports storage arguments font tree (exportFont storage arguments font tree).2 := by
  simp only [exportFont, bind, StateT.bind]
  generalize runs : clear storage arguments.force (fontDirectory arguments.output font.fullName) tree = given
  obtain ⟨result, cleared⟩ := given
  rcases clear_cases faithful runs with ⟨rfl, clears⟩ | ⟨failed, ⟨gentle, rfl⟩ | ⟨forced, rfl⟩⟩
  · simp only [StateT.bind]
    generalize makes : storage.createTree (fontDirectory arguments.output font.fullName) cleared = given
    obtain ⟨outcome, made⟩ := given
    have there : (storage.createTree (fontDirectory arguments.output font.fullName) cleared).2 = made :=
      congrArg Prod.snd makes
    cases outcome with
    | ok =>
      have success : (storage.createTree (fontDirectory arguments.output font.fullName) cleared).1 = .ok () :=
        congrArg Prod.fst makes
      rw [← there]
      exact .written clears success
    | error error =>
      rw [← there]
      exact .unmade clears
  · cases result with
    | ok => exact absurd rfl failed
    | error failure => exact .refused gentle
  · cases result with
    | ok => exact absurd rfl failed
    | error failure => exact .stuck forced

/-- What each document keeps, all of them keep. -/
theorem writeAll_induction (holds : FileTree → Prop) {written : List (String × String)}
    (each : ∀ one ∈ written, ∀ tree, holds tree → holds (storage.write one.1 one.2 tree).2) (start : holds tree) :
    holds (writeAll storage written tree).2 := by
  induction written generalizing tree with
  | nil => exact start
  | cons one rest ih =>
    have kept := each one List.mem_cons_self tree start
    have further : ∀ tree, holds tree → holds (writeAll storage rest tree).2 := fun tree =>
      @ih tree fun one member => each one (List.mem_cons_of_mem _ member)
    simp only [writeAll, bind, StateT.bind]
    generalize storage.write one.1 one.2 tree = given at kept
    obtain ⟨outcome, wrote⟩ := given
    cases outcome with
    | ok => exact further wrote kept
    | error error => exact kept

/-- What each operation keeps, drawing a font keeps. -/
theorem exports_induction (holds : FileTree → Prop)
    (removes : arguments.force = true → ∀ tree, holds tree →
      holds (storage.removeTree (fontDirectory arguments.output font.fullName) tree).2)
    (creates : ∀ tree, holds tree → holds (storage.createTree (fontDirectory arguments.output font.fullName) tree).2)
    (writes : ∀ one ∈ documents (fontDirectory arguments.output font.fullName) font, ∀ tree, holds tree →
      holds (storage.write one.1 one.2 tree).2)
    (exports : Exports storage arguments font tree after) (start : holds tree) : holds after := by
  have clear {cleared : FileTree}
      (clears : Clears storage arguments.force (fontDirectory arguments.output font.fullName) tree cleared) :
      holds cleared := by
    cases clears with
    | vacant => exact start
    | emptied forced => exact removes forced tree start
  cases exports with
  | refused => exact start
  | stuck forced => exact removes forced tree start
  | unmade clears => exact creates _ (clear clears)
  | written clears => exact writeAll_induction holds writes (creates _ (clear clears))

/-- Documents are written inside the directory of their font. -/
theorem inside_of_mem_documents {output : String} {one : String × String}
    (member : one ∈ documents (fontDirectory output font.fullName) font) :
    Inside (destination (joinPath home (fontDirectory output font.fullName))) (destination (joinPath home one.1)) := by
  obtain ⟨glyph, _, rfl⟩ := List.mem_map.1 member
  dsimp only
  rw [destination_glyphPath_within]
  exact inside_append List.prefix_rfl _

/-- What is changed is the directory of the font, something in it, or a missing directory on the way to it. -/
theorem lookup?_exports (faithful : Faithful home storage) (exports : Exports storage arguments font tree after)
    (place : Place) :
    after.lookup? place = tree.lookup? place ∨
      destination (joinPath home (fontDirectory arguments.output font.fullName)) <+: place ∨
      tree.lookup? place = none ∧ after.lookup? place = some .directory ∧
        place ∈ waypoints (joinPath home (fontDirectory arguments.output font.fullName)) := by
  by_cases below : destination (joinPath home (fontDirectory arguments.output font.fullName)) <+: place
  · exact .inr (.inl below)
  have outside : after.lookup? place = tree.lookup? place ∨
      tree.lookup? place = none ∧ after.lookup? place = some .directory ∧
        place ∈ waypoints (joinPath home (fontDirectory arguments.output font.fullName)) := by
    refine exports_induction (fun current => current.lookup? place = tree.lookup? place ∨
      tree.lookup? place = none ∧ current.lookup? place = some .directory ∧
        place ∈ waypoints (joinPath home (fontDirectory arguments.output font.fullName)))
      ?removes ?creates ?writes exports (.inl rfl)
    case removes =>
      intro _ current holds
      rwa [(faithful.removes _ current).outside place below]
    case creates =>
      intro current holds
      rcases (faithful.creates _ current).new place with same | ⟨missing, there, passed | last⟩
      · rwa [same]
      · rcases holds with kept | ⟨_, directory, _⟩
        · exact .inr ⟨kept.symm.trans missing, there, passed⟩
        · rw [directory] at missing
          cases missing
      · rw [last] at below
        exact absurd List.prefix_rfl below
    case writes =>
      intro one member current holds
      have apart : place ≠ destination (joinPath home one.1) := by
        intro same
        rw [same] at below
        exact below (inside_of_mem_documents member).1
      rwa [(faithful.writes one.1 one.2 current).elsewhere place apart]
  exact outside.imp_right .inr

/-- Drawing a font changes its directory, what is in it and missing directories on the way to it alone. The directory is
below the output directory if the full name of the font does not begin with a slash; otherwise it is where the full name
says. Each glyph is written to a file directly in that directory. -/
theorem exportFont_confined (faithful : Faithful home storage) (arguments : Arguments) (font : Font) :
    let output := destination (joinPath home arguments.output)
    let path := joinPath home (fontDirectory arguments.output font.fullName)
    (isAbsolute font.fullName.toList = false → Inside output (destination path)) ∧
    (isAbsolute font.fullName.toList = true → path = FileName.ofFont font.fullName ++ ".d") ∧
    (∀ glyph ∈ font.glyphs, ∃ file, Ordinary file ∧ '/' ∉ file.toList ∧
      destination (joinPath home (glyphPath (fontDirectory arguments.output font.fullName) glyph.name)) =
        destination path ++ [file]) ∧
    ∀ tree place,
      (exportFont storage arguments font tree).2.lookup? place = tree.lookup? place ∨ destination path <+: place ∨
        tree.lookup? place = none ∧ (exportFont storage arguments font tree).2.lookup? place = some .directory ∧
          place ∈ waypoints path := by
  intro output path
  refine ⟨?_, ?_, ?_, ?_⟩
  · intro relative
    have inside := inside_fontDirectory relative (joinPath home arguments.output)
    rwa [fontDirectory_joinPath] at inside
  · intro absolute
    have same := fontDirectory_of_absolute absolute (joinPath home arguments.output)
    rwa [fontDirectory_joinPath] at same
  · intro glyph _
    have plain : '/' ∉ (FileName.ofGlyph glyph.name ++ ".svg").toList := by
      rw [String.toList_append, List.mem_append, not_or]
      exact ⟨not_mem_blank (by decide) (by decide), by decide⟩
    exact ⟨_, (ordinary_glyphFile glyph.name).1, plain, destination_glyphPath_within _ _ _ _⟩
  · intro tree place
    exact lookup?_exports faithful (exports_exportFont faithful arguments font tree) place

end Exports

/-- The data of a font with the name `/F` and no glyph but an empty one. -/
def stray : List UInt8 :=
  [1, 0, 4, 1] ++ [0, 1, 1, 1, 3, 47, 70] ++ [0, 1, 1, 1, 3, 161, 17] ++ [0, 0] ++ [0, 0] ++ [0, 1, 1, 1, 2, 14]

def strayFile : FontFile := Font.fileOf stray

def strayFont : Font := Font.assembled {} strayFile "/F" "/F" [0] [".notdef"]

theorem decode_stray : (Font.decode {} (FontSet.marker ++ 32 :: stray)).result = .ok strayFont := by
  have evaluated : Font.Evaluated stray "/F" "/F" [0] [".notdef"] := by decide +kernel
  obtain ⟨read, prepared⟩ := Font.prepared_of_evaluated evaluated
  exact Font.decode_eq_assembled rfl read prepared (by decide +kernel)

/-- Seen from the directory `/w`, a font with the name `../x` goes below the output directory, and one with the name
`/F` goes to the root. -/
theorem exportFont_confined_stray :
    let below : Font := { strayFont with fullName := "../x" }
    Faithful "/w" (FileTree.storage.within "/w") ∧
      Inside ["/", "w", "out"] (destination (joinPath "/w" (fontDirectory "out" below.fullName))) ∧
      joinPath "/w" (fontDirectory "out" strayFont.fullName) = "/F.d" ∧
      ∀ glyph ∈ strayFont.glyphs, ∃ file, '/' ∉ file.toList ∧
        destination (joinPath "/w" (glyphPath (fontDirectory "out" strayFont.fullName) glyph.name)) =
          ["/", "F.d", file] := by
  intro below
  have faithful : Faithful "/w" (FileTree.storage.within "/w") := faithful_storage.within "/w"
  have output : destination (joinPath "/w" "out") = ["/", "w", "out"] := by decide +kernel
  have first := exportFont_confined faithful { output := "out", files := [] } below
  have second := exportFont_confined faithful { output := "out", files := [] } strayFont
  have name : FileName.ofFont strayFont.fullName ++ ".d" = "/F.d" := by decide +kernel
  have place : destination (joinPath "/w" (fontDirectory "out" strayFont.fullName)) = ["/", "F.d"] := by decide +kernel
  refine ⟨faithful, ?_, ?_, ?_⟩
  · rw [← output]
    exact first.1 (by decide +kernel)
  · rw [← name]
    exact second.2.1 (by decide +kernel)
  · intro glyph member
    obtain ⟨file, _, plain, lies⟩ := second.2.2.1 glyph member
    rw [place] at lies
    exact ⟨file, plain, lies⟩

/-- A font can be drawn outside of the output directory. -/
theorem not_all_directories_inside :
    ¬ ∀ (bytes : List UInt8) (options : Options) (font : Font) (output : String),
      (Font.decode options bytes).result = .ok font →
      Inside (destination output) (destination (fontDirectory output font.fullName)) := by
  intro all
  have inside := all _ {} _ "out" decode_stray
  have above : ¬ destination "out" <+: destination (fontDirectory "out" strayFont.fullName) := by decide +kernel
  exact above inside.1

end CommandLine
end CompactFont
