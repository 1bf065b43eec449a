import CompactFont.Proofs.CommandLine.Confinement
import CompactFont.Proofs.CommandLine.Drawings

/-! What a run leaves as it was. A file that was there before is kept, unless existing directories are to be replaced
and it lies in the directory of a font, or it lies there and the path to that directory goes up out of a directory that
was missing: such a path leads nowhere until the missing directory is made, and by then it is too late to look. -/

namespace CompactFont.CommandLine

open FileTree

variable {home : String} {storage : Storage (StateM FileTree)} {arguments : Arguments} {font : Font}
  {tree after : FileTree} {place : Place} {bytes : List UInt8}

/-- Whether the directory of a font exists cannot be seen: the path to it goes up, and a directory on it is missing. -/
structure Hidden (home output : String) (tree : FileTree) (fullName : String) : Prop where
  up : ".." ∈ namesOf (joinPath home output)
  missing : ∃ place ∈ waypoints (joinPath home (fontDirectory output fullName)), tree.lookup? place = none

/-- In a tree with less in it no less is hidden. -/
theorem Hidden.of_fewer {output fullName : String} (hidden : Hidden home output after fullName)
    (fewer : ∀ place, after.lookup? place = none → tree.lookup? place = none) : Hidden home output tree fullName := by
  obtain ⟨passed, member, absent⟩ := hidden.missing
  exact ⟨hidden.up, passed, member, fewer passed absent⟩

/-! ### One font -/

theorem there_createTree (faithful : Faithful home storage) (directory : String) {entry : Entry}
    (there : tree.lookup? place = some entry) : (storage.createTree directory tree).2.lookup? place = some entry := by
  rcases (faithful.creates directory tree).new place with same | ⟨missing, _⟩
  · exact same.trans there
  · rw [there] at missing
    cases missing

/-- A file that is not inside the directory of a font is kept when the font is drawn. -/
theorem file_exports_of_not_inside (faithful : Faithful home storage)
    (exports : Exports storage arguments font tree after) (there : tree.lookup? place = some (.file bytes))
    (beside : ¬ Inside (destination (joinPath home (fontDirectory arguments.output font.fullName))) place) :
    after.lookup? place = some (.file bytes) := by
  refine exports_induction (fun current => current.lookup? place = some (.file bytes)) ?removes ?creates ?writes
    exports there
  case removes =>
    intro _ current there
    by_cases same : place = destination (joinPath home (fontDirectory arguments.output font.fullName))
    · rw [same] at there ⊢
      exact (faithful.removes _ current).file bytes there
    · rw [(faithful.removes _ current).outside place fun below => beside ⟨below, same⟩]
      exact there
  case creates => exact fun current there => there_createTree faithful _ there
  case writes =>
    intro one member current there
    rw [(faithful.writes one.1 one.2 current).elsewhere place]
    · exact there
    · intro same
      rw [same] at beside
      exact beside (inside_of_mem_documents member)

/-- A directory that exists is not made anew unless it is hidden. -/
theorem hidden_of_created (faithful : Faithful home storage) (rooted : tree.Rooted)
    (there : tree.lookup? (destination (joinPath home (fontDirectory arguments.output font.fullName))) =
      some .directory)
    (unseen : (storage.occupied (fontDirectory arguments.output font.fullName) tree).1 = false)
    (made : (storage.createTree (fontDirectory arguments.output font.fullName) tree).1 = .ok ()) :
    Hidden home arguments.output tree font.fullName := by
  have stray : ∃ passed ∈ waypoints (joinPath home (fontDirectory arguments.output font.fullName)),
      tree.lookup? passed ≠ some .directory := by
    by_contra all
    push Not at all
    rw [faithful.sees _ tree _ all there made] at unseen
    cases unseen
  obtain ⟨passed, member, notDirectory⟩ := stray
  have missing : tree.lookup? passed = none := by
    cases found : tree.lookup? passed with
    | none => rfl
    | some entry =>
      have kept := there_createTree faithful (fontDirectory arguments.output font.fullName) found
      rw [faithful.reaches _ tree made passed member] at kept
      rw [found, ← kept] at notDirectory
      exact absurd rfl notDirectory
  refine ⟨?_, passed, member, missing⟩
  -- a path that does not go up leads only past directories above its end, and these are there
  by_contra level
  have ordered := level_fontDirectory level font.fullName
  rw [fontDirectory_joinPath] at ordered
  have upper := prefix_of_mem_waypoints ordered member
  by_cases same : passed = destination (joinPath home (fontDirectory arguments.output font.fullName))
  · rw [same, there] at missing
    cases missing
  · rw [rooted _ _ passed there upper same] at missing
    cases missing

/-- Drawing a font keeps a file, unless the file is inside its directory and that is replaced or hidden. -/
theorem file_exports (faithful : Faithful home storage) (rooted : tree.Rooted)
    (exports : Exports storage arguments font tree after) (there : tree.lookup? place = some (.file bytes)) :
    after.lookup? place = some (.file bytes) ∨
      Inside (destination (joinPath home (fontDirectory arguments.output font.fullName))) place ∧
        (arguments.force = true ∨ Hidden home arguments.output tree font.fullName) := by
  by_cases inside : Inside (destination (joinPath home (fontDirectory arguments.output font.fullName))) place
  · have directory := rooted place _ _ there inside.1 (Ne.symm inside.2)
    cases exports with
    | refused => exact .inl there
    | stuck forced => exact .inr ⟨inside, .inl forced⟩
    | unmade clears =>
      cases clears with
      | vacant => exact .inl (there_createTree faithful _ there)
      | emptied forced => exact .inr ⟨inside, .inl forced⟩
    | written clears made =>
      cases clears with
      | vacant unseen => exact .inr ⟨inside, .inr (hidden_of_created faithful rooted directory unseen made)⟩
      | emptied forced => exact .inr ⟨inside, .inl forced⟩
  · exact .inl (file_exports_of_not_inside faithful exports there inside)

theorem rooted_exports (faithful : Faithful home storage) (exports : Exports storage arguments font tree after)
    (rooted : tree.Rooted) : after.Rooted := by
  refine exports_induction Rooted ?removes ?creates ?writes exports rooted
  case removes => exact fun _ current => (faithful.removes _ current).rooted
  case creates => exact fun current => (faithful.creates _ current).rooted
  case writes => exact fun one _ current => (faithful.writes one.1 one.2 current).rooted

/-- Nothing is removed but by force. -/
theorem present_exports (faithful : Faithful home storage) (gentle : arguments.force = false)
    (exports : Exports storage arguments font tree after) (absent : after.lookup? place = none) :
    tree.lookup? place = none := by
  by_contra there
  refine exports_induction (fun current => current.lookup? place ≠ none) ?removes ?creates ?writes exports there absent
  case removes =>
    intro forced
    rw [gentle] at forced
    cases forced
  case creates =>
    intro current there
    obtain ⟨entry, found⟩ := Option.ne_none_iff_exists'.1 there
    rw [there_createTree faithful _ found]
    exact nofun
  case writes =>
    intro one _ current there
    have law := faithful.writes one.1 one.2 current
    by_cases same : place = destination (joinPath home one.1)
    · subst same
      rcases law.here with kept | ⟨_, bytes, file⟩
      · rwa [kept]
      · rw [file]
        exact nofun
    · rwa [law.elsewhere place same]

/-! ### A run -/

theorem exportAll_cons_snd (storage : Storage (StateM FileTree)) (arguments : Arguments) (font : Font)
    (fonts : List Font) (tree : FileTree) :
    (exportAll storage arguments (font :: fonts) tree).2 =
      (exportAll storage arguments fonts (exportFont storage arguments font tree).2).2 := by
  simp only [exportAll, bind, StateT.bind]
  generalize exportFont storage arguments font tree = given
  obtain ⟨result, drawn⟩ := given
  cases result <;> rfl

theorem exportAll_append_snd (storage : Storage (StateM FileTree)) (arguments : Arguments) (fonts more : List Font)
    (tree : FileTree) :
    (exportAll storage arguments (fonts ++ more) tree).2 =
      (exportAll storage arguments more (exportAll storage arguments fonts tree).2).2 := by
  induction fonts generalizing tree with
  | nil => rfl
  | cons font fonts ih => rw [List.cons_append, exportAll_cons_snd, exportAll_cons_snd, ih]

theorem rooted_exportAll (faithful : Faithful home storage) (arguments : Arguments) (fonts : List Font)
    (rooted : tree.Rooted) : (exportAll storage arguments fonts tree).2.Rooted := by
  induction fonts generalizing tree with
  | nil => exact rooted
  | cons font fonts ih =>
    rw [exportAll_cons_snd]
    exact ih (rooted_exports faithful (exports_exportFont faithful arguments font tree) rooted)

theorem present_exportAll (faithful : Faithful home storage) (gentle : arguments.force = false) (fonts : List Font)
    (absent : (exportAll storage arguments fonts tree).2.lookup? place = none) : tree.lookup? place = none := by
  induction fonts generalizing tree with
  | nil => exact absent
  | cons font fonts ih =>
    rw [exportAll_cons_snd] at absent
    exact present_exports faithful gentle (exports_exportFont faithful arguments font tree) (ih absent)

/-- Drawing fonts keeps a file, unless it is inside the directory of one of them and that is replaced or hidden. -/
theorem file_exportAll (faithful : Faithful home storage) (rooted : tree.Rooted) (fonts : List Font)
    (there : tree.lookup? place = some (.file bytes)) :
    (exportAll storage arguments fonts tree).2.lookup? place = some (.file bytes) ∨
      ∃ font ∈ fonts, Inside (destination (joinPath home (fontDirectory arguments.output font.fullName))) place ∧
        (arguments.force = true ∨ Hidden home arguments.output tree font.fullName) := by
  induction fonts generalizing tree with
  | nil => exact .inl there
  | cons font fonts ih =>
    have exports := exports_exportFont faithful arguments font tree
    rw [exportAll_cons_snd]
    rcases file_exports faithful rooted exports there with kept | touched
    · rcases ih (rooted_exports faithful exports rooted) kept with kept | ⟨other, member, inside, reason⟩
      · exact .inl kept
      · refine .inr ⟨other, List.mem_cons_of_mem _ member, inside, ?_⟩
        cases force : arguments.force with
        | true => exact .inl rfl
        | false =>
          rw [force] at reason
          rcases reason with forced | hidden
          · cases forced
          · exact .inr (hidden.of_fewer fun _ => present_exports faithful force exports)
    · exact .inr ⟨font, List.mem_cons_self, touched⟩

/-- All that a run does to the tree is to draw the fonts that it has decoded. -/
theorem draw_snd (faithful : Faithful home storage) (arguments : Arguments) (tree : FileTree) :
    (draw storage arguments tree).2 = (exportAll storage arguments (batchFonts storage arguments tree) tree).2 := by
  rw [draw_eq fun path => faithful.reads path tree]

/-- Words that do not ask for drawings change nothing, and the command fails unless they are a question. -/
theorem run_of_interrupted {words : List String} {interruption : Interruption}
    (interrupted : Arguments.parse words = .error interruption) (tree : FileTree) :
    (run storage words tree).2 = tree ∧
      ((run storage words tree).1.exitCode = 0 ↔ interruption.isQuestion = true) := by
  have ended : run storage words tree = (interruption.report, tree) := by
    rw [run, interrupted]
    rfl
  rw [ended]
  unfold Interruption.report
  cases interruption.isQuestion with
  | true => exact ⟨rfl, iff_of_true rfl rfl⟩
  | false =>
    have fails : (2 : UInt8) ≠ 0 := by decide
    exact ⟨rfl, iff_of_false fails Bool.false_ne_true⟩

example : (run FileTree.storage ["-f", "a", "-V", "--unknown"] {}).1.exitCode = 0 := by decide +kernel

/-- A file that was there before a run is there after it, unchanged, unless it lies inside the directory of one of the
fonts and that is replaced by force or hidden. And without force what is written for a font is kept by those drawn after
it, unless the directory of one of these is hidden. -/
theorem files_kept (faithful : Faithful home storage) (rooted : tree.Rooted) (arguments : Arguments) :
    let after := (draw storage arguments tree).2
    let directory (font : Font) := destination (joinPath home (fontDirectory arguments.output font.fullName))
    (∀ place bytes, tree.lookup? place = some (.file bytes) →
      after.lookup? place = some (.file bytes) ∨
      ∃ font ∈ batchFonts storage arguments tree, Inside (directory font) place ∧
        (arguments.force = true ∨ Hidden home arguments.output tree font.fullName)) ∧
    (arguments.force = false → ∀ before font later, batchFonts storage arguments tree = before ++ font :: later →
      ∀ place bytes, (exportAll storage arguments (before ++ [font]) tree).2.lookup? place = some (.file bytes) →
        after.lookup? place = some (.file bytes) ∨
        ∃ other ∈ later, Inside (directory other) place ∧ Hidden home arguments.output tree other.fullName) := by
  intro after directory
  have drawn : after = (exportAll storage arguments (batchFonts storage arguments tree) tree).2 :=
    draw_snd faithful arguments tree
  rw [drawn]
  refine ⟨fun place bytes there => file_exportAll faithful rooted _ there, ?_⟩
  intro gentle before font later fonts place bytes there
  rw [fonts, List.append_cons, exportAll_append_snd]
  have rooted := rooted_exportAll faithful arguments (before ++ [font]) rooted
  rcases file_exportAll faithful rooted later there with kept | ⟨other, member, inside, forced | hidden⟩
  · exact .inl kept
  · rw [gentle] at forced
    cases forced
  · exact .inr ⟨other, member, inside, hidden.of_fewer fun _ => present_exportAll faithful gentle _⟩

/-- A tree with a directory in which there are a font with the full name `F` and, where its first glyph would be drawn,
a file. -/
def occupiedDesk (home : Place) : FileTree where
  entries := [(home ++ ["f"], .file (FontSet.marker ++ 32 :: clashing)), (home ++ ["out"], .directory),
    (home ++ ["out", "F.d"], .directory), (home ++ ["out", "F.d", "_notdef.svg"], .file [97, 98])]

theorem files_kept_occupied :
    Faithful "/" (FileTree.storage.within "/") ∧ (occupiedDesk ["/"]).Rooted ∧
      (draw (FileTree.storage.within "/") drawing (occupiedDesk ["/"])).2.lookup? ["/", "out", "F.d", "_notdef.svg"] =
        some (.file [97, 98]) := by
  have faithful : Faithful "/" (FileTree.storage.within "/") := faithful_storage.within "/"
  have rooted : (occupiedDesk ["/"]).Rooted := rooted_of_entries (by decide +kernel)
  refine ⟨faithful, rooted, ?_⟩
  have there : (occupiedDesk ["/"]).lookup? ["/", "out", "F.d", "_notdef.svg"] = some (.file [97, 98]) := by
    decide +kernel
  rcases (files_kept faithful rooted drawing).1 _ _ there with same | ⟨_, _, _, forced | hidden⟩
  · exact same
  · cases forced
  · exact absurd hidden.up (by decide +kernel)

/-- A file can be overwritten without force. -/
theorem not_all_files_kept :
    ¬ ∀ (arguments : Arguments) (tree : FileTree), tree.Rooted → arguments.force = false →
      ∀ place bytes, tree.lookup? place = some (.file bytes) →
        (draw FileTree.storage arguments tree).2.lookup? place = some (.file bytes) := by
  intro all
  let arguments : Arguments := { output := "new/../out", files := ["f"] }
  have found : (occupiedDesk []).read "f" = .ok (FontSet.marker ++ 32 :: clashing) := by decide +kernel
  have fonts : batchFonts FileTree.storage arguments (occupiedDesk []) = [clashingFont] :=
    congrArg (fun batch : Batch => batch.fonts.values) (batch_clashing found)
  have there : (occupiedDesk []).lookup? ["out", "F.d", "_notdef.svg"] = some (.file [97, 98]) := by decide +kernel
  have same := all arguments (occupiedDesk []) (rooted_of_entries (by decide +kernel)) rfl _ _ there
  rw [draw_snd faithful_storage, fonts] at same
  have other : (exportAll FileTree.storage arguments [clashingFont] (occupiedDesk [])).2.lookup?
      ["out", "F.d", "_notdef.svg"] ≠ some (.file [97, 98]) := by
    decide +kernel
  exact other same

end CompactFont.CommandLine
