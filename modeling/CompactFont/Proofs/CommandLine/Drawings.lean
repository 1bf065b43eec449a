import CompactFont.Proofs.Batch
import CompactFont.Proofs.CommandLine.Confinement

/-! What is left of the drawings of a run that reports no failure. Two glyphs of a font may share a file, and the later
one is kept. A font may have its directory removed when a later one is drawn. Nothing else is lost. -/

namespace CompactFont.CommandLine

open FileTree

variable {arguments : Arguments} {font : Font} {tree after : FileTree} {directory path : String} {place : Place}
  {entry : Entry}

/-! ### What drawing a font does -/

/-- The fonts that a run decodes, in the order in which it draws them. -/
def batchFonts (storage : Storage (StateM FileTree)) (arguments : Arguments) (tree : FileTree) : List Font :=
  (Batch.decode storage arguments.options {} arguments.files tree).1.1.fonts.values

/-- What a run reports of its batch and of the fonts that it could not draw. -/
def concluded (batch : Batch) (undrawn : List String) : Report :=
  let complaints := (batch.failures.map fun (path, failure) => path ++ ": " ++ failure.text) ++ undrawn
  { exitCode := if complaints = [] then 0 else 1, complaints }

/-- Where reading changes nothing, nothing is changed before the first font is drawn. -/
theorem draw_eq {storage : Storage (StateM FileTree)} (still : ∀ path, (storage.read path tree).2 = tree)
    (arguments : Arguments) :
    draw storage arguments tree =
      (concluded (Batch.decode storage arguments.options {} arguments.files tree).1.1
          (exportAll storage arguments (batchFonts storage arguments tree) tree).1,
        (exportAll storage arguments (batchFonts storage arguments tree) tree).2) := by
  have unread : (Batch.decode storage arguments.options {} arguments.files tree).2 = tree :=
    (Batch.decode_eq_addAll still {} arguments.files).2
  have drawn : draw storage arguments tree =
      let given := Batch.decode storage arguments.options {} arguments.files tree
      (concluded given.1.1 (exportAll storage arguments given.1.1.fonts.values given.2).1,
        (exportAll storage arguments given.1.1.fonts.values given.2).2) := rfl
  rw [drawn]
  simp only [unread, batchFonts]

/-- The data of a font with the glyphs `a.b`, which draws nothing, and `a_b`, which draws a line. -/
def clashing : List UInt8 :=
  [1, 0, 4, 1] ++ [0, 1, 1, 1, 2, 70] ++ [0, 1, 1, 1, 9, 28, 0, 37, 15, 28, 0, 42, 17] ++
    [0, 2, 1, 1, 4, 7, 97, 46, 98, 97, 95, 98] ++ [0, 0] ++ [0, 1, 135, 1, 136] ++
    [0, 3, 1, 1, 2, 3, 10, 14, 14, 139, 139, 21, 149, 139, 5, 14]

def clashingFile : FontFile := Font.fileOf clashing

def clashingFont : Font := Font.assembled {} clashingFile "F" "F" [0, 391, 392] [".notdef", "a.b", "a_b"]

theorem decode_clashing : (Font.decode {} (FontSet.marker ++ 32 :: clashing)).result = .ok clashingFont := by
  have evaluated : Font.Evaluated clashing "F" "F" [0, 391, 392] [".notdef", "a.b", "a_b"] := by decide +kernel
  obtain ⟨read, prepared⟩ := Font.prepared_of_evaluated evaluated
  exact Font.decode_eq_assembled rfl read prepared (by decide +kernel)

theorem batch_clashing (found : tree.read "f" = .ok (FontSet.marker ++ 32 :: clashing)) :
    (Batch.decode storage {} {} ["f"] tree).1.1 = Batch.add {} "f" (.ok clashingFont) := by
  have gives : Batch.alone storage {} tree "f" = .ok clashingFont := by
    simp only [Batch.alone_eq, storage, found, decode_clashing]
    rfl
  rw [(Batch.decode_eq_addAll (fun _ => rfl) {} ["f"]).1, Batch.addAll_cons, Batch.addAll_nil, gives]

/-- Draws that font into a directory of its own. -/
def drawing : Arguments := { output := "out", files := ["f"] }

end CompactFont.CommandLine
