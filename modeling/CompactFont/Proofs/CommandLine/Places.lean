import CompactFont.CommandLine.Run
import CompactFont.Proofs.Storage.Places

/-! Where drawings go. Whatever a font and its glyphs are called, the directory of the font is named as no document is,
and the documents are one name below it. -/

namespace CompactFont.CommandLine

open FileTree

theorem not_mem_blank {characters : List Char} {c : Char} {name : String} (barred : c ∈ characters) (notBlank : c ≠ '_') :
    c ∉ (FileName.blank characters name).toList := by
  simp only [FileName.blank, String.toList_ofList, List.mem_map, not_exists, not_and]
  intro d _ same
  split at same
  · exact notBlank same.symm
  next free =>
    cases same
    exact free barred

theorem exists_fontDirectory (output fullName : String) :
    ∃ front, (fontDirectory output fullName).toList = front ++ ['.', 'd'] := by
  rcases joinPath_cases output (FileName.ofFont fullName ++ ".d") with same | ⟨front, same, _⟩
  · exact ⟨_, by rw [fontDirectory, same, String.toList_append]; rfl⟩
  · refine ⟨front ++ '/' :: (FileName.ofFont fullName).toList, ?_⟩
    rw [fontDirectory, same, String.toList_append, List.append_assoc, List.cons_append]
    rfl

/-- The directory of a font leads up only where the output directory does. -/
theorem level_fontDirectory {output : String} (level : ".." ∉ namesOf output) (fullName : String) :
    ".." ∉ namesOf (fontDirectory output fullName) := by
  have plain : ".." ∉ namesOf (FileName.ofFont fullName ++ ".d") := by
    intro member
    obtain ⟨name, member, dots⟩ := List.mem_map.1 member
    have dots : name = ['.', '.'] := by rw [← String.toList_ofList (l := name), dots]; rfl
    have few := (sublist_of_mem_pathNames member).count_le '.'
    have none : '.' ∉ (FileName.ofFont fullName).toList := not_mem_blank (by decide) (by decide)
    rw [dots, String.toList_append, List.count_append, List.count_eq_zero_of_not_mem none] at few
    exact absurd few (by decide)
  rcases joinPath_cases output (FileName.ofFont fullName ++ ".d") with same | ⟨front, same, ends⟩
  · rwa [fontDirectory, same]
  · rw [fontDirectory, namesOf, same, pathNames_append_slash, List.map_append, List.mem_append, not_or]
    refine ⟨?_, plain⟩
    intro member
    apply level
    rcases ends with ends | ends
    · rwa [namesOf, ends]
    · rw [namesOf, ends, pathNames_append_slash, List.map_append]
      exact List.mem_append_left _ member

variable (output fullName name : String)

theorem ordinary_glyphFile : Ordinary (FileName.ofGlyph name ++ ".svg") ∧
    (FileName.ofGlyph name ++ ".svg").toList.getLast? = some 'g' := by
  have ends : (FileName.ofGlyph name ++ ".svg").toList.getLast? = some 'g' := by simp
  exact ⟨ordinary_of_last ends (by decide) (by decide), ends⟩

/-- The file of a glyph is one name below the directory of its font. -/
theorem names_glyphPath :
    namesOf (glyphPath (fontDirectory output fullName) name) =
      namesOf (fontDirectory output fullName) ++ [FileName.ofGlyph name ++ ".svg"] ∧
    origin (glyphPath (fontDirectory output fullName) name) = origin (fontDirectory output fullName) := by
  obtain ⟨path, split⟩ := exists_fontDirectory output fullName
  have plain : '/' ∉ (FileName.ofGlyph name ++ ".svg").toList := by
    rw [String.toList_append, List.mem_append, not_or]
    exact ⟨not_mem_blank (by decide) (by decide), by decide⟩
  have ends : (fontDirectory output fullName).toList.getLast? = some 'd' := by simp [split]
  obtain ⟨joined, first⟩ := namesOf_joinPath ends (by decide) plain
  exact ⟨joined, first⟩

theorem destination_glyphPath :
    destination (glyphPath (fontDirectory output fullName) name) =
      destination (fontDirectory output fullName) ++ [FileName.ofGlyph name ++ ".svg"] := by
  obtain ⟨names, start⟩ := names_glyphPath output fullName name
  rw [destination, names, start, List.foldl_append]
  exact (ordinary_glyphFile name).1.descend_eq _

end CompactFont.CommandLine
