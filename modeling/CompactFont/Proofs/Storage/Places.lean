import Mathlib.Data.List.Infix
import CompactFont.Storage.FileTree

/-! Where paths lead. A path names a place and the directories on the way to it, whether or not there is anything; a
file tree holds something at a path only if all these directories are there. -/

namespace CompactFont

/-! ### Names in paths -/

theorem pathNames_ne_nil (path : List Char) : pathNames path ≠ [] := by
  cases path with
  | nil => exact List.cons_ne_nil _ _
  | cons c rest =>
    unfold pathNames
    split
    · exact List.cons_ne_nil _ _
    · split <;> exact List.cons_ne_nil _ _

theorem pathNames_append_slash (path rest : List Char) :
    pathNames (path ++ '/' :: rest) = pathNames path ++ pathNames rest := by
  induction path with
  | nil => simp [pathNames]
  | cons c path ih =>
    simp only [List.cons_append, pathNames, ih]
    split
    · rfl
    · cases names : pathNames path with
      | nil => exact absurd names (pathNames_ne_nil path)
      | cons name names => rfl

theorem pathNames_plain {name : List Char} (plain : '/' ∉ name) : pathNames name = [name] := by
  induction name with
  | nil => rfl
  | cons c name ih =>
    rw [List.mem_cons, not_or] at plain
    rw [pathNames, if_neg (Ne.symm plain.1), ih plain.2]

/-- What is added without a slash belongs to the last name. -/
theorem pathNames_append_plain (path : List Char) {suffix : List Char} (plain : '/' ∉ suffix) :
    ∃ front last, pathNames path = front ++ [last] ∧ pathNames (path ++ suffix) = front ++ [last ++ suffix] := by
  induction path with
  | nil => exact ⟨[], [], rfl, pathNames_plain plain⟩
  | cons c path ih =>
    obtain ⟨front, last, names, longer⟩ := ih
    simp only [List.cons_append, pathNames, names, longer]
    split
    · exact ⟨[] :: front, last, rfl, rfl⟩
    · cases front with
      | nil => exact ⟨[], c :: last, rfl, rfl⟩
      | cons first front => exact ⟨(c :: first) :: front, last, rfl, rfl⟩

theorem sublist_of_mem_pathNames {path name : List Char} (member : name ∈ pathNames path) : name.Sublist path := by
  induction path generalizing name with
  | nil =>
    cases List.mem_singleton.1 member
    exact List.nil_sublist []
  | cons c path ih =>
    unfold pathNames at member
    split at member
    · rcases List.mem_cons.1 member with rfl | member
      · exact List.nil_sublist _
      · exact (ih member).cons c
    · cases names : pathNames path with
      | nil => exact absurd names (pathNames_ne_nil path)
      | cons first front =>
        rw [names] at member ih
        rcases List.mem_cons.1 member with rfl | member
        · exact (ih List.mem_cons_self).cons_cons c
        · exact (ih (List.mem_cons_of_mem _ member)).cons c

/-- A name stands alone or behind a slash. -/
theorem joinPath_cases (directory name : String) :
    joinPath directory name = name ∨ ∃ front, (joinPath directory name).toList = front ++ '/' :: name.toList ∧
      (directory.toList = front ∨ directory.toList = front ++ ['/']) := by
  unfold joinPath
  split
  · exact .inl rfl
  · right
    split
    next ends =>
      obtain ⟨front, split⟩ := List.getLast?_eq_some_iff.1 (eq_of_beq ends)
      refine ⟨front, ?_, .inr split⟩
      rw [String.toList_append, split, List.append_assoc, List.singleton_append]
    next =>
      refine ⟨directory.toList, ?_, .inl rfl⟩
      simp

namespace FileTree

/-! ### Places -/

/-- The directories that names lead through, from the first place on. -/
def through (place : Place) : List String → List Place
  | [] => []
  | name :: names => place :: through (descend place name) names

/-- Where the names of a path start. -/
def origin (path : String) : Place := if isAbsolute path.toList then ["/"] else []

/-- The place that a path names. -/
def destination (path : String) : Place := (namesOf path).foldl descend (origin path)

/-- The directories that a path leads through. -/
def waypoints (path : String) : List Place := through (origin path) (namesOf path)

/-- A name of one place further down. -/
structure Ordinary (name : String) : Prop where
  empty : name ≠ ""
  here : name ≠ "."
  above : name ≠ ".."
  root : name ≠ "/"

theorem Ordinary.descend_eq {name : String} (ordinary : Ordinary name) (place : Place) :
    descend place name = place ++ [name] := by
  rw [descend, if_neg (not_or.2 ⟨ordinary.empty, ordinary.here⟩), if_neg ordinary.above]

theorem ordinary_of_last {name : String} {c : Char} (last : name.toList.getLast? = some c) (notDot : c ≠ '.')
    (notSlash : c ≠ '/') : Ordinary name := by
  constructor <;> rintro rfl <;> cases last
  · exact notDot rfl
  · exact notDot rfl
  · exact notSlash rfl

theorem isGiven_origin (path : String) : isGiven (origin path) = true := by
  unfold origin
  split <;> rfl

/-- Nothing lies at or above the place where a path starts but places that are always there. -/
theorem isGiven_of_prefix_origin {place : Place} {path : String} (above : place <+: origin path) :
    isGiven place = true := by
  unfold origin at above
  split at above
  · have above : place <+: [] ++ ["/"] := above
    rcases List.prefix_concat_iff.1 above with rfl | above
    · rfl
    · cases List.prefix_nil.1 above
      rfl
  · cases List.prefix_nil.1 above
    rfl

/-- A name leads nowhere else, one place up or one place down. -/
theorem descend_cases (place : Place) (name : String) :
    descend place name = place ∨ descend place name = place.dropLast ∨ ∃ next, descend place name = place ++ [next] := by
  unfold descend
  split
  · exact .inl rfl
  split
  · unfold parent
    split
    · exact .inl rfl
    split
    next notRoot given =>
      -- above the working directory there are dots alone, and one step up is one more of them
      have dots : place = List.replicate place.length ".." := by
        apply List.eq_replicate_iff.2
        simpa [isGiven, notRoot] using given
      refine .inr (.inr ⟨"..", ?_⟩)
      rw [dots, ← List.replicate_succ, List.replicate_succ']
    · exact .inr (.inl rfl)
  · exact .inr (.inr ⟨name, rfl⟩)

theorem prefix_descend {place upper : Place} {name : String} (above : upper <+: descend place name) :
    upper <+: place ∨ upper = descend place name := by
  rcases descend_cases place name with same | up | ⟨next, down⟩
  · exact .inl (same ▸ above)
  · rw [up] at above
    exact .inl (above.trans (List.dropLast_prefix place))
  · rw [down] at above ⊢
    exact (List.prefix_concat_iff.1 above).symm

theorem prefix_foldl_descend {names : List String} (level : ".." ∉ names) (place : Place) :
    place <+: names.foldl descend place := by
  induction names generalizing place with
  | nil => exact List.prefix_rfl
  | cons name names ih =>
    rw [List.mem_cons, not_or] at level
    obtain ⟨notAbove, level⟩ := level
    have step : place <+: descend place name := by
      unfold descend
      split
      · exact List.prefix_rfl
      · rw [if_neg (Ne.symm notAbove)]
        exact List.prefix_append _ _
    exact step.trans (ih level _)

/-- Names that never lead up lead through directories above the last place alone. -/
theorem prefix_of_mem_through {place above : Place} {names : List String} (level : ".." ∉ names)
    (member : above ∈ through place names) : above <+: names.foldl descend place := by
  induction names generalizing place with
  | nil => cases member
  | cons name names ih =>
    rcases List.mem_cons.1 member with rfl | member
    · exact prefix_foldl_descend level above
    · exact ih (fun up => level (List.mem_cons_of_mem _ up)) member

theorem prefix_of_mem_waypoints {path : String} {place : Place} (level : ".." ∉ namesOf path)
    (member : place ∈ waypoints path) : place <+: destination path :=
  prefix_of_mem_through level member

/-- A single name below a directory is one name more. -/
theorem namesOf_joinPath {directory name : String} {last : Char} (ends : directory.toList.getLast? = some last)
    (notSlash : last ≠ '/') (plain : '/' ∉ name.toList) :
    namesOf (joinPath directory name) = namesOf directory ++ [name] ∧
      origin (joinPath directory name) = origin directory := by
  obtain ⟨front, split⟩ := List.getLast?_eq_some_iff.1 ends
  have relative : isAbsolute name.toList = false := by
    apply Bool.eq_false_iff.2
    intro absolute
    exact plain (List.mem_of_mem_head? (eq_of_beq absolute))
  have full : directory.isEmpty = false := by
    apply Bool.eq_false_iff.2
    intro empty
    cases String.isEmpty_iff.1 empty
    cases ends
  have joined : joinPath directory name = directory ++ "/" ++ name := by
    rw [joinPath, relative, full, ends]
    simp [notSlash]
  have list : (joinPath directory name).toList = directory.toList ++ '/' :: name.toList := by
    rw [joined]
    simp
  constructor
  · rw [namesOf, list, pathNames_append_slash, pathNames_plain plain, List.map_append]
    simp [namesOf]
  · rw [origin, origin, list, split]
    cases front <;> rfl

end FileTree
end CompactFont
