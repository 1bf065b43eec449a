import CompactFont.Fault
import CompactFont.Proofs.Storage.Places

/-! What each operation on a file tree needs and does: which directories have to be there, what is found at a place
afterwards, and which places stay as they are. -/

namespace CompactFont.FileTree

variable {tree after : FileTree} {path : String} {place other : Place} {entry : Entry}

/-! ### Entries -/

theorem lookup?_of_isGiven (given : isGiven place = true) (tree : FileTree) :
    tree.lookup? place = some .directory := by
  rw [lookup?, if_pos given]

theorem lookup_filter (keeps : Place → Bool) (kept : keeps place = true) (entries : List (Place × Entry)) :
    (entries.filter fun found => keeps found.1).lookup place = entries.lookup place := by
  induction entries with
  | nil => rfl
  | cons first entries ih =>
    obtain ⟨key, entry⟩ := first
    rw [List.filter_cons, List.lookup_cons]
    by_cases same : place = key
    · subst same
      rw [if_pos kept, List.lookup_cons_self, beq_self_eq_true]
    · have differs : (place == key) = false := beq_false_of_ne same
      rw [differs, ← ih]
      split
      · rw [List.lookup_cons, differs]
      · rfl

theorem lookup?_set_self (free : isGiven place = false) : (tree.set place entry).lookup? place = some entry := by
  rw [lookup?, free]
  exact List.lookup_cons_self

theorem lookup?_set_of_ne (differs : other ≠ place) : (tree.set place entry).lookup? other = tree.lookup? other := by
  have apart : (other == place) = false := beq_false_of_ne differs
  have kept : (other != place) = true := bne_iff_ne.2 differs
  rw [lookup?, lookup?, set, List.lookup_cons, apart]
  rw [lookup_filter (fun key => key != place) kept]

/-- What is not at or below a place stays when the place is removed. -/
theorem lookup?_remove (outside : ¬ place <+: other) : (tree.remove place).lookup? other = tree.lookup? other := by
  have kept : (!place.isPrefixOf other) = true := by
    rw [Bool.not_eq_true', Bool.eq_false_iff]
    intro below
    exact outside (List.isPrefixOf_iff_prefix.1 below)
  rw [lookup?, lookup?, remove]
  rw [lookup_filter (fun key => !place.isPrefixOf key) kept]

/-! ### Paths that are followed -/

/-- A path without names that the system refuses. -/
structure Legal (path : String) : Prop where
  noNul : '\x00' ∉ path.toList
  short : path.utf8ByteSize ≤ longestPath
  named : path ≠ ""
  names : ∀ name ∈ namesOf path, name.utf8ByteSize ≤ longestName

/-- A path whose directories are all there. -/
structure Reaches (tree : FileTree) (path : String) : Prop where
  legal : Legal path
  directories : ∀ place ∈ waypoints path, tree.lookup? place = some .directory

theorem split_eq_ok_iff {start : Place} {names : List String} :
    split path = .ok (start, names) ↔
      ('\x00' ∉ path.toList ∧ path.utf8ByteSize ≤ longestPath ∧ path ≠ "") ∧ start = origin path ∧
        names = namesOf path := by
  unfold split origin
  split
  next nul => simp_all
  split
  next long => simp; omega
  split
  next empty => simp [empty]
  next noNul short named =>
    have noNul : '\x00' ∉ path.toList := by simpa using noNul
    simp only [Except.ok.injEq, Prod.mk.injEq]
    constructor
    · rintro ⟨rfl, rfl⟩
      exact ⟨⟨noNul, Nat.le_of_not_lt short, named⟩, rfl, rfl⟩
    · rintro ⟨_, rfl, rfl⟩
      exact ⟨rfl, rfl⟩

theorem follow_eq_ok_iff {found : Place} {names : List String} :
    tree.follow place names = .ok found ↔
      (∀ passed ∈ through place names, tree.lookup? passed = some .directory) ∧
        (∀ name ∈ names, name.utf8ByteSize ≤ longestName) ∧ names.foldl descend place = found := by
  induction names generalizing place with
  | nil => simp [follow, through]
  | cons name names ih =>
    rw [follow]
    split
    next missing => simp [through, missing]
    next bytes file => simp [through, file]
    next directory =>
      split
      next long => simp [through, Nat.not_le.2 long]
      next short => simp [through, directory, ih, Nat.le_of_not_lt short]

/-- A path is followed to the place that it names, through the directories on the way. -/
theorem locate_eq_ok_iff : tree.locate path = .ok place ↔ Reaches tree path ∧ destination path = place := by
  rw [locate, bind_eq_ok_iff]
  constructor
  · rintro ⟨⟨start, names⟩, split, found⟩
    obtain ⟨⟨noNul, short, named⟩, rfl, rfl⟩ := split_eq_ok_iff.1 split
    obtain ⟨directories, names, found⟩ := follow_eq_ok_iff.1 found
    exact ⟨⟨⟨noNul, short, named, names⟩, directories⟩, found⟩
  · rintro ⟨⟨legal, directories⟩, found⟩
    refine ⟨(origin path, namesOf path), split_eq_ok_iff.2 ⟨⟨legal.noNul, legal.short, legal.named⟩, rfl, rfl⟩, ?_⟩
    exact follow_eq_ok_iff.2 ⟨directories, legal.names, found⟩

theorem read_eq_ok_iff {bytes : List UInt8} :
    tree.read path = .ok bytes ↔ Reaches tree path ∧ tree.lookup? (destination path) = some (.file bytes) := by
  rw [read, bind_eq_ok_iff]
  simp only [locate_eq_ok_iff]
  constructor
  · rintro ⟨_, ⟨reaches, rfl⟩, given⟩
    refine ⟨reaches, ?_⟩
    split at given
    next found => cases given; exact found
    next => cases given
    next => cases given
  · rintro ⟨reaches, found⟩
    refine ⟨_, ⟨reaches, rfl⟩, ?_⟩
    rw [found]
    rfl

theorem occupied_of_reaches (reaches : Reaches tree path) (found : tree.lookup? (destination path) = some entry) :
    tree.occupied path = true := by
  rw [occupied, locate_eq_ok_iff.2 ⟨reaches, rfl⟩]
  simp [found]

theorem removeTree_eq_ok_iff :
    tree.removeTree path = .ok after ↔ Reaches tree path ∧ tree.lookup? (destination path) = some .directory ∧
      after = tree.remove (destination path) := by
  rw [removeTree, bind_eq_ok_iff]
  simp only [locate_eq_ok_iff]
  constructor
  · rintro ⟨_, ⟨reaches, rfl⟩, given⟩
    split at given
    next found => cases given; exact ⟨reaches, found, rfl⟩
    next => cases given
    next => cases given
  · rintro ⟨reaches, found, rfl⟩
    refine ⟨_, ⟨reaches, rfl⟩, ?_⟩
    rw [found]
    rfl

theorem write_eq_ok_iff {text : String} :
    tree.write path text = .ok after ↔ Reaches tree path ∧ tree.lookup? (destination path) ≠ some .directory ∧
      after = tree.set (destination path) (.file text.toUTF8.toList) := by
  rw [write, bind_eq_ok_iff]
  simp only [locate_eq_ok_iff]
  constructor
  · rintro ⟨_, ⟨reaches, rfl⟩, given⟩
    split at given
    next => cases given
    next free => cases given; exact ⟨reaches, free, rfl⟩
  · rintro ⟨reaches, free, rfl⟩
    refine ⟨_, ⟨reaches, rfl⟩, ?_⟩
    split
    next found => exact absurd found free
    next => rfl

/-! ### Directories that are made -/

/-- One name further: it ends here, the directory is there, or it is made. -/
theorem createAlong_cons_cases (tree : FileTree) (made : Bool) (place : Place) (name : String) (names : List String) :
    (tree.createAlong made place (name :: names)).2 = tree ∨
      tree.lookup? (descend place name) = some .directory ∧
        tree.createAlong made place (name :: names) = tree.createAlong made (descend place name) names ∨
      tree.lookup? (descend place name) = none ∧
        tree.createAlong made place (name :: names) =
          (tree.set (descend place name) .directory).createAlong true (descend place name) names := by
  by_cases long : longestName < name.utf8ByteSize
  · left
    rw [createAlong, if_pos long]
  cases found : tree.lookup? (descend place name) with
  | none => simp [createAlong, long, found]
  | some entry => cases entry <;> simp [createAlong, long, found]

/-- Making directories changes nothing that is there. -/
theorem lookup?_createAlong {made : Bool} {names : List String} (there : tree.lookup? other = some entry) :
    (tree.createAlong made place names).2.lookup? other = some entry := by
  induction names generalizing tree made place with
  | nil => exact there
  | cons name names ih =>
    rcases createAlong_cons_cases tree made place name names with ends | ⟨_, goesOn⟩ | ⟨missing, goesOn⟩
    · rw [ends]
      exact there
    · rw [goesOn]
      exact ih there
    · rw [goesOn]
      apply ih
      rw [lookup?_set_of_ne, there]
      rintro rfl
      rw [missing] at there
      cases there

/-- Directories that could be made are there, and so are those on the way to them. -/
theorem createAlong_eq_ok {made : Bool} {names : List String} (start : tree.lookup? place = some .directory)
    (creates : tree.createAlong made place names = (.ok (), after)) :
    (∀ name ∈ names, name.utf8ByteSize ≤ longestName) ∧
      (∀ passed ∈ through place names, after.lookup? passed = some .directory) ∧
      after.lookup? (names.foldl descend place) = some .directory := by
  induction names generalizing tree made place with
  | nil =>
    cases creates
    exact ⟨nofun, nofun, start⟩
  | cons name names ih =>
    have kept : after.lookup? place = some .directory := by
      have kept : (tree.createAlong made place (name :: names)).2.lookup? place = some .directory :=
        lookup?_createAlong start
      rwa [creates] at kept
    rw [createAlong] at creates
    split at creates
    · cases creates
    next short =>
      have further : ∃ made tree, tree.lookup? (descend place name) = some .directory ∧
          createAlong tree made (descend place name) names = (.ok (), after) := by
        dsimp only at creates
        split at creates
        next directory => exact ⟨_, _, directory, creates⟩
        next => cases creates
        next missing =>
          refine ⟨_, _, lookup?_set_self ?_, creates⟩
          apply Bool.eq_false_iff.2
          intro given
          rw [lookup?_of_isGiven given] at missing
          cases missing
      obtain ⟨_, _, next, creates⟩ := further
      obtain ⟨names, passed, last⟩ := ih next creates
      refine ⟨?_, ?_, last⟩
      · rintro _ (_ | ⟨_, member⟩)
        · exact Nat.le_of_not_lt short
        · exact names _ member
      · rintro _ (_ | ⟨_, member⟩)
        · exact kept
        · exact passed _ member

theorem createTree_eq_ok (creates : tree.createTree path = (.ok (), after)) :
    Reaches after path ∧ after.lookup? (destination path) = some .directory := by
  rw [createTree] at creates
  split at creates
  next start names split =>
    obtain ⟨⟨noNul, short, named⟩, rfl, rfl⟩ := split_eq_ok_iff.1 split
    obtain ⟨names, passed, last⟩ := createAlong_eq_ok (lookup?_of_isGiven (isGiven_origin path) tree) creates
    exact ⟨⟨⟨noNul, short, named, names⟩, passed⟩, last⟩
  next => cases creates

end CompactFont.FileTree
