import CompactFont.Proofs.Storage.Effects

/-! Storages that hold a file tree. An operation changes no more than what it is for. Any may fail, and some of what it
is for may be done then. Paths that do not begin at the root are read from a working directory. -/

namespace CompactFont

/-! ### Working directories -/

/-- A storage as it is seen from a working directory. -/
def Storage.within {m : Type → Type} (home : String) (storage : Storage m) : Storage m where
  read path := storage.read (joinPath home path)
  occupied path := storage.occupied (joinPath home path)
  removeTree path := storage.removeTree (joinPath home path)
  createTree path := storage.createTree (joinPath home path)
  write path text := storage.write (joinPath home path) text

@[simp] theorem joinPath_empty (name : String) : joinPath "" name = name := by
  simp [joinPath]

theorem joinPath_of_absolute {name : String} (absolute : isAbsolute name.toList = true) (directory : String) :
    joinPath directory name = name := by
  simp [joinPath, absolute]

/-- What stands between a directory and a name below it. -/
def separator (directory : String) : String :=
  if directory = "" ∨ directory.toList.getLast? = some '/' then "" else "/"

theorem joinPath_of_relative {name : String} (relative : isAbsolute name.toList = false) (directory : String) :
    joinPath directory name = directory ++ separator directory ++ name := by
  unfold joinPath separator
  rw [relative, Bool.false_or]
  by_cases empty : directory = ""
  · subst empty
    simp
  · by_cases ends : directory.toList.getLast? = some '/'
    · simp [empty, ends]
    · simp [empty, ends]

theorem isAbsolute_append {front : List Char} (full : front ≠ []) (rest : List Char) :
    isAbsolute (front ++ rest) = isAbsolute front := by
  cases front with
  | nil => exact absurd rfl full
  | cons c front => rfl

theorem joinPath_assoc (home directory name : String) :
    joinPath home (joinPath directory name) = joinPath (joinPath home directory) name := by
  cases absolute : isAbsolute name.toList with
  | true => simp only [joinPath_of_absolute absolute]
  | false =>
    by_cases empty : directory = ""
    · subst empty
      have same : joinPath home "" = home ++ separator home := by
        rw [joinPath_of_relative rfl, String.append_empty]
      rw [joinPath_empty, same, joinPath_of_relative absolute, joinPath_of_relative absolute]
      have closed : separator (home ++ separator home) = "" := by
        by_cases ends : home = "" ∨ home.toList.getLast? = some '/'
        · have none : separator home = "" := if_pos ends
          rw [none, String.append_empty, none]
        · have slash : separator home = "/" := if_neg ends
          rw [slash]
          simp [separator]
      rw [closed, String.append_empty]
    · have full : directory.toList ≠ [] := by simpa using empty
      have first : isAbsolute (joinPath directory name).toList = isAbsolute directory.toList := by
        rw [joinPath_of_relative absolute, String.append_assoc, String.toList_append, isAbsolute_append full]
      cases outer : isAbsolute directory.toList with
      | true =>
        rw [joinPath_of_absolute (first.trans outer), joinPath_of_absolute outer]
      | false =>
        rw [joinPath_of_relative (first.trans outer), joinPath_of_relative outer, joinPath_of_relative absolute,
          joinPath_of_relative absolute]
        have last : separator (home ++ separator home ++ directory) = separator directory := by
          simp [separator, empty, List.getLast?_append, full]
        rw [last]
        simp only [String.append_assoc]

namespace FileTree

/-! ### Trees that hang together -/

/-- What lies in the tree lies in directories. -/
def Rooted (tree : FileTree) : Prop :=
  ∀ place entry above, tree.lookup? place = some entry → above <+: place → above ≠ place →
    tree.lookup? above = some .directory

variable {tree after : FileTree} {path : String} {place root other above : Place} {entry : Entry}

theorem isGiven_of_upper (given : isGiven place = true) (upper : above <+: place) : isGiven above = true := by
  unfold isGiven at given ⊢
  rw [Bool.or_eq_true] at given
  rcases given with dots | slash
  · rw [Bool.or_eq_true]
    left
    apply List.all_eq_true.2
    intro name member
    exact List.all_eq_true.1 dots name (upper.subset member)
  · cases eq_of_beq slash
    rcases List.prefix_concat_iff.1 (show above <+: [] ++ ["/"] from upper) with rfl | empty
    · rfl
    · cases List.prefix_nil.1 empty
      rfl

theorem isGiven_eq_false (vacant : tree.lookup? place ≠ some .directory) : isGiven place = false := by
  apply Bool.eq_false_iff.2
  intro given
  exact vacant (lookup?_of_isGiven given tree)

/-- A tree hangs together if each of its entries does. -/
theorem rooted_of_entries
    (each : ∀ found ∈ tree.entries, ∀ above ∈ found.1.inits, above ≠ found.1 → tree.lookup? above = some .directory) :
    tree.Rooted := by
  intro place entry above there upper proper
  cases given : isGiven place with
  | true => exact lookup?_of_isGiven (isGiven_of_upper given upper) tree
  | false =>
    rw [lookup?, given] at there
    have found : tree.entries.lookup place = some entry := there
    obtain ⟨front, rest, split, _⟩ := List.lookup_eq_some_iff.1 found
    have member : (place, entry) ∈ tree.entries := by
      rw [split]
      exact List.mem_append_right _ List.mem_cons_self
    exact each (place, entry) member above ((List.mem_inits _ _).2 upper) proper

/-- A place that a path leads past, or the one that it leads to. -/
theorem prefix_foldl_cases {names : List String} (upper : above <+: names.foldl descend place) :
    above = names.foldl descend place ∨ above ∈ through place names ∨ above <+: place := by
  induction names generalizing place with
  | nil => exact .inr (.inr upper)
  | cons name names ih =>
    rcases ih upper with last | passed | start
    · exact .inl last
    · exact .inr (.inl (List.mem_cons_of_mem _ passed))
    · rcases prefix_descend start with start | rfl
      · exact .inr (.inr start)
      · cases names with
        | nil => exact .inl rfl
        | cons => exact .inr (.inl (List.mem_cons_of_mem _ List.mem_cons_self))

theorem prefix_destination_cases (upper : above <+: destination path) :
    above = destination path ∨ above ∈ waypoints path ∨ isGiven above = true := by
  rcases prefix_foldl_cases upper with last | passed | start
  · exact .inl last
  · exact .inr (.inl passed)
  · exact .inr (.inr (isGiven_of_prefix_origin start))

theorem rooted_remove (rooted : tree.Rooted) : (tree.remove root).Rooted := by
  intro place entry above there upper proper
  cases given : isGiven place with
  | true => exact lookup?_of_isGiven (isGiven_of_upper given upper) _
  | false =>
    have outside : ¬ root <+: place := by
      intro below
      rw [lookup?, given, remove] at there
      have found : (tree.entries.filter fun other => !root.isPrefixOf other.1).lookup place = some entry := there
      obtain ⟨front, rest, split, _⟩ := List.lookup_eq_some_iff.1 found
      have member : (place, entry) ∈ tree.entries.filter fun other => !root.isPrefixOf other.1 := by
        rw [split]
        exact List.mem_append_right _ List.mem_cons_self
      have kept := (List.mem_filter.1 member).2
      rw [List.isPrefixOf_iff_prefix.2 below] at kept
      cases kept
    rw [lookup?_remove outside] at there
    have beside : ¬ root <+: above := fun below => outside (below.trans upper)
    rw [lookup?_remove beside]
    exact rooted place entry above there upper proper

/-- A new entry hangs together with the rest if directories lead to it and it takes the place of none. -/
theorem rooted_set (rooted : tree.Rooted) (vacant : tree.lookup? place ≠ some .directory)
    (parents : ∀ above, above <+: place → above ≠ place → tree.lookup? above = some .directory) :
    (tree.set place entry).Rooted := by
  intro other found above there upper proper
  have aside : tree.lookup? above = some .directory → (tree.set place entry).lookup? above = some .directory := by
    intro directory
    rw [lookup?_set_of_ne, directory]
    intro same
    exact vacant (same ▸ directory)
  apply aside
  by_cases same : other = place
  · subst same
    exact parents above upper proper
  · rw [lookup?_set_of_ne same] at there
    exact rooted other found above there upper proper

theorem rooted_createAlong {made : Bool} {names : List String} (rooted : tree.Rooted)
    (start : tree.lookup? place = some .directory) : (tree.createAlong made place names).2.Rooted := by
  induction names generalizing tree made place with
  | nil => exact rooted
  | cons name names ih =>
    rcases createAlong_cons_cases tree made place name names with ends | ⟨directory, goesOn⟩ | ⟨missing, goesOn⟩
    · rw [ends]
      exact rooted
    · rw [goesOn]
      exact ih rooted directory
    · have vacant : tree.lookup? (descend place name) ≠ some .directory := by
        rw [missing]
        exact nofun
      rw [goesOn]
      apply ih
      · apply rooted_set rooted vacant
        intro above upper proper
        rcases prefix_descend upper with upper | same
        · by_cases same : above = place
          · rw [same, start]
          · exact rooted place .directory above start upper same
        · exact absurd same proper
      · exact lookup?_set_self (isGiven_eq_false vacant)

/-- Directories are made along the names and nowhere else, and nothing is changed. -/
theorem lookup?_createAlong_cases {made : Bool} {names : List String} :
    (tree.createAlong made place names).2.lookup? other = tree.lookup? other ∨
      tree.lookup? other = none ∧ (tree.createAlong made place names).2.lookup? other = some .directory ∧
        (other ∈ through place names ∨ other = names.foldl descend place) := by
  induction names generalizing tree made place with
  | nil => exact .inl rfl
  | cons name names ih =>
    have further : other ∈ through (descend place name) names ∨ other = names.foldl descend (descend place name) →
        other ∈ through place (name :: names) ∨ other = (name :: names).foldl descend place := by
      intro way
      exact way.imp_left (List.mem_cons_of_mem _)
    rcases createAlong_cons_cases tree made place name names with ends | ⟨directory, goesOn⟩ | ⟨missing, goesOn⟩
    · rw [ends]
      exact .inl rfl
    · rw [goesOn]
      rcases @ih tree (descend place name) made with same | ⟨missing, there, way⟩
      · exact .inl same
      · exact .inr ⟨missing, there, further way⟩
    · rw [goesOn]
      by_cases here : other = descend place name
      · subst here
        have vacant : tree.lookup? (descend place name) ≠ some .directory := by
          rw [missing]
          exact nofun
        refine .inr ⟨missing, lookup?_createAlong (lookup?_set_self (isGiven_eq_false vacant)), further ?_⟩
        cases names with
        | nil => exact .inr rfl
        | cons => exact .inl List.mem_cons_self
      · rcases @ih (tree.set (descend place name) .directory) (descend place name) true with same | ⟨absent, there, way⟩
        · left
          rw [same, lookup?_set_of_ne here]
        · rw [lookup?_set_of_ne here] at absent
          exact .inr ⟨absent, there, further way⟩

/-! ### Laws -/

/-- Something at or below a place may be gone. -/
structure Removes (root : Place) (tree after : FileTree) : Prop where
  outside : ∀ place, ¬ root <+: place → after.lookup? place = tree.lookup? place
  file : ∀ bytes, tree.lookup? root = some (.file bytes) → after.lookup? root = some (.file bytes)
  rooted : tree.Rooted → after.Rooted

/-- Directories that a path leads through, and the one that it leads to, may be new. -/
structure Creates (path : String) (tree after : FileTree) : Prop where
  new : ∀ place, after.lookup? place = tree.lookup? place ∨
    tree.lookup? place = none ∧ after.lookup? place = some .directory ∧
      (place ∈ waypoints path ∨ place = destination path)
  rooted : tree.Rooted → after.Rooted

/-- A place that is no directory may hold another file. -/
structure Writes (target : Place) (tree after : FileTree) : Prop where
  elsewhere : ∀ place, place ≠ target → after.lookup? place = tree.lookup? place
  here : after.lookup? target = tree.lookup? target ∨
    tree.lookup? target ≠ some .directory ∧ ∃ bytes, after.lookup? target = some (.file bytes)
  rooted : tree.Rooted → after.Rooted

/-- A storage that holds a file tree. Whether an operation fails is left open, but for two things. A directory that could
be made can be reached. And what can be reached, and made as a directory, is seen. -/
structure Faithful (home : String) (storage : Storage (StateM FileTree)) : Prop where
  reads : ∀ path tree, (storage.read path tree).2 = tree
  looks : ∀ path tree, (storage.occupied path tree).2 = tree
  sees : ∀ path tree entry, (∀ place ∈ waypoints (joinPath home path), tree.lookup? place = some .directory) →
    tree.lookup? (destination (joinPath home path)) = some entry → (storage.createTree path tree).1 = .ok () →
    (storage.occupied path tree).1 = true
  removes : ∀ path tree, Removes (destination (joinPath home path)) tree (storage.removeTree path tree).2
  creates : ∀ path tree, Creates (joinPath home path) tree (storage.createTree path tree).2
  reaches : ∀ path tree, (storage.createTree path tree).1 = .ok () →
    ∀ place ∈ waypoints (joinPath home path), (storage.createTree path tree).2.lookup? place = some .directory
  writes : ∀ path text tree, Writes (destination (joinPath home path)) tree (storage.write path text tree).2

theorem removes_removeTree (path : String) (tree : FileTree) :
    Removes (destination path) tree (storage.removeTree path tree).2 := by
  dsimp only [storage, commit]
  split
  next after removed =>
    obtain ⟨_, directory, rfl⟩ := removeTree_eq_ok_iff.1 removed
    refine ⟨fun place outside => lookup?_remove outside, ?_, rooted_remove⟩
    intro bytes file
    rw [directory] at file
    cases file
  next => exact ⟨fun _ _ => rfl, fun _ file => file, id⟩

theorem creates_createTree (path : String) (tree : FileTree) : Creates path tree (tree.createTree path).2 := by
  unfold createTree
  split
  next start names split =>
    obtain ⟨_, rfl, rfl⟩ := split_eq_ok_iff.1 split
    refine ⟨fun place => lookup?_createAlong_cases, ?_⟩
    intro rooted
    exact rooted_createAlong rooted (lookup?_of_isGiven (isGiven_origin path) tree)
  next => exact ⟨fun _ => .inl rfl, id⟩

theorem writes_write (path text : String) (tree : FileTree) :
    Writes (destination path) tree (storage.write path text tree).2 := by
  dsimp only [storage, commit]
  split
  next after wrote =>
    obtain ⟨reaches, vacant, rfl⟩ := write_eq_ok_iff.1 wrote
    have here := isGiven_eq_false vacant
    refine ⟨fun place elsewhere => lookup?_set_of_ne elsewhere, .inr ⟨vacant, _, lookup?_set_self here⟩, ?_⟩
    intro rooted
    apply rooted_set rooted vacant
    intro above upper proper
    rcases prefix_destination_cases upper with same | passed | given
    · exact absurd same proper
    · exact reaches.directories above passed
    · exact lookup?_of_isGiven given tree
  next => exact ⟨fun _ _ => rfl, .inl rfl, id⟩

theorem faithful_storage : Faithful "" storage where
  reads _ _ := rfl
  looks _ _ := rfl
  sees path tree entry passed there created := by
    rw [joinPath_empty] at passed there
    have legal : Legal path := (createTree_eq_ok (Prod.ext created rfl)).1.legal
    exact occupied_of_reaches ⟨legal, passed⟩ there
  removes path tree := by
    rw [joinPath_empty]
    exact removes_removeTree path tree
  creates path tree := by
    rw [joinPath_empty]
    exact creates_createTree path tree
  reaches path tree created := by
    rw [joinPath_empty]
    exact (createTree_eq_ok (Prod.ext created rfl)).1.directories
  writes path text tree := by
    rw [joinPath_empty]
    exact writes_write path text tree

/-- From any working directory the tree is the same. -/
theorem Faithful.within {storage : Storage (StateM FileTree)} (faithful : Faithful "" storage) (home : String) :
    Faithful home (storage.within home) := by
  constructor
  · exact fun path => faithful.reads (joinPath home path)
  · exact fun path => faithful.looks (joinPath home path)
  · intro path
    have law := faithful.sees (joinPath home path)
    rwa [joinPath_empty] at law
  · intro path
    have law := faithful.removes (joinPath home path)
    rwa [joinPath_empty] at law
  · intro path
    have law := faithful.creates (joinPath home path)
    rwa [joinPath_empty] at law
  · intro path
    have law := faithful.reaches (joinPath home path)
    rwa [joinPath_empty] at law
  · intro path
    have law := faithful.writes (joinPath home path)
    rwa [joinPath_empty] at law

end FileTree
end CompactFont
