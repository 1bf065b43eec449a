import Mathlib.Data.List.Induction
import CompactFont.Batch
import CompactFont.Proofs.Font.Leniency
import CompactFont.Storage.FileTree

/-! A batch is what its files give one by one. Each is decoded as it would be alone; those that fail are told in order,
and of the fonts with one full name the last is kept. -/

namespace CompactFont.Batch

/-! ### What the files give, taken in one after another -/

section Fold

variable (gives : String → Except FileFailure Font)

/-- Takes in what every file gives. -/
def addAll (batch : Batch) (paths : List String) : Batch :=
  paths.foldl (fun batch path => batch.add path (gives path)) batch

@[simp] theorem addAll_nil (batch : Batch) : batch.addAll gives [] = batch := rfl

@[simp] theorem addAll_cons (batch : Batch) (path : String) (paths : List String) :
    batch.addAll gives (path :: paths) = (batch.add path (gives path)).addAll gives paths := rfl

@[simp] theorem addAll_append (batch : Batch) (paths more : List String) :
    batch.addAll gives (paths ++ more) = (batch.addAll gives paths).addAll gives more := List.foldl_append

/-- What a file is told with if it fails. -/
def failure? (path : String) : Option (String × FileFailure) :=
  match gives path with
  | .ok _ => none
  | .error failure => some (path, failure)

/-- The font of a file if it has that full name. -/
def named? (name path : String) : Option Font := (gives path).toOption.filter (·.fullName = name)

variable {gives}

theorem failure?_eq_some_iff {path : String} {told : String × FileFailure} :
    failure? gives path = some told ↔ ∃ failure, gives path = .error failure ∧ told = (path, failure) := by
  unfold failure?
  cases gives path with
  | ok font => simp
  | error failure => simp [eq_comm]

theorem named?_eq_some_iff {name path : String} {font : Font} :
    named? gives name path = some font ↔ gives path = .ok font ∧ font.fullName = name := by
  unfold named?
  cases gives path with
  | ok given => simp [Except.toOption, Option.filter_eq_some_iff]
  | error failure => simp [Except.toOption]

theorem named?_eq_none_iff {name path : String} :
    named? gives name path = none ↔ ∀ font, gives path = .ok font → font.fullName ≠ name := by
  rw [Option.eq_none_iff_forall_ne_some]
  simp only [ne_eq, named?_eq_some_iff, not_and]

/-- A file that fails is told of and changes no fonts. -/
theorem failures_add (batch : Batch) (path : String) :
    (batch.add path (gives path)).failures = batch.failures ++ (failure? gives path).toList := by
  unfold failure?
  cases gives path with
  | ok font => simp [add]
  | error failure => simp [add]

/-- A file takes the place of an earlier one with the full name of its font, and of no other. -/
theorem getElem?_fonts_add (batch : Batch) (path name : String) :
    (batch.add path (gives path)).fonts[name]? = (named? gives name path).or batch.fonts[name]? := by
  unfold named?
  cases gives path with
  | ok font =>
    simp only [add, Std.TreeMap.getElem?_insert, Except.toOption, Option.filter_some]
    by_cases same : font.fullName = name
    · simp [same]
    · simp [same]
  | error failure => simp [add, Except.toOption]

theorem failures_addAll (batch : Batch) (paths : List String) :
    (batch.addAll gives paths).failures = batch.failures ++ paths.filterMap (failure? gives) := by
  induction paths generalizing batch with
  | nil => simp
  | cons path paths ih =>
    rw [addAll_cons, ih, failures_add, List.append_assoc, List.filterMap_cons]
    cases failure? gives path with
    | none => rfl
    | some told => rfl

/-- The last file with a full name gives the font with that name. -/
theorem getElem?_fonts_addAll (paths : List String) (name : String) :
    (addAll gives {} paths).fonts[name]? = paths.reverse.findSome? (named? gives name) := by
  induction paths using List.reverseRecOn with
  | nil => simp
  | append_singleton paths path ih =>
    rw [addAll_append, addAll_cons, addAll_nil, getElem?_fonts_add, ih, List.reverse_append]
    cases found : named? gives name path with
    | none => simp [found]
    | some font => simp [found]

/-- The font with a full name is that of the last file which gives one. -/
theorem getElem?_fonts_addAll_eq_some_iff {paths : List String} {name : String} {font : Font} :
    (addAll gives {} paths).fonts[name]? = some font ↔
      ∃ before path after, paths = before ++ path :: after ∧ gives path = .ok font ∧ font.fullName = name ∧
        ∀ later ∈ after, ∀ other, gives later = .ok other → other.fullName ≠ name := by
  rw [getElem?_fonts_addAll, List.findSome?_eq_some_iff]
  constructor
  · intro ⟨after, path, before, split, here, unnamed⟩
    obtain ⟨given, named⟩ := named?_eq_some_iff.1 here
    refine ⟨before.reverse, path, after.reverse, ?_, given, named, ?_⟩
    · rw [← List.reverse_reverse paths, split]
      simp
    · intro later member
      exact named?_eq_none_iff.1 (unnamed later (List.mem_reverse.1 member))
  · intro ⟨before, path, after, split, given, named, unnamed⟩
    refine ⟨after.reverse, path, before.reverse, ?_, named?_eq_some_iff.2 ⟨given, named⟩, ?_⟩
    · rw [split]
      simp
    · intro later member
      exact named?_eq_none_iff.2 (unnamed later (List.mem_reverse.1 member))

theorem fonts_addAll_congr {batch other : Batch} (same : batch.fonts = other.fonts) (paths : List String) :
    (batch.addAll gives paths).fonts = (other.addAll gives paths).fonts := by
  induction paths generalizing batch other with
  | nil => exact same
  | cons path paths ih =>
    rw [addAll_cons, addAll_cons]
    apply ih
    cases gives path with
    | ok font => simp only [add, same]
    | error failure => exact same

/-- A file that fails might as well not be there. -/
theorem fonts_addAll_of_failure {before after : List String} {path : String} {failure : FileFailure}
    (failed : gives path = .error failure) (batch : Batch) :
    (batch.addAll gives (before ++ path :: after)).fonts = (batch.addAll gives (before ++ after)).fonts := by
  simp only [addAll_append, addAll_cons, failed]
  apply fonts_addAll_congr
  rfl

end Fold

/-! ### Files that are read and not changed -/

section Decode

variable {σ : Type} {storage : Storage (StateM σ)} {options : Options} {state : σ}

/-- What a file gives when it is decoded alone. -/
def alone (storage : Storage (StateM σ)) (options : Options) (state : σ) (path : String) :
    Except FileFailure Font :=
  (Font.decodeFile storage options path state).1.result

/-- A file is read, and what it holds is decoded. -/
theorem alone_eq (path : String) :
    alone storage options state path =
      match (storage.read path state).1 with
      | .ok bytes => (Font.decode options bytes).result.mapError (.undecodable path)
      | .error error => .error (.unreadable path error) := by
  simp only [alone, Font.decodeFile, bind, StateT.bind]
  generalize storage.read path state = given
  obtain ⟨found, after⟩ := given
  cases found <;> rfl

theorem decodeFile_still (still : ∀ path, (storage.read path state).2 = state) (path : String) :
    (Font.decodeFile storage options path state).2 = state := by
  have same := still path
  simp only [Font.decodeFile, bind, StateT.bind]
  generalize storage.read path state = given at same
  obtain ⟨found, after⟩ := given
  cases found <;> exact same

/-- The loop that takes in what a file gave before it decodes the next. -/
def interleaved (storage : Storage (StateM σ)) (options : Options) (batch : Batch) : List String → StateM σ Batch
  | [] => return batch
  | path :: paths => do
    let decoded ← Font.decodeFile storage options path
    interleaved storage options (batch.add path decoded.result) paths

/-- Results can wait until all files are decoded, since taking them in touches no file. -/
theorem decode_eq_interleaved (storage : Storage (StateM σ)) (options : Options) (batch : Batch) (paths : List String)
    (state : σ) :
    ((decode storage options batch paths state).1.1, (decode storage options batch paths state).2) =
      interleaved storage options batch paths state := by
  induction paths generalizing batch state with
  | nil => rfl
  | cons path paths ih =>
    simp only [decode, decodeEach, interleaved, bind, StateT.bind] at ih ⊢
    generalize Font.decodeFile storage options path state = first
    obtain ⟨decoded, between⟩ := first
    have later := ih (batch.add path decoded.result) between
    dsimp only at later ⊢
    rw [← later]
    generalize decodeEach storage options paths between = given
    rfl

/-- Files are decoded one after another, each as if it were alone. -/
theorem decode_eq_addAll (still : ∀ path, (storage.read path state).2 = state) (batch : Batch) (paths : List String) :
    (decode storage options batch paths state).1.1 = batch.addAll (alone storage options state) paths ∧
      (decode storage options batch paths state).2 = state := by
  have folded : interleaved storage options batch paths state = (batch.addAll (alone storage options state) paths, state) := by
    induction paths generalizing batch with
    | nil => rfl
    | cons path paths ih =>
      have same : (Font.decodeFile storage options path state).2 = state := decodeFile_still still path
      simp only [interleaved, addAll_cons, alone, bind, StateT.bind]
      generalize Font.decodeFile storage options path state = given at same
      obtain ⟨decoded, after⟩ := given
      cases same
      exact ih (batch.add path decoded.result)
  rw [← decode_eq_interleaved] at folded
  exact Prod.mk.inj folded

/-- A batch tells of the files that fail alone, in order and each time they are named, and keeps by full name the font of
the last file that gives one. So a file is told of, has its font kept, or gives way to a later one with the same full
name; and files that fail change none of the fonts. -/
theorem decode_eq_alone (still : ∀ path, (storage.read path state).2 = state) (paths : List String) :
    let batch (paths : List String) : Batch := (decode storage options {} paths state).1.1
    let gives := alone storage options state
    (batch paths).failures = paths.filterMap (failure? gives) ∧
    (∀ name font, (batch paths).fonts[name]? = some font ↔
      ∃ before path after, paths = before ++ path :: after ∧ gives path = .ok font ∧ font.fullName = name ∧
        ∀ later ∈ after, ∀ other, gives later = .ok other → other.fullName ≠ name) ∧
    ∀ before path after, paths = before ++ path :: after →
      (∃ failure, gives path = .error failure ∧ (path, failure) ∈ (batch paths).failures ∧
        (batch paths).fonts = (batch (before ++ after)).fonts) ∨
      ∃ font, gives path = .ok font ∧ ((batch paths).fonts[font.fullName]? = some font ∨
        ∃ later ∈ after, ∃ other, gives later = .ok other ∧ other.fullName = font.fullName) := by
  intro batch gives
  have folded (paths : List String) : batch paths = addAll gives {} paths := (decode_eq_addAll still {} paths).1
  refine ⟨?_, ?_, ?_⟩
  · rw [folded, failures_addAll, List.nil_append]
  · intro name font
    rw [folded]
    exact getElem?_fonts_addAll_eq_some_iff
  · rintro before path after rfl
    rw [folded, folded]
    cases given : gives path with
    | error failure =>
      left
      refine ⟨failure, rfl, ?_, fonts_addAll_of_failure given {}⟩
      rw [failures_addAll]
      apply List.mem_append_right
      apply List.mem_filterMap.2
      exact ⟨path, by simp, failure?_eq_some_iff.2 ⟨failure, given, rfl⟩⟩
    | ok font =>
      right
      refine ⟨font, rfl, ?_⟩
      by_cases replaced : ∃ later ∈ after, ∃ other, gives later = .ok other ∧ other.fullName = font.fullName
      · exact .inr replaced
      · left
        apply getElem?_fonts_addAll_eq_some_iff.2
        refine ⟨before, path, after, rfl, given, rfl, ?_⟩
        intro later member other gave named
        exact replaced ⟨later, member, other, gave, named⟩

end Decode

/-- A working directory with one file. -/
def shelf : FileTree := { entries := [(["a"], .file (FontSet.marker ++ 32 :: Font.accented))] }

theorem decode_eq_alone_shelf :
    let options : Options := { skipUnsupported := true }
    let batch := (decode FileTree.storage options {} ["a", "b", "a"] shelf).1.1
    ∃ font, alone FileTree.storage options shelf "a" = .ok font ∧ batch.fonts[font.fullName]? = some font ∧
      batch.failures = [("b", .unreadable "b" .missing)] := by
  intro options batch
  have found : shelf.read "a" = .ok (FontSet.marker ++ 32 :: Font.accented) := by decide +kernel
  have absent : shelf.read "b" = .error .missing := by decide +kernel
  obtain ⟨font, decoded⟩ :
      ∃ font, (Font.decode options (FontSet.marker ++ 32 :: Font.accented)).result = .ok font := by
    obtain ⟨data, fontName, fullName, sids, marked, read, prepared⟩ := Font.ready_accented
    exact ⟨_, Font.decode_eq_assembled marked read prepared (by decide +kernel)⟩
  have gives : alone FileTree.storage options shelf "a" = .ok font := by
    simp only [alone_eq, FileTree.storage, found, decoded]
    rfl
  have fails : alone FileTree.storage options shelf "b" = .error (.unreadable "b" .missing) := by
    simp only [alone_eq, FileTree.storage, absent]
  obtain ⟨failures, fonts, _⟩ :=
    @decode_eq_alone _ FileTree.storage options shelf (fun _ => rfl) ["a", "b", "a"]
  refine ⟨font, gives, ?_, ?_⟩
  · apply (fonts font.fullName font).2
    exact ⟨["a", "b"], "a", [], rfl, gives, rfl, by simp⟩
  · rw [failures]
    simp [failure?, gives, fails]

end CompactFont.Batch
