import CompactFont.Font

/-! What the glyph programs of a font come to, one and all of them: each draws a glyph under the name it is given,
or is left out if it may be, and else all of them fail with the first that does neither. -/

namespace CompactFont.Font

open Charstring (Outline)

variable {options : Options} {file : FontFile}

/-! ### One program -/

/-- What a glyph program comes to with these subroutines and the nominal width of this Private DICT, or zero without one,
within the limits that the options set. -/
def interpret (options : Options) (globals : Subroutines) (locals? : Option Subroutines)
    (privateDict? : Option PrivateDict) (program : List UInt8) : Except Fault Outline :=
  let nominal :=
    match privateDict? with
    | some dict => dict.nominalWidth
    | none => 0.0
  (Outline.ofProgram { globals, locals?, leftover := options.leftover, maxDepth := options.maxDepth } nominal program).result

/-- What a glyph program of a file comes to. -/
def evaluate (options : Options) (file : FontFile) (program : List UInt8) : Except Fault Outline :=
  interpret options (.ofIndex file.globals) (file.locals?.map .ofIndex) file.privateDict? program

theorem evaluate_eq (options : Options) (file : FontFile) (program : List UInt8) :
    evaluate options file program = (Outline.ofProgram (context options file) (nominal file) program).result := by
  unfold evaluate interpret nominal
  cases file.privateDict? <;> rfl

/-- A program draws its glyph, or asks for an unsupported feature and may be left out. -/
def Passes (options : Options) (file : FontFile) (program : List UInt8) : Prop :=
  match evaluate options file program with
  | .ok _ => True
  | .error fault => options.skipUnsupported = true ∧ fault.isUnsupported = true

theorem passes_iff {program : List UInt8} :
    Passes options file program ↔ (∃ outline, evaluate options file program = .ok outline) ∨
      options.skipUnsupported = true ∧ ∃ feature, evaluate options file program = .error (.unsupported feature) := by
  unfold Passes
  cases evaluate options file program with
  | ok outline => exact ⟨fun _ => .inl ⟨outline, rfl⟩, fun _ => trivial⟩
  | error fault =>
    constructor
    · rintro ⟨skips, unsupported⟩
      cases fault with
      | unsupported feature => exact .inr ⟨skips, feature, rfl⟩
      | _ => cases unsupported
    · rintro (⟨_, absent⟩ | ⟨skips, feature, same⟩)
      · cases absent
      · cases same
        exact ⟨skips, rfl⟩

theorem exists_fault_of_not_passes {program : List UInt8} (refused : ¬ Passes options file program) :
    ∃ fault, evaluate options file program = .error fault := by
  cases ran : evaluate options file program with
  | error fault => exact ⟨fault, rfl⟩
  | ok outline =>
    rw [Passes, ran] at refused
    exact absurd trivial refused

instance (options : Options) (file : FontFile) (program : List UInt8) : Decidable (Passes options file program) :=
  match ran : evaluate options file program with
  | .ok _ => .isTrue (by rw [Passes, ran]; trivial)
  | .error fault =>
    decidable_of_iff (options.skipUnsupported = true ∧ fault.isUnsupported = true) (by rw [Passes, ran])

/-- Runs a draft with what the file has for it. -/
def outcome (options : Options) (file : FontFile) (draft : Draft) : Except Failure (Option Glyph) :=
  (draft.draw (context options file) (nominal file) options.skipUnsupported).result

/-- The glyph of a draft, if its program draws one. -/
def slot (options : Options) (file : FontFile) (draft : Draft) : Option Glyph :=
  (evaluate options file draft.program).toOption.map draft.glyph

theorem outcome_eq (draft : Draft) :
    outcome options file draft =
      match evaluate options file draft.program with
      | .ok outline => .ok (some (draft.glyph outline))
      | .error fault =>
        if options.skipUnsupported = true ∧ fault.isUnsupported = true then .ok none
        else .error { stage? := some (.glyph draft.index draft.name), fault } := by
  rw [evaluate_eq]
  unfold outcome Draft.draw
  dsimp only
  cases (Outline.ofProgram (context options file) (nominal file) draft.program).result with
  | ok outline => rfl
  | error fault =>
    simp only [Bool.and_eq_true]
    split <;> rfl

theorem outcome_eq_ok_iff {draft : Draft} {found : Option Glyph} :
    outcome options file draft = .ok found ↔ Passes options file draft.program ∧ found = slot options file draft := by
  rw [outcome_eq, Passes, slot]
  cases evaluate options file draft.program with
  | ok outline =>
    constructor
    · intro same
      cases same
      exact ⟨trivial, rfl⟩
    · rintro ⟨_, rfl⟩
      rfl
  | error fault =>
    dsimp only
    split
    next allowed =>
      constructor
      · intro same
        cases same
        exact ⟨allowed, rfl⟩
      · rintro ⟨_, rfl⟩
        rfl
    next refused => exact ⟨nofun, fun passes => absurd passes.1 refused⟩

theorem outcome_eq_error_iff {draft : Draft} {failure : Failure} :
    outcome options file draft = .error failure ↔
      ¬ Passes options file draft.program ∧ ∃ fault, evaluate options file draft.program = .error fault ∧
        failure = { stage? := some (.glyph draft.index draft.name), fault } := by
  rw [outcome_eq, Passes]
  cases evaluate options file draft.program with
  | ok outline => exact ⟨nofun, fun refused => absurd trivial refused.1⟩
  | error fault =>
    dsimp only
    split
    next allowed => exact ⟨nofun, fun refused => absurd allowed refused.1⟩
    next refused =>
      constructor
      · intro same
        cases same
        exact ⟨refused, fault, rfl, rfl⟩
      · rintro ⟨_, _, same, rfl⟩
        cases same
        rfl

/-! ### All programs -/

/-- Runs drafts with what the file has for them. -/
def outcomes (options : Options) (file : FontFile) (drafts : List Draft) : Except Failure (List (Option Glyph)) :=
  (drawAll (context options file) (nominal file) options.skipUnsupported drafts).result

theorem outcomes_cons (draft : Draft) (drafts : List Draft) :
    outcomes options file (draft :: drafts) =
      outcome options file draft >>= fun first => outcomes options file drafts >>= fun rest => .ok (first :: rest) := by
  rw [outcomes, drawAll]
  simp only [Logged.result_bind, Logged.result_pure]
  rfl

theorem outcomes_eq_ok_iff {drafts : List Draft} {slots : List (Option Glyph)} :
    outcomes options file drafts = .ok slots ↔
      (∀ draft ∈ drafts, Passes options file draft.program) ∧ slots = drafts.map (slot options file) := by
  induction drafts generalizing slots with
  | nil =>
    constructor
    · intro same
      cases same
      exact ⟨List.forall_mem_nil _, rfl⟩
    · rintro ⟨_, rfl⟩
      rfl
  | cons draft drafts ih =>
    simp only [outcomes_cons, bind_eq_ok_iff, outcome_eq_ok_iff, ih, List.forall_mem_cons]
    constructor
    · rintro ⟨_, ⟨first, rfl⟩, _, ⟨others, rfl⟩, same⟩
      cases same
      exact ⟨⟨first, others⟩, rfl⟩
    · rintro ⟨⟨first, others⟩, rfl⟩
      exact ⟨_, ⟨first, rfl⟩, _, ⟨others, rfl⟩, rfl⟩

/-- The first draft that does not pass is what all of them fail with. -/
theorem outcomes_eq_error_iff {drafts : List Draft} {failure : Failure} :
    outcomes options file drafts = .error failure ↔
      ∃ (place : Nat) (draft : Draft), drafts[place]? = some draft ∧ outcome options file draft = .error failure ∧
        ∀ (earlier : Nat) (before : Draft), earlier < place → drafts[earlier]? = some before →
          Passes options file before.program := by
  induction drafts with
  | nil => exact ⟨nofun, fun ⟨_, _, absent, _⟩ => nomatch absent⟩
  | cons first drafts ih =>
    rw [outcomes_cons, bind_eq_error_iff]
    constructor
    · rintro (failed | ⟨_, drawn, later⟩)
      · exact ⟨0, first, rfl, failed, nofun⟩
      · rcases bind_eq_error_iff.1 later with failed | ⟨_, _, absent⟩
        · obtain ⟨place, draft, there, failed, passes⟩ := ih.1 failed
          refine ⟨place + 1, draft, there, failed, fun earlier before less same => ?_⟩
          cases earlier with
          | zero =>
            cases same
            exact (outcome_eq_ok_iff.1 drawn).1
          | succ earlier => exact passes earlier before (Nat.lt_of_succ_lt_succ less) same
        · cases absent
    · rintro ⟨place, draft, there, failed, passes⟩
      cases place with
      | zero =>
        cases there
        exact .inl failed
      | succ place =>
        have drawn := outcome_eq_ok_iff.2 ⟨passes 0 first (Nat.succ_pos place) rfl, rfl⟩
        refine .inr ⟨_, drawn, bind_eq_error_iff.2 (.inl (ih.2 ⟨place, draft, there, failed, ?_⟩))⟩
        exact fun earlier before less same => passes (earlier + 1) before (Nat.succ_lt_succ less) same

theorem getElem?_drafts_eq_some_iff {index place : Nat} {sids : List Nat} {names : List String}
    {programs : List (List UInt8)} {draft : Draft} :
    (drafts index sids names programs)[place]? = some draft ↔
      sids[place]? = some draft.sid ∧ names[place]? = some draft.name ∧ programs[place]? = some draft.program ∧
        draft.index = index + place := by
  induction sids generalizing index place names programs with
  | nil => simp [drafts]
  | cons sid sids ih =>
    match names, programs with
    | [], _ => exact ⟨nofun, fun ⟨_, absent, _⟩ => nomatch absent⟩
    | _ :: _, [] => exact ⟨nofun, fun ⟨_, _, absent, _⟩ => nomatch absent⟩
    | name :: names, program :: programs =>
      cases place with
      | zero =>
        constructor
        · intro same
          cases same
          exact ⟨rfl, rfl, rfl, rfl⟩
        · rintro ⟨sidIs, nameIs, programIs, indexIs⟩
          obtain ⟨_, _, _, _⟩ := draft
          cases sidIs
          cases nameIs
          cases programIs
          cases indexIs
          rfl
      | succ place =>
        simp only [drafts, List.getElem?_cons_succ]
        rw [ih, Nat.add_assoc, Nat.add_comm 1 place]

theorem sublist_name_drafts (index : Nat) (sids : List Nat) (names : List String) (programs : List (List UInt8)) :
    ((drafts index sids names programs).map Draft.name).Sublist names := by
  fun_induction drafts index sids names programs with
  | case1 index sid sids name names program programs ih => exact ih.cons_cons name
  | case2 => exact List.nil_sublist _

theorem name_of_slot {draft : Draft} {glyph : Glyph} (drawn : slot options file draft = some glyph) :
    glyph.name = draft.name := by
  obtain ⟨outline, _, rfl⟩ := Option.map_eq_some_iff.1 drawn
  rfl

theorem sublist_name_slots (drafts : List Draft) :
    ((drafts.filterMap (slot options file)).map Glyph.name).Sublist (drafts.map Draft.name) := by
  induction drafts with
  | nil => exact List.nil_sublist _
  | cons draft drafts ih =>
    rw [List.filterMap_cons]
    split
    next => exact ih.cons _
    next glyph drawn =>
      rw [List.map_cons, List.map_cons, name_of_slot drawn]
      exact ih.cons_cons _

end CompactFont.Font
