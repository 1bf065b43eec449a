import CompactFont.Charstring.Outline

/-! Whole runs: the machines that a run comes to and the operators that it executes. A run that ends well is a
chain of rules down to an `endchar`, and what holds of such runs is proved along that chain. -/

namespace CompactFont.Charstring

namespace Machine

variable {context : Context}

/-- The machines that a run can come to. -/
inductive Reaches (context : Context) (start : Machine) : Machine → Prop where
  | start : Reaches context start start
  | next {machine following : Machine} {event? : Option Event} (before : Reaches context start machine)
      (steps : machine.step context = .next following event?) : Reaches context start following

/-- The machines of a run in order, from the given one to the one whose step ends it. -/
def visits (context : Context) (machine : Machine) : List Machine :=
  machine ::
    match _ : machine.step context with
    | .next following _ => visits context following
    | _ => []
termination_by machine.budget context
decreasing_by exact budget_step ‹_›

/-- The operator that comes next. -/
def operator? (machine : Machine) : Option Operator :=
  match Token.read machine.program with
  | .ok (some (.operator op)) _ => some op
  | _ => none

/-- The operators that a run executes, in order, each with the registers that it finds. -/
def executed (context : Context) (machine : Machine) : List (Operator × Registers) :=
  (visits context machine).filterMap fun visited => visited.operator?.map (·, visited.registers)

/-- The loop of the machine, given up when the fuel is spent: one unit for each round. -/
def loop (context : Context) : Nat → Machine → Option (Except Fault Registers)
  | 0, _ => none
  | fuel + 1, machine =>
    match machine.step context with
    | .next following _ => loop context fuel following
    | .done registers _ => some (.ok registers)
    | .failed fault => some (.error fault)

/-- The machines that the loop comes to, as many as the fuel allows. -/
def trail (context : Context) : Nat → Machine → List Machine
  | 0, _ => []
  | fuel + 1, machine =>
    machine ::
      match machine.step context with
      | .next following _ => trail context fuel following
      | _ => []

theorem operator?_of_takes {machine : Machine} {op : Operator} {used rest : List UInt8}
    (program : machine.program = used ++ rest) (takes : Token.Takes used (.operator op)) :
    machine.operator? = some op := by
  rw [operator?, program, takes.read]

theorem operator?_of_number {machine : Machine} {token : Token} {used rest : List UInt8} {x : Float}
    (program : machine.program = used ++ rest) (takes : Token.Takes used token) (number : token.number? = some x) :
    machine.operator? = none := by
  rw [operator?, program, takes.read]
  cases token with
  | integer value => rfl
  | fixed raw => rfl
  | operator op => cases number

/-- What a step that goes on makes of the registers, by the operator that comes next, if one does. -/
inductive Effect : Option Operator → Registers → Registers → Prop where
  | push (x : Float) (registers : Registers) : Effect none registers (registers.push x)
  | act {op : Operator} {registers after : Registers} (acts : Acts (.operator op) registers after) :
      Effect (some op) registers after
  | call {op : Operator} {registers : Registers} {operand : Float} {operands : List Float}
      (calls : op = .callsubr ∨ op = .callgsubr) (stack : registers.operands = operand :: operands) :
      Effect (some op) registers { registers with operands }
  | leave {op? : Option Operator} (leaves : op? = none ∨ op? = some .ret) (registers : Registers) :
      Effect op? registers registers

theorem effect_of_goes {machine following : Machine} (goes : Goes context machine following) :
    Effect machine.operator? machine.registers following.registers := by
  cases goes with
  | @act token used mask rest registers program takes acts covers =>
    cases token with
    | operator op =>
      rw [operator?_of_takes program takes]
      exact .act acts
    | integer value =>
      cases acts with
      | push number =>
        rw [operator?_of_number program takes number]
        exact .push _ _
    | fixed raw =>
      cases acts with
      | push number =>
        rw [operator?_of_number program takes number]
        exact .push _ _
  | @call op table operand operands body used rest program takes chosen stack =>
    rw [operator?_of_takes program takes]
    cases op with
    | callsubr => exact .call (.inl rfl) stack
    | callgsubr => exact .call (.inr rfl) stack
    | _ => cases chosen
  | leave leaves _ =>
    rcases leaves with ended | ⟨used, rest, program, takes⟩
    · rw [operator?, ended]
      exact .leave (.inl rfl) _
    · rw [operator?_of_takes program takes]
      exact .leave (.inr rfl) _

/-- What a step can go on to is known before the machine itself. -/
theorem step_induction (context : Context) {motive : Machine → Prop}
    (each : ∀ machine, (∀ following, Goes context machine following → motive following) → motive machine)
    (machine : Machine) : motive machine := by
  induction measured : machine.budget context using Nat.strongRecOn generalizing machine with
  | _ budget ih =>
    subst measured
    apply each
    intro following goes
    exact ih _ (budget_goes goes) following rfl

theorem visits_of_next {machine following : Machine} {event? : Option Event}
    (steps : machine.step context = .next following event?) :
    visits context machine = machine :: visits context following := by
  rw [visits]
  split
  next _ _ same =>
    rw [steps] at same
    cases same
    rfl
  next absent => exact absurd steps (absent _ _)

theorem visits_of_done {machine : Machine} {registers : Registers} {event? : Option Event}
    (steps : machine.step context = .done registers event?) : visits context machine = [machine] := by
  rw [visits]
  split
  next _ _ same =>
    rw [steps] at same
    cases same
  next => rfl

theorem visits_of_failed {machine : Machine} {fault : Fault} (steps : machine.step context = .failed fault) :
    visits context machine = [machine] := by
  rw [visits]
  split
  next _ _ same =>
    rw [steps] at same
    cases same
  next => rfl

theorem visits_head (context : Context) (machine : Machine) :
    ∃ later, visits context machine = machine :: later := by
  rw [visits]
  exact ⟨_, rfl⟩

theorem goes_of_visits {start first : Machine} {later : List Machine}
    (visited : visits context start = first :: later) (more : later ≠ []) :
    first = start ∧ ∃ following, Goes context start following ∧ visits context following = later := by
  rw [visits] at visited
  obtain ⟨rfl, rest⟩ := List.cons_eq_cons.1 visited
  split at rest
  next following event? steps => exact ⟨rfl, following, goes_of_step steps, rest⟩
  next => exact absurd rest.symm more

/-- A run goes on from each machine to the next. -/
theorem goes_of_visited {start machine following : Machine} {before after : List Machine}
    (visited : visits context start = before ++ machine :: following :: after) : Goes context machine following := by
  induction before generalizing start with
  | nil =>
    obtain ⟨rfl, next, goes, rest⟩ := goes_of_visits visited (List.cons_ne_nil _ _)
    obtain ⟨later, head⟩ := visits_head context next
    obtain ⟨rfl, _⟩ := List.cons_eq_cons.1 (head.symm.trans rest)
    exact goes
  | cons first before ih =>
    obtain ⟨_, next, _, rest⟩ :=
      goes_of_visits visited (List.append_ne_nil_of_right_ne_nil _ (List.cons_ne_nil _ _))
    exact ih rest

theorem run_of_next {machine following : Machine} {event? : Option Event} {past : List Event}
    (steps : machine.step context = .next following event?) :
    machine.run context past = following.run context (event?.toList ++ past) := by
  rw [run]
  split
  next _ _ same => rw [steps] at same; cases same; rfl
  next _ _ same => rw [steps] at same; cases same
  next _ same => rw [steps] at same; cases same

theorem run_of_done {machine : Machine} {registers : Registers} {event? : Option Event} {past : List Event}
    (steps : machine.step context = .done registers event?) :
    machine.run context past = ⟨.ok registers, (event?.toList ++ past).reverse⟩ := by
  rw [run]
  split
  next _ _ same => rw [steps] at same; cases same
  next _ _ same => rw [steps] at same; cases same; rfl
  next _ same => rw [steps] at same; cases same

theorem run_of_failed {machine : Machine} {fault : Fault} {past : List Event}
    (steps : machine.step context = .failed fault) :
    machine.run context past = ⟨.error fault, past.reverse⟩ := by
  rw [run]
  split
  next _ _ same => rw [steps] at same; cases same
  next _ _ same => rw [steps] at same; cases same
  next _ same => rw [steps] at same; cases same; rfl

/-- What has been told before does not change how a run ends. -/
theorem result_run_past (machine : Machine) (past : List Event) :
    (machine.run context past).result = (machine.run context).result := by
  induction machine using step_induction context generalizing past with
  | each machine ih =>
    cases steps : machine.step context with
    | next following event? =>
      rw [run_of_next steps, run_of_next steps, ih following (goes_of_step steps),
        ih following (goes_of_step steps) (event?.toList ++ [])]
    | done registers event? => rw [run_of_done steps, run_of_done steps]
    | failed fault => rw [run_of_failed steps, run_of_failed steps]

theorem result_run_of_goes {machine following : Machine} (goes : Goes context machine following) :
    (machine.run context).result = (following.run context).result := by
  obtain ⟨event?, steps⟩ := step_of_goes goes
  rw [run_of_next steps, result_run_past]

/-- A run that ends well, rule by rule. -/
inductive Finishes (context : Context) : Machine → Registers → Prop where
  | done {machine : Machine} {registers : Registers} {event? : Option Event}
      (ends : machine.step context = .done registers event?) : Finishes context machine registers
  | goes {machine following : Machine} {registers : Registers} (goes : Goes context machine following)
      (later : Finishes context following registers) : Finishes context machine registers

theorem finishes_iff {machine : Machine} {registers : Registers} :
    Finishes context machine registers ↔ (machine.run context).result = .ok registers := by
  constructor
  · intro finishes
    induction finishes with
    | done ends => rw [run_of_done ends]
    | goes goes _ ih => rw [result_run_of_goes goes, ih]
  · intro finished
    induction machine using step_induction context with
    | each machine ih =>
      cases steps : machine.step context with
      | next following event? =>
        have goes := goes_of_step steps
        rw [result_run_of_goes goes] at finished
        exact .goes goes (ih following goes finished)
      | done after event? =>
        rw [run_of_done steps] at finished
        cases finished
        exact .done steps
      | failed fault =>
        rw [run_of_failed steps] at finished
        cases finished

theorem result_run_of_loop {fuel : Nat} {machine : Machine} {result : Except Fault Registers}
    (ends : loop context fuel machine = some result) : (machine.run context).result = result := by
  induction fuel generalizing machine with
  | zero => cases ends
  | succ fuel ih =>
    rw [loop] at ends
    cases steps : machine.step context with
    | next following event? =>
      rw [steps] at ends
      rw [result_run_of_goes (goes_of_step steps), ih ends]
    | done registers event? =>
      rw [steps] at ends
      cases ends
      rw [run_of_done steps]
    | failed fault =>
      rw [steps] at ends
      cases ends
      rw [run_of_failed steps]

theorem visits_eq_trail {fuel : Nat} {machine : Machine} {result : Except Fault Registers}
    (ends : loop context fuel machine = some result) : visits context machine = trail context fuel machine := by
  induction fuel generalizing machine with
  | zero => cases ends
  | succ fuel ih =>
    rw [loop] at ends
    rw [trail]
    cases steps : machine.step context with
    | next following event? =>
      rw [steps] at ends
      rw [visits_of_next steps, ih ends]
    | done registers event? => rw [visits_of_done steps]
    | failed fault => rw [visits_of_failed steps]

/-- A run executes what its first machine is about to execute, and then what the next one does. -/
theorem executed_of_goes {machine following : Machine} (goes : Goes context machine following) :
    executed context machine =
      (machine.operator?.map (·, machine.registers)).toList ++ executed context following := by
  obtain ⟨event?, steps⟩ := step_of_goes goes
  rw [executed, visits_of_next steps, List.filterMap_cons]
  cases machine.operator? with
  | none => rfl
  | some op => rfl

theorem executed_of_done {machine : Machine} {registers : Registers} {event? : Option Event}
    (ends : machine.step context = .done registers event?) :
    executed context machine = [(.endchar, machine.registers)] := by
  obtain ⟨used, rest, program, takes, _⟩ := step_eq_done_iff.1 ends
  rw [executed, visits_of_done ends, List.filterMap_cons, operator?_of_takes program takes]
  rfl

end Machine

/-- The outline is what the registers end with, and there is nothing more to tell about it. -/
theorem Outline.ofProgram_eq (context : Context) (nominal : Float) (program : List UInt8) :
    Outline.ofProgram context nominal program =
      ⟨(Machine.run context (.start nominal program)).result.map fun registers =>
          { width := registers.width, path := registers.pen.path },
        (Machine.run context (.start nominal program)).events⟩ := by
  change Logged.bind _ _ = _
  unfold Logged.bind
  cases (Machine.run context (.start nominal program)).result with
  | error fault => rfl
  | ok registers =>
    have nothing := List.append_nil (Machine.run context (.start nominal program)).events
    exact congrArg (Logged.mk _) nothing

/-- A program that draws an outline runs well, and the outline is what its registers end with. -/
theorem Outline.ofProgram_eq_ok_iff {context : Context} {nominal : Float} {program : List UInt8}
    {outline : Outline} :
    (Outline.ofProgram context nominal program).result = .ok outline ↔
      ∃ registers, Machine.Finishes context (.start nominal program) registers ∧
        outline = { width := registers.width, path := registers.pen.path } := by
  rw [Outline.ofProgram_eq]
  simp only [Machine.finishes_iff]
  cases (Machine.run context (.start nominal program)).result with
  | error fault =>
    constructor
    · intro failed
      cases failed
    · intro ⟨_, ended, _⟩
      cases ended
  | ok registers =>
    constructor
    · intro drawn
      cases drawn
      exact ⟨registers, rfl, rfl⟩
    · intro ⟨other, ended, same⟩
      cases ended
      rw [same]
      rfl

theorem Outline.ofProgram_of_loop {context : Context} {nominal : Float} {program : List UInt8} {fuel : Nat}
    {registers : Registers} (ends : Machine.loop context fuel (.start nominal program) = some (.ok registers)) :
    (Outline.ofProgram context nominal program).result =
      .ok { width := registers.width, path := registers.pen.path } :=
  Outline.ofProgram_eq_ok_iff.2 ⟨_, Machine.finishes_iff.2 (Machine.result_run_of_loop ends), rfl⟩

end CompactFont.Charstring
