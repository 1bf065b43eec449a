import CompactFont.Proofs.Charstring.Execution
import CompactFont.Reader.Advance

/-! Calls are transparent. A run that calls a subroutine ends as it would if the bytes that the subroutine
consumes stood in the caller's program in place of the call. -/

namespace CompactFont.Charstring.Machine

variable {context : Context}

/-- The unread bytes of the running program and of its callers, the innermost first. -/
def frames (machine : Machine) : List (List UInt8) := machine.program :: machine.callers.programs

/-- The unread bytes of the program at a depth; that of the glyph is at depth zero. -/
def unreadAt (depth : Nat) (machine : Machine) : List UInt8 :=
  (machine.frames.reverse[depth]?).getD []

/-- The machine behind the token that comes next. -/
def fetched (machine : Machine) : Machine :=
  { machine with program := Reader.remainder (Token.read machine.program) }

/-- What the run leaves unread of the program at a depth: the `return` that it executes there and all behind
it, nothing if it runs off the end, and what it has not come to if an `endchar` ends the run, be it in that
program or in a subroutine of it. -/
def unreadOnLeaving (context : Context) (depth : Nat) (machine : Machine) : List UInt8 :=
  match _ : machine.step context with
  | .next following _ =>
    if following.callers.depth < depth then machine.program else unreadOnLeaving context depth following
  | _ => machine.fetched.unreadAt depth
termination_by machine.budget context
decreasing_by exact budget_step ‹_›

theorem ext_frames {machine other : Machine} (frames : machine.frames = other.frames)
    (registers : machine.registers = other.registers) : machine = other := by
  obtain ⟨program, ⟨programs, depth, depth_eq⟩, _⟩ := machine
  obtain ⟨otherProgram, ⟨otherPrograms, otherDepth, other_eq⟩, _⟩ := other
  obtain ⟨rfl, rfl⟩ := List.cons_eq_cons.1 frames
  cases registers
  cases depth_eq.trans other_eq.symm
  rfl

theorem depth_of_frames {machine : Machine} {inner outer : List (List UInt8)} {program : List UInt8}
    (frames : machine.frames = inner ++ program :: outer) :
    machine.callers.depth = inner.length + outer.length := by
  have lengths := congrArg List.length frames
  simp only [Machine.frames, List.length_cons, List.length_append] at lengths
  rw [machine.callers.depth_eq]
  omega

theorem unreadAt_of_frames {machine : Machine} {inner outer : List (List UInt8)} {program : List UInt8}
    (frames : machine.frames = inner ++ program :: outer) : machine.unreadAt outer.length = program := by
  have reached : outer.reverse.length ≤ outer.length := Nat.le_of_eq List.length_reverse
  rw [unreadAt, frames, List.reverse_append, List.reverse_cons, List.append_assoc,
    List.getElem?_append_right reached, List.length_reverse, Nat.sub_self]
  rfl

theorem unreadOnLeaving_of_next {machine following : Machine} {event? : Option Event} {depth : Nat}
    (steps : machine.step context = .next following event?) :
    unreadOnLeaving context depth machine =
      if following.callers.depth < depth then machine.program
      else unreadOnLeaving context depth following := by
  rw [unreadOnLeaving]
  split
  next _ _ same =>
    rw [steps] at same
    cases same
    rfl
  next absent => exact absurd steps (absent _ _)

theorem unreadOnLeaving_of_done {machine : Machine} {registers : Registers} {event? : Option Event}
    {depth : Nat} (ends : machine.step context = .done registers event?) :
    unreadOnLeaving context depth machine = machine.fetched.unreadAt depth := by
  rw [unreadOnLeaving]
  split
  next _ _ same =>
    rw [ends] at same
    cases same
  next => rfl

theorem unreadOnLeaving_of_left {machine following : Machine} {depth : Nat}
    (goes : Goes context machine following) (left : following.callers.depth < depth) :
    unreadOnLeaving context depth machine = machine.program := by
  obtain ⟨event?, steps⟩ := step_of_goes goes
  rw [unreadOnLeaving_of_next steps, if_pos left]

theorem unreadOnLeaving_of_kept {machine following : Machine} {depth : Nat}
    (goes : Goes context machine following) (kept : depth ≤ following.callers.depth) :
    unreadOnLeaving context depth machine = unreadOnLeaving context depth following := by
  obtain ⟨event?, steps⟩ := step_of_goes goes
  rw [unreadOnLeaving_of_next steps, if_neg (Nat.not_lt.2 kept)]

/-- A step consumes `used` of the running program and puts `above` on what is left of it. It does so too where other
bytes are left and other frames are below, if there are no more of these. -/
structure ReadsOn (context : Context) (machine following : Machine) (used behind : List UInt8)
    (above : List (List UInt8)) : Prop where
  program : machine.program = used ++ behind
  frames : following.frames = above ++ behind :: machine.callers.programs
  elsewhere : ∀ (other : Machine) (tail : List UInt8), other.program = used ++ tail →
    other.registers = machine.registers → other.callers.depth ≤ machine.callers.depth →
    ∃ next, Goes context other next ∧ next.frames = above ++ tail :: other.callers.programs ∧
      next.registers = following.registers

/-- A step takes its frame away or reads on in it. -/
theorem leaves_or_readsOn {machine following : Machine} (goes : Goes context machine following) :
    (Leaves machine.program ∧ following.frames = machine.callers.programs ∧
      following.registers = machine.registers) ∨
    ∃ used behind above, ReadsOn context machine following used behind above := by
  cases goes with
  | leave leaves popped =>
    left
    exact ⟨leaves, (Callers.programs_of_pop? popped).symm, rfl⟩
  | @act token used mask rest registers program takes acts covers =>
    right
    have split : machine.program = (used ++ mask) ++ rest := by rw [program, List.append_assoc]
    refine ⟨used ++ mask, rest, [], split, rfl, ?_⟩
    intro other tail reads same _
    rw [List.append_assoc] at reads
    rw [← same] at acts
    exact ⟨_, .act reads takes acts covers, rfl, rfl⟩
  | @call op table operand operands body used rest program takes chosen stack found shallow =>
    right
    refine ⟨used, rest, [body], program, rfl, ?_⟩
    intro other tail reads same higher
    rw [← same] at stack ⊢
    exact ⟨_, .call reads takes chosen stack found (Nat.lt_of_le_of_lt higher shallow), rfl, rfl⟩

theorem goes_of_leaves {machine : Machine} (leaves : Leaves machine.program)
    (called : machine.callers.programs ≠ []) :
    ∃ next, Goes context machine next ∧ next.frames = machine.callers.programs ∧
      next.registers = machine.registers := by
  cases popped : machine.callers.pop? with
  | none =>
    unfold Callers.pop? at popped
    split at popped
    next none =>
      rw [none] at called
      exact absurd rfl called
    next => cases popped
  | some caller =>
    obtain ⟨first, callers⟩ := caller
    exact ⟨_, .leave leaves popped, (Callers.programs_of_pop? popped).symm, rfl⟩

/-- The frame `current` stands on that of its caller, `rest`. Any machine that has what `current` consumes in front
of `rest` in one frame instead, and the same frames above and below, ends with the same registers. -/
def Inlines (context : Context) (machine : Machine) (registers : Registers) (inner : List (List UInt8))
    (current rest : List UInt8) (outer : List (List UInt8)) : Prop :=
  ∃ kept, current = kept ++ unreadOnLeaving context (outer.length + 1) machine ∧
    ∀ other : Machine, other.frames = inner ++ (kept ++ rest) :: outer → other.registers = machine.registers →
      Finishes context other registers

section Inlines

variable {machine following : Machine} {registers : Registers} {inner outer : List (List UInt8)}
  {current rest : List UInt8}

theorem inlines_done {event? : Option Event} (ends : machine.step context = .done registers event?)
    (frames : machine.frames = inner ++ current :: rest :: outer) :
    Inlines context machine registers inner current rest outer := by
  obtain ⟨used, behind, program, takes, closes⟩ := step_eq_done_iff.1 ends
  have ending (other : Machine) {tail : List UInt8} (reads : other.program = used ++ tail)
      (same : other.registers = machine.registers) : Finishes context other registers :=
    .done (step_eq_done_iff.2 ⟨used, tail, reads, takes, same ▸ closes⟩)
  have fetched : machine.fetched.frames = behind :: machine.callers.programs := by
    rw [Machine.frames, Machine.fetched, program, takes.read]
    rfl
  rw [Inlines, unreadOnLeaving_of_done ends]
  cases inner with
  | nil =>
    obtain ⟨rfl, callers⟩ := List.cons_eq_cons.1 frames
    have shape : machine.fetched.frames = [] ++ behind :: rest :: outer := by
      rw [fetched, callers]
      rfl
    have unread : machine.fetched.unreadAt (outer.length + 1) = behind := unreadAt_of_frames shape
    refine ⟨used, ?_, ?_⟩
    · rw [unread, program]
    · intro other frames same
      obtain ⟨reads, _⟩ := List.cons_eq_cons.1 frames
      exact ending other reads same
  | cons first inner =>
    obtain ⟨rfl, callers⟩ := List.cons_eq_cons.1 frames
    have shape : machine.fetched.frames = (behind :: inner) ++ current :: rest :: outer := by
      rw [fetched, callers]
      rfl
    have unread : machine.fetched.unreadAt (outer.length + 1) = current := unreadAt_of_frames shape
    refine ⟨[], ?_, ?_⟩
    · rw [unread]
      rfl
    · intro other frames same
      obtain ⟨reads, _⟩ := List.cons_eq_cons.1 frames
      exact ending other (reads.trans program) same

theorem inlines_leaves (goes : Goes context machine following) (later : Finishes context following registers)
    (leaves : Leaves machine.program) (after : following.frames = machine.callers.programs)
    (unchanged : following.registers = machine.registers)
    (frames : machine.frames = inner ++ current :: rest :: outer)
    (inlines : ∀ {inner current}, following.frames = inner ++ current :: rest :: outer →
      Inlines context following registers inner current rest outer) :
    Inlines context machine registers inner current rest outer := by
  cases inner with
  | nil =>
    -- The frame itself is left: what follows is the same machine on both sides.
    obtain ⟨rfl, callers⟩ := List.cons_eq_cons.1 frames
    have left : following.frames = [] ++ rest :: outer := after.trans callers
    have depth := depth_of_frames left
    rw [Inlines, unreadOnLeaving_of_left goes (by rw [depth, List.length_nil]; omega)]
    refine ⟨[], rfl, ?_⟩
    intro other frames same
    have joined : other = following := ext_frames (frames.trans left.symm) (same.trans unchanged.symm)
    rw [joined]
    exact later
  | cons first inner =>
    obtain ⟨rfl, callers⟩ := List.cons_eq_cons.1 frames
    have left : following.frames = inner ++ current :: rest :: outer := after.trans callers
    have depth := depth_of_frames left
    obtain ⟨kept, split, inlined⟩ := inlines left
    rw [Inlines, unreadOnLeaving_of_kept goes (by rw [depth, List.length_cons]; omega)]
    refine ⟨kept, split, ?_⟩
    intro other frames same
    obtain ⟨reads, below⟩ := List.cons_eq_cons.1 frames
    have called : other.callers.programs ≠ [] := by
      rw [below]
      exact List.append_ne_nil_of_right_ne_nil inner (List.cons_ne_nil _ _)
    obtain ⟨next, step, shape, registers⟩ := goes_of_leaves (reads ▸ leaves) called
    exact .goes step (inlined next (shape.trans below) (registers.trans (same.trans unchanged.symm)))

theorem inlines_reads {used behind : List UInt8} {above : List (List UInt8)}
    (goes : Goes context machine following) (reads : ReadsOn context machine following used behind above)
    (frames : machine.frames = inner ++ current :: rest :: outer)
    (inlines : ∀ {inner current}, following.frames = inner ++ current :: rest :: outer →
      Inlines context following registers inner current rest outer) :
    Inlines context machine registers inner current rest outer := by
  have depth := depth_of_frames frames
  have after := reads.frames
  have higher {other : Machine} {joined : List UInt8} (shape : other.frames = inner ++ joined :: outer) :
      other.callers.depth ≤ machine.callers.depth := by
    rw [depth, depth_of_frames shape, List.length_cons]
    omega
  cases inner with
  | nil =>
    -- The step consumes bytes of the frame itself, which belong to what it keeps.
    obtain ⟨rfl, callers⟩ := List.cons_eq_cons.1 frames
    rw [callers] at after
    have still := depth_of_frames after
    obtain ⟨kept, split, inlined⟩ := inlines after
    rw [Inlines, unreadOnLeaving_of_kept goes (by rw [still, List.length_cons]; omega)]
    refine ⟨used ++ kept, ?_, ?_⟩
    · rw [reads.program, List.append_assoc, ← split]
    · intro other frames same
      obtain ⟨program, below⟩ := List.cons_eq_cons.1 frames
      rw [List.append_assoc] at program
      obtain ⟨next, step, shape, registers⟩ := reads.elsewhere other (kept ++ rest) program same (higher frames)
      rw [below] at shape
      exact .goes step (inlined next shape registers)
  | cons first inner =>
    obtain ⟨rfl, callers⟩ := List.cons_eq_cons.1 frames
    have nested : following.frames = (above ++ behind :: inner) ++ current :: rest :: outer := by
      rw [after, callers, List.append_assoc]
      rfl
    have still := depth_of_frames nested
    obtain ⟨kept, split, inlined⟩ := inlines nested
    rw [Inlines, unreadOnLeaving_of_kept goes (by rw [still, List.length_cons]; omega)]
    refine ⟨kept, split, ?_⟩
    intro other frames same
    obtain ⟨program, below⟩ := List.cons_eq_cons.1 frames
    obtain ⟨next, step, shape, registers⟩ :=
      reads.elsewhere other behind (program.trans reads.program) same (higher frames)
    refine .goes step (inlined next ?_ registers)
    rw [shape, below, List.append_assoc]
    rfl

theorem inlines_run (finishes : Finishes context machine registers)
    (frames : machine.frames = inner ++ current :: rest :: outer) :
    Inlines context machine registers inner current rest outer := by
  induction finishes generalizing inner current with
  | done ends => exact inlines_done ends frames
  | goes goes later ih =>
    rcases leaves_or_readsOn goes with ⟨leaves, after, unchanged⟩ | ⟨used, behind, above, reads⟩
    · exact inlines_leaves goes later leaves after unchanged frames ih
    · exact inlines_reads goes reads frames ih

end Inlines

theorem finishes_of_call {machine : Machine} {op : Operator} {table : Subroutines} {operand : Float}
    {operands : List Float} {body rest : List UInt8} {registers : Registers}
    (reads : Token.read machine.program = .ok (some (.operator op)) rest)
    (chosen : op.table? context = some table) (stack : machine.registers.operands = operand :: operands)
    (found : table.get operand = .ok body) (finishes : Finishes context machine registers) :
    Finishes context ⟨body, machine.callers.push rest, { machine.registers with operands }⟩ registers := by
  have steps := step_of_call reads chosen stack found
  rw [finishes_iff] at finishes ⊢
  by_cases shallow : machine.callers.depth < context.maxDepth
  · rw [if_pos shallow] at steps
    rw [result_run_of_goes (goes_of_step steps)] at finishes
    exact finishes
  · rw [if_neg shallow] at steps
    rw [run_of_failed steps] at finishes
    cases finishes

/-- A run that calls a subroutine ends with the same registers as one that finds, in place of the call, the bytes
that the subroutine consumes: those before what it leaves unread. -/
theorem run_eq_run_inlined {machine : Machine} {op : Operator} {table : Subroutines} {operand : Float}
    {operands : List Float} {body rest : List UInt8} {registers : Registers}
    (reads : Token.read machine.program = .ok (some (.operator op)) rest)
    (chosen : op.table? context = some table) (stack : machine.registers.operands = operand :: operands)
    (found : table.get operand = .ok body) (finished : (machine.run context).result = .ok registers) :
    ∃ consumed,
      body = consumed ++ unreadOnLeaving context (machine.callers.depth + 1)
        ⟨body, machine.callers.push rest, { machine.registers with operands }⟩ ∧
      (Machine.run context
        { machine with program := consumed ++ rest, registers := { machine.registers with operands } }).result =
          .ok registers := by
  have finishes := finishes_of_call reads chosen stack found (finishes_iff.2 finished)
  have shape : Machine.frames ⟨body, machine.callers.push rest, { machine.registers with operands }⟩ =
      [] ++ body :: rest :: machine.callers.programs := rfl
  rw [machine.callers.depth_eq]
  obtain ⟨consumed, split, inlined⟩ := inlines_run finishes shape
  exact ⟨consumed, split, finishes_iff.1 (inlined _ rfl rfl)⟩

/-- One subroutine, which moves and returns before its last byte. -/
def returning : Context := { globals := .ofList [[22, 11, 0]] }

/-- A machine that is about to call it and then ends. -/
def calling : Machine where
  program := [29, 14]
  registers := { operands := [-107.0, 10.0] }

theorem run_eq_run_inlined_returning :
    let called : Machine := ⟨[22, 11, 0], calling.callers.push [14], { operands := [10.0] }⟩
    let inlined (consumed : List UInt8) : Machine := ⟨consumed ++ [14], .empty, { operands := [10.0] }⟩
    ∃ registers, (calling.run returning).result = .ok registers ∧
      unreadOnLeaving returning 1 called = [11, 0] ∧
      ∃ consumed, [22, 11, 0] = consumed ++ unreadOnLeaving returning 1 called ∧
        ((inlined consumed).run returning).result = .ok registers := by
  intro called inlined
  have ended : loop returning 9 calling = some (.ok _) := rfl
  have finished := result_run_of_loop ended
  refine ⟨_, finished, ?_, ?_⟩
  · rw [unreadOnLeaving_of_next rfl, if_neg (by decide), unreadOnLeaving_of_next rfl, if_pos (by decide)]
  · exact run_eq_run_inlined rfl rfl rfl rfl finished

end CompactFont.Charstring.Machine
