import CompactFont.Charstring.Machine

/-! What one step of the machine can do, as rules: the bytes it consumes, what it makes of the registers and
where it goes on. A rule speaks of the consumed bytes alone, so it holds in front of any unread bytes and
above any callers that leave room. -/

namespace CompactFont.Charstring

/-- The subroutines that a call operator chooses from. -/
def Operator.table? (context : Context) : Operator → Option Subroutines
  | .callsubr => context.locals?
  | .callgsubr => some context.globals
  | _ => none

/-- What the tokens that stay in their program make of the registers. -/
inductive Acts : Token → Registers → Registers → Prop where
  | push {token : Token} {x : Float} (number : token.number? = some x) (registers : Registers) :
      Acts token registers (registers.push x)
  | stem {op : StemOperator} {registers after : Registers} (acts : registers.stem op = .ok after) :
      Acts (.operator (.stem op)) registers after
  | mask {op : MaskOperator} {registers after : Registers} (acts : registers.mask op = .ok after) :
      Acts (.operator (.mask op)) registers after
  | move {op : MoveOperator} {registers after : Registers} (acts : registers.move op = .ok after) :
      Acts (.operator (.move op)) registers after
  | draw {op : DrawOperator} {registers after : Registers} (acts : registers.draw op = .ok after) :
      Acts (.operator (.draw op)) registers after
  | compute {op : ComputeOperator} {registers after : Registers} (acts : registers.compute op = .ok after) :
      Acts (.operator (.compute op)) registers after

/-- How many bytes follow a token that are not tokens, by the hints declared up to it. -/
def Token.maskLength (token : Token) (registers : Registers) : Nat :=
  if token.isMask then registers.maskLength else 0

namespace Machine

/-- A program goes no further: it is at its end or about to return. -/
def Leaves (program : List UInt8) : Prop :=
  program = [] ∨ ∃ used rest, program = used ++ rest ∧ Token.Takes used (.operator .ret)

/-- One step that goes on. -/
inductive Goes (context : Context) (machine : Machine) : Machine → Prop where
  | act {token : Token} {used mask rest : List UInt8} {registers : Registers}
      (program : machine.program = used ++ (mask ++ rest)) (takes : Token.Takes used token)
      (acts : Acts token machine.registers registers) (covers : mask.length = token.maskLength registers) :
      Goes context machine { machine with program := rest, registers }
  | call {op : Operator} {table : Subroutines} {operand : Float} {operands : List Float}
      {body used rest : List UInt8} (program : machine.program = used ++ rest)
      (takes : Token.Takes used (.operator op)) (chosen : op.table? context = some table)
      (stack : machine.registers.operands = operand :: operands) (found : table.get operand = .ok body)
      (shallow : machine.callers.depth < context.maxDepth) :
      Goes context machine ⟨body, machine.callers.push rest, { machine.registers with operands }⟩
  | leave {program : List UInt8} {callers : Callers} (leaves : Leaves machine.program)
      (popped : machine.callers.pop? = some (program, callers)) :
      Goes context machine { machine with program, callers }

/-- What a step comes to: it goes on by a rule, ends well at `endchar`, or fails. -/
inductive Comes (context : Context) (machine : Machine) : Step → Prop where
  | goes {following : Machine} {event? : Option Event} (goes : Goes context machine following) :
      Comes context machine (.next following event?)
  | ends {used rest : List UInt8} {registers : Registers} {event? : Option Event}
      (program : machine.program = used ++ rest) (takes : Token.Takes used (.operator .endchar))
      (closes : machine.registers.endchar context.leftover = .ok (registers, event?)) :
      Comes context machine (.done registers event?)
  | fails (fault : Fault) : Comes context machine (.failed fault)

/-- A token that no mask follows. -/
theorem goes_of_acts {context : Context} {machine : Machine} {token : Token} {used rest : List UInt8}
    {registers : Registers} (program : machine.program = used ++ rest) (takes : Token.Takes used token)
    (plain : token.isMask = false) (acts : Acts token machine.registers registers) :
    Goes context machine { machine with program := rest, registers } := by
  have unmasked : machine.program = used ++ ([] ++ rest) := program
  refine .act unmasked takes acts ?_
  rw [Token.maskLength, plain]
  rfl

section Comes

variable {context : Context} {machine current : Machine}

theorem comes_proceed {result : Except Fault Registers}
    (each : ∀ registers, result = .ok registers → Goes context machine { current with registers }) :
    Comes context machine (current.proceed result) := by
  cases result with
  | ok registers => exact .goes (each registers rfl)
  | error fault => exact .fails fault

theorem comes_leave {outermost : GlyphFault}
    (each : ∀ program callers, current.callers.pop? = some (program, callers) →
      Goes context machine { current with program, callers }) :
    Comes context machine (current.leave outermost) := by
  unfold leave
  split
  next => exact .fails _
  next program callers popped => exact .goes (each program callers popped)

theorem comes_skipMask {registers : Registers}
    (each : ∀ mask rest, current.program = mask ++ rest → mask.length = registers.maskLength →
      Goes context machine { current with program := rest, registers }) :
    Comes context machine (current.skipMask registers) := by
  unfold skipMask
  split
  next mask rest found =>
    obtain ⟨covers, program⟩ := Reader.ok_slice_iff.1 found
    exact .goes (each mask rest program covers)
  next => exact .fails _

theorem comes_enter {table : Subroutines}
    (each : ∀ operand operands body, current.registers.operands = operand :: operands →
      table.get operand = .ok body → current.callers.depth < context.maxDepth →
      Goes context machine
        ⟨body, current.callers.push current.program, { current.registers with operands }⟩) :
    Comes context machine (current.enter context table) := by
  unfold enter
  split
  next => exact .fails _
  next operand operands stack =>
    split
    next => exact .fails _
    next body found =>
      by_cases shallow : current.callers.depth < context.maxDepth
      · rw [if_pos shallow]
        exact .goes (each operand operands body stack found shallow)
      · rw [if_neg shallow]
        exact .fails _

end Comes

theorem step_of_read (context : Context) {machine : Machine} {token : Token} {rest : List UInt8}
    (reads : Token.read machine.program = .ok (some token) rest) :
    machine.step context = handle context { machine with program := rest } token := by
  unfold step
  rw [reads]

theorem step_of_takes (context : Context) {machine : Machine} {token : Token} {used rest : List UInt8}
    (program : machine.program = used ++ rest) (takes : Token.Takes used token) :
    machine.step context = handle context { machine with program := rest } token :=
  step_of_read context (program ▸ takes.read rest)

/-- A call that finds its subroutine. -/
theorem step_of_call {context : Context} {machine : Machine} {op : Operator} {table : Subroutines}
    {operand : Float} {operands : List Float} {body rest : List UInt8}
    (reads : Token.read machine.program = .ok (some (.operator op)) rest)
    (chosen : op.table? context = some table) (stack : machine.registers.operands = operand :: operands)
    (found : table.get operand = .ok body) :
    machine.step context =
      if machine.callers.depth < context.maxDepth then
        .next ⟨body, machine.callers.push rest, { machine.registers with operands }⟩
          (some (.called (table.number operand) (machine.callers.depth + 1)))
      else .failed (.glyph (.nestedDeeper context.maxDepth)) := by
  rw [step_of_read context reads]
  cases op with
  | callsubr =>
    have there : context.locals? = some table := chosen
    simp only [handle, execute, there, enter, stack, found]
  | callgsubr =>
    cases chosen
    simp only [handle, execute, enter, stack, found]
  | _ => cases chosen

/-- The rules and `endchar` say all that a step can come to besides failing. -/
theorem comes_step (context : Context) (machine : Machine) : Comes context machine (machine.step context) := by
  cases found : Token.read machine.program with
  | error fault rest =>
    rw [step, found]
    exact .fails fault
  | ok token? rest =>
    cases token? with
    | none =>
      rw [step, found]
      exact comes_leave fun _ _ popped => .leave (.inl (Token.read_eq_none_iff.1 found).1) popped
    | some token =>
      obtain ⟨used, program, takes⟩ := Token.takes_of_read found
      rw [step_of_read context found]
      cases token with
      | integer value => exact .goes (goes_of_acts program takes rfl (.push rfl _))
      | fixed raw => exact .goes (goes_of_acts program takes rfl (.push rfl _))
      | operator op =>
        cases op with
        | stem op => exact comes_proceed fun _ acts => goes_of_acts program takes rfl (.stem acts)
        | mask op =>
          simp only [handle, execute]
          split
          next registers acts =>
            apply comes_skipMask
            intro mask after behind covers
            exact .act (behind ▸ program) takes (.mask acts) covers
          next => exact .fails _
        | move op => exact comes_proceed fun _ acts => goes_of_acts program takes rfl (.move acts)
        | draw op => exact comes_proceed fun _ acts => goes_of_acts program takes rfl (.draw acts)
        | compute op => exact comes_proceed fun _ acts => goes_of_acts program takes rfl (.compute acts)
        | flex op => exact .fails _
        | random => exact .fails _
        | callsubr =>
          simp only [handle, execute]
          split
          next table chosen =>
            apply comes_enter
            intro operand operands body stack called shallow
            exact .call program takes chosen stack called shallow
          next => exact .fails _
        | callgsubr =>
          apply comes_enter
          intro operand operands body stack called shallow
          exact .call program takes rfl stack called shallow
        | ret => exact comes_leave fun _ _ popped => .leave (.inr ⟨used, rest, program, takes⟩) popped
        | endchar =>
          simp only [handle, execute]
          split
          next closes => exact .ends program takes closes
          next => exact .fails _

theorem goes_of_step {context : Context} {machine following : Machine} {event? : Option Event}
    (steps : machine.step context = .next following event?) : Goes context machine following := by
  have comes := comes_step context machine
  rw [steps] at comes
  cases comes with
  | goes goes => exact goes

theorem handle_of_acts {context : Context} {machine : Machine} {token : Token} {registers : Registers}
    (acts : Acts token machine.registers registers) (plain : token.isMask = false) :
    handle context machine token = .next { machine with registers } := by
  cases acts with
  | push number =>
    cases token with
    | integer value => cases number; rfl
    | fixed raw => cases number; rfl
    | operator op => cases number
  | stem acts => simp only [handle, execute, acts, proceed]
  | mask => cases plain
  | move acts => simp only [handle, execute, acts, proceed]
  | draw acts => simp only [handle, execute, acts, proceed]
  | compute acts => simp only [handle, execute, acts, proceed]

theorem handle_of_mask {context : Context} {machine : Machine} {op : MaskOperator} {mask rest : List UInt8}
    {registers : Registers} (program : machine.program = mask ++ rest)
    (acts : machine.registers.mask op = .ok registers) (covers : mask.length = registers.maskLength) :
    handle context machine (.operator (.mask op)) = .next { machine with program := rest, registers } := by
  have skipped : Reader.slice registers.maskLength machine.program = .ok mask rest :=
    Reader.ok_slice_iff.2 ⟨covers, program⟩
  simp only [handle, execute, acts, skipMask, skipped]

/-- Each rule is a step. -/
theorem step_of_goes {context : Context} {machine following : Machine} (goes : Goes context machine following) :
    ∃ event?, machine.step context = .next following event? := by
  cases goes with
  | @act token used mask rest registers program takes acts covers =>
    refine ⟨none, ?_⟩
    rw [step_of_takes context program takes]
    by_cases masked : token.isMask = true
    · cases acts with
      | mask acts => exact handle_of_mask rfl acts covers
      | push number =>
        cases token with
        | operator op => cases number
        | _ => cases masked
      | _ => cases masked
    · have plain := Bool.eq_false_iff.2 masked
      rw [Token.maskLength, plain] at covers
      rw [List.length_eq_zero_iff.1 covers, List.nil_append]
      exact handle_of_acts acts plain
  | @call op table operand operands body used rest program takes chosen stack found shallow =>
    rw [step_of_call (program ▸ takes.read rest) chosen stack found, if_pos shallow]
    exact ⟨_, rfl⟩
  | @leave outer callers leaves popped =>
    refine ⟨none, ?_⟩
    rcases leaves with ended | ⟨used, rest, program, takes⟩
    · have none := Token.read_eq_none_iff.2 ⟨ended, rfl⟩
      simp only [step, none, leave, popped]
    · rw [step_of_takes context program takes]
      simp only [handle, execute, leave, popped]

/-- A run ends well at `endchar` only. -/
theorem step_eq_done_iff {context : Context} {machine : Machine} {registers : Registers} {event? : Option Event} :
    machine.step context = .done registers event? ↔
      ∃ used rest, machine.program = used ++ rest ∧ Token.Takes used (.operator .endchar) ∧
        machine.registers.endchar context.leftover = .ok (registers, event?) := by
  constructor
  · intro steps
    have comes := comes_step context machine
    rw [steps] at comes
    cases comes with
    | ends program takes closes => exact ⟨_, _, program, takes, closes⟩
  · intro ⟨used, rest, program, takes, closes⟩
    rw [step_of_takes context program takes]
    simp only [handle, execute, closes]

end Machine
end CompactFont.Charstring
