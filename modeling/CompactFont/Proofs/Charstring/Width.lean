import CompactFont.Proofs.Charstring.Effects
import CompactFont.Proofs.Charstring.Execution

/-! The advance width is settled once in a run, by the first operator that declares hints, begins a subpath or
ends the glyph, whatever subroutine it stands in. The width is added to and never looked at, so that the nominal width
from which a run begins counts nowhere else. -/

namespace CompactFont.Charstring

/-- The operators that settle the advance width if no other has. -/
def Operator.settlesWidth : Operator → Bool
  | .stem _ | .mask _ | .move _ | .endchar => true
  | _ => false

/-- Whether an operator finds one operand too many, so that the bottom one is a width. -/
def Operator.carriesWidth : Operator → Nat → Bool
  | .stem _, count | .mask _, count | .endchar, count => count % 2 == 1
  | .move .rmoveto, count => count == 3
  | .move .hmoveto, count | .move .vmoveto, count => count == 2
  | _, _ => false

theorem Operator.carriesWidth_move (op : MoveOperator) :
    (Operator.move op).carriesWidth = (· == Registers.moveArity op + 1) := by
  cases op <;> rfl

theorem Operator.carriesWidth_zero (op : Operator) : op.carriesWidth 0 = false := by
  cases op with
  | move op => cases op <;> rfl
  | _ => rfl

/-! ### The operator that settles the width -/

namespace Registers

/-- The registers as they are when the width has been taken, or not, before an operator or a step without one. -/
def readied (registers : Registers) (op? : Option Operator) : Registers :=
  match op?.filter Operator.settlesWidth with
  | some op => registers.takeWidth op.carriesWidth
  | none => registers

theorem readied_of_settled {registers : Registers} (settled : registers.settled = true) (op? : Option Operator) :
    registers.readied op? = registers := by
  unfold readied
  split
  next op _ => exact takeWidth_of_settled op.carriesWidth settled
  next => rfl

/-- The width that an operator settles is the one before or differs from it by the bottom operand. -/
theorem width_takeWidth {registers : Registers} (op : Operator) (unsettled : registers.settled = false) :
    if op.carriesWidth registers.count then
      ∃ above bottom, registers.operands = above ++ [bottom] ∧
        (registers.takeWidth op.carriesWidth).width = registers.width + bottom
    else (registers.takeWidth op.carriesWidth).width = registers.width := by
  rcases takeWidth_cases op.carriesWidth unsettled with
    ⟨carried, above, bottom, split, taken⟩ | ⟨uncarried, taken⟩
  · rw [if_pos carried, taken]
    exact ⟨above, bottom, split, rfl⟩
  · have few : ¬ op.carriesWidth registers.count = true := by
      rcases uncarried with uncarried | empty
      · rw [uncarried]
        exact Bool.false_ne_true
      · rw [count, empty, List.length_nil, op.carriesWidth_zero]
        exact Bool.false_ne_true
    rw [if_neg few, taken]

end Registers

namespace Machine

variable {context : Context}

/-- Steps take the width where an operator settles it, and do nothing else to it. -/
theorem width_of_effect {op? : Option Operator} {registers after : Registers} (effect : Effect op? registers after) :
    after.width = (registers.readied op?).width ∧ after.settled = (registers.readied op?).settled := by
  cases effect with
  | push => exact ⟨rfl, rfl⟩
  | act acts =>
    cases acts with
    | push number => cases number
    | stem acts =>
      obtain ⟨_, rfl⟩ := Registers.declare_eq_ok_iff.1 acts
      exact ⟨rfl, rfl⟩
    | mask acts =>
      obtain ⟨_, rfl⟩ := Registers.declare_eq_ok_iff.1 acts
      exact ⟨rfl, rfl⟩
    | move acts =>
      obtain ⟨dx, dy, _, rfl⟩ := Registers.move_eq_ok_iff.1 acts
      rw [← Operator.carriesWidth_move]
      exact ⟨rfl, rfl⟩
    | draw acts =>
      obtain ⟨_, strokes, _, rfl⟩ := Registers.draw_eq_ok_iff.1 acts
      exact ⟨rfl, rfl⟩
    | compute acts =>
      obtain ⟨workspace, _, rfl⟩ := Registers.compute_eq_ok_iff.1 acts
      exact ⟨rfl, rfl⟩
  | call calls _ => rcases calls with rfl | rfl <;> exact ⟨rfl, rfl⟩
  | leave leaves => rcases leaves with rfl | rfl <;> exact ⟨rfl, rfl⟩

/-- Once settled, the width stays. -/
theorem width_run_of_settled {machine : Machine} {registers : Registers}
    (finishes : Finishes context machine registers) (settled : machine.registers.settled = true) :
    registers.width = machine.registers.width ∧
      ∀ later ∈ executed context machine, later.2.width = machine.registers.width := by
  induction finishes with
  | @done machine registers event? ends =>
    obtain ⟨_, _, _, _, closed⟩ := step_eq_done_iff.1 ends
    rw [Registers.endchar_eq_ok closed, executed_of_done ends]
    constructor
    · show (machine.registers.takeWidth Registers.isOdd).width = machine.registers.width
      rw [Registers.takeWidth_of_settled _ settled]
    · intro later member
      rw [List.mem_singleton.1 member]
  | @goes machine following registers goes _ ih =>
    obtain ⟨same, still⟩ := width_of_effect (effect_of_goes goes)
    rw [Registers.readied_of_settled settled] at same still
    obtain ⟨last, others⟩ := ih (still.trans settled)
    rw [same] at last others
    refine ⟨last, ?_⟩
    intro later member
    rw [executed_of_goes goes] at member
    rcases List.mem_append.1 member with first | rest
    · obtain ⟨op, _, rfl⟩ := Option.map_eq_some_iff.1 (Option.mem_toList.1 first)
      rfl
    · exact others later rest

/-- Until the width is settled, it is the one that the run began with; the first operator that can settles it. -/
theorem width_run_of_unsettled {machine : Machine} {registers : Registers}
    (finishes : Finishes context machine registers) (unsettled : machine.registers.settled = false) :
    ∃ before op found after, executed context machine = before ++ (op, found) :: after ∧
      (∀ earlier ∈ before, earlier.1.settlesWidth = false) ∧ op.settlesWidth = true ∧
      found.settled = false ∧ found.width = machine.registers.width ∧
      registers.width = (found.takeWidth op.carriesWidth).width ∧
      ∀ later ∈ after, later.2.width = registers.width := by
  induction finishes with
  | @done machine registers event? ends =>
    obtain ⟨_, _, _, _, closed⟩ := step_eq_done_iff.1 ends
    rw [Registers.endchar_eq_ok closed, executed_of_done ends]
    refine ⟨[], .endchar, machine.registers, [], rfl, ?_, rfl, unsettled, rfl, rfl, ?_⟩
    · exact List.forall_mem_nil _
    · exact List.forall_mem_nil _
  | @goes machine following registers goes later ih =>
    obtain ⟨width, state⟩ := width_of_effect (effect_of_goes goes)
    rw [executed_of_goes goes]
    cases next : machine.operator? with
    | none =>
      rw [next] at width state
      obtain ⟨before, op, found, after, split, others, settles, still, same, rest⟩ := ih (state.trans unsettled)
      exact ⟨before, op, found, after, split, others, settles, still, same.trans width, rest⟩
    | some op =>
      rw [next, Registers.readied, Option.filter_some] at width state
      by_cases settles : op.settlesWidth = true
      · rw [if_pos settles] at width state
        have settled : following.registers.settled = true :=
          state.trans (Registers.settled_takeWidth op.carriesWidth machine.registers)
        obtain ⟨last, others⟩ := width_run_of_settled later settled
        refine ⟨[], op, machine.registers, executed context following, rfl, ?_, settles, unsettled, rfl,
          last.trans width, ?_⟩
        · exact List.forall_mem_nil _
        · intro other member
          exact (others other member).trans last.symm
      · rw [if_neg settles] at width state
        obtain ⟨before, first, found, after, split, others, settled, still, same, rest⟩ := ih (state.trans unsettled)
        refine ⟨(op, machine.registers) :: before, first, found, after, ?_, ?_, settled, still, same.trans width, rest⟩
        · rw [split]
          rfl
        · exact List.forall_mem_cons.2 ⟨Bool.eq_false_iff.2 settles, others⟩

end Machine

/-! ### Runs from two widths -/

namespace Registers

/-- The registers with another width. -/
def withWidth (width : Float) (registers : Registers) : Registers := { registers with width }

section WithWidth

variable (width : Float) (registers : Registers)

@[simp] theorem workspace_withWidth : (registers.withWidth width).toWorkspace = registers.toWorkspace := rfl

@[simp] theorem pen_withWidth : (registers.withWidth width).pen = registers.pen := rfl

@[simp] theorem count_withWidth : (registers.withWidth width).count = registers.count := rfl

@[simp] theorem miscount_withWidth (op : Operator) :
    (registers.withWidth width).miscount op = registers.miscount op := rfl

@[simp] theorem maskLength_withWidth : (registers.withWidth width).maskLength = registers.maskLength := rfl

end WithWidth

/-- What comes of the registers does not depend on the width, but for the width itself. -/
def Blind (acts : Registers → Except Fault Registers) : Prop :=
  ∀ width registers, ∃ other, acts (registers.withWidth width) = (acts registers).map (withWidth other)

theorem takeWidth_withWidth (carries : Nat → Bool) (width : Float) (registers : Registers) :
    ∃ other, (registers.withWidth width).takeWidth carries = (registers.takeWidth carries).withWidth other := by
  obtain ⟨⟨operands, transient⟩, pen, before, settled, hints⟩ := registers
  simp only [takeWidth, withWidth, count]
  cases settled with
  | true => exact ⟨width, rfl⟩
  | false =>
    cases operands.getLast? with
    | none => exact ⟨width, rfl⟩
    | some difference =>
      by_cases carried : carries operands.length = true
      · exact ⟨width + difference, by simp only [carried, Bool.false_eq_true, if_false, if_true]⟩
      · exact ⟨width, by simp only [carried, Bool.false_eq_true, if_false]⟩

theorem blind_declare (op : Operator) (admits : Nat → Bool) : Blind (declare op admits) := by
  intro width registers
  obtain ⟨other, taken⟩ := takeWidth_withWidth isOdd width registers
  refine ⟨other, ?_⟩
  simp only [declare, taken, count_withWidth, miscount_withWidth]
  split <;> rfl

theorem blind_move (op : MoveOperator) : Blind (move op) := by
  intro width registers
  obtain ⟨other, taken⟩ := takeWidth_withWidth (· == moveArity op + 1) width registers
  refine ⟨other, ?_⟩
  simp only [move, taken, workspace_withWidth, pen_withWidth, miscount_withWidth]
  cases moveBy? op (registers.takeWidth (· == moveArity op + 1)).operands <;> rfl

theorem blind_draw (op : DrawOperator) : Blind (draw op) := by
  intro width registers
  refine ⟨width, ?_⟩
  by_cases begun : registers.pen.hasSubpath = true
  · simp only [draw, pen_withWidth, begun, if_true, workspace_withWidth, miscount_withWidth]
    cases op.strokes? registers.operands.reverse <;> rfl
  · simp only [draw, pen_withWidth, begun, Bool.false_eq_true, if_false]
    rfl

theorem blind_compute (op : ComputeOperator) : Blind (compute op) := by
  intro width registers
  refine ⟨width, ?_⟩
  simp only [compute, workspace_withWidth]
  cases op.apply registers.toWorkspace <;> rfl

/-- Neither does what a glyph ends with. -/
theorem endchar_withWidth (leftover : Leftover) (width : Float) (registers : Registers) :
    ∃ other, (registers.withWidth width).endchar leftover =
      (registers.endchar leftover).map fun ended => (ended.1.withWidth other, ended.2) := by
  obtain ⟨other, taken⟩ := takeWidth_withWidth isOdd width registers
  refine ⟨other, ?_⟩
  simp only [endchar, taken, count_withWidth, pen_withWidth]
  split
  · rfl
  split
  · rfl
  cases leftover <;> rfl

end Registers

namespace Machine

variable {context : Context}

def withWidth (width : Float) (machine : Machine) : Machine :=
  { machine with registers := machine.registers.withWidth width }

section WithWidth

variable (width : Float) (machine : Machine)

@[simp] theorem program_withWidth : (machine.withWidth width).program = machine.program := rfl

@[simp] theorem callers_withWidth : (machine.withWidth width).callers = machine.callers := rfl

@[simp] theorem registers_withWidth :
    (machine.withWidth width).registers = machine.registers.withWidth width := rfl

end WithWidth

end Machine

/-- A step with another width where it comes to. -/
def Step.withWidth (width : Float) : Step → Step
  | .next machine event? => .next (machine.withWidth width) event?
  | .done registers event? => .done (registers.withWidth width) event?
  | .failed fault => .failed fault

namespace Machine

theorem proceed_withWidth {acts : Registers → Except Fault Registers} (blind : Registers.Blind acts) (width : Float)
    (machine : Machine) :
    ∃ other, (machine.withWidth width).proceed (acts (machine.withWidth width).registers) =
      (machine.proceed (acts machine.registers)).withWidth other := by
  obtain ⟨other, same⟩ := blind width machine.registers
  refine ⟨other, ?_⟩
  rw [registers_withWidth, same]
  cases acts machine.registers <;> rfl

theorem leave_withWidth (outermost : GlyphFault) (width : Float) (machine : Machine) :
    (machine.withWidth width).leave outermost = (machine.leave outermost).withWidth width := by
  simp only [leave, callers_withWidth]
  cases machine.callers.pop? <;> rfl

theorem enter_withWidth (table : Subroutines) (width : Float) (machine : Machine) :
    (machine.withWidth width).enter context table = (machine.enter context table).withWidth width := by
  simp only [enter, registers_withWidth, Registers.workspace_withWidth, callers_withWidth, program_withWidth]
  cases machine.registers.operands with
  | nil => rfl
  | cons operand operands =>
    dsimp only
    cases table.get operand with
    | error fault => rfl
    | ok body =>
      by_cases within : machine.callers.depth < context.maxDepth
      · simp only [within, if_true]
        rfl
      · simp only [within, if_false]
        rfl

theorem skipMask_withWidth (registers : Registers) (width other : Float) (machine : Machine) :
    (machine.withWidth width).skipMask (registers.withWidth other) = (machine.skipMask registers).withWidth other := by
  simp only [skipMask, Registers.maskLength_withWidth, program_withWidth]
  cases Reader.slice registers.maskLength machine.program <;> rfl

theorem mask_withWidth (op : MaskOperator) (width : Float) (machine : Machine) :
    ∃ other, (machine.withWidth width).execute context (.mask op) =
      (machine.execute context (.mask op)).withWidth other := by
  obtain ⟨other, same⟩ := Registers.blind_declare (.mask op) (fun n => n % 2 == 0) width machine.registers
  refine ⟨other, ?_⟩
  have masks : (machine.withWidth width).registers.mask op =
      (machine.registers.mask op).map (Registers.withWidth other) := same
  simp only [execute, masks]
  cases machine.registers.mask op with
  | error fault => rfl
  | ok registers => exact skipMask_withWidth registers width other machine

theorem endchar_withWidth (width : Float) (machine : Machine) :
    ∃ other, (machine.withWidth width).execute context .endchar =
      (machine.execute context .endchar).withWidth other := by
  obtain ⟨other, same⟩ := Registers.endchar_withWidth context.leftover width machine.registers
  refine ⟨other, ?_⟩
  simp only [execute, registers_withWidth, same]
  cases machine.registers.endchar context.leftover <;> rfl

/-- No operator looks at the width. -/
theorem execute_withWidth (context : Context) (op : Operator) (width : Float) (machine : Machine) :
    ∃ other, (machine.withWidth width).execute context op = (machine.execute context op).withWidth other := by
  cases op with
  | stem op => exact proceed_withWidth (Registers.blind_declare _ _) width machine
  | mask op => exact mask_withWidth op width machine
  | move op => exact proceed_withWidth (Registers.blind_move op) width machine
  | draw op => exact proceed_withWidth (Registers.blind_draw op) width machine
  | compute op => exact proceed_withWidth (Registers.blind_compute op) width machine
  | flex op => exact ⟨width, rfl⟩
  | random => exact ⟨width, rfl⟩
  | callsubr =>
    refine ⟨width, ?_⟩
    simp only [execute]
    cases context.locals? with
    | none => rfl
    | some table => exact enter_withWidth table width machine
  | callgsubr => exact ⟨width, enter_withWidth context.globals width machine⟩
  | ret => exact ⟨width, leave_withWidth .returnOutside width machine⟩
  | endchar => exact endchar_withWidth width machine

/-- A step does not depend on the width, but for the width that it leaves. -/
theorem step_withWidth (context : Context) (width : Float) (machine : Machine) :
    ∃ other, (machine.withWidth width).step context = (machine.step context).withWidth other := by
  cases reads : Token.read machine.program with
  | error fault rest =>
    refine ⟨width, ?_⟩
    simp only [step, program_withWidth, reads]
    rfl
  | ok token? rest =>
    cases token? with
    | none =>
      refine ⟨width, ?_⟩
      simp only [step, program_withWidth, reads]
      exact leave_withWidth .noEndchar width machine
    | some token =>
      have also : Token.read (machine.withWidth width).program = .ok (some token) rest := reads
      rw [step_of_read context reads, step_of_read context also]
      cases token with
      | integer value => exact ⟨width, rfl⟩
      | fixed raw => exact ⟨width, rfl⟩
      | operator op => exact execute_withWidth context op width { machine with program := rest }

/-- Runs from two widths come to the same, but for the width, and tell the same. -/
theorem run_withWidth (context : Context) (width : Float) (machine : Machine) (past : List Event) :
    ((machine.withWidth width).run context past).events = (machine.run context past).events ∧
      ∃ other, ((machine.withWidth width).run context past).result =
        (machine.run context past).result.map (Registers.withWidth other) := by
  induction machine using step_induction context generalizing width past with
  | each machine ih =>
    obtain ⟨other, same⟩ := step_withWidth context width machine
    cases steps : machine.step context with
    | next following event? =>
      rw [steps] at same
      rw [run_of_next steps, run_of_next same]
      exact ih following (goes_of_step steps) other _
    | done registers event? =>
      rw [steps] at same
      rw [run_of_done steps, run_of_done same]
      exact ⟨rfl, other, rfl⟩
    | failed fault =>
      rw [steps] at same
      rw [run_of_failed steps, run_of_failed same]
      exact ⟨rfl, other, rfl⟩

end Machine

/-- The advance width comes from the first operator that can settle it, and the nominal width changes nothing
but the width. -/
theorem width_settled_once (context : Context) (program : List UInt8) :
    (∀ nominal outline, (Outline.ofProgram context nominal program).result = .ok outline →
      ∃ before op found after,
        Machine.executed context (.start nominal program) = before ++ (op, found) :: after ∧
        (∀ earlier ∈ before, earlier.1.settlesWidth = false) ∧ op.settlesWidth = true ∧
        (if op.carriesWidth found.count then
          ∃ above bottom, found.operands = above ++ [bottom] ∧ outline.width = nominal + bottom
        else outline.width = nominal) ∧
        ∀ later ∈ after, later.2.width = outline.width) ∧
    ∀ nominal other,
      (Outline.ofProgram context nominal program).result.map Outline.path =
        (Outline.ofProgram context other program).result.map Outline.path ∧
      (Outline.ofProgram context nominal program).events = (Outline.ofProgram context other program).events := by
  constructor
  · intro nominal outline drawn
    obtain ⟨registers, finishes, rfl⟩ := Outline.ofProgram_eq_ok_iff.1 drawn
    obtain ⟨before, op, found, after, split, others, settles, unsettled, untouched, last, still⟩ :=
      Machine.width_run_of_unsettled finishes rfl
    refine ⟨before, op, found, after, split, others, settles, ?_, still⟩
    have width := Registers.width_takeWidth op unsettled
    rw [← last, untouched] at width
    exact width
  · intro nominal other
    obtain ⟨told, width, ended⟩ := Machine.run_withWidth context other (.start nominal program) []
    change (Machine.run context (.start other program)).events = _ at told
    change (Machine.run context (.start other program)).result = _ at ended
    rw [Outline.ofProgram_eq, Outline.ofProgram_eq, told, ended]
    refine ⟨?_, rfl⟩
    cases (Machine.run context (.start nominal program)).result <;> rfl

/-- One subroutine, which moves. -/
def mover : Context := { globals := .ofList [[22]] }

theorem width_settled_once_called :
    let outline : Outline := { width := 550.0, path := [.line ⟨10.0, 0.0⟩ ⟨10.0, 0.0⟩] }
    (Outline.ofProgram mover 500.0 [189, 149, 32, 29, 14]).result = .ok outline ∧
      (∃ before op found after,
        Machine.executed mover (.start 500.0 [189, 149, 32, 29, 14]) = before ++ (op, found) :: after ∧
        (∀ earlier ∈ before, earlier.1.settlesWidth = false) ∧ op.settlesWidth = true ∧
        (if op.carriesWidth found.count then
          ∃ above bottom, found.operands = above ++ [bottom] ∧ outline.width = 500.0 + bottom
        else outline.width = 500.0) ∧
        ∀ later ∈ after, later.2.width = outline.width) ∧
      (Outline.ofProgram mover 0.0 [189, 149, 32, 29, 14]).result.map Outline.path = .ok outline.path := by
  intro outline
  have ended : Machine.loop mover 9 (.start 500.0 [189, 149, 32, 29, 14]) = some (.ok _) := rfl
  have drawn : (Outline.ofProgram mover 500.0 [189, 149, 32, 29, 14]).result = .ok outline :=
    Outline.ofProgram_of_loop ended
  refine ⟨drawn, (width_settled_once _ _).1 _ _ drawn, ?_⟩
  rw [((width_settled_once mover [189, 149, 32, 29, 14]).2 0.0 500.0).1, drawn]
  rfl

end CompactFont.Charstring
