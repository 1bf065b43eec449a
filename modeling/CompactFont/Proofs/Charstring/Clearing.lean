import CompactFont.Proofs.Charstring.Drawing
import CompactFont.Reader.Faults

/-! The operators that clear the stack. Each checks the number of its operands before it uses them, so that none is
missing and none is left; a drawing operator that fails has not drawn anything. -/

namespace CompactFont.Charstring

theorem Registers.miscount_ne_underflow (found : Registers) (op : Operator) : found.miscount op ≠ .glyph .underflow := nofun

namespace Work

variable {machine : Machine} {carries : Nat → Bool}

theorem settleWidth_eq (unasked : carries 0 = false) (machine : Machine) :
    settleWidth carries machine = .ok () { machine with registers := machine.registers.takeWidth carries } := by
  cases state : machine.registers.settled with
  | true =>
    rw [Registers.takeWidth_of_settled carries state]
    simp only [settleWidth, bind_apply, registers, state]
    rfl
  | false =>
    simp only [settleWidth, bind_apply, registers, state, Bool.false_eq_true, if_false]
    rcases Registers.takeWidth_cases carries state with ⟨carried, above, difference, split, taken⟩ | ⟨refused, taken⟩
    · simp only [carried, if_true, bind_apply, takeBottom, split, List.getLast?_concat, List.dropLast_concat, taken]
      rfl
    · have plain : carries machine.registers.count = false := by
        rcases refused with refused | none
        · exact refused
        · rwa [Registers.count, none]
      simp only [plain, taken]
      rfl

/-- Hints are declared as by the registers. When their number is refused, the width alone has been taken. -/
theorem declare_eq (op : Operator) (admits : Nat → Bool) (machine : Machine) :
    declare op admits machine =
      match machine.registers.declare op admits with
      | .ok registers => .ok () { machine with registers }
      | .error fault => .error fault { machine with registers := machine.registers.takeWidth Registers.isOdd } := by
  rw [declare, bind_apply, settleWidth_eq rfl]
  simp only [bind_apply, require, Registers.declare]
  by_cases admitted : admits (machine.registers.takeWidth Registers.isOdd).count = true
  · simp only [admitted, if_true]
    rfl
  · simp only [admitted]
    rfl

theorem operands_of_declare {op : Operator} {admits : Nat → Bool} {after : Machine}
    (ends : declare op admits machine = .ok () after) : after.registers.operands = [] := by
  rw [declare_eq] at ends
  split at ends
  next registers declared =>
    cases ends
    rw [(Registers.declare_eq_ok_iff.1 declared).2]
  next => cases ends

theorem fault_of_declare {op : Operator} {admits : Nat → Bool} {fault : Fault} {left : Machine}
    (breaks : declare op admits machine = .error fault left) : ∃ found : Registers, fault = found.miscount op := by
  rw [declare_eq] at breaks
  split at breaks
  next => cases breaks
  next other refused =>
    cases breaks
    exact Registers.fault_of_declare refused

theorem step_skipMask (machine : Machine) : step (skipMask machine) = machine.skipMask machine.registers := by
  simp only [skipMask, Machine.skipMask]
  cases Reader.slice machine.registers.maskLength machine.program <;> rfl

theorem registers_of_skipMask {after : Machine} (ends : skipMask machine = .ok () after) :
    after.registers = machine.registers := by
  unfold skipMask at ends
  split at ends
  next =>
    cases ends
    rfl
  next => cases ends

theorem fault_of_skipMask {fault : Fault} {left : Machine} (breaks : skipMask machine = .error fault left) :
    fault = .endOfData := by
  unfold skipMask at breaks
  split at breaks
  next => cases breaks
  next other _ short =>
    cases breaks
    exact (Reader.failsWith_slice rfl _ _ _ _ short).symm

end Work

theorem MoveOperator.work_eq (op : MoveOperator) (machine : Machine) :
    op.work machine =
      match machine.registers.move op with
      | .ok registers => .ok () { machine with registers }
      | .error fault =>
        .error fault { machine with registers := machine.registers.takeWidth (· == Registers.moveArity op + 1) } := by
  rw [work, Work.bind_apply, Work.settleWidth_eq (by cases op <;> rfl)]
  simp only [Work.bind_apply, Work.require, Registers.move]
  generalize machine.registers.takeWidth (· == Registers.moveArity op + 1) = ready
  obtain ⟨⟨operands, transient⟩, pen, width, settled, hints⟩ := ready
  cases op with
  | rmoveto =>
    rcases operands with _ | ⟨dy, _ | ⟨dx, _ | ⟨difference, rest⟩⟩⟩
    · rfl
    · rfl
    · rfl
    · have wrong : (rest.length + 1 + 1 + 1 == 2) = false := beq_false_of_ne (by omega)
      simp only [Registers.count, List.length_cons, Registers.moveArity, wrong]
      rfl
  | hmoveto | vmoveto =>
    rcases operands with _ | ⟨d, _ | ⟨difference, rest⟩⟩
    · rfl
    · rfl
    · have wrong : (rest.length + 1 + 1 == 1) = false := beq_false_of_ne (by omega)
      simp only [Registers.count, List.length_cons, Registers.moveArity, wrong]
      rfl

/-- Operators that leave no operand on the stack. -/
inductive ClearingOperator where
  | stem (op : StemOperator)
  | mask (op : MaskOperator)
  | move (op : MoveOperator)
  | draw (op : DrawOperator)

namespace ClearingOperator

def operator : ClearingOperator → Operator
  | .stem op => .stem op
  | .mask op => .mask op
  | .move op => .move op
  | .draw op => .draw op

def work : ClearingOperator → Work Unit
  | .stem op => op.work
  | .mask op => op.work
  | .move op => op.work
  | .draw op => op.work

variable {context : Context} {machine after : Machine} {op : ClearingOperator}

/-- The work of an operator is what the machine executes. -/
theorem step_work (context : Context) (machine : Machine) (op : ClearingOperator) :
    Work.step (op.work machine) = machine.execute context op.operator := by
  cases op with
  | stem op =>
    simp only [work, operator, Machine.execute, StemOperator.work, Work.declare_eq]
    rw [show machine.registers.stem op = machine.registers.declare (.stem op) fun n => n != 0 && n % 2 == 0 from rfl]
    cases machine.registers.declare (.stem op) fun n => n != 0 && n % 2 == 0 <;> rfl
  | mask op =>
    simp only [work, operator, Machine.execute, MaskOperator.work, Work.bind_apply, Work.declare_eq]
    rw [show machine.registers.mask op = machine.registers.declare (.mask op) fun n => n % 2 == 0 from rfl]
    cases machine.registers.declare (.mask op) fun n => n % 2 == 0 with
    | ok registers => exact Work.step_skipMask { machine with registers }
    | error fault => rfl
  | move op =>
    simp only [work, operator, Machine.execute, MoveOperator.work_eq]
    cases machine.registers.move op <;> rfl
  | draw op =>
    simp only [work, operator, Machine.execute, DrawOperator.work_eq]
    cases machine.registers.draw op <;> rfl

theorem operands_of_work (ends : op.work machine = .ok () after) : after.registers.operands = [] := by
  cases op with
  | stem op =>
    rw [work, StemOperator.work] at ends
    exact Work.operands_of_declare ends
  | mask op =>
    rw [work, MaskOperator.work, Work.bind_apply] at ends
    split at ends
    next between declared =>
      rw [Work.registers_of_skipMask ends]
      exact Work.operands_of_declare declared
    next => cases ends
  | move op =>
    rw [work, MoveOperator.work_eq] at ends
    split at ends
    next registers moved =>
      cases ends
      obtain ⟨dx, dy, _, rfl⟩ := Registers.move_eq_ok_iff.1 moved
      rfl
    next => cases ends
  | draw op =>
    rw [work, DrawOperator.work_eq] at ends
    split at ends
    next registers drawn =>
      cases ends
      obtain ⟨_, strokes, _, rfl⟩ := Registers.draw_eq_ok_iff.1 drawn
      rfl
    next => cases ends

/-- No operand is missing, as all are counted before. -/
theorem ne_underflow_of_work {fault : Fault} {left : Machine} (breaks : op.work machine = .error fault left) :
    fault ≠ .glyph .underflow := by
  cases op with
  | stem op =>
    rw [work, StemOperator.work] at breaks
    obtain ⟨found, rfl⟩ := Work.fault_of_declare breaks
    exact found.miscount_ne_underflow _
  | mask op =>
    rw [work, MaskOperator.work, Work.bind_apply] at breaks
    split at breaks
    next between declared =>
      rw [Work.fault_of_skipMask breaks]
      exact Fault.noConfusion
    next other between refused =>
      cases breaks
      obtain ⟨found, rfl⟩ := Work.fault_of_declare refused
      exact found.miscount_ne_underflow _
  | move op =>
    rw [work, MoveOperator.work_eq] at breaks
    split at breaks
    next => cases breaks
    next other refused =>
      cases breaks
      obtain ⟨found, rfl⟩ := Registers.fault_of_move refused
      exact found.miscount_ne_underflow _
  | draw op =>
    rw [work, DrawOperator.work_eq] at breaks
    split at breaks
    next => cases breaks
    next other refused =>
      cases breaks
      rcases Registers.fault_of_draw refused with rfl | rfl
      · exact fun missing => GlyphFault.noConfusion (Fault.glyph.inj missing)
      · exact machine.registers.miscount_ne_underflow _

theorem operands_of_execute {event? : Option Event} (runs : machine.execute context op.operator = .next after event?) :
    after.registers.operands = [] := by
  rw [← step_work] at runs
  cases ends : op.work machine with
  | ok done left =>
    rw [ends] at runs
    cases runs
    exact operands_of_work ends
  | error fault left =>
    rw [ends] at runs
    cases runs

/-- For every machine, an operator that clears the stack leaves no operand behind when it succeeds and never misses one.
Operand by operand it comes to what the machine executes, and if it is a drawing operator it succeeds, with an open subpath,
for the numbers of operands that it is made for; it leaves the machine as it was when it fails, and when it succeeds adds
just as many segments as the operands ask for behind those that are there. -/
theorem clears_all_or_nothing (context : Context) (machine : Machine) (op : ClearingOperator) :
    Work.step (op.work machine) = machine.execute context op.operator ∧
    (∀ after event?, machine.execute context op.operator = .next after event? → after.registers.operands = []) ∧
    (∀ left, op.work machine ≠ .error (.glyph .underflow) left) ∧
    ∀ draw, op = .draw draw →
      ((∃ after, op.work machine = .ok () after) ↔
        machine.registers.pen.hasSubpath = true ∧ draw.admits machine.registers.count = true) ∧
      (∀ fault left, op.work machine = .error fault left → left = machine) ∧
      ∀ after, op.work machine = .ok () after →
        ∃ drawn, after.registers.pen.path = machine.registers.pen.path ++ drawn ∧
          drawn.length = draw.segments machine.registers.count := by
  refine ⟨step_work context machine op, fun after event? => operands_of_execute, ?missing, ?draw⟩
  case missing =>
    intro left breaks
    exact ne_underflow_of_work breaks rfl
  case draw =>
    rintro draw rfl
    exact ⟨draw.exists_work_eq_ok_iff machine, fun fault left => DrawOperator.eq_of_work_eq_error,
      fun after => DrawOperator.path_of_work_eq_ok⟩

/-- A curve with a slant, and the same operands for an operator that they do not fit. -/
theorem clears_all_or_nothing_slanted :
    let machine : Machine :=
      { program := [14], registers := { pen := Pen.move {} 1.0 2.0, operands := [5.0, 4.0, 3.0, 2.0, 1.0] } }
    (∃ after drawn, (draw .hvcurveto).work machine = .ok () after ∧
      machine.execute {} (draw .hvcurveto).operator = .next after ∧ after.registers.operands = [] ∧
      after.registers.pen.path = machine.registers.pen.path ++ drawn ∧ drawn.length = 1) ∧
    ∃ fault, (draw .rrcurveto).work machine = .error fault machine := by
  intro machine
  constructor
  · obtain ⟨steps, clears, _, draws⟩ := clears_all_or_nothing {} machine (draw .hvcurveto)
    obtain ⟨succeeds, _, adds⟩ := draws .hvcurveto rfl
    obtain ⟨after, ends⟩ := succeeds.2 ⟨rfl, rfl⟩
    obtain ⟨drawn, behind, counted⟩ := adds after ends
    have one : DrawOperator.hvcurveto.segments machine.registers.count = 1 := by decide
    rw [ends] at steps
    exact ⟨after, drawn, ends, steps.symm, clears after none steps.symm, behind, counted.trans one⟩
  · obtain ⟨succeeds, keeps, _⟩ := (clears_all_or_nothing {} machine (draw .rrcurveto)).2.2.2 .rrcurveto rfl
    cases comes : (draw .rrcurveto).work machine with
    | ok done after => cases (succeeds.1 ⟨after, comes⟩).2
    | error fault left =>
      rw [keeps fault left comes]
      exact ⟨fault, rfl⟩

end ClearingOperator

end CompactFont.Charstring
