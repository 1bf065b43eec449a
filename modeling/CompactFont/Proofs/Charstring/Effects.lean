import CompactFont.Charstring.Registers

/-! What the operators make of the registers when they succeed, said in full: when that is, and which registers
they leave. -/

namespace CompactFont.Charstring

namespace Registers

variable {registers after : Registers}

theorem takeWidth_of_settled (carries : Nat → Bool) (settled : registers.settled = true) :
    registers.takeWidth carries = registers := by
  rw [takeWidth, if_pos settled]

/-- The bottom operand is added to the width or nothing is; it is gone from the operands, and all else stays. -/
theorem takeWidth_cases (carries : Nat → Bool) (unsettled : registers.settled = false) :
    (carries registers.count = true ∧ ∃ above difference, registers.operands = above ++ [difference] ∧
      registers.takeWidth carries =
        { registers with width := registers.width + difference, settled := true, operands := above }) ∨
    ((carries registers.count = false ∨ registers.operands = []) ∧
      registers.takeWidth carries = { registers with settled := true }) := by
  unfold takeWidth
  rw [if_neg (Bool.eq_false_iff.1 unsettled)]
  cases last : registers.operands.getLast? with
  | none =>
    right
    exact ⟨.inr (List.getLast?_eq_none_iff.1 last), rfl⟩
  | some difference =>
    obtain ⟨above, split⟩ := List.getLast?_eq_some_iff.1 last
    by_cases carried : carries registers.count = true
    · left
      refine ⟨carried, above, difference, split, ?_⟩
      have rest : registers.operands.dropLast = above := by rw [split, List.dropLast_concat]
      simp only [if_pos carried, rest]
    · right
      refine ⟨.inl (Bool.eq_false_iff.2 carried), ?_⟩
      simp only [if_neg carried]

/-- Taking the width concerns the advance width and the bottom operand alone, and settles it. -/
theorem takeWidth_frame (carries : Nat → Bool) (registers : Registers) :
    ∃ width operands, operands <+: registers.operands ∧
      registers.takeWidth carries = { registers with width, settled := true, operands } := by
  cases state : registers.settled with
  | false =>
    rcases takeWidth_cases carries state with ⟨_, above, difference, split, taken⟩ | ⟨_, taken⟩
    · exact ⟨_, above, ⟨[difference], split.symm⟩, taken⟩
    · exact ⟨registers.width, registers.operands, List.prefix_rfl, taken⟩
  | true =>
    refine ⟨registers.width, registers.operands, List.prefix_rfl, ?_⟩
    rw [takeWidth_of_settled carries state, ← state]

@[simp] theorem pen_takeWidth (carries : Nat → Bool) (registers : Registers) :
    (registers.takeWidth carries).pen = registers.pen := by
  obtain ⟨width, operands, _, taken⟩ := takeWidth_frame carries registers
  rw [taken]

@[simp] theorem transient_takeWidth (carries : Nat → Bool) (registers : Registers) :
    (registers.takeWidth carries).transient = registers.transient := by
  obtain ⟨width, operands, _, taken⟩ := takeWidth_frame carries registers
  rw [taken]

@[simp] theorem settled_takeWidth (carries : Nat → Bool) (registers : Registers) :
    (registers.takeWidth carries).settled = true := by
  obtain ⟨width, operands, _, taken⟩ := takeWidth_frame carries registers
  rw [taken]

theorem operands_takeWidth_prefix (carries : Nat → Bool) (registers : Registers) :
    (registers.takeWidth carries).operands <+: registers.operands := by
  obtain ⟨width, operands, shorter, taken⟩ := takeWidth_frame carries registers
  rw [taken]
  exact shorter

theorem declare_eq_ok_iff {op : Operator} {admits : Nat → Bool} :
    registers.declare op admits = .ok after ↔
      admits (registers.takeWidth isOdd).count = true ∧
        after = { registers.takeWidth isOdd with
          operands := []
          hints := (registers.takeWidth isOdd).hints + (registers.takeWidth isOdd).count / 2 } := by
  unfold declare
  by_cases admitted : admits (registers.takeWidth isOdd).count = true
  · simp [admitted, eq_comm]
  · simp [admitted]

theorem fault_of_declare {op : Operator} {admits : Nat → Bool} {fault : Fault}
    (refused : registers.declare op admits = .error fault) : ∃ found : Registers, fault = found.miscount op := by
  dsimp only [declare] at refused
  split at refused
  next => cases refused
  next =>
    cases refused
    exact ⟨_, rfl⟩

theorem move_eq_ok_iff {op : MoveOperator} :
    registers.move op = .ok after ↔
      ∃ dx dy, moveBy? op (registers.takeWidth (· == moveArity op + 1)).operands = some (dx, dy) ∧
        after = { registers.takeWidth (· == moveArity op + 1) with
          operands := []
          pen := registers.pen.move dx dy } := by
  dsimp only [move]
  cases moveBy? op (registers.takeWidth (· == moveArity op + 1)).operands with
  | none => simp
  | some way =>
    obtain ⟨dx, dy⟩ := way
    simp only [pen_takeWidth, Except.ok.injEq, Option.some.injEq, Prod.mk.injEq]
    constructor
    · intro moved
      exact ⟨dx, dy, ⟨rfl, rfl⟩, moved.symm⟩
    · intro ⟨_, _, ⟨same, also⟩, moved⟩
      rw [same, also, moved]

theorem fault_of_move {op : MoveOperator} {fault : Fault} (refused : registers.move op = .error fault) :
    ∃ found : Registers, fault = found.miscount (.move op) := by
  dsimp only [move] at refused
  split at refused
  next => cases refused
  next =>
    cases refused
    exact ⟨_, rfl⟩

theorem draw_eq_ok_iff {op : DrawOperator} :
    registers.draw op = .ok after ↔
      registers.pen.hasSubpath = true ∧ ∃ strokes, op.strokes? registers.operands.reverse = some strokes ∧
        after = { registers with operands := [], pen := registers.pen.draw strokes } := by
  unfold draw
  by_cases begun : registers.pen.hasSubpath = true
  · cases read : op.strokes? registers.operands.reverse with
    | none => simp [begun]
    | some strokes => simp [begun, eq_comm]
  · simp [begun]

theorem fault_of_draw {op : DrawOperator} {fault : Fault} (refused : registers.draw op = .error fault) :
    fault = .glyph (.beforeMove (.draw op)) ∨ fault = registers.miscount (.draw op) := by
  unfold draw at refused
  split at refused
  next =>
    split at refused
    next => cases refused
    next =>
      cases refused
      exact .inr rfl
  next =>
    cases refused
    exact .inl rfl

theorem compute_eq_ok_iff {op : ComputeOperator} :
    registers.compute op = .ok after ↔
      ∃ workspace, op.apply registers.toWorkspace = .ok workspace ∧
        after = { registers with toWorkspace := workspace } := by
  unfold compute
  cases op.apply registers.toWorkspace with
  | error fault => simp
  | ok workspace => simp [eq_comm]

/-- The registers that a glyph ends with. -/
def closed (registers : Registers) : Registers :=
  { registers.takeWidth isOdd with operands := [], pen := registers.pen.close }

theorem endchar_eq_ok {leftover : Leftover} {event? : Option Event}
    (ends : registers.endchar leftover = .ok (after, event?)) : after = registers.closed := by
  dsimp only [endchar] at ends
  by_cases none : (registers.takeWidth isOdd).count = 0
  · rw [if_pos none] at ends
    cases ends
    simp only [closed, pen_takeWidth]
  by_cases accented : (registers.takeWidth isOdd).count = 4
  · rw [if_neg none, if_pos accented] at ends
    cases ends
  rw [if_neg none, if_neg accented] at ends
  cases leftover with
  | reject => cases ends
  | ignore =>
    cases ends
    simp only [closed, pen_takeWidth]

end Registers
end CompactFont.Charstring
