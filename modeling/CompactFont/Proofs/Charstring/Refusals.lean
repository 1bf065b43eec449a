import CompactFont.Proofs.Charstring.Width
import CompactFont.Reader.Faults

/-! What a run fails with. A broken glyph, a reserved operator and data that end too soon are told apart from a feature that
is not supported: a run fails for such a feature if and only if it comes to an operator that asks for it. -/

namespace CompactFont

/-- The faults of glyph programs that are not well-formed. -/
def Fault.Broken : Fault → Prop
  | .glyph _ | .endOfData | .reservedOperator .. => True
  | _ => False

theorem Fault.broken_endOfData : Broken .endOfData := trivial

namespace Charstring

/-- The operators that clear the operand stack. -/
def Operator.clearsStack : Operator → Bool
  | .stem _ | .mask _ | .move _ | .draw _ | .endchar => true
  | _ => false

/-- The unsupported feature that an operator asks for where it finds so many operands. A width may still be below those of
`endchar` if the stack has not been `cleared` before. -/
def Operator.asks? (count : Nat) (cleared : Bool) : Operator → Option Feature
  | .random => some .random
  | .flex .hflex => if count = 7 then some .hflex else none
  | .flex .flex => if count = 13 then some .flex else none
  | .flex .hflex1 => if count = 9 then some .hflex1 else none
  | .flex .flex1 => if count = 11 then some .flex1 else none
  | .endchar => if count = 4 ∨ count = 5 ∧ cleared = false then some .accentedEndchar else none
  | _ => none

/-- The features that glyph programs can ask for. -/
def Feature.ofGlyphs : List Feature := [.flex, .hflex, .hflex1, .flex1, .random, .accentedEndchar]

theorem Operator.mem_ofGlyphs_of_asks? {op : Operator} {count : Nat} {cleared : Bool} {feature : Feature}
    (asks : op.asks? count cleared = some feature) : feature ∈ Feature.ofGlyphs := by
  unfold asks? at asks
  split at asks <;> (try split at asks) <;> cases asks <;> decide

/-! ### Operators that fail -/

namespace Registers

variable {registers : Registers} {fault : Fault}

theorem broken_of_declare {op : Operator} {admits : Nat → Bool}
    (fails : registers.declare op admits = .error fault) : fault.Broken := by
  obtain ⟨_, rfl⟩ := fault_of_declare fails
  trivial

theorem broken_of_move {op : MoveOperator} (fails : registers.move op = .error fault) :
    fault.Broken := by
  obtain ⟨_, rfl⟩ := fault_of_move fails
  trivial

theorem broken_of_draw {op : DrawOperator} (fails : registers.draw op = .error fault) :
    fault.Broken := by
  rcases fault_of_draw fails with rfl | rfl <;> trivial

theorem broken_of_compute {op : ComputeOperator} (fails : registers.compute op = .error fault) :
    fault.Broken := by
  unfold compute at fails
  split at fails
  · cases fails
  · cases fails
    trivial

/-- A flex operator is supported with no number of operands: it asks for its feature or has too many or too few. -/
theorem flex_cases (op : FlexOperator) (registers : Registers) (cleared : Bool) :
    (∃ feature, (Operator.flex op).asks? registers.count cleared = some feature ∧
      registers.flex op = .unsupported feature) ∨
    ((Operator.flex op).asks? registers.count cleared = none ∧
      registers.flex op = registers.miscount (.flex op)) := by
  have asked : (Operator.flex op).asks? registers.count cleared =
      if registers.count = (flexArity op).1 then some (flexArity op).2 else none := by
    cases op <;> rfl
  rw [asked, flex]
  by_cases enough : registers.count = (flexArity op).1
  · left
    exact ⟨_, if_pos enough, if_pos enough⟩
  · right
    exact ⟨if_neg enough, if_neg enough⟩

/-- A width below an even number of operands does not count. -/
theorem count_takeWidth_isOdd (registers : Registers) :
    (registers.takeWidth isOdd).count =
      if registers.settled = false ∧ registers.count % 2 = 1 then registers.count - 1
      else registers.count := by
  cases state : registers.settled with
  | true =>
    rw [takeWidth_of_settled isOdd state]
    simp
  | false =>
    rcases takeWidth_cases isOdd state with ⟨odd, above, width, split, taken⟩ | ⟨even, taken⟩
    · have odd : registers.count % 2 = 1 := by simpa [isOdd] using odd
      rw [if_pos ⟨rfl, odd⟩, taken]
      simp [count, split]
    · have even : registers.count % 2 ≠ 1 := by
        rcases even with even | empty
        · simpa [isOdd] using even
        · simp [count, empty]
      rw [if_neg (fun both => even both.2), taken]
      rfl

theorem count_takeWidth_eq_four_iff (registers : Registers) :
    (registers.takeWidth isOdd).count = 4 ↔
      registers.count = 4 ∨ registers.count = 5 ∧ registers.settled = false := by
  rw [count_takeWidth_isOdd]
  cases registers.settled with
  | true => simp
  | false =>
    simp only [true_and, and_true]
    split <;> omega

theorem endchar_of_asks {leftover : Leftover} {feature : Feature}
    (asks : Operator.endchar.asks? registers.count registers.settled = some feature) :
    registers.endchar leftover = .error (.unsupported feature) := by
  simp only [Operator.asks?] at asks
  split at asks
  next four =>
    cases asks
    have four := (count_takeWidth_eq_four_iff registers).2 four
    simp [endchar, four]
  next => cases asks

theorem endchar_eq_error {leftover : Leftover} (fails : registers.endchar leftover = .error fault) :
    fault.Broken ∨ ∃ feature, fault = .unsupported feature ∧
      Operator.endchar.asks? registers.count registers.settled = some feature := by
  dsimp only [endchar] at fails
  split at fails
  · cases fails
  split at fails
  next four =>
    cases fails
    right
    refine ⟨.accentedEndchar, rfl, ?_⟩
    rw [Operator.asks?, if_pos ((count_takeWidth_eq_four_iff registers).1 four)]
  next =>
    split at fails
    · cases fails
    · cases fails
      exact .inl trivial

end Registers

namespace Token

theorem failsWith_ofOpcode (code : Opcode) : (ofOpcode code).FailsWith Fault.Broken := by
  unfold ofOpcode
  split
  · exact Reader.failsWith_pure _
  · exact Reader.failsWith_throw trivial
  · exact Reader.failsWith_throw trivial

theorem failsWith_after (lead : UInt8) : (after lead).FailsWith Fault.Broken := by
  unfold after
  split
  · exact Reader.failsWith_bind (Reader.failsWith_byte Fault.broken_endOfData) fun _ => failsWith_ofOpcode _
  split
  · exact Reader.failsWith_bind (Reader.failsWith_signed Fault.broken_endOfData 2) fun _ => Reader.failsWith_pure _
  split
  · exact Reader.failsWith_bind (Reader.failsWith_unsigned Fault.broken_endOfData 4) fun _ => Reader.failsWith_pure _
  split
  · exact Reader.failsWith_bind (Reader.failsWith_shortInteger Fault.broken_endOfData lead) fun _ => Reader.failsWith_pure _
  · exact failsWith_ofOpcode _

theorem failsWith_read : read.FailsWith Fault.Broken := by
  intro bytes fault rest fails
  cases bytes with
  | nil => cases fails
  | cons lead bytes => exact Reader.failsWith_map some (failsWith_after lead) bytes fault rest fails

end Token

namespace Machine

variable {context : Context} {machine : Machine} {fault : Fault}

theorem broken_of_leave {outermost : GlyphFault} (fails : machine.leave outermost = .failed fault) :
    fault.Broken := by
  unfold leave at fails
  split at fails
  · cases fails
    trivial
  · cases fails

theorem broken_of_get {table : Subroutines} {operand : Float} (fails : table.get operand = .error fault) :
    fault.Broken := by
  unfold Subroutines.get at fails
  split at fails
  · cases fails
  · cases fails
    trivial

theorem broken_of_enter {table : Subroutines} (fails : machine.enter context table = .failed fault) :
    fault.Broken := by
  unfold enter at fails
  split at fails
  · cases fails
    trivial
  split at fails
  next absent =>
    cases fails
    exact broken_of_get absent
  next =>
    split at fails
    · cases fails
    · cases fails
      trivial

theorem broken_of_skipMask {registers : Registers} (fails : machine.skipMask registers = .failed fault) :
    fault.Broken := by
  unfold skipMask at fails
  split at fails
  next => cases fails
  next rest short =>
    cases fails
    exact Reader.failsWith_slice Fault.broken_endOfData _ _ _ _ short

theorem of_proceed {result : Except Fault Registers} (fails : machine.proceed result = .failed fault) :
    result = .error fault := by
  cases result with
  | ok registers => cases fails
  | error other =>
    cases fails
    rfl

/-- An operator that asks for a feature is where the run fails. -/
theorem step_of_asks {op : Operator} {feature : Feature} (next : machine.operator? = some op)
    (asks : op.asks? machine.registers.count machine.registers.settled = some feature) :
    machine.step context = .failed (.unsupported feature) := by
  unfold operator? at next
  split at next
  next found reads =>
    cases next
    rw [step_of_read context reads]
    cases op with
    | flex op =>
      rcases machine.registers.flex_cases op machine.registers.settled with ⟨other, asked, same⟩ | ⟨none, _⟩
      · rw [asked] at asks
        cases asks
        simp only [handle, execute, same]
      · rw [none] at asks
        cases asks
    | random =>
      cases asks
      rfl
    | endchar => simp only [handle, execute, Registers.endchar_of_asks asks]
    | _ => cases asks
  next => cases next

/-- A step that fails finds a broken program, or an operator that asks for a feature. -/
theorem failed_cases (fails : machine.step context = .failed fault) :
    fault.Broken ∨ ∃ op feature, fault = .unsupported feature ∧ machine.operator? = some op ∧
      op.asks? machine.registers.count machine.registers.settled = some feature := by
  cases found : Token.read machine.program with
  | error other rest =>
    rw [step, found] at fails
    cases fails
    exact .inl (Token.failsWith_read _ _ _ found)
  | ok token? rest =>
    cases token? with
    | none =>
      rw [step, found] at fails
      exact .inl (broken_of_leave fails)
    | some token =>
      rw [step_of_read context found] at fails
      cases token with
      | integer value => cases fails
      | fixed raw => cases fails
      | operator op =>
        have next : machine.operator? = some op := by rw [operator?, found]
        cases op with
        | stem op => exact .inl (Registers.broken_of_declare (of_proceed fails))
        | mask op =>
          simp only [handle, execute] at fails
          split at fails
          next => exact .inl (broken_of_skipMask fails)
          next broken =>
            cases fails
            exact .inl (Registers.broken_of_declare broken)
        | move op => exact .inl (Registers.broken_of_move (of_proceed fails))
        | draw op => exact .inl (Registers.broken_of_draw (of_proceed fails))
        | compute op => exact .inl (Registers.broken_of_compute (of_proceed fails))
        | flex op =>
          simp only [handle, execute] at fails
          cases fails
          rcases machine.registers.flex_cases op machine.registers.settled with ⟨feature, asks, same⟩ | ⟨_, same⟩
          · exact .inr ⟨.flex op, feature, same, next, asks⟩
          · rw [same]
            exact .inl trivial
        | random =>
          cases fails
          exact .inr ⟨.random, .random, rfl, next, rfl⟩
        | callsubr =>
          simp only [handle, execute] at fails
          split at fails
          next => exact .inl (broken_of_enter fails)
          next =>
            cases fails
            exact .inl trivial
        | callgsubr => exact .inl (broken_of_enter fails)
        | ret => exact .inl (broken_of_leave fails)
        | endchar =>
          simp only [handle, execute] at fails
          split at fails
          next => cases fails
          next failed =>
            cases fails
            rcases Registers.endchar_eq_error failed with broken | ⟨feature, same, asks⟩
            · exact .inl broken
            · exact .inr ⟨.endchar, feature, same, next, asks⟩

/-! ### Runs that fail -/

/-- The width is settled where a path is open: what draws has a move before it, and a move settles the width. -/
def Begun (registers : Registers) : Prop :=
  registers.pen.hasSubpath = true → registers.settled = true

/-- The width is settled by the first operator that clears the stack. -/
theorem settled_of_effect {op? : Option Operator} {registers after : Registers}
    (effect : Effect op? registers after) (begun : Begun registers) :
    after.settled = (registers.settled || op?.any Operator.clearsStack) ∧ Begun after := by
  cases effect with
  | push x => exact ⟨by simp [Registers.push], begun⟩
  | act acts =>
    cases acts with
    | push number => cases number
    | stem acts =>
      obtain ⟨_, rfl⟩ := Registers.declare_eq_ok_iff.1 acts
      have settled := Registers.settled_takeWidth Registers.isOdd registers
      exact ⟨by simp [Operator.clearsStack], fun _ => settled⟩
    | mask acts =>
      obtain ⟨_, rfl⟩ := Registers.declare_eq_ok_iff.1 acts
      have settled := Registers.settled_takeWidth Registers.isOdd registers
      exact ⟨by simp [Operator.clearsStack], fun _ => settled⟩
    | @move op _ _ acts =>
      obtain ⟨_, _, _, rfl⟩ := Registers.move_eq_ok_iff.1 acts
      have settled := Registers.settled_takeWidth (· == Registers.moveArity op + 1) registers
      exact ⟨by simp [Operator.clearsStack], fun _ => settled⟩
    | draw acts =>
      obtain ⟨drawable, _, _, rfl⟩ := Registers.draw_eq_ok_iff.1 acts
      have settled := begun drawable
      exact ⟨by simp [settled], fun _ => settled⟩
    | compute acts =>
      obtain ⟨_, _, rfl⟩ := Registers.compute_eq_ok_iff.1 acts
      exact ⟨by simp [Operator.clearsStack], begun⟩
  | call calls _ => rcases calls with rfl | rfl <;> exact ⟨by simp [Operator.clearsStack], begun⟩
  | leave leaves => rcases leaves with rfl | rfl <;> exact ⟨by simp [Operator.clearsStack], begun⟩

theorem executed_of_failed (fails : machine.step context = .failed fault) :
    executed context machine = (machine.operator?.map (·, machine.registers)).toList := by
  rw [executed, visits_of_failed fails, List.filterMap_cons, List.filterMap_nil]
  cases machine.operator? <;> rfl

/-- Some operator among these asks for the feature, by the operators before it and whether the stack has been `cleared`
before them all. -/
def AsksAmong (cleared : Bool) (feature : Feature) (ops : List (Operator × Registers)) : Prop :=
  ∃ before op found after, ops = before ++ (op, found) :: after ∧
    op.asks? found.count (cleared || before.any fun earlier => earlier.1.clearsStack) = some feature

theorem asksAmong_cons_iff {cleared : Bool} {feature : Feature} {op : Operator} {found : Registers}
    {later : List (Operator × Registers)} :
    AsksAmong cleared feature ((op, found) :: later) ↔
      op.asks? found.count cleared = some feature ∨ AsksAmong (cleared || op.clearsStack) feature later := by
  constructor
  · rintro ⟨before, asking, there, after, split, asks⟩
    cases before with
    | nil =>
      cases split
      left
      simpa using asks
    | cons first before =>
      obtain ⟨rfl, rfl⟩ := List.cons_eq_cons.1 split
      right
      refine ⟨before, asking, there, after, rfl, ?_⟩
      simpa [Bool.or_assoc] using asks
  · rintro (asks | ⟨before, asking, there, after, rfl, asks⟩)
    · exact ⟨[], op, found, later, rfl, by simpa using asks⟩
    · exact ⟨(op, found) :: before, asking, there, after, rfl, by simpa [Bool.or_assoc] using asks⟩

theorem not_asksAmong_nil {cleared : Bool} {feature : Feature} : ¬ AsksAmong cleared feature [] := by
  rintro ⟨before, op, found, after, split, _⟩
  cases before <;> cases split

/-- A run fails for a feature if and only if an operator that it comes to asks for it. -/
theorem run_eq_unsupported_iff {feature : Feature} (begun : Begun machine.registers) :
    (machine.run context).result = .error (.unsupported feature) ↔
      AsksAmong machine.registers.settled feature (executed context machine) := by
  induction machine using step_induction context with
  | each machine ih =>
    cases steps : machine.step context with
    | next following event? =>
      have goes := goes_of_step steps
      obtain ⟨settled, still⟩ := settled_of_effect (effect_of_goes goes) begun
      rw [result_run_of_goes goes, executed_of_goes goes, ih following goes still, settled]
      cases next : machine.operator? with
      | none => simp
      | some op =>
        simp only [Option.map_some, Option.toList_some, List.singleton_append, asksAmong_cons_iff, Option.any_some]
        constructor
        · exact .inr
        · rintro (asks | later)
          · rw [step_of_asks next asks] at steps
            cases steps
          · exact later
    | done registers event? =>
      rw [run_of_done steps, executed_of_done steps, asksAmong_cons_iff]
      constructor
      · intro absent
        cases absent
      · rintro (asks | absent)
        · obtain ⟨_, _, program, takes, _⟩ := step_eq_done_iff.1 steps
          rw [step_of_asks (operator?_of_takes program takes) asks] at steps
          cases steps
        · exact absurd absent not_asksAmong_nil
    | failed fault =>
      rw [run_of_failed steps, executed_of_failed steps]
      constructor
      · intro same
        cases same
        rcases failed_cases steps with broken | ⟨op, other, same, next, asks⟩
        · cases broken
        · cases same
          rw [next]
          exact asksAmong_cons_iff.2 (.inl asks)
      · cases next : machine.operator? with
        | none => exact fun absent => absurd absent not_asksAmong_nil
        | some op =>
          intro among
          rcases asksAmong_cons_iff.1 among with asks | absent
          · rw [step_of_asks next asks] at steps
            cases steps
            rfl
          · exact absurd absent not_asksAmong_nil

/-- Whatever a run fails with is broken in its programs, or a feature that they ask for. -/
theorem run_eq_error {machine : Machine} (failed : (machine.run context).result = .error fault) :
    fault.Broken ∨ ∃ feature ∈ Feature.ofGlyphs, fault = .unsupported feature := by
  induction machine using step_induction context with
  | each machine ih =>
    cases steps : machine.step context with
    | next following event? =>
      have goes := goes_of_step steps
      rw [result_run_of_goes goes] at failed
      exact ih following goes failed
    | done registers event? =>
      rw [run_of_done steps] at failed
      cases failed
    | failed other =>
      rw [run_of_failed steps] at failed
      cases failed
      rcases failed_cases steps with broken | ⟨op, feature, same, _, asks⟩
      · exact .inl broken
      · exact .inr ⟨feature, Operator.mem_ofGlyphs_of_asks? asks, same⟩

end Machine

/-- A run of the program comes to an operator that asks for the feature. -/
def Asks (context : Context) (nominal : Float) (program : List UInt8) (feature : Feature) : Prop :=
  ∃ before op found after, Machine.executed context (.start nominal program) = before ++ (op, found) :: after ∧
    op.asks? found.count (before.any fun earlier => earlier.1.clearsStack) = some feature

theorem Outline.ofProgram_eq_error_iff {context : Context} {nominal : Float} {program : List UInt8} {fault : Fault} :
    (Outline.ofProgram context nominal program).result = .error fault ↔
      (Machine.run context (.start nominal program)).result = .error fault := by
  rw [Outline.ofProgram, Logged.result_bind, bind_eq_error_iff]
  constructor
  · rintro (failed | ⟨_, _, absent⟩)
    · exact failed
    · cases absent
  · exact .inl

theorem Outline.ofProgram_eq_unsupported_iff {context : Context} {nominal : Float} {program : List UInt8}
    {feature : Feature} :
    (Outline.ofProgram context nominal program).result = .error (.unsupported feature) ↔
      Asks context nominal program feature := by
  have begun : Machine.Begun { width := nominal } := by
    intro absent
    cases absent
  rw [ofProgram_eq_error_iff, Machine.run_eq_unsupported_iff begun]
  rfl

theorem Outline.ofProgram_eq_error {context : Context} {nominal : Float} {program : List UInt8} {fault : Fault}
    (failed : (Outline.ofProgram context nominal program).result = .error fault) :
    fault.Broken ∨ ∃ feature ∈ Feature.ofGlyphs, fault = .unsupported feature :=
  Machine.run_eq_error (ofProgram_eq_error_iff.1 failed)

end Charstring
end CompactFont
