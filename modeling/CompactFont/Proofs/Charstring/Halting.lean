import Mathlib.Algebra.Order.Ring.Nat
import CompactFont.Proofs.Charstring.Execution
import CompactFont.Proofs.Subroutines

/-! Every run ends. Calls nest no deeper than the limit, and the rounds of the machine are bounded by a power
of the longest program, also for subroutines that call each other or themselves. A build with overflow checks stops
within as many rounds: at a call whose sum is too large, or where the run ends. -/

namespace CompactFont.Charstring

theorem price_mono {longest other : Nat} (le : longest ≤ other) (room : Nat) :
    price longest room ≤ price other room := by
  induction room with
  | zero => exact Nat.le_refl 1
  | succ room ih =>
    have inner := Nat.mul_le_mul le ih
    simp only [price]
    omega

/-- What a whole program can cost: its bytes, and leaving it. -/
theorem price_program_le (longest room : Nat) :
    longest * price longest room + 1 ≤ (longest + 1) ^ (room + 1) := by
  induction room with
  | zero => simp [price]
  | succ room ih =>
    have power : longest + 1 ≤ (longest + 1) ^ (room + 1) := Nat.le_self_pow (Nat.succ_ne_zero room) _
    calc longest * price longest (room + 1) + 1
        = longest * (longest * price longest room + 1) + (longest + 1) := by
          simp only [price, Nat.mul_add]
          omega
      _ ≤ longest * (longest + 1) ^ (room + 1) + (longest + 1) ^ (room + 1) :=
          Nat.add_le_add (Nat.mul_le_mul_left longest ih) power
      _ = (longest + 1) ^ (room + 1 + 1) := by
          rw [pow_succ _ (room + 1), Nat.mul_comm _ (longest + 1), Nat.succ_mul]

namespace Machine

variable {context : Context}

/-- A call asks for room before it sets its program aside. -/
theorem depth_goes {machine following : Machine} (goes : Goes context machine following)
    (shallow : machine.callers.programs.length ≤ context.maxDepth) :
    following.callers.programs.length ≤ context.maxDepth := by
  cases goes with
  | act => exact shallow
  | call _ _ _ _ _ room =>
    rw [machine.callers.depth_eq] at room
    rw [Callers.programs_push, List.length_cons]
    exact room
  | leave _ popped =>
    rw [Callers.programs_of_pop? popped, List.length_cons] at shallow
    exact Nat.le_of_succ_le shallow

theorem depth_reaches {start machine : Machine} (reaches : Reaches context start machine)
    (shallow : start.callers.programs.length ≤ context.maxDepth) :
    machine.callers.programs.length ≤ context.maxDepth := by
  induction reaches with
  | start => exact shallow
  | next _ steps ih => exact depth_goes (goes_of_step steps) ih

/-- The loop ends before it has spent the budget of its machine. -/
theorem loop_of_budget_le {fuel : Nat} {machine : Machine} (enough : machine.budget context ≤ fuel) :
    loop context fuel machine = some (machine.run context).result := by
  induction fuel generalizing machine with
  | zero =>
    have positive : 0 < machine.budget context := Nat.zero_lt_of_lt (weight_tail ..)
    omega
  | succ fuel ih =>
    rw [loop]
    cases steps : machine.step context with
    | next following event? =>
      have lighter := budget_step steps
      rw [result_run_of_goes (goes_of_step steps)]
      exact ih (by omega)
    | done registers event? => rw [run_of_done steps]
    | failed fault => rw [run_of_failed steps]

/-! ### Sums that are checked -/

/-- Whether a call operator is next, whose operand and bias sum up to more than a 64-bit integer holds. -/
def overflows (context : Context) (machine : Machine) : Bool :=
  match machine.operator?.bind (Operator.table? context), machine.registers.operands with
  | some table, operand :: _ => table.overflows operand
  | _, _ => false

/-- Where the sum wraps around, the call is refused. -/
theorem step_of_overflows {machine : Machine} (overflows : machine.overflows context = true) :
    ∃ number size, number < 0 ∧ machine.step context = .failed (.glyph (.subroutineBeyond number size)) := by
  unfold Machine.overflows at overflows
  split at overflows
  next table operand operands called stack =>
    obtain ⟨op, next, chosen⟩ := Option.bind_eq_some_iff.1 called
    have refused := Subroutines.get_of_overflows overflows
    refine ⟨table.number operand, table.size, (Subroutines.number_of_overflows overflows).2, ?_⟩
    unfold operator? at next
    split at next
    next found rest reads =>
      cases next
      rw [step_of_read context reads]
      cases op with
      | callsubr =>
        have there : context.locals? = some table := chosen
        simp only [handle, execute, there, enter, stack, refused]
      | callgsubr =>
        cases chosen
        simp only [handle, execute, enter, stack, refused]
      | _ => cases chosen
    next => cases next
  next => cases overflows

/-- How a run ends where sums are checked: with its result, or at a machine that does not get past a sum. -/
inductive Ending where
  | ended (result : Except Fault Registers)
  | stopped (machine : Machine)

/-- The loop in a build with overflow checks. -/
def checkedLoop (context : Context) : Nat → Machine → Option Ending
  | 0, _ => none
  | fuel + 1, machine =>
    if machine.overflows context then some (.stopped machine)
    else
      match machine.step context with
      | .next following _ => checkedLoop context fuel following
      | .done registers _ => some (.ended (.ok registers))
      | .failed fault => some (.ended (.error fault))

/-- The checked loop ends where the other does, unless it stops on the way there. -/
theorem checkedLoop_of_budget_le {fuel : Nat} {machine : Machine} (enough : machine.budget context ≤ fuel) :
    (∃ stopped ∈ visits context machine, stopped.overflows context = true ∧
      checkedLoop context fuel machine = some (.stopped stopped) ∧
      ∃ number size, number < 0 ∧ (machine.run context).result = .error (.glyph (.subroutineBeyond number size))) ∨
    (∀ visited ∈ visits context machine, visited.overflows context = false) ∧
      checkedLoop context fuel machine = some (.ended (machine.run context).result) := by
  induction fuel generalizing machine with
  | zero =>
    have positive : 0 < machine.budget context := Nat.zero_lt_of_lt (weight_tail ..)
    omega
  | succ fuel ih =>
    rw [checkedLoop]
    by_cases overflows : machine.overflows context = true
    · left
      obtain ⟨number, size, negative, refused⟩ := step_of_overflows overflows
      rw [if_pos overflows, visits_of_failed refused, run_of_failed refused]
      exact ⟨machine, List.mem_singleton_self _, overflows, rfl, number, size, negative, rfl⟩
    · have fits := Bool.eq_false_iff.2 overflows
      rw [if_neg overflows]
      cases steps : machine.step context with
      | next following event? =>
        have lighter := budget_step steps
        have enough : following.budget context ≤ fuel := by omega
        rw [visits_of_next steps, result_run_of_goes (goes_of_step steps)]
        rcases ih enough with ⟨stopped, visited, rest⟩ | ⟨others, ends⟩
        · exact .inl ⟨stopped, List.mem_cons_of_mem _ visited, rest⟩
        · exact .inr ⟨List.forall_mem_cons.2 ⟨fits, others⟩, ends⟩
      | done registers event? =>
        rw [visits_of_done steps, run_of_done steps]
        exact .inr ⟨List.forall_mem_singleton.2 fits, rfl⟩
      | failed fault =>
        rw [visits_of_failed steps, run_of_failed steps]
        exact .inr ⟨List.forall_mem_singleton.2 fits, rfl⟩

/-! ### Within the limits -/

theorem budget_program_le (context : Context) (nominal : Float) (program : List UInt8) :
    Machine.budget context (.start nominal program) ≤
      (max program.length context.longest + 1) ^ (context.maxDepth + 1) := by
  have length := Nat.le_max_left program.length context.longest
  have dearer := price_mono (Nat.le_max_right program.length context.longest) context.maxDepth
  calc Machine.budget context (.start nominal program)
      = program.length * price context.longest context.maxDepth + 1 := rfl
    _ ≤ max program.length context.longest * price (max program.length context.longest) context.maxDepth + 1 :=
        Nat.succ_le_succ (Nat.mul_le_mul length dearer)
    _ ≤ _ := price_program_le _ _

/-- Calls nest up to the limit, and the loop ends within a power of the longest program. So does that of a build with
overflow checks, with the same result unless it stops at a call whose sum is too large; such a call is refused where sums
wrap around. -/
theorem halts_within_limits (context : Context) (nominal : Float) (program : List UInt8) :
    (∀ machine, Reaches context (.start nominal program) machine →
      machine.callers.programs.length ≤ context.maxDepth) ∧
    ∀ fuel, (max program.length context.longest + 1) ^ (context.maxDepth + 1) ≤ fuel →
      loop context fuel (.start nominal program) = some (Machine.run context (.start nominal program)).result ∧
      ((∃ stopped ∈ visits context (.start nominal program), stopped.overflows context = true ∧
        checkedLoop context fuel (.start nominal program) = some (.stopped stopped) ∧
        ∃ number size, number < 0 ∧
          (Machine.run context (.start nominal program)).result = .error (.glyph (.subroutineBeyond number size))) ∨
      (∀ visited ∈ visits context (.start nominal program), visited.overflows context = false) ∧
        checkedLoop context fuel (.start nominal program) =
          some (.ended (Machine.run context (.start nominal program)).result)) := by
  constructor
  · intro machine reaches
    exact depth_reaches reaches (Nat.zero_le _)
  · intro fuel enough
    have within := Nat.le_trans (budget_program_le context nominal program) enough
    exact ⟨loop_of_budget_le within, checkedLoop_of_budget_le within⟩

/-- One subroutine, which calls itself. -/
def endless : Context := { globals := .ofList [[32, 29]], maxDepth := 2 }

/-- It is called up to the limit. A call of it by the eighth power of 32767 is refused with the sum that wraps around, and
is where a build with overflow checks stops. -/
theorem halts_within_limits_endless :
    (∃ machine, Reaches endless (.start 0.0 [32, 29]) machine ∧
      machine.callers.programs = [[], []] ∧ machine.callers.programs.length ≤ 2) ∧
    (Machine.run endless (.start 0.0 [32, 29])).result = .error (.glyph (.nestedDeeper 2)) ∧
    let power : List UInt8 := [28, 127, 255, 12, 27, 12, 24, 12, 27, 12, 24, 12, 27, 12, 24, 29]
    (Machine.run endless (.start 0.0 power)).result =
        .error (.glyph (.subroutineBeyond (-9223372036854775702) 1)) ∧
      ∃ stopped, checkedLoop endless 8 (.start 0.0 power) = some (.stopped stopped) ∧
        stopped.program = [29] ∧ stopped.overflows endless = true := by
  have limits := halts_within_limits endless 0.0 [32, 29]
  refine ⟨?_, ?_, ?_⟩
  · have first : Reaches endless (.start 0.0 [32, 29]) _ := .next (.next .start rfl) rfl
    have second : Reaches endless (.start 0.0 [32, 29]) _ := .next (.next first rfl) rfl
    exact ⟨_, second, rfl, limits.1 _ second⟩
  · have ended : loop endless 27 (.start 0.0 [32, 29]) = some (.error (.glyph (.nestedDeeper 2))) := rfl
    rw [(limits.2 27 (by decide)).1] at ended
    exact Option.some.inj ended
  · intro power
    set_option maxRecDepth 4000 in
    have stops : checkedLoop endless 8 (.start 0.0 power) = some (.stopped _) := rfl
    set_option maxRecDepth 4000 in
    have ended : loop endless 8 (.start 0.0 power) =
        some (.error (.glyph (.subroutineBeyond (-9223372036854775702) 1))) := rfl
    exact ⟨result_run_of_loop ended, _, stops, rfl, rfl⟩

end Machine
end CompactFont.Charstring
