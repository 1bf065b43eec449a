import CompactFont.Charstring.Work
import CompactFont.Proofs.Charstring.Effects
import CompactFont.Proofs.Charstring.Execution
import CompactFont.Proofs.Charstring.Workspace

/-! Computing concerns the operands that an operator takes and, for `put`, one slot of the transient array. Over a whole run
each slot holds what was put there last, in whichever subroutine that was. -/

namespace CompactFont.Charstring

/-! ### The work of the operators -/

/-- The machine without its top operands. -/
def Machine.dropping (taken : Nat) (machine : Machine) : Machine :=
  { machine with registers := { machine.registers with operands := machine.registers.operands.drop taken } }

namespace Work

/-- The work is a change of the workspace. If it breaks off, some of the top operands are gone, and nothing else has
changed. -/
def Does (most : Nat) (change : Workspace → Except GlyphFault Workspace) (work : Work Unit) : Prop :=
  ∀ machine : Machine,
    match change machine.registers.toWorkspace with
    | .ok workspace =>
      work machine = .ok () { machine with registers := { machine.registers with toWorkspace := workspace } }
    | .error cause => ∃ taken ≤ most, work machine = .error (.glyph cause) (machine.dropping taken)

variable {most : Nat} {change : Workspace → Except GlyphFault Workspace}

/-- Work that takes the top operand first: a change that fails without it, and with it is what the rest of the work does. -/
theorem does_takeTop {next : Float → Work Unit} (empty : ∀ transient, change ⟨[], transient⟩ = .error .underflow)
    (each : ∀ x, Does most (fun rest => change ⟨x :: rest.operands, rest.transient⟩) (next x)) :
    Does (most + 1) change (takeTop >>= next) := by
  intro ⟨program, callers, ⟨⟨operands, transient⟩, pen, width, settled, hints⟩⟩
  cases operands with
  | nil =>
    simp only [empty]
    exact ⟨0, Nat.zero_le _, rfl⟩
  | cons x rest =>
    have later := each x ⟨program, callers, ⟨⟨rest, transient⟩, pen, width, settled, hints⟩⟩
    cases changed : change ⟨x :: rest, transient⟩ with
    | ok workspace =>
      simp only [changed] at later
      exact later
    | error cause =>
      simp only [changed] at later
      obtain ⟨taken, few, breaks⟩ := later
      exact ⟨taken + 1, Nat.succ_le_succ few, breaks⟩

theorem does_takePair {next : Float × Float → Work Unit} (empty : ∀ transient, change ⟨[], transient⟩ = .error .underflow)
    (one : ∀ y transient, change ⟨[y], transient⟩ = .error .underflow)
    (each : ∀ x y, Does most (fun rest => change ⟨y :: x :: rest.operands, rest.transient⟩) (next (x, y))) :
    Does (most + 2) change (takePair >>= next) := by
  have both : takePair >>= next = takeTop >>= fun y => takeTop >>= fun x => next (x, y) := by
    simp only [takePair, bind_assoc, pure_bind]
  rw [both]
  exact does_takeTop empty fun y => does_takeTop (one y) fun x => each x y

theorem does_takeIndex {next : Int → Work Unit} (empty : ∀ transient, change ⟨[], transient⟩ = .error .underflow)
    (wrong : ∀ x rest transient, index? x = none → change ⟨x :: rest, transient⟩ = .error (.notIndex x))
    (each : ∀ x n, index? x = some n → Does most (fun rest => change ⟨x :: rest.operands, rest.transient⟩) (next n)) :
    Does (most + 1) change (takeIndex >>= next) := by
  rw [takeIndex, bind_assoc]
  refine does_takeTop empty fun x => ?_
  cases decided : index? x with
  | some n => exact each x n decided
  | none =>
    intro machine
    simp only [wrong x _ _ decided]
    exact ⟨0, Nat.zero_le _, rfl⟩

theorem does_unary (f : Float → Except GlyphFault Float) : Does 1 (onStack (Charstring.unary f)) (unary f) := by
  refine does_takeTop (fun _ => rfl) fun x machine => ?_
  simp only [onStack, Charstring.unary, pop, ok_bind, bind_apply]
  cases f x with
  | ok y => rfl
  | error cause => exact ⟨0, Nat.le_refl _, rfl⟩

theorem does_binary (f : Float → Float → Except GlyphFault Float) :
    Does 2 (onStack (Charstring.binary f)) (binary f) := by
  refine does_takePair (fun _ => rfl) (fun _ _ => rfl) fun x y machine => ?_
  simp only [onStack, Charstring.binary, popPair, ok_bind, bind_apply]
  cases f x y with
  | ok z => rfl
  | error cause => exact ⟨0, Nat.le_refl _, rfl⟩

theorem does_choose : Does 4 (onStack Charstring.choose) choose :=
  does_takePair (fun _ => rfl) (fun _ _ => rfl) fun _ _ =>
    does_takePair (fun _ => rfl) (fun _ _ => rfl) fun _ _ _ => rfl

theorem does_duplicate : Does 1 (onStack Charstring.duplicate) duplicate :=
  does_takeTop (fun _ => rfl) fun _ _ => rfl

theorem does_drop : Does 1 (onStack fun operands => (pop operands).map (·.2)) (discard takeTop) :=
  does_takeTop (fun _ => rfl) fun _ _ => rfl

theorem does_exchange : Does 2 (onStack Charstring.exchange) exchange :=
  does_takePair (fun _ => rfl) (fun _ _ => rfl) fun _ _ _ => rfl

theorem does_store : Does 2 Charstring.store store := by
  refine does_takeIndex (fun _ => rfl) (fun x rest transient wrong => ?_) fun x n decided => ?_
  · simp only [Charstring.store, popIndex_cons, wrong]
    rfl
  · simp only [Charstring.store, popIndex_cons, decided]
    exact does_takeTop (fun _ => rfl) fun _ _ => rfl

theorem does_fetch : Does 1 Charstring.fetch fetch := by
  refine does_takeIndex (fun _ => rfl) (fun x rest transient wrong => ?_) fun x n decided machine => ?_
  · simp only [Charstring.fetch, popIndex_cons, wrong]
    rfl
  · simp only [Charstring.fetch, popIndex_cons, decided, ok_bind, bind_apply, registers]
    cases machine.registers.transient.get? n with
    | none => exact ⟨0, Nat.le_refl _, rfl⟩
    | some value => rfl

theorem does_copy : Does 1 (onStack Charstring.copy) copy := by
  refine does_takeIndex (fun _ => rfl) (fun x rest transient wrong => ?_) fun x n decided machine => ?_
  · simp only [onStack, Charstring.copy, popIndex_cons, wrong]
    rfl
  · simp only [onStack, Charstring.copy, popIndex_cons, decided, ok_bind, bind_apply, registers]
    cases machine.registers.operands[n.toNat]? with
    | none => exact ⟨0, Nat.le_refl _, rfl⟩
    | some value => rfl

theorem does_roll : Does 2 (onStack rollBlock) roll := by
  refine does_takeIndex (fun _ => rfl) (fun x rest transient wrong => ?_) fun x turn shifts => ?_
  · simp only [onStack, rollBlock, popIndex_cons, wrong]
    rfl
  refine does_takeIndex (fun _ => ?_) (fun y rest transient wrong => ?_) fun y size counts machine => ?_
  · simp only [onStack, rollBlock, popIndex_cons, shifts]
    rfl
  · simp only [onStack, rollBlock, popIndex_cons, shifts, ok_bind, wrong]
    rfl
  · simp only [onStack, rollBlock_of_indices shifts counts, bind_apply, registers]
    by_cases fits : 0 ≤ size ∧ size ≤ machine.registers.operands.length
    · have same : (size.toNat : Int) = size := Int.toNat_of_nonneg fits.1
      have turned : rolled size.toNat turn machine.registers.operands =
          rotate size.toNat (turn % size).toNat machine.registers.operands := by
        rw [← rotate_eq_rolled (Int.toNat_le.2 fits.2), same]
      rw [if_pos fits, turned]
      exact congrFun (if_pos fits) machine
    · rw [if_neg fits]
      exact ⟨0, Nat.le_refl _, congrFun (if_neg fits) machine⟩

end Work

namespace ComputeOperator

variable {machine : Machine} {op : ComputeOperator}

theorem does_work (op : ComputeOperator) : Work.Does op.arity op.apply op.work := by
  cases op with
  | dotsection => exact fun _ => rfl
  | not | abs | neg | sqrt => exact Work.does_unary _
  | and | or | add | sub | div | eq | mul => exact Work.does_binary _
  | drop => exact Work.does_drop
  | put => exact Work.does_store
  | get => exact Work.does_fetch
  | ifelse => exact Work.does_choose
  | dup => exact Work.does_duplicate
  | exch => exact Work.does_exchange
  | index => exact Work.does_copy
  | roll => exact Work.does_roll

/-- The work succeeds and changes the workspace as it should, or it breaks off with some of the operands taken. -/
theorem work_cases (machine : Machine) (op : ComputeOperator) :
    (∃ workspace, op.apply machine.registers.toWorkspace = .ok workspace ∧
      op.work machine = .ok () { machine with registers := { machine.registers with toWorkspace := workspace } }) ∨
    ∃ cause, op.apply machine.registers.toWorkspace = .error cause ∧
      ∃ taken ≤ op.arity, op.work machine = .error (.glyph cause) (machine.dropping taken) := by
  have does := op.does_work machine
  cases applied : op.apply machine.registers.toWorkspace with
  | ok workspace =>
    rw [applied] at does
    exact .inl ⟨workspace, rfl, does⟩
  | error cause =>
    rw [applied] at does
    exact .inr ⟨cause, rfl, does⟩

/-- The work of an operator is what the machine executes. -/
theorem step_work (context : Context) (machine : Machine) (op : ComputeOperator) :
    Work.step (op.work machine) = machine.execute context (.compute op) := by
  rw [Machine.execute, Registers.compute]
  rcases op.work_cases machine with ⟨workspace, applied, works⟩ | ⟨cause, refused, taken, _, breaks⟩
  · rw [applied, works]
    rfl
  · rw [refused, breaks]
    rfl

theorem leaves_of_work {after : Machine} (ends : op.work machine = .ok () after) :
    after = { machine with registers := { machine.registers with toWorkspace := after.registers.toWorkspace } } ∧
      op.Leaves machine.registers.toWorkspace after.registers.toWorkspace := by
  rcases op.work_cases machine with ⟨workspace, applied, works⟩ | ⟨cause, _, taken, _, breaks⟩
  · rw [works] at ends
    cases ends
    exact ⟨rfl, leaves_of_apply applied⟩
  · rw [breaks] at ends
    cases ends

theorem fault_of_work {fault : Fault} {left : Machine} (breaks : op.work machine = .error fault left) :
    (∃ cause, fault = .glyph cause) ∧ ∃ taken ≤ op.arity, left = machine.dropping taken := by
  rcases op.work_cases machine with ⟨workspace, _, works⟩ | ⟨cause, _, taken, few, broken⟩
  · rw [works] at breaks
    cases breaks
  · rw [broken] at breaks
    cases breaks
    exact ⟨⟨cause, rfl⟩, taken, few, rfl⟩

theorem exists_work_eq_error_iff :
    (∃ fault left, op.work machine = .error fault left) ↔
      machine.registers.count < op.arity ∨ ¬op.Admits machine.registers.toWorkspace := by
  rw [← Nat.not_le, ← not_and_or]
  refine Iff.trans ?_ (not_congr exists_apply_eq_ok_iff)
  rcases op.work_cases machine with ⟨workspace, applied, works⟩ | ⟨cause, refused, taken, _, breaks⟩
  · simp [applied, works]
  · simp [refused, breaks]

end ComputeOperator

/-! ### The transient array over a run -/

namespace Machine

/-- What an operator puts at a slot. -/
def stored? (slot : Int) : Option Operator → List Float → Option Float
  | some (.compute .put), i :: value :: _ => if truncated i = slot then some value else none
  | _, _ => none

/-- What is put at a slot last, by machines in the order of their run. -/
def latest? (slot : Int) (machines : List Machine) : Option Float :=
  machines.reverse.findSome? fun machine => stored? slot machine.operator? machine.registers.operands

variable {context : Context} {machine following : Machine} {slot : Int}

theorem latest?_cons (slot : Int) (machine : Machine) (machines : List Machine) :
    latest? slot (machine :: machines) =
      (latest? slot machines).or (stored? slot machine.operator? machine.registers.operands) := by
  simp [latest?, List.findSome?_append]

theorem transient_of_compute {op : ComputeOperator} {registers after : Registers}
    (computes : registers.compute op = .ok after) (slot : Int) :
    after.transient.get? slot =
      (stored? slot (some (.compute op)) registers.operands).or (registers.transient.get? slot) := by
  obtain ⟨workspace, applied, rfl⟩ := Registers.compute_eq_ok_iff.1 computes
  have leaves := ComputeOperator.leaves_of_apply applied
  by_cases put : op = .put
  · obtain ⟨i, value, rest, split, same, others⟩ := leaves.stored put
    subst put
    rw [split, stored?]
    by_cases named : truncated i = slot
    · rw [if_pos named, ← named]
      exact same
    · rw [if_neg named]
      exact others slot (Ne.symm named)
  · have nothing : stored? slot (some (.compute op)) registers.operands = none := by
      cases op with
      | put => exact absurd rfl put
      | _ => rfl
    rw [nothing, Option.none_or]
    exact congrArg (·.get? slot) (leaves.kept put)

theorem transient_of_effect {next? : Option Operator} {registers after : Registers}
    (effect : Effect next? registers after) (slot : Int) :
    after.transient.get? slot = (stored? slot next? registers.operands).or (registers.transient.get? slot) := by
  cases effect with
  | push => rfl
  | leave leaves =>
    rcases leaves with rfl | rfl <;> rfl
  | call calls =>
    rcases calls with rfl | rfl <;> rfl
  | act acts =>
    cases acts with
    | push number => cases number
    | stem declares | mask declares =>
      rw [(Registers.declare_eq_ok_iff.1 declares).2]
      exact congrArg (·.get? slot) (Registers.transient_takeWidth Registers.isOdd registers)
    | move moves =>
      obtain ⟨dx, dy, _, rfl⟩ := Registers.move_eq_ok_iff.1 moves
      exact congrArg (·.get? slot) (Registers.transient_takeWidth _ registers)
    | draw draws =>
      obtain ⟨_, strokes, _, rfl⟩ := Registers.draw_eq_ok_iff.1 draws
      rfl
    | compute computes => exact transient_of_compute computes slot

/-- Wherever a run has come to, a slot holds what was put there last, or else what it held at the start. -/
theorem transient_of_visits {start : Machine} {before later : List Machine}
    (visited : visits context start = before ++ machine :: later) (slot : Int) :
    machine.registers.transient.get? slot = (latest? slot before).or (start.registers.transient.get? slot) := by
  -- on the machines before, from the start: each but the last has gone on, so what it was about to put is in its slot
  induction before generalizing start with
  | nil =>
    obtain ⟨others, head⟩ := visits_head context start
    obtain ⟨rfl, _⟩ := List.cons_eq_cons.1 (head.symm.trans visited)
    rfl
  | cons first before ih =>
    obtain ⟨rfl, following, goes, rest⟩ :=
      goes_of_visits visited (List.append_ne_nil_of_right_ne_nil _ (List.cons_ne_nil _ _))
    rw [ih rest, transient_of_effect (effect_of_goes goes), latest?_cons, Option.or_assoc]

theorem step_get {unread : List UInt8} {i : Float} {rest : List Float}
    (reads : Token.read machine.program = .ok (some (.operator (.compute .get))) unread)
    (split : machine.registers.operands = i :: rest) (index : IsIndex i) :
    machine.step context =
      match machine.registers.transient.get? (truncated i) with
      | some value =>
        .next { machine with program := unread, registers := { machine.registers with operands := value :: rest } }
      | none => .failed (.glyph (.unsetSlot (truncated i))) := by
  have fetched : fetch machine.registers.toWorkspace =
      match machine.registers.transient.get? (truncated i) with
      | some value => .ok { machine.registers.toWorkspace with operands := value :: rest }
      | none => .error (.unsetSlot (truncated i)) := by
    rw [fetch, split, popIndex_cons, index?_eq_some_iff.2 ⟨index, rfl⟩]
    rfl
  rw [step_of_read context reads]
  simp only [handle, execute, Registers.compute, ComputeOperator.apply, fetched]
  cases machine.registers.transient.get? (truncated i) <;> rfl

end Machine

namespace ComputeOperator

/-- For every machine, the work of a computing operator is what the machine executes. If it succeeds, the operands deeper
than it reaches stay where they are, the transient array is the same but for the slot that `put` names, and nothing else has
changed; if it breaks off, it blames the glyph program and has taken operands of its own at most. It breaks off just when
operands are missing or its own condition does not hold. In a run, `get` gives what was put last at the slot that it names,
in whichever subroutine, and fails if nothing was. -/
theorem touches_own_operands (context : Context) :
    (∀ (machine : Machine) (op : ComputeOperator),
      Work.step (op.work machine) = machine.execute context (.compute op) ∧
      (∀ after, op.work machine = .ok () after →
        after = { machine with registers := { machine.registers with toWorkspace := after.registers.toWorkspace } } ∧
        op.Leaves machine.registers.toWorkspace after.registers.toWorkspace) ∧
      (∀ fault left, op.work machine = .error fault left →
        (∃ cause, fault = .glyph cause) ∧ ∃ taken ≤ op.arity, left = machine.dropping taken) ∧
      ((∃ fault left, op.work machine = .error fault left) ↔
        machine.registers.count < op.arity ∨ ¬op.Admits machine.registers.toWorkspace)) ∧
    ∀ nominal program before machine later unread i rest,
      Machine.visits context (.start nominal program) = before ++ machine :: later →
      Token.read machine.program = .ok (some (.operator (.compute .get))) unread →
      machine.registers.operands = i :: rest → IsIndex i →
      machine.step context =
        match Machine.latest? (truncated i) before with
        | some value =>
          .next { machine with program := unread, registers := { machine.registers with operands := value :: rest } }
        | none => .failed (.glyph (.unsetSlot (truncated i))) := by
  constructor
  · intro machine op
    exact ⟨step_work context machine op, fun after => leaves_of_work, fun fault left => fault_of_work,
      exists_work_eq_error_iff⟩
  · intro nominal program before machine later unread i rest visited reads split index
    have fresh : (Machine.start nominal program).registers.transient.get? (truncated i) = none :=
      Std.TreeMap.getElem?_emptyc
    have last := Machine.transient_of_visits visited (truncated i)
    rw [fresh, Option.or_none] at last
    rw [Machine.step_get reads split index, last]

/-- A subroutine that gets what is at slot 0. -/
def recalling : Context := { globals := .ofList [[139, 12, 21, 11]] }

/-- A program that calls it after it has put two numbers at that slot. -/
def recalled : List UInt8 := [146, 139, 12, 20, 148, 139, 12, 20, 32, 29, 14]

/-- The subroutine gets the second number. Where nothing has been put, `get` breaks off. -/
theorem touches_own_operands_called :
    (∃ before machine later, Machine.visits recalling (.start 500.0 recalled) = before ++ machine :: later ∧
      machine.callers.depth = 1 ∧
      machine.step recalling =
        .next { machine with program := [11], registers := { machine.registers with operands := [9.0] } }) ∧
    ∃ fault left, get.work { program := recalled, registers := { operands := [0.0] } } = .error fault left := by
  have visited : Machine.visits recalling (.start 500.0 recalled) = Machine.trail recalling 12 (.start 500.0 recalled) := by
    have ends : (Machine.loop recalling 12 (.start 500.0 recalled)).isSome = true := rfl
    obtain ⟨result, ended⟩ := Option.isSome_iff_exists.1 ends
    exact Machine.visits_eq_trail ended
  have depth : (Machine.trail recalling 12 (.start 500.0 recalled))[9]?.map (·.callers.depth) = some 1 := rfl
  have next : (Machine.trail recalling 12 (.start 500.0 recalled))[9]?.map (·.program) = some [12, 21, 11] := rfl
  have operands : (Machine.trail recalling 12 (.start 500.0 recalled))[9]?.map (·.registers.operands) = some [0.0] := by
    decide +kernel
  have last : Machine.latest? (truncated 0.0) ((Machine.trail recalling 12 (.start 500.0 recalled)).take 9) = some 9.0 := by
    decide +kernel
  have index : IsIndex 0.0 := ⟨rfl, by decide⟩
  constructor
  · -- From here on only these facts about the machines count, which are large terms.
    generalize Machine.trail recalling 12 (.start 500.0 recalled) = run at visited depth next operands last
    obtain ⟨machine, here, called⟩ := Option.map_eq_some_iff.1 depth
    obtain ⟨within, rfl⟩ := List.getElem?_eq_some_iff.1 here
    rw [here] at next operands
    rw [← List.take_append_drop 9 run, List.drop_eq_getElem_cons within] at visited
    have unread : run[9].program = [12, 21, 11] := Option.some.inj next
    have reads : Token.read run[9].program = .ok (some (.operator (.compute .get))) [11] := by
      rw [unread]
      rfl
    have steps :=
      (touches_own_operands recalling).2 500.0 recalled _ _ _ _ _ _ visited reads (Option.some.inj operands) index
    rw [last] at steps
    exact ⟨_, _, _, visited, called, steps⟩
  · have broken :=
      ((touches_own_operands recalling).1 { program := recalled, registers := { operands := [0.0] } } get).2.2.2.2
    apply broken
    right
    rintro ⟨_, value, set⟩
    cases set

end ComputeOperator

end CompactFont.Charstring
