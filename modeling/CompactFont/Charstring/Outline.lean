import CompactFont.Charstring.Semantics

/-! Running a glyph program to its end. The programs set aside and the running one are weighed by the steps
that their bytes can cost, so that the weight falls with every step: a byte costs its own step, and where
calls still nest also those of the longest subroutine. -/

namespace CompactFont.Charstring

def Context.longest (context : Context) : Nat :=
  max context.globals.longest ((context.locals?.map Subroutines.longest).getD 0)

/-- How many steps a byte can cost where calls nest by `room` more. -/
def price (longest : Nat) : Nat → Nat
  | 0 => 1
  | room + 1 => longest * price longest room + 2

/-- How many steps programs within programs can cost, the innermost first: their bytes, and leaving them. -/
def weight (longest limit : Nat) : List (List UInt8) → Nat
  | [] => 0
  | program :: callers =>
    program.length * price longest (limit - callers.length) + 1 + weight longest limit callers

theorem price_pos (longest room : Nat) : 0 < price longest room := by
  cases room with
  | zero => exact Nat.one_pos
  | succ room => exact Nat.succ_pos _

theorem weight_shorter {longest limit : Nat} {program rest : List UInt8} {callers : List (List UInt8)}
    (shorter : rest.length < program.length) :
    weight longest limit (rest :: callers) < weight longest limit (program :: callers) := by
  have less := Nat.mul_lt_mul_of_pos_right shorter (price_pos longest (limit - callers.length))
  simp only [weight]
  omega

theorem weight_tail (longest limit : Nat) (program : List UInt8) (callers : List (List UInt8)) :
    weight longest limit callers < weight longest limit (program :: callers) := by
  simp only [weight]
  omega

theorem weight_call {longest limit : Nat} {program rest body : List UInt8} {callers : List (List UInt8)}
    (shorter : rest.length < program.length) (fits : body.length ≤ longest)
    (shallow : callers.length < limit) :
    weight longest limit (body :: rest :: callers) < weight longest limit (program :: callers) := by
  obtain ⟨room, deep⟩ : ∃ room, limit - callers.length = room + 1 := ⟨limit - callers.length - 1, by omega⟩
  have inner : limit - (rest :: callers).length = room := by simp only [List.length_cons]; omega
  have enters := Nat.mul_le_mul_right (price longest room) fits
  have spends := Nat.mul_le_mul_right (price longest (room + 1)) (Nat.succ_le_of_lt shorter)
  have last : price longest (room + 1) = longest * price longest room + 2 := rfl
  rw [Nat.succ_mul] at spends
  simp only [weight, inner, deep]
  omega

theorem Operator.longest_le_of_table? {context : Context} {op : Operator} {table : Subroutines}
    (chosen : op.table? context = some table) : table.longest ≤ context.longest := by
  cases op with
  | callsubr =>
    have there : context.locals? = some table := chosen
    simp only [Context.longest, there, Option.map_some, Option.getD_some]
    exact Nat.le_max_right ..
  | callgsubr =>
    cases chosen
    exact Nat.le_max_left ..
  | _ => cases chosen

namespace Machine

def budget (context : Context) (machine : Machine) : Nat :=
  weight context.longest context.maxDepth (machine.program :: machine.callers.programs)

/-- Every step that goes on makes the machine lighter. -/
theorem budget_goes {context : Context} {machine following : Machine} (goes : Goes context machine following) :
    following.budget context < machine.budget context := by
  cases goes with
  | @act _ used mask rest _ program takes _ _ =>
    have consumed := takes.length_pos
    have shorter : rest.length < machine.program.length := by
      rw [program, List.length_append, List.length_append]
      omega
    exact weight_shorter shorter
  | @call _ _ _ _ _ used rest program takes chosen _ found shallow =>
    have consumed := takes.length_pos
    have shorter : rest.length < machine.program.length := by
      rw [program, List.length_append]
      omega
    have fits := Nat.le_trans (Subroutines.length_le_longest found) (Operator.longest_le_of_table? chosen)
    rw [machine.callers.depth_eq] at shallow
    exact weight_call shorter fits shallow
  | leave _ popped =>
    simp only [budget, Callers.programs_of_pop? popped]
    exact weight_tail ..

theorem budget_step {context : Context} {machine following : Machine} {event? : Option Event}
    (steps : machine.step context = .next following event?) :
    following.budget context < machine.budget context := budget_goes (goes_of_step steps)

/-- Runs a machine to its end; `past` is what it has told, the latest first. -/
def run (context : Context) (machine : Machine) (past : List Event := []) : Logged Fault Registers :=
  match _ : machine.step context with
  | .next following event? => run context following (event?.toList ++ past)
  | .done registers event? => ⟨.ok registers, (event?.toList ++ past).reverse⟩
  | .failed fault => ⟨.error fault, past.reverse⟩
termination_by machine.budget context
decreasing_by exact budget_step ‹_›

end Machine

/-- What a glyph program draws. -/
structure Outline where
  width : Float
  path : List Segment
deriving DecidableEq, Repr, Inhabited

/-- The outline that a program draws, when glyphs have the given nominal width. -/
def Outline.ofProgram (context : Context) (nominal : Float) (program : List UInt8) :
    Logged Fault Outline := do
  let registers ← Machine.run context (.start nominal program)
  return { width := registers.width, path := registers.pen.path }

end CompactFont.Charstring
