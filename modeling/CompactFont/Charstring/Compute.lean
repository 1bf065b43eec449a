import CompactFont.Charstring.Transient
import CompactFont.Fault

/-! The operators that compute: each takes its operands from the top of the stack and pushes its result.
The transient array changes under `put` alone. -/

namespace CompactFont.Charstring

/-- What the computing operators act on: the operand stack, its top first, and the transient array. -/
structure Workspace where
  operands : List Float := []
  transient : Transient := {}
deriving Repr, Inhabited

/-- The top operand and what is below it. -/
def pop : List Float → Except GlyphFault (Float × List Float)
  | [] => .error .underflow
  | x :: rest => .ok (x, rest)

/-- The top two operands, the lower one first. -/
def popPair : List Float → Except GlyphFault (Float × Float × List Float)
  | second :: first :: rest => .ok (first, second, rest)
  | _ => .error .underflow

/-- The top operand without its fraction; it has to fit in 32 bits with a sign. -/
def popIndex (operands : List Float) : Except GlyphFault (Int × List Float) := do
  let (x, rest) ← pop operands
  match Number.truncate? x with
  | some n => if x.abs ≤ 2147483647.0 then return (n, rest) else throw (.notIndex x)
  | none => throw (.notIndex x)

/-- The integer that an operand stands for where a slot, a depth or a count is asked for. -/
def index? (x : Float) : Option Int := if x.abs ≤ 2147483647.0 then Number.truncate? x else none

theorem popIndex_cons (x : Float) (rest : List Float) :
    popIndex (x :: rest) =
      match index? x with
      | some n => .ok (n, rest)
      | none => .error (.notIndex x) := by
  simp only [popIndex, pop, ok_bind, index?]
  cases Number.truncate? x <;> by_cases small : x.abs ≤ 2147483647.0 <;> simp only [small, if_true, if_false] <;> rfl

def truth (condition : Bool) : Float := if condition then 1.0 else 0.0

/-- The operand at a depth below the top; a negative depth is the top. -/
def copy (operands : List Float) : Except GlyphFault (List Float) := do
  let (depth, rest) ← popIndex operands
  match rest[depth.toNat]? with
  | some x => return x :: rest
  | none => throw (.indexBeyond depth.toNat rest.length)

/-- Turns the block of the top `count` operands so that each moves `shift` places towards the top. -/
def rotate (count shift : Nat) (operands : List Float) : List Float :=
  let block := operands.take count
  block.drop shift ++ block.take shift ++ operands.drop count

/-- Rolls the block whose size and shift are the top two operands. The stack is counted up to that size
only; a negative size is met by no count. -/
def rollBlock (operands : List Float) : Except GlyphFault (List Float) := do
  let (shift, rest) ← popIndex operands
  let (count, rest) ← popIndex rest
  if (rest.take count.toNat).length = count then
    return rotate count.toNat (shift % count).toNat rest
  else throw (.rollBeyond count rest.length)

/-- Replaces the top operand. -/
def unary (f : Float → Except GlyphFault Float) (operands : List Float) : Except GlyphFault (List Float) := do
  let (x, rest) ← pop operands
  return (← f x) :: rest

/-- Replaces the top two operands. -/
def binary (f : Float → Float → Except GlyphFault Float) (operands : List Float) :
    Except GlyphFault (List Float) := do
  let (x, y, rest) ← popPair operands
  return (← f x y) :: rest

/-- A change of the operand stack that leaves the transient array alone. -/
def onStack (change : List Float → Except GlyphFault (List Float)) (workspace : Workspace) :
    Except GlyphFault Workspace :=
  (change workspace.operands).map fun operands => { workspace with operands }

/-- The first of two values if the two numbers above them ascend, else the second. -/
def choose (operands : List Float) : Except GlyphFault (List Float) := do
  let (low, high, rest) ← popPair operands
  binary (fun x y => .ok (if low ≤ high then x else y)) rest

def duplicate (operands : List Float) : Except GlyphFault (List Float) := do
  let (x, rest) ← pop operands
  return x :: x :: rest

def exchange (operands : List Float) : Except GlyphFault (List Float) := do
  let (x, y, rest) ← popPair operands
  return x :: y :: rest

/-- Keeps the value below the slot number on top. -/
def store (workspace : Workspace) : Except GlyphFault Workspace := do
  let (slot, rest) ← popIndex workspace.operands
  let (value, rest) ← pop rest
  return { operands := rest, transient := workspace.transient.put slot value }

/-- Pushes what the slot on top holds. -/
def fetch (workspace : Workspace) : Except GlyphFault Workspace := do
  let (slot, rest) ← popIndex workspace.operands
  match workspace.transient.get? slot with
  | some value => return { workspace with operands := value :: rest }
  | none => throw (.unsetSlot slot)

def ComputeOperator.apply : ComputeOperator → Workspace → Except GlyphFault Workspace
  | .dotsection => .ok
  | .and => onStack (binary fun x y => .ok (truth (x != 0.0 && y != 0.0)))
  | .or => onStack (binary fun x y => .ok (truth (x != 0.0 || y != 0.0)))
  | .not => onStack (unary fun x => .ok (truth (x == 0.0)))
  | .abs => onStack (unary fun x => .ok x.abs)
  | .add => onStack (binary fun x y => .ok (x + y))
  | .sub => onStack (binary fun x y => .ok (x - y))
  | .div => onStack (binary fun x y => if y == 0.0 then .error .divisionByZero else .ok (x / y))
  | .neg => onStack (unary fun x => .ok (-x))
  | .eq => onStack (binary fun x y => .ok (truth (x == y)))
  | .drop => onStack fun operands => (pop operands).map (·.2)
  | .put => store
  | .get => fetch
  | .ifelse => onStack choose
  | .mul => onStack (binary fun x y => .ok (x * y))
  | .sqrt => onStack (unary fun x => if x ≥ 0.0 then .ok x.sqrt else .error (.squareRoot x))
  | .dup => onStack duplicate
  | .exch => onStack exchange
  | .index => onStack copy
  | .roll => onStack rollBlock

end CompactFont.Charstring
