import CompactFont.Fault

/-! The forms that the operands of a key take. -/

namespace CompactFont.Dict

def miscount (expected : Nat) (operands : List Float) : Fault :=
  .dict (.operandCount expected operands.length)

def number : List Float → Except Fault Float
  | [x] => .ok x
  | operands => .error (miscount 1 operands)

def flag (operands : List Float) : Except Fault Bool := (number operands).map (· != 0.0)

def toStringId (x : Float) : Except Fault Nat :=
  match Number.natural? 65535 x with
  | some sid => .ok sid
  | none => .error (.dict (.stringId x))

def stringId (operands : List Float) : Except Fault Nat := number operands >>= toStringId

def toOffset (x : Float) : Except Fault Nat :=
  match Number.natural? 4294967295 x with
  | some n => .ok n
  | none => .error (.dict (.offset x))

def offset (operands : List Float) : Except Fault Nat := number operands >>= toOffset

/-- A length and where it begins. -/
def region : List Float → Except Fault (Nat × Nat)
  | [length, start] => do return (← toOffset length, ← toOffset start)
  | operands => .error (miscount 2 operands)

/-- Every value is the one before it less an operand. -/
def descend (value : Float) : List Float → List Float
  | [] => []
  | x :: rest => (value - x) :: descend (value - x) rest

/-- Any number of values, the first as it stands. -/
def delta : List Float → List Float
  | [] => []
  | x :: rest => x :: descend x rest

end CompactFont.Dict
