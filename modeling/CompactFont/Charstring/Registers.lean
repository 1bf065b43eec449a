import CompactFont.Charstring.Compute
import CompactFont.Charstring.Draw
import CompactFont.Event
import CompactFont.Options

/-! The state of a glyph program apart from where it stands: operands, transient array, pen, advance width
and hint count, and what each operator does to them. -/

namespace CompactFont.Charstring

structure Registers extends Workspace where
  pen : Pen := {}
  /-- The advance width: that of most glyphs, until the program tells a difference from it. -/
  width : Float := 0.0
  /-- Whether the width is final, as the first operator that clears the stack makes it. -/
  settled : Bool := false
  /-- How many stem hints have been declared. -/
  hints : Nat := 0
deriving Repr, Inhabited

namespace Registers

def push (registers : Registers) (x : Float) : Registers :=
  { registers with operands := x :: registers.operands }

def count (registers : Registers) : Nat := registers.operands.length

def miscount (registers : Registers) (op : Operator) : Fault := .glyph (.operandCount registers.count op)

/-- Settles the advance width if that has not been done: the bottom operand is a difference when the number of operands
says that there is one too many. -/
def takeWidth (carries : Nat → Bool) (registers : Registers) : Registers :=
  if registers.settled then registers
  else
    match registers.operands.getLast? with
    | some difference =>
      if carries registers.count then
        { registers with
          width := registers.width + difference, settled := true, operands := registers.operands.dropLast }
      else { registers with settled := true }
    | none => { registers with settled := true }

def isOdd (n : Nat) : Bool := n % 2 == 1

/-- Counts the operands as pairs of hint edges. -/
def declare (op : Operator) (admits : Nat → Bool) (registers : Registers) : Except Fault Registers :=
  let ready := registers.takeWidth isOdd
  if admits ready.count then
    .ok { ready with operands := [], hints := ready.hints + ready.count / 2 }
  else .error (ready.miscount op)

def stem (op : StemOperator) (registers : Registers) : Except Fault Registers :=
  registers.declare (.stem op) fun n => n != 0 && n % 2 == 0

/-- The hints before a mask operator need no operator of their own. -/
def mask (op : MaskOperator) (registers : Registers) : Except Fault Registers :=
  registers.declare (.mask op) fun n => n % 2 == 0

/-- One bit for every hint. -/
def maskLength (registers : Registers) : Nat := (registers.hints + 7) / 8

/-- The number of operands of a move. -/
def moveArity : MoveOperator → Nat
  | .rmoveto => 2
  | .hmoveto | .vmoveto => 1

/-- The way that a move goes, by its operands, the top one first. -/
def moveBy? : MoveOperator → List Float → Option (Float × Float)
  | .rmoveto, [dy, dx] => some (dx, dy)
  | .hmoveto, [dx] => some (dx, 0.0)
  | .vmoveto, [dy] => some (0.0, dy)
  | _, _ => none

def move (op : MoveOperator) (registers : Registers) : Except Fault Registers :=
  let ready := registers.takeWidth (· == moveArity op + 1)
  match moveBy? op ready.operands with
  | some (dx, dy) => .ok { ready with operands := [], pen := ready.pen.move dx dy }
  | none => .error (ready.miscount (.move op))

def draw (op : DrawOperator) (registers : Registers) : Except Fault Registers :=
  if registers.pen.hasSubpath then
    match op.strokes? registers.operands.reverse with
    | some strokes => .ok { registers with operands := [], pen := registers.pen.draw strokes }
    | none => .error (registers.miscount (.draw op))
  else .error (.glyph (.beforeMove (.draw op)))

def compute (op : ComputeOperator) (registers : Registers) : Except Fault Registers :=
  match op.apply registers.toWorkspace with
  | .ok workspace => .ok { registers with toWorkspace := workspace }
  | .error fault => .error (.glyph fault)

def flexArity : FlexOperator → Nat × Feature
  | .hflex => (7, .hflex)
  | .flex => (13, .flex)
  | .hflex1 => (9, .hflex1)
  | .flex1 => (11, .flex1)

/-- Flex operators are recognised and not drawn. -/
def flex (op : FlexOperator) (registers : Registers) : Fault :=
  let (arity, feature) := flexArity op
  if registers.count = arity then .unsupported feature else registers.miscount (.flex op)

/-- Ends the glyph. Four operands would compose an accented character, which is not supported; other
operands are left over. -/
def endchar (leftover : Leftover) (registers : Registers) :
    Except Fault (Registers × Option Event) :=
  let ready := registers.takeWidth isOdd
  let closed := { ready with operands := [], pen := ready.pen.close }
  if ready.count = 0 then .ok (closed, none)
  else if ready.count = 4 then .error (.unsupported .accentedEndchar)
  else
    match leftover with
    | .ignore => .ok (closed, some (.ignored ready.count))
    | .reject => .error (.glyph (.leftover ready.count))

end Registers
end CompactFont.Charstring
