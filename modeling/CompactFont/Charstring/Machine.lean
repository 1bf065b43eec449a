import CompactFont.Charstring.Callers
import CompactFont.Charstring.Registers
import CompactFont.Charstring.Token
import CompactFont.Subroutines

/-! The machine that runs glyph programs, one token at a time. A call sets the rest of the caller aside and
a return takes it up again; calls nest up to a limit, so that every program ends. -/

namespace CompactFont.Charstring

/-- What a glyph program can refer to outside of itself, and the limits it runs under. -/
structure Context where
  globals : Subroutines := {}
  locals? : Option Subroutines := none
  leftover : Leftover := .ignore
  maxDepth : Nat := 10
deriving Repr, Inhabited

structure Machine where
  /-- The unread bytes of the running program. -/
  program : List UInt8
  callers : Callers := .empty
  registers : Registers := {}
deriving Repr, Inhabited

/-- What one step comes to, and what there is to tell about it. -/
inductive Step where
  | next (machine : Machine) (event? : Option Event := none)
  | done (registers : Registers) (event? : Option Event := none)
  | failed (fault : Fault)
deriving Repr

namespace Machine

/-- The machine that a glyph program begins with: the width is the nominal one. -/
def start (nominal : Float) (program : List UInt8) : Machine where
  program := program
  registers := { width := nominal }

/-- Goes on with changed registers. -/
def proceed (machine : Machine) : Except Fault Registers → Step
  | .ok registers => .next { machine with registers }
  | .error fault => .failed fault

/-- Goes on with the innermost caller. -/
def leave (machine : Machine) (outermost : GlyphFault) : Step :=
  match machine.callers.pop? with
  | none => .failed (.glyph outermost)
  | some (program, callers) => .next { machine with program, callers }

/-- Sets the rest of the program aside and runs a subroutine. -/
def enter (context : Context) (machine : Machine) (table : Subroutines) : Step :=
  match machine.registers.operands with
  | [] => .failed (.glyph .underflow)
  | operand :: operands =>
    match table.get operand with
    | .error fault => .failed fault
    | .ok body =>
      if machine.callers.depth < context.maxDepth then
        .next
          { program := body
            callers := machine.callers.push machine.program
            registers := { machine.registers with operands } }
          (some (.called (table.number operand) (machine.callers.depth + 1)))
      else .failed (.glyph (.nestedDeeper context.maxDepth))

/-- Passes over the bytes of a mask. -/
def skipMask (machine : Machine) (registers : Registers) : Step :=
  match Reader.slice registers.maskLength machine.program with
  | .ok _ rest => .next { machine with program := rest, registers }
  | .error fault _ => .failed fault

def execute (context : Context) (machine : Machine) : Operator → Step
  | .stem op => machine.proceed (machine.registers.stem op)
  | .mask op =>
    match machine.registers.mask op with
    | .ok registers => machine.skipMask registers
    | .error fault => .failed fault
  | .move op => machine.proceed (machine.registers.move op)
  | .draw op => machine.proceed (machine.registers.draw op)
  | .compute op => machine.proceed (machine.registers.compute op)
  | .flex op => .failed (machine.registers.flex op)
  | .random => .failed (.unsupported .random)
  | .callsubr =>
    match context.locals? with
    | some table => machine.enter context table
    | none => .failed (.glyph .noLocalSubroutines)
  | .callgsubr => machine.enter context context.globals
  | .ret => machine.leave .returnOutside
  | .endchar =>
    match machine.registers.endchar context.leftover with
    | .ok (registers, event?) => .done registers event?
    | .error fault => .failed fault

def handle (context : Context) (machine : Machine) : Token → Step
  | .integer value => .next { machine with registers := machine.registers.push (Float.ofInt value) }
  | .fixed raw =>
    .next { machine with registers := machine.registers.push (Float.ofNat raw.toNat / 65536.0) }
  | .operator op => machine.execute context op

/-- One token, or the end of a program: that of a subroutine returns from it. -/
def step (context : Context) (machine : Machine) : Step :=
  match Token.read machine.program with
  | .ok (some token) rest => handle context { machine with program := rest } token
  | .ok none _ => machine.leave .noEndchar
  | .error fault _ => .failed fault

end Machine
end CompactFont.Charstring
