/-! The operators of glyph programs, grouped by what they act on, with their mnemonics and codes. -/

namespace CompactFont.Charstring

/-- Operators that declare stem hints. -/
inductive StemOperator where
  | hstem | vstem | hstemhm | vstemhm
deriving DecidableEq, Repr, Inhabited

/-- Operators followed by mask bytes. -/
inductive MaskOperator where
  | hintmask | cntrmask
deriving DecidableEq, Repr, Inhabited

/-- Operators that begin a subpath. -/
inductive MoveOperator where
  | rmoveto | hmoveto | vmoveto
deriving DecidableEq, Repr, Inhabited

/-- Operators that draw lines and curves. -/
inductive DrawOperator where
  | rlineto | hlineto | vlineto | rrcurveto | rcurveline | rlinecurve
  | vvcurveto | hhcurveto | vhcurveto | hvcurveto
deriving DecidableEq, Repr, Inhabited

/-- Operators that compute with the operand stack and the transient array. -/
inductive ComputeOperator where
  | dotsection | and | or | not | abs | add | sub | div | neg | eq | drop | put | get | ifelse
  | mul | sqrt | dup | exch | index | roll
deriving DecidableEq, Repr, Inhabited

/-- Operators that draw two curves as a hint-sized bump. -/
inductive FlexOperator where
  | hflex | flex | hflex1 | flex1
deriving DecidableEq, Repr, Inhabited

inductive Operator where
  | stem (op : StemOperator)
  | mask (op : MaskOperator)
  | move (op : MoveOperator)
  | draw (op : DrawOperator)
  | compute (op : ComputeOperator)
  | flex (op : FlexOperator)
  | random
  | callsubr
  | callgsubr
  | ret
  | endchar
deriving DecidableEq, Repr, Inhabited

/-- The bytes of an operator: one byte, or an escape byte and one more. -/
inductive Opcode where
  | single (code : UInt8)
  | escaped (code : UInt8)
deriving DecidableEq, Repr

def StemOperator.signature : StemOperator → String × Opcode
  | .hstem => ("hstem", .single 1)
  | .vstem => ("vstem", .single 3)
  | .hstemhm => ("hstemhm", .single 18)
  | .vstemhm => ("vstemhm", .single 23)

def MaskOperator.signature : MaskOperator → String × Opcode
  | .hintmask => ("hintmask", .single 19)
  | .cntrmask => ("cntrmask", .single 20)

def MoveOperator.signature : MoveOperator → String × Opcode
  | .rmoveto => ("rmoveto", .single 21)
  | .hmoveto => ("hmoveto", .single 22)
  | .vmoveto => ("vmoveto", .single 4)

def DrawOperator.signature : DrawOperator → String × Opcode
  | .rlineto => ("rlineto", .single 5)
  | .hlineto => ("hlineto", .single 6)
  | .vlineto => ("vlineto", .single 7)
  | .rrcurveto => ("rrcurveto", .single 8)
  | .rcurveline => ("rcurveline", .single 24)
  | .rlinecurve => ("rlinecurve", .single 25)
  | .vvcurveto => ("vvcurveto", .single 26)
  | .hhcurveto => ("hhcurveto", .single 27)
  | .vhcurveto => ("vhcurveto", .single 30)
  | .hvcurveto => ("hvcurveto", .single 31)

def ComputeOperator.signature : ComputeOperator → String × Opcode
  | .dotsection => ("dotsection", .escaped 0)
  | .and => ("and", .escaped 3)
  | .or => ("or", .escaped 4)
  | .not => ("not", .escaped 5)
  | .abs => ("abs", .escaped 9)
  | .add => ("add", .escaped 10)
  | .sub => ("sub", .escaped 11)
  | .div => ("div", .escaped 12)
  | .neg => ("neg", .escaped 14)
  | .eq => ("eq", .escaped 15)
  | .drop => ("drop", .escaped 18)
  | .put => ("put", .escaped 20)
  | .get => ("get", .escaped 21)
  | .ifelse => ("ifelse", .escaped 22)
  | .mul => ("mul", .escaped 24)
  | .sqrt => ("sqrt", .escaped 26)
  | .dup => ("dup", .escaped 27)
  | .exch => ("exch", .escaped 28)
  | .index => ("index", .escaped 29)
  | .roll => ("roll", .escaped 30)

def FlexOperator.signature : FlexOperator → String × Opcode
  | .hflex => ("hflex", .escaped 34)
  | .flex => ("flex", .escaped 35)
  | .hflex1 => ("hflex1", .escaped 36)
  | .flex1 => ("flex1", .escaped 37)

namespace Operator

def signature : Operator → String × Opcode
  | .stem op => op.signature
  | .mask op => op.signature
  | .move op => op.signature
  | .draw op => op.signature
  | .compute op => op.signature
  | .flex op => op.signature
  | .random => ("random", .escaped 23)
  | .callsubr => ("callsubr", .single 10)
  | .callgsubr => ("callgsubr", .single 29)
  | .ret => ("return", .single 11)
  | .endchar => ("endchar", .single 14)

def mnemonic (op : Operator) : String := op.signature.1

def opcode (op : Operator) : Opcode := op.signature.2

def all : List Operator :=
  [StemOperator.hstem, .vstem, .hstemhm, .vstemhm].map stem
    ++ [MaskOperator.hintmask, .cntrmask].map mask
    ++ [MoveOperator.rmoveto, .hmoveto, .vmoveto].map move
    ++ [DrawOperator.rlineto, .hlineto, .vlineto, .rrcurveto, .rcurveline, .rlinecurve,
        .vvcurveto, .hhcurveto, .vhcurveto, .hvcurveto].map draw
    ++ [ComputeOperator.dotsection, .and, .or, .not, .abs, .add, .sub, .div, .neg, .eq, .drop,
        .put, .get, .ifelse, .mul, .sqrt, .dup, .exch, .index, .roll].map compute
    ++ [FlexOperator.hflex, .flex, .hflex1, .flex1].map flex
    ++ [random, callsubr, callgsubr, ret, endchar]

theorem mem_all (op : Operator) : op ∈ all := by
  cases op with
  | stem op => cases op <;> decide
  | mask op => cases op <;> decide
  | move op => cases op <;> decide
  | draw op => cases op <;> decide
  | compute op => cases op <;> decide
  | flex op => cases op <;> decide
  | random => decide
  | callsubr => decide
  | callgsubr => decide
  | ret => decide
  | endchar => decide

/-- The operator with the given code; other codes are reserved. -/
def ofOpcode? (code : Opcode) : Option Operator := all.find? fun op => op.opcode == code

end Operator
end CompactFont.Charstring
