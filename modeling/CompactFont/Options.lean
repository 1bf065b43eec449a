/-! How strictly fonts are decoded. -/

namespace CompactFont

/-- What becomes of operands that are left when a glyph ends. -/
inductive Leftover where
  | ignore
  | reject
deriving DecidableEq, Repr, Inhabited

structure Options where
  leftover : Leftover := .ignore
  /-- Leave out glyphs that ask for an unsupported feature instead of refusing the font. -/
  skipUnsupported : Bool := false
  maxDepth : Nat := 10
deriving DecidableEq, Repr, Inhabited

def Options.strict : Options := { leftover := .reject }

end CompactFont
