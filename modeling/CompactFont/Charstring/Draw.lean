import CompactFont.Charstring.Operator
import CompactFont.Geometry.Pen

/-! The operators that draw. Each reads all operands, the bottom one first, as a list of strokes; counts
that do not fit its pattern have no reading. -/

namespace CompactFont.Charstring

/-- Pairs, as lines. -/
def lines? : List Float → Option (List Stroke)
  | [] => some []
  | dx :: dy :: rest => (lines? rest).map (.line dx dy :: ·)
  | _ => none

/-- Groups of six, as curves. -/
def curves? : List Float → Option (List Stroke)
  | [] => some []
  | dx₁ :: dy₁ :: dx₂ :: dy₂ :: dx₃ :: dy₃ :: rest =>
    (curves? rest).map (.curve dx₁ dy₁ dx₂ dy₂ dx₃ dy₃ :: ·)
  | _ => none

/-- Lines along the axes in turn. -/
def alternatingLines (horizontal : Bool) : List Float → List Stroke
  | [] => []
  | d :: rest =>
    (if horizontal then .line d 0.0 else .line 0.0 d) :: alternatingLines (!horizontal) rest

/-- A curve that leaves along one axis and arrives along the other, but for `slant`. -/
def quarter (horizontal : Bool) (a b c d slant : Float) : Stroke :=
  if horizontal then .curve a 0.0 b c slant d else .curve 0.0 a b c d slant

/-- Groups of four whose first axes take turns; a fifth operand slants the end of the last one. -/
def alternatingCurves? (horizontal : Bool) : List Float → Option (List Stroke)
  | [a, b, c, d] => some [quarter horizontal a b c d 0.0]
  | [a, b, c, d, slant] => some [quarter horizontal a b c d slant]
  | a :: b :: c :: d :: rest =>
    (alternatingCurves? (!horizontal) rest).map (quarter horizontal a b c d 0.0 :: ·)
  | _ => none

/-- A curve that leaves and arrives along one axis, but for `slant` at the start. -/
def arch (horizontal : Bool) (slant a b c d : Float) : Stroke :=
  if horizontal then .curve a slant b c d 0.0 else .curve slant a b c 0.0 d

/-- Groups of four along one axis; only the first has a slant. -/
def arches? (horizontal : Bool) (slant : Float) : List Float → Option (List Stroke)
  | [] => some []
  | a :: b :: c :: d :: rest => (arches? horizontal 0.0 rest).map (arch horizontal slant a b c d :: ·)
  | _ => none

/-- An odd operand at the bottom is the slant of the first group. -/
def slantedArches? (horizontal : Bool) : List Float → Option (List Stroke)
  | [] => none
  | slant :: rest =>
    if rest.length % 4 = 0 ∧ rest ≠ [] then arches? horizontal slant rest
    else arches? horizontal 0.0 (slant :: rest)

/-- At least one operand. -/
def nonempty? {α : Type} (reading : Option (List α)) : Option (List α) :=
  reading.filter fun strokes => !strokes.isEmpty

/-- The first operands read one way, of which there are some, and the last `count` another way. -/
def split? (count : Nat) (first last : List Float → Option (List Stroke)) (operands : List Float) :
    Option (List Stroke) := do
  let size := operands.length - count
  let before ← nonempty? (first (operands.take size))
  let after ← nonempty? (last (operands.drop size))
  return before ++ after

/-- The strokes that an operator draws with the given operands. -/
def DrawOperator.strokes? (op : DrawOperator) (operands : List Float) : Option (List Stroke) :=
  match op with
  | .rlineto => nonempty? (lines? operands)
  | .hlineto => nonempty? (some (alternatingLines true operands))
  | .vlineto => nonempty? (some (alternatingLines false operands))
  | .rrcurveto => nonempty? (curves? operands)
  | .rcurveline => split? 2 curves? lines? operands
  | .rlinecurve => split? 6 lines? curves? operands
  | .vvcurveto => slantedArches? false operands
  | .hhcurveto => slantedArches? true operands
  | .vhcurveto => alternatingCurves? false operands
  | .hvcurveto => alternatingCurves? true operands

end CompactFont.Charstring
