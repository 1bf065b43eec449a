import CompactFont.Geometry.Bounds

/-! Pieces of a drawn path: straight lines and cubic Bézier curves. -/

namespace CompactFont

/-- A cubic Bézier curve, in drawing order. -/
structure Curve where
  start : Point
  firstControl : Point
  secondControl : Point
  finish : Point
deriving BEq, DecidableEq, Repr, Inhabited

/-- The Bernstein form; the order of the operations fixes the rounding. -/
def Curve.at (curve : Curve) (t : Float) : Point :=
  let t2 := t * t
  let t3 := t2 * t
  let mt := 1.0 - t
  let mt2 := mt * mt
  let mt3 := mt2 * mt
  curve.start * mt3 + (3.0 : Float) * curve.firstControl * mt2 * t
    + (3.0 : Float) * curve.secondControl * mt * t2 + curve.finish * t3

/-- A point for every thousandth of the parameter, without the ends. -/
def Curve.inner (curve : Curve) : List Point :=
  (List.range 999).map fun i => curve.at (Float.ofNat (i + 1) / 1000.0)

inductive Segment where
  | line (start finish : Point)
  | curve (arc : Curve)
deriving BEq, DecidableEq, Repr, Inhabited

namespace Segment

def start : Segment → Point
  | .line start _ => start
  | .curve arc => arc.start

def finish : Segment → Point
  | .line _ finish => finish
  | .curve arc => arc.finish

/-- The points that a segment is measured by. -/
def samples : Segment → List Point
  | .line start finish => [start, finish]
  | .curve arc => arc.start :: arc.finish :: arc.inner

def bounds (segment : Segment) : Bounds := Bounds.around segment.samples

end Segment

/-- The bounds of a drawn path. -/
def pathBounds (path : List Segment) : Bounds :=
  path.foldl (fun box segment => box.merge segment.bounds) Bounds.empty

end CompactFont
