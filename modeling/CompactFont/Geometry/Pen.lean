import CompactFont.Geometry.Segment

/-! A pen that draws a path by relative moves, lines and curves. A move closes the open subpath by a line
back to where that subpath began; closing leaves the pen where it is. -/

namespace CompactFont

/-- One relative drawing step: each pair is added to the point that the pair before it gives. -/
inductive Stroke where
  | line (dx dy : Float)
  | curve (dx₁ dy₁ dx₂ dy₂ dx₃ dy₃ : Float)
deriving BEq, Repr, Inhabited

namespace Stroke

/-- The segment that a stroke draws from a point. -/
def segment (start : Point) : Stroke → Segment
  | .line dx dy => .line start (start.translate dx dy)
  | .curve dx₁ dy₁ dx₂ dy₂ dx₃ dy₃ =>
    let first := start.translate dx₁ dy₁
    let second := first.translate dx₂ dy₂
    .curve ⟨start, first, second, second.translate dx₃ dy₃⟩

end Stroke

structure Pen where
  /-- What has been drawn, the latest segment first. -/
  drawn : List Segment := []
  point : Point := Point.origin
  subpath? : Option Point := none
deriving Repr, Inhabited

namespace Pen

/-- What has been drawn, in drawing order. -/
def path (pen : Pen) : List Segment := pen.drawn.reverse

def hasSubpath (pen : Pen) : Bool := pen.subpath?.isSome

def close (pen : Pen) : Pen :=
  match pen.subpath? with
  | some start => { pen with drawn := .line pen.point start :: pen.drawn }
  | none => pen

def move (pen : Pen) (dx dy : Float) : Pen :=
  let closed := pen.close
  let point := closed.point.translate dx dy
  { closed with point, subpath? := some point }

def stroke (pen : Pen) (stroke : Stroke) : Pen :=
  let segment := stroke.segment pen.point
  { pen with drawn := segment :: pen.drawn, point := segment.finish }

def draw (pen : Pen) (strokes : List Stroke) : Pen := strokes.foldl stroke pen

end Pen
end CompactFont
