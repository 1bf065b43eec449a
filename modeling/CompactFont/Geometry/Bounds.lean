import CompactFont.Geometry.Point
import CompactFont.Number.Parts

/-! Axis-parallel boxes. The empty box is turned inside out, so that extending it by a point gives the
box of that point alone. -/

namespace CompactFont

open Number

structure Bounds where
  min : Point
  max : Point
deriving BEq, DecidableEq, Repr, Inhabited

namespace Bounds

def empty : Bounds := ⟨⟨1.0 / 0.0, 1.0 / 0.0⟩, ⟨-1.0 / 0.0, -1.0 / 0.0⟩⟩

def isEmpty (box : Bounds) : Bool := box.min.x > box.max.x || box.min.y > box.max.y

def width (box : Bounds) : Float := box.max.x - box.min.x

def height (box : Bounds) : Float := box.max.y - box.min.y

/-- The least box around both boxes; a coordinate that is not a number counts for nothing. -/
def merge (box other : Bounds) : Bounds where
  min := ⟨lesser box.min.x other.min.x, lesser box.min.y other.min.y⟩
  max := ⟨greater box.max.x other.max.x, greater box.max.y other.max.y⟩

def extend (box : Bounds) (p : Point) : Bounds := box.merge ⟨p, p⟩

/-- The box of some points. -/
def around (points : List Point) : Bounds := points.foldl extend empty

end Bounds
end CompactFont
