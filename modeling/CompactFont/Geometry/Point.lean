/-! Points of the plane, in font units. -/

namespace CompactFont

structure Point where
  x : Float
  y : Float
deriving BEq, DecidableEq, Repr, Inhabited

namespace Point

def origin : Point := ⟨0.0, 0.0⟩

def translate (p : Point) (dx dy : Float) : Point := ⟨p.x + dx, p.y + dy⟩

instance : Add Point := ⟨fun p q => ⟨p.x + q.x, p.y + q.y⟩⟩

instance : HMul Point Float Point := ⟨fun p k => ⟨p.x * k, p.y * k⟩⟩

instance : HMul Float Point Point := ⟨fun k p => ⟨k * p.x, k * p.y⟩⟩

end Point
end CompactFont
