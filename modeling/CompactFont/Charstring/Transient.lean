import Std.Data.TreeMap

/-! The transient array: numbers kept by slot while one glyph program runs. A slot holds nothing until
something is put there. -/

namespace CompactFont.Charstring

structure Transient where
  slots : Std.TreeMap Int Float := {}
deriving Repr, Inhabited

namespace Transient

def get? (array : Transient) (slot : Int) : Option Float := array.slots[slot]?

def put (array : Transient) (slot : Int) (value : Float) : Transient where
  slots := array.slots.insert slot value

@[simp] theorem get?_put_self (array : Transient) (slot : Int) (value : Float) :
    (array.put slot value).get? slot = some value := by
  simp [put, get?]

theorem get?_put_of_ne (array : Transient) {slot other : Int} (value : Float) (distinct : other ≠ slot) :
    (array.put slot value).get? other = array.get? other := by
  simp [put, get?, Std.TreeMap.getElem?_insert, distinct.symm]

end Transient
end CompactFont.Charstring
