import CompactFont.Index
import CompactFont.StandardStrings
import CompactFont.Text.Latin

/-! The strings of a font by string id: the standard strings first, then the font's own, which are Latin-1
text. -/

namespace CompactFont

structure SidTable where
  custom : Array String := #[]
deriving Repr, Inhabited

namespace SidTable

def ofIndex (index : Index) : SidTable where
  custom := (index.items.map Text.latin).toArray

def get? (strings : SidTable) (sid : Nat) : Option String :=
  if sid < standardStrings.size then standardStrings[sid]?
  else strings.custom[sid - standardStrings.size]?

def get (strings : SidTable) (sid : Nat) : Except Fault String :=
  match strings.get? sid with
  | some name => .ok name
  | none => .error (.unknownStringId sid)

end SidTable
end CompactFont
