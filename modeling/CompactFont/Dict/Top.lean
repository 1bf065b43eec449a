import CompactFont.Dict.Entry
import CompactFont.Dict.Operands
import CompactFont.Geometry.Bounds

/-! The Top DICT: what a font says about itself as a whole, and where its parts are. -/

namespace CompactFont

/-- An affine map of the plane. -/
structure Affine where
  xx : Float
  xy : Float
  yx : Float
  yy : Float
  dx : Float
  dy : Float
deriving BEq, Repr, Inhabited

structure TopDict where
  version? : Option Nat := none
  notice? : Option Nat := none
  copyright? : Option Nat := none
  fullName? : Option Nat := none
  familyName? : Option Nat := none
  weight? : Option Nat := none
  isFixedPitch : Bool := false
  italicAngle : Float := 0.0
  underlinePosition : Float := -100.0
  underlineThickness : Float := 50.0
  paintType : Float := 0.0
  charstringType : Nat := 2
  fontMatrix : Affine := ⟨0.001, 0.0, 0.0, 0.001, 0.0, 0.0⟩
  uniqueId? : Option Float := none
  fontBox : Bounds := ⟨⟨0.0, 0.0⟩, ⟨0.0, 0.0⟩⟩
  strokeWidth : Float := 0.0
  xuid? : Option (List Float) := none
  /-- A predefined charset or an offset. -/
  charset : Nat := 0
  encoding : Nat := 0
  charstrings? : Option Nat := none
  /-- The length of the Private DICT and its offset. -/
  privateDict? : Option (Nat × Nat) := none
  syntheticBase? : Option Float := none
  postScript? : Option Nat := none
  baseFontName? : Option Nat := none
  baseFontBlend? : Option (List Float) := none
deriving BEq, Repr, Inhabited

namespace TopDict

inductive Key where
  | version | notice | fullName | familyName | weight | fontBox | copyright | isFixedPitch
  | italicAngle | underlinePosition | underlineThickness | paintType | charstringType | fontMatrix
  | strokeWidth | syntheticBase | postScript | baseFontName | baseFontBlend | uniqueId | xuid
  | charset | encoding | charstrings | privateDict
deriving DecidableEq, Repr

open Dict

def Key.code : Key → KeyCode
  | .version => .single 0
  | .notice => .single 1
  | .fullName => .single 2
  | .familyName => .single 3
  | .weight => .single 4
  | .fontBox => .single 5
  | .uniqueId => .single 13
  | .xuid => .single 14
  | .charset => .single 15
  | .encoding => .single 16
  | .charstrings => .single 17
  | .privateDict => .single 18
  | .copyright => .escaped 0
  | .isFixedPitch => .escaped 1
  | .italicAngle => .escaped 2
  | .underlinePosition => .escaped 3
  | .underlineThickness => .escaped 4
  | .paintType => .escaped 5
  | .charstringType => .escaped 6
  | .fontMatrix => .escaped 7
  | .strokeWidth => .escaped 8
  | .syntheticBase => .escaped 20
  | .postScript => .escaped 21
  | .baseFontName => .escaped 22
  | .baseFontBlend => .escaped 23

def Key.all : List Key :=
  [version, notice, fullName, familyName, weight, fontBox, copyright, isFixedPitch, italicAngle,
    underlinePosition, underlineThickness, paintType, charstringType, fontMatrix, strokeWidth,
    syntheticBase, postScript, baseFontName, baseFontBlend, uniqueId, xuid, charset, encoding,
    charstrings, privateDict]

theorem Key.mem_all (key : Key) : key ∈ all := by cases key <;> decide

def Key.ofCode? (code : KeyCode) : Option Key := Key.all.find? fun key => key.code == code

/-- Keys of fonts whose glyphs are chosen by number instead of by name. -/
def refuse : KeyCode → Fault
  | .single code => .unknownKey code none
  | .escaped code =>
    if 30 ≤ code ∧ code ≤ 38 then .unsupported (.cidKeyed code) else .unknownKey 12 (some code)

def box : List Float → Except Fault Bounds
  | [left, bottom, right, top] => .ok ⟨⟨left, bottom⟩, ⟨right, top⟩⟩
  | operands => .error (miscount 4 operands)

def matrix : List Float → Except Fault Affine
  | [xx, xy, yx, yy, dx, dy] => .ok ⟨xx, xy, yx, yy, dx, dy⟩
  | operands => .error (miscount 6 operands)

/-- Sets the field of a key. -/
def assign (dict : TopDict) (operands : List Float) : Key → Except Fault TopDict
  | .version => return { dict with version? := some (← stringId operands) }
  | .notice => return { dict with notice? := some (← stringId operands) }
  | .fullName => return { dict with fullName? := some (← stringId operands) }
  | .familyName => return { dict with familyName? := some (← stringId operands) }
  | .weight => return { dict with weight? := some (← stringId operands) }
  | .fontBox => return { dict with fontBox := ← box operands }
  | .copyright => return { dict with copyright? := some (← stringId operands) }
  | .isFixedPitch => return { dict with isFixedPitch := ← flag operands }
  | .italicAngle => return { dict with italicAngle := ← number operands }
  | .underlinePosition => return { dict with underlinePosition := ← number operands }
  | .underlineThickness => return { dict with underlineThickness := ← number operands }
  | .paintType => return { dict with paintType := ← number operands }
  | .charstringType => return { dict with charstringType := ← offset operands }
  | .fontMatrix => return { dict with fontMatrix := ← matrix operands }
  | .strokeWidth => return { dict with strokeWidth := ← number operands }
  | .syntheticBase => return { dict with syntheticBase? := some (← number operands) }
  | .postScript => return { dict with postScript? := some (← stringId operands) }
  | .baseFontName => return { dict with baseFontName? := some (← stringId operands) }
  | .baseFontBlend => return { dict with baseFontBlend? := some (delta operands) }
  | .uniqueId => return { dict with uniqueId? := some (← number operands) }
  | .xuid => return { dict with xuid? := some (delta operands) }
  | .charset => return { dict with charset := ← offset operands }
  | .encoding => return { dict with encoding := ← offset operands }
  | .charstrings => return { dict with charstrings? := some (← offset operands) }
  | .privateDict => return { dict with privateDict? := some (← region operands) }

def assignCode (code : KeyCode) (operands : List Float) (dict : TopDict) : Except Fault TopDict :=
  match Key.ofCode? code with
  | some key => dict.assign operands key
  | none => .error (refuse code)

/-- Decodes a Top DICT; its glyph programs have to be of type 2. -/
def ofBytes (bytes : List UInt8) : Except Fault TopDict := do
  let dict ← decode assignCode [] {} bytes
  if dict.charstringType = 2 then return dict
  else throw (.unsupported (.charstringType dict.charstringType))

end TopDict
end CompactFont
