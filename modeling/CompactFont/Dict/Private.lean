import CompactFont.Dict.Entry
import CompactFont.Dict.Operands

/-! The Private DICT: hinting values, default widths, and where the local subroutines are. -/

namespace CompactFont

structure PrivateDict where
  blueValues? : Option (List Float) := none
  otherBlues? : Option (List Float) := none
  familyBlues? : Option (List Float) := none
  familyOtherBlues? : Option (List Float) := none
  blueScale : Float := 0.039625
  blueShift : Float := 7.0
  blueFuzz : Float := 1.0
  stdHW? : Option Float := none
  stdVW? : Option Float := none
  stemSnapH? : Option (List Float) := none
  stemSnapV? : Option (List Float) := none
  forceBold : Bool := false
  languageGroup : Float := 0.0
  expansionFactor : Float := 0.06
  initialRandomSeed : Float := 0.0
  /-- The offset of the local subroutines from the start of this DICT. -/
  subroutines? : Option Nat := none
  defaultWidth : Float := 0.0
  nominalWidth : Float := 0.0
deriving BEq, Repr, Inhabited

namespace PrivateDict

inductive Key where
  | blueValues | otherBlues | familyBlues | familyOtherBlues | stdHW | stdVW | blueScale | blueShift
  | blueFuzz | stemSnapH | stemSnapV | forceBold | languageGroup | expansionFactor
  | initialRandomSeed | subroutines | defaultWidth | nominalWidth
deriving DecidableEq, Repr

open Dict

def Key.code : Key → KeyCode
  | .blueValues => .single 6
  | .otherBlues => .single 7
  | .familyBlues => .single 8
  | .familyOtherBlues => .single 9
  | .stdHW => .single 10
  | .stdVW => .single 11
  | .subroutines => .single 19
  | .defaultWidth => .single 20
  | .nominalWidth => .single 21
  | .blueScale => .escaped 9
  | .blueShift => .escaped 10
  | .blueFuzz => .escaped 11
  | .stemSnapH => .escaped 12
  | .stemSnapV => .escaped 13
  | .forceBold => .escaped 14
  | .languageGroup => .escaped 17
  | .expansionFactor => .escaped 18
  | .initialRandomSeed => .escaped 19

def Key.all : List Key :=
  [blueValues, otherBlues, familyBlues, familyOtherBlues, stdHW, stdVW, blueScale, blueShift,
    blueFuzz, stemSnapH, stemSnapV, forceBold, languageGroup, expansionFactor, initialRandomSeed,
    subroutines, defaultWidth, nominalWidth]

theorem Key.mem_all (key : Key) : key ∈ all := by cases key <;> decide

def Key.ofCode? (code : KeyCode) : Option Key := Key.all.find? fun key => key.code == code

def refuse : KeyCode → Fault
  | .single code => .unknownKey code none
  | .escaped code => .unknownKey 12 (some code)

/-- Sets the field of a key. -/
def assign (dict : PrivateDict) (operands : List Float) : Key → Except Fault PrivateDict
  | .blueValues => return { dict with blueValues? := some (delta operands) }
  | .otherBlues => return { dict with otherBlues? := some (delta operands) }
  | .familyBlues => return { dict with familyBlues? := some (delta operands) }
  | .familyOtherBlues => return { dict with familyOtherBlues? := some (delta operands) }
  | .stdHW => return { dict with stdHW? := some (← number operands) }
  | .stdVW => return { dict with stdVW? := some (← number operands) }
  | .blueScale => return { dict with blueScale := ← number operands }
  | .blueShift => return { dict with blueShift := ← number operands }
  | .blueFuzz => return { dict with blueFuzz := ← number operands }
  | .stemSnapH => return { dict with stemSnapH? := some (delta operands) }
  | .stemSnapV => return { dict with stemSnapV? := some (delta operands) }
  | .forceBold => return { dict with forceBold := ← flag operands }
  | .languageGroup => return { dict with languageGroup := ← number operands }
  | .expansionFactor => return { dict with expansionFactor := ← number operands }
  | .initialRandomSeed => return { dict with initialRandomSeed := ← number operands }
  | .subroutines => return { dict with subroutines? := some (← offset operands) }
  | .defaultWidth => return { dict with defaultWidth := ← number operands }
  | .nominalWidth => return { dict with nominalWidth := ← number operands }

def assignCode (code : KeyCode) (operands : List Float) (dict : PrivateDict) : Except Fault PrivateDict :=
  match Key.ofCode? code with
  | some key => dict.assign operands key
  | none => .error (refuse code)

def ofBytes (bytes : List UInt8) : Except Fault PrivateDict := decode assignCode [] {} bytes

end PrivateDict
end CompactFont
