import CompactFont.Number.Parts

/-! The shortest decimal that reads back as a given binary number, found by exact arithmetic on
naturals. A number `significand * 2 ^ exponent` owns the interval of reals that round to it; the search
walks decimal grids from coarse to fine and stops at the first one with a point in that interval. -/

namespace CompactFont.Number

/-- The decimal `digits * 10 ^ scale`. -/
structure Decimal where
  digits : Nat
  scale : Int
deriving DecidableEq, Repr

/-- A positive binary number measured against one decimal grid: the value is `value / unit` grid steps,
and `spacing / unit` grid steps is the distance to the next number above. -/
structure Measure where
  value : Nat
  spacing : Nat
  unit : Nat
deriving DecidableEq, Repr

/-- The factor `base ^ exponent` as a numerator and a denominator. -/
def power (base : Nat) : Int → Nat × Nat
  | .ofNat up => (base.pow up, 1)
  | .negSucc down => (1, base.pow (down + 1))

def measure (significand : Nat) (exponent scale : Int) : Measure :=
  let (two, half) := power 2 exponent
  let (tenth, ten) := power 10 (-scale)
  { value := significand * (two * tenth), spacing := two * tenth, unit := half * ten }

/-- Numbers at a power of two lie half as far from the one below as from the one above. -/
def tightBelow (significand : Nat) (exponent : Int) : Bool :=
  significand == leadingBit && decide (-1074 < exponent)

/-- The ends of the interval belong to a number with an even significand only. -/
def within (inclusive : Bool) (distance reach : Nat) : Bool :=
  if inclusive then decide (distance ≤ reach) else decide (distance < reach)

/-- The grid point nearest to the number among those in its interval; an exact tie goes up. -/
def gridPoint? (significand : Nat) (exponent scale : Int) : Option Nat :=
  let measured := measure significand exponent scale
  let inclusive := significand % 2 == 0
  let floor := measured.value / measured.unit
  let above := measured.value % measured.unit
  let below := measured.unit - above
  let reachDown := if tightBelow significand exponent then measured.spacing else 2 * measured.spacing
  let down := within inclusive (4 * above) reachDown
  let up := within inclusive (4 * below) (2 * measured.spacing)
  match down, up with
  | true, true => some (if above < below then floor else floor + 1)
  | true, false => some floor
  | false, true => some (floor + 1)
  | false, false => none

/-- The first grid with a point in the interval, looking at `steps` further grids. -/
def coarsest (significand : Nat) (exponent : Int) : Nat → Int → Decimal
  | 0, scale => ⟨(gridPoint? significand exponent scale).getD 0, scale⟩
  | steps + 1, scale =>
    match gridPoint? significand exponent scale with
    | some digits => ⟨digits, scale⟩
    | none => coarsest significand exponent steps (scale - 1)

/-- A power of ten above the number: three binary digits are less than one decimal digit. -/
def startScale (significand : Nat) (exponent : Int) : Int :=
  let bits := (significand.log2 : Int) + 1 + exponent
  if 0 ≤ bits then bits / 3 + 1 else bits / 4 + 1

/-- The search ends long before the number of steps given to it: seventeen digits always suffice. -/
def shortest (significand : Nat) (exponent : Int) : Decimal :=
  coarsest significand exponent 1200 (startScale significand exponent)

end CompactFont.Number
