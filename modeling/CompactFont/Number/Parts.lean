/-! The exact contents of a number, read from its bits, and what follows from them without rounding:
truncation, whole values, and the lesser and greater of two numbers. -/

namespace CompactFont.Number

/-- A finite number is `significand * 2 ^ exponent`, with a sign that zero has too. -/
inductive Parts where
  | nan
  | infinite (negative : Bool)
  | finite (negative : Bool) (significand : Nat) (exponent : Int)
deriving DecidableEq, Repr

/-- The bit in front of the fraction, which is not stored. -/
def leadingBit : Nat := 1 <<< 52

/-- Sign, exponent and fraction of the interchange format: one, eleven and 52 bits. -/
def Parts.ofBits (bits : Nat) : Parts :=
  let negative := bits.testBit 63
  let biased := (bits >>> 52) % 2048
  let fraction := bits % leadingBit
  if biased = 2047 then
    if fraction = 0 then .infinite negative else .nan
  else if biased = 0 then .finite negative fraction (-1074)
  else .finite negative (leadingBit + fraction) ((biased : Int) - 1075)

def parts (x : Float) : Parts := Parts.ofBits x.toBits.toNat

/-- The integer part of `significand * 2 ^ exponent`. -/
def integerPart (significand : Nat) : Int → Nat
  | .ofNat up => significand <<< up
  | .negSucc down => significand >>> (down + 1)

def signed (negative : Bool) (magnitude : Nat) : Int :=
  if negative then -(magnitude : Int) else magnitude

/-- The integer that is left when the fraction of a finite number is dropped. -/
def truncate? (x : Float) : Option Int :=
  match parts x with
  | .finite negative significand exponent => some (signed negative (integerPart significand exponent))
  | _ => none

/-- The exponent of what is not finite is stored as ones only. -/
theorem exists_truncate?_iff {x : Float} :
    (∃ n, truncate? x = some n) ↔ (x.toBits.toNat >>> 52) % 2048 ≠ 2047 := by
  rw [truncate?, parts, Parts.ofBits]
  by_cases ones : (x.toBits.toNat >>> 52) % 2048 = 2047
  · by_cases infinite : x.toBits.toNat % leadingBit = 0 <;> simp [ones, infinite]
  · by_cases subnormal : (x.toBits.toNat >>> 52) % 2048 = 0 <;> simp [ones, subnormal]

section Finite

open Float.Model

theorem isFinite_iff {x : Float} : x.isFinite = true ↔ ∃ n, truncate? x = some n := by
  let exponent : BitVec 11 := @UnpackedFloat.unpackExponent Format.binary64 x.toBits.toBitVec
  let fraction : BitVec 52 := @UnpackedFloat.unpackMantissa Format.binary64 x.toBits.toBitVec
  have stored : exponent = -1#11 ↔ (x.toBits.toNat >>> 52) % 2048 = 2047 := BitVec.toNat_inj.symm
  rw [exists_truncate?_iff, Ne, ← stored]
  change (UnpackedFloat.unpack Format.binary64 x.toBits.toBitVec).isFinite = true ↔ _
  by_cases ones : exponent = -1#11
  · have special : (UnpackedFloat.unpack Format.binary64 x.toBits.toBitVec).isFinite = false := by
      by_cases infinite : fraction = 0#52
      · exact congrArg UnpackedFloat.isFinite ((if_pos ones).trans (if_pos infinite))
      · exact congrArg UnpackedFloat.isFinite ((if_pos ones).trans (if_neg infinite))
    exact iff_of_false (Bool.eq_false_iff.1 special) (not_not_intro ones)
  · have ordinary : (UnpackedFloat.unpack Format.binary64 x.toBits.toBitVec).isFinite = true := by
      by_cases small : exponent = 0#11
      · by_cases zero : fraction = 0#52
        · exact congrArg UnpackedFloat.isFinite ((if_neg ones).trans ((if_pos small).trans (dif_pos zero)))
        · exact congrArg UnpackedFloat.isFinite ((if_neg ones).trans ((if_pos small).trans (dif_neg zero)))
      · exact congrArg UnpackedFloat.isFinite ((if_neg ones).trans (if_neg small))
    exact iff_of_true ordinary ones

end Finite

/-- Whether `significand * 2 ^ exponent` has no fraction. -/
def isIntegral (significand : Nat) : Int → Bool
  | .ofNat _ => true
  | .negSucc down => significand % (1 <<< (down + 1)) == 0

/-- The integer equal to a number, if there is one. -/
def whole? (x : Float) : Option Int :=
  match parts x with
  | .finite negative significand exponent =>
    if isIntegral significand exponent then some (signed negative (integerPart significand exponent)) else none
  | _ => none

/-- The natural number equal to a number and at most `bound`, if there is one. -/
def natural? (bound : Nat) (x : Float) : Option Nat :=
  match whole? x with
  | some (.ofNat n) => if n ≤ bound then some n else none
  | _ => none

/-- The nearest signed 64-bit integer on the side of zero; zero for what is not a number. -/
def word64 (x : Float) : Int :=
  match parts x with
  | .nan => 0
  | .infinite true => Int64.minValue.toInt
  | .infinite false => Int64.maxValue.toInt
  | .finite negative significand exponent =>
    max Int64.minValue.toInt
      (min Int64.maxValue.toInt (signed negative (integerPart significand exponent)))

/-- The lesser of two numbers, passing over what is not a number; the second of two equal ones, which
decides between the two zeros. -/
def lesser (x y : Float) : Float :=
  if x < y then x else if y.isNaN then x else y

/-- The greater of two numbers, passing over what is not a number; the second of two equal ones. -/
def greater (x y : Float) : Float :=
  if y < x then x else if y.isNaN then x else y

end CompactFont.Number
