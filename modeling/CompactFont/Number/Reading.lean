import CompactFont.Number.Shortest

/-! Reading a decimal: a sign, digits with an optional point and at least one digit on either side of it,
and an optional exponent. The result is the nearest number; too large is infinite, too small is zero. -/

namespace CompactFont.Number

def digitsValue (digits : List Char) : Nat :=
  digits.foldl (fun value digit => 10 * value + (digit.toNat - '0'.toNat)) 0

/-- Far outside the range of numbers the answer is known without the power of ten. -/
def Decimal.nearest (decimal : Decimal) : Float :=
  if decimal.digits = 0 then 0.0
  else if 400 < decimal.scale then 1.0 / 0.0
  else if decimal.scale + decimal.digits.log2 < -400 then 0.0
  else Float.ofScientific decimal.digits (decide (decimal.scale < 0)) decimal.scale.natAbs

/-- A leading minus sign, and what follows a leading sign. -/
def readSign : List Char → Bool × List Char
  | '-' :: rest => (true, rest)
  | '+' :: rest => (false, rest)
  | rest => (false, rest)

/-- The exponent after the mark `e`; the text has to end with its digits. -/
def readExponent? (chars : List Char) : Option Int :=
  let (negative, digits) := readSign chars
  if digits ≠ [] ∧ digits.all Char.isDigit then
    some (if negative then -(digitsValue digits : Int) else digitsValue digits)
  else none

/-- Whole digits and fraction digits, and what follows them. -/
def readMantissa (chars : List Char) : List Char × List Char × List Char :=
  let whole := chars.takeWhile Char.isDigit
  match chars.dropWhile Char.isDigit with
  | '.' :: rest => (whole, rest.takeWhile Char.isDigit, rest.dropWhile Char.isDigit)
  | rest => (whole, [], rest)

/-- The decimal that a text without a sign spells. -/
def readDecimal? (chars : List Char) : Option Decimal :=
  let (whole, fraction, rest) := readMantissa chars
  if whole = [] ∧ fraction = [] then none
  else
    let mantissa : Decimal := ⟨digitsValue (whole ++ fraction), -(fraction.length : Int)⟩
    match rest with
    | [] => some mantissa
    | mark :: rest =>
      if mark = 'e' ∨ mark = 'E' then
        (readExponent? rest).map fun exponent => { mantissa with scale := mantissa.scale + exponent }
      else none

/-- The number that a text spells. -/
def ofText? (chars : List Char) : Option Float :=
  let (negative, rest) := readSign chars
  (readDecimal? rest).map fun decimal => if negative then -decimal.nearest else decimal.nearest

end CompactFont.Number
