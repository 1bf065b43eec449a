import CompactFont.Number.Shortest

/-! The text of a number: the shortest digits that read back, always positional, with no fraction on
whole numbers and a sign on negative zero. -/

namespace CompactFont.Number

/-- Digits with the point `-scale` places from the right. -/
def positional (decimal : Decimal) : List Char :=
  let digits := Nat.toDigits 10 decimal.digits
  match decimal.scale with
  | .ofNat zeros => digits ++ List.replicate zeros '0'
  | .negSucc places =>
    let padded := List.replicate (places + 2 - digits.length) '0' ++ digits
    let whole := padded.length - (places + 1)
    padded.take whole ++ '.' :: padded.drop whole

/-- The text of a magnitude. -/
def magnitudeText (significand : Nat) (exponent : Int) : List Char :=
  if significand = 0 then ['0'] else positional (shortest significand exponent)

def characters (x : Float) : List Char :=
  match parts x with
  | .nan => ['N', 'a', 'N']
  | .infinite true => ['-', 'i', 'n', 'f']
  | .infinite false => ['i', 'n', 'f']
  | .finite true significand exponent => '-' :: magnitudeText significand exponent
  | .finite false significand exponent => magnitudeText significand exponent

def text (x : Float) : String := String.ofList (characters x)

end CompactFont.Number
