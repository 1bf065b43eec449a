import CompactFont.Fault

/-! Reading from the front of a byte string. A reader keeps the bytes it has not consumed, also when it
fails: a field of several bytes consumes what there is of it, a slice that is too long consumes nothing. -/

namespace CompactFont

abbrev Reader := EStateM Fault (List UInt8)

namespace Reader

/-- A reader that answers with what it found and what is left, or with its fault. -/
def parse {α : Type} (reader : Reader α) (bytes : List UInt8) : Except Fault (α × List UInt8) :=
  match reader bytes with
  | .ok value rest => .ok (value, rest)
  | .error fault _ => .error fault

def byte : Reader UInt8
  | [] => .error .endOfData []
  | b :: rest => .ok b rest

/-- The next byte, left in place. -/
def peek : Reader (Option UInt8)
  | [] => .ok none []
  | b :: rest => .ok (some b) (b :: rest)

/-- Big-endian digits to the base 256, after those that gave `value`. -/
def digits (value : Nat) : Nat → Reader Nat
  | 0 => pure value
  | width + 1 => do
    let b ← byte
    digits (256 * value + b.toNat) width

/-- A natural number of `width` bytes. -/
def unsigned (width : Nat) : Reader Nat := digits 0 width

/-- A two's complement number of `width` bytes. -/
def signed (width : Nat) : Reader Int := do
  let value ← unsigned width
  return (value : Int).bmod (Nat.pow 256 width)

/-- A number whose width is given by the data: one to four bytes. -/
def offset (size : UInt8) : Reader Nat :=
  if 1 ≤ size ∧ size ≤ 4 then unsigned size.toNat else throw (.offsetSize size)

def slice (length : Nat) : Reader (List UInt8) := fun bytes =>
  let taken := bytes.take length
  if taken.length = length then .ok taken (bytes.drop length) else .error .endOfData bytes

/-- An integer of one or two bytes that begins with `lead`, a byte from 32 to 254: from -107 to 107 by
the lead alone, and up to 1131 on both sides of zero with one byte more. -/
def shortInteger (lead : UInt8) : Reader Int :=
  if lead < 247 then return (lead.toNat : Int) - 139
  else if lead < 251 then do
    let low ← byte
    return ((lead.toNat : Int) - 247) * 256 + low.toNat + 108
  else do
    let low ← byte
    return -((lead.toNat : Int) - 251) * 256 - low.toNat - 108

/-- The same item `count` times over. -/
def times {α : Type} (item : Reader α) : Nat → Reader (List α)
  | 0 => pure []
  | count + 1 => do
    let first ← item
    let rest ← times item count
    return first :: rest

end Reader

/-- A byte string and a position in it, which may lie beyond its end. -/
structure Source where
  bytes : List UInt8
  position : Nat := 0
deriving Repr, Inhabited

namespace Source

def remaining (source : Source) : List UInt8 := source.bytes.drop source.position

def seek (source : Source) (position : Nat) : Source := { source with position }

/-- Runs a reader at the position and moves past what it consumed. -/
def read {α : Type} (reader : Reader α) (source : Source) : Except Fault α × Source :=
  let moved rest := source.seek (source.position + (source.remaining.length - rest.length))
  match reader source.remaining with
  | .ok value rest => (.ok value, moved rest)
  | .error fault rest => (.error fault, moved rest)

/-- The bytes of a region, which has to lie within the string; even an empty one may not begin beyond
the end. -/
def region (bytes : List UInt8) (start length : Nat) : Except Fault (List UInt8) :=
  if start + length ≤ bytes.length then .ok ((bytes.drop start).take length) else .error .endOfData

/-- The region of the given length at the position. -/
def slice (length : Nat) (source : Source) : Except Fault (List UInt8) × Source :=
  match region source.bytes source.position length with
  | .ok bytes => (.ok bytes, source.seek (source.position + length))
  | .error fault => (.error fault, source)

end Source
end CompactFont
