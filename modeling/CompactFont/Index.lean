import CompactFont.Reader

/-! An INDEX: a sequence of byte strings, kept as their data and a table of offsets into it. The offsets count
from the byte before the data, so the first is 1; there is one more of them than there are items. -/

namespace CompactFont

structure Index where
  /-- The width of an offset in bytes; an empty INDEX has none. -/
  offsetSize : UInt8 := 0
  /-- Where every item begins and where the last one ends; an empty INDEX has no table. -/
  offsets : List Nat := []
  data : List UInt8 := []
deriving DecidableEq, Repr, Inhabited

namespace Index

def count (index : Index) : Nat := index.offsets.length - 1

/-- The bytes from one position up to another, if both lie in the string. -/
def between? (start stop : Nat) (bytes : List UInt8) : Option (List UInt8) :=
  if start ≤ stop ∧ stop ≤ bytes.length then some ((bytes.drop start).take (stop - start)) else none

/-- The item at a place, from its own offset up to the next one. -/
def get? (index : Index) (place : Nat) : Option (List UInt8) :=
  match index.offsets[place]?, index.offsets[place + 1]? with
  | some start, some stop => between? (start - 1) (stop - 1) index.data
  | _, _ => none

/-- The data cut at its offsets, of which the first is that of the first byte. -/
def cut : List Nat → List UInt8 → List (List UInt8)
  | first :: second :: rest, data =>
    data.take (second - first) :: cut (second :: rest) (data.drop (second - first))
  | _, _ => []

/-- All items in order, without going back to the table for each. -/
def items (index : Index) : List (List UInt8) := cut index.offsets index.data

/-- No offset is less than the one before it. -/
def ascending : List Nat → Bool
  | first :: second :: rest => decide (first ≤ second) && ascending (second :: rest)
  | _ => true

/-- The data behind a table of offsets, which has to begin with 1 and to go on without going back. -/
def readData (offsetSize : UInt8) (offsets : List Nat) : Reader Index :=
  if offsets.head? ≠ some 1 then throw (.index .firstOffset)
  else if !ascending offsets then throw (.index .descending)
  else do
    let data ← Reader.slice (offsets.getLastD 1 - 1)
    return { offsetSize, offsets, data }

/-- What follows the count of an INDEX that has items. -/
def readTable (count : Nat) : Reader Index := do
  let offsetSize ← Reader.byte
  let offsets ← Reader.times (Reader.offset offsetSize) (count + 1)
  readData offsetSize offsets

def read : Reader Index := do
  let count ← Reader.unsigned 2
  if count = 0 then return {} else readTable count

end Index
end CompactFont
