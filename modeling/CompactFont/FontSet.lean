import CompactFont.Event

/-! A FontSet file is a text around the data of a font: the data begin one byte after the first marker. -/

namespace CompactFont.FontSet

/-- The word `StartData`. -/
def marker : List UInt8 := [0x53, 0x74, 0x61, 0x72, 0x74, 0x44, 0x61, 0x74, 0x61]

/-- What follows the first marker. -/
def afterMarker? : List UInt8 → Option (List UInt8)
  | [] => none
  | b :: rest =>
    if marker.isPrefixOf (b :: rest) then some ((b :: rest).drop marker.length) else afterMarker? rest

/-- The data, without the byte that separates them from the marker. -/
def data (file : List UInt8) : Logged Failure (List UInt8) :=
  match afterMarker? file with
  | some rest => do
    Logged.note (.dataBegins (file.length - rest.length + 1))
    return rest.drop 1
  | none => .quiet (.error { fault := .markerNotFound })

end CompactFont.FontSet
