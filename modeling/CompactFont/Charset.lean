import CompactFont.PredefinedCharsets
import CompactFont.Reader

/-! A charset gives every glyph the id of its name. It is one of three predefined ones or is read from the
font, as a list of ids or as ranges of consecutive ids. Glyph 0 is always id 0 and is not stored. -/

namespace CompactFont

/-- `first` and the `following` ids after it. -/
structure SidRange where
  first : Nat
  following : Nat
deriving DecidableEq, Repr, Inhabited

inductive Charset where
  | isoAdobe
  | expert
  | expertSubset
  | listed (sids : List Nat)
  /-- Ranges that count what follows in one byte. -/
  | narrow (ranges : List SidRange)
  /-- Ranges that count what follows in two bytes. -/
  | wide (ranges : List SidRange)
deriving DecidableEq, Repr, Inhabited

namespace Charset

/-- The charset that a small number stands for; greater ones are offsets. -/
def predefined? : Nat → Option Charset
  | 0 => some .isoAdobe
  | 1 => some .expert
  | 2 => some .expertSubset
  | _ => none

/-- Ranges until `remaining` glyphs have an id; the last range may give more than remain. -/
def readRanges (following : Reader Nat) : Nat → Reader (List SidRange)
  | 0 => pure []
  | remaining + 1 => do
    let first ← Reader.unsigned 2
    let following' ← following
    let rest ← readRanges following (remaining - following')
    return ⟨first, following'⟩ :: rest
termination_by remaining => remaining

/-- What follows the format of a charset that has to cover `remaining` glyphs after the first. -/
def readFormat (remaining : Nat) : UInt8 → Reader Charset
  | 0 => return .listed (← Reader.times (Reader.unsigned 2) remaining)
  | 1 => return .narrow (← readRanges (Reader.unsigned 1) remaining)
  | 2 => return .wide (← readRanges (Reader.unsigned 2) remaining)
  | format => throw (.charsetFormat format)

/-- Reads a charset that covers `glyphs` glyphs. -/
def read (glyphs : Nat) : Reader Charset := do
  let format ← Reader.byte
  readFormat (glyphs - 1) format

/-- The ids that ranges give to `slots` glyphs. Only an id that a glyph receives has to fit in 16 bits. -/
def assign : Nat → List SidRange → Except Fault (List Nat)
  | 0, _ => .ok []
  | _, [] => .ok []
  | slots, range :: ranges =>
    let taken := min slots (range.following + 1)
    if 65536 < range.first + taken then .error (.charset (.beyondLastSid range.first))
    else (assign (slots - taken) ranges).map (List.range' range.first taken ++ ·)

/-- The first ids of a list that has to have that many. -/
def firstOf (glyphs : Nat) (sids : List Nat) (fault : CharsetFault) : Except Fault (List Nat) :=
  if glyphs ≤ sids.length then .ok (sids.take glyphs) else .error (.charset fault)

/-- Glyph 0 and the ids of the other glyphs. -/
def ranged (glyphs : Nat) (ranges : List SidRange) : Except Fault (List Nat) :=
  (assign (glyphs - 1) ranges).map fun sids => (0 :: sids).take glyphs

/-- The string id of each of the first `glyphs` glyphs. -/
def sids (glyphs : Nat) : Charset → Except Fault (List Nat)
  | .isoAdobe => firstOf glyphs (List.range (isoAdobeLastSid + 1)) .beyondIsoAdobe
  | .expert => firstOf glyphs expertCharset .beyondPredefined
  | .expertSubset => firstOf glyphs expertSubsetCharset .beyondPredefined
  | .listed sids => .ok ((0 :: sids).take glyphs)
  | .narrow ranges => ranged glyphs ranges
  | .wide ranges => ranged glyphs ranges

end Charset
end CompactFont
