import CompactFont.Charset
import CompactFont.Dict.Private
import CompactFont.Dict.Top
import CompactFont.Event
import CompactFont.Index

/-! The structures of a font as they lie in its data. Four INDEXes follow the header; what the Top DICT
points to lies anywhere, also in other structures. -/

namespace CompactFont

structure Header where
  major : UInt8
  minor : UInt8
  size : UInt8
  offsetSize : UInt8
deriving DecidableEq, Repr, Inhabited

/-- Only version 1 with a header of four bytes is read. -/
def Header.read : Reader Header := do
  let major ← Reader.byte
  let minor ← Reader.byte
  let size ← Reader.byte
  let offsetSize ← Reader.byte
  if major ≠ 1 then throw (.version major)
  else if size ≠ 4 then throw (.headerSize size)
  else return { major, minor, size, offsetSize }

structure FontFile where
  header : Header
  names : Index
  topDict : TopDict
  strings : Index
  globals : Index
  charstrings : Index
  charset : Charset
  privateDict? : Option PrivateDict
  locals? : Option Index
deriving Repr, Inhabited

namespace FontFile

/-- Names the stage at which a fault was met. -/
def during {α : Type} (stage : Stage) : Except Fault α → Except Failure α
  | .ok value => .ok value
  | .error fault => .error { stage? := some stage, fault }

/-- A fault that tells where it was met. -/
def bare {α : Type} : Except Fault α → Except Failure α
  | .ok value => .ok value
  | .error fault => .error { fault }

/-- The structure at an offset. -/
def readAt {α : Type} (stage : Stage) (reader : Reader α) (bytes : List UInt8) (offset : Nat) :
    Except Failure α :=
  (during stage (reader.parse (bytes.drop offset))).map (·.1)

/-- The data of the first Top DICT. -/
def firstTopDict (topDicts : Index) : Except Failure (List UInt8) :=
  match topDicts.get? 0 with
  | some data => .ok data
  | none => .error { fault := .index .noTopDict }

/-- The glyph programs, which every font has to have. -/
def readCharstrings (bytes : List UInt8) (topDict : TopDict) : Except Failure Index :=
  match topDict.charstrings? with
  | some offset => readAt .charstrings Index.read bytes offset
  | none => .error { fault := .noCharstrings }

/-- The charset of `glyphs` glyphs that the Top DICT names or points to. -/
def readCharset (bytes : List UInt8) (topDict : TopDict) (glyphs : Nat) : Except Failure Charset :=
  match Charset.predefined? topDict.charset with
  | some charset => .ok charset
  | none => readAt .charset (Charset.read glyphs) bytes topDict.charset

/-- The local subroutines, if the Private DICT that begins at `start` has any. -/
def readLocals (bytes : List UInt8) (start : Nat) (dict : PrivateDict) : Except Failure (Option Index) :=
  match dict.subroutines? with
  | some distance => (readAt .localSubroutines Index.read bytes (start + distance)).map some
  | none => .ok none

/-- The Private DICT and the local subroutines, if the Top DICT points to them. -/
def readPrivate (bytes : List UInt8) (topDict : TopDict) :
    Except Failure (Option PrivateDict × Option Index) :=
  match topDict.privateDict? with
  | some (length, start) => do
    let data ← bare (Source.region bytes start length)
    let dict ← during .privateDict (PrivateDict.ofBytes data)
    let locals? ← readLocals bytes start dict
    return (some dict, locals?)
  | none => .ok (none, none)

def read (bytes : List UInt8) : Logged Failure FontFile := do
  let (header, rest) ← .quiet (bare (Header.read.parse bytes))
  let (names, rest) ← .quiet (during .nameIndex (Index.read.parse rest))
  let (topDicts, rest) ← .quiet (during .topDictIndex (Index.read.parse rest))
  Logged.noteIf (1 < topDicts.count) (.severalFonts topDicts.count)
  let topDictData ← .quiet (firstTopDict topDicts)
  let topDict ← .quiet (during .topDict (TopDict.ofBytes topDictData))
  let (strings, rest) ← .quiet (during .stringIndex (Index.read.parse rest))
  let (globals, _) ← .quiet (during .globalSubroutines (Index.read.parse rest))
  let charstrings ← .quiet (readCharstrings bytes topDict)
  Logged.note (.contents charstrings.count strings.count globals.count)
  let charset ← .quiet (readCharset bytes topDict charstrings.count)
  let (privateDict?, locals?) ← .quiet (readPrivate bytes topDict)
  return { header, names, topDict, strings, globals, charstrings, charset, privateDict?, locals? }

end FontFile
end CompactFont
