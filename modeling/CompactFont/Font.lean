import CompactFont.Charstring.Outline
import CompactFont.FontFile
import CompactFont.FontSet
import CompactFont.SidTable
import Std.Data.HashMap
import Std.Data.HashSet

/-! A decoded font: its names and dictionaries, and the glyphs that were not left out. A glyph is found by its
name, and by the number of its program through the name that the charset gives it. -/

namespace CompactFont

open Charstring (Context Outline)

structure Glyph where
  sid : Nat
  name : String
  width : Float
  path : List Segment
deriving Repr, Inhabited

def Glyph.bounds (glyph : Glyph) : Bounds := pathBounds glyph.path

structure Font where
  name : String
  fullName : String
  topDict : TopDict
  privateDict? : Option PrivateDict
  strings : SidTable
  globals : Subroutines
  locals? : Option Subroutines
  /-- The string id of the name of every glyph program. -/
  sids : Array Nat
  /-- The glyphs that were decoded, in the order of their programs. -/
  drawn : Array Glyph
  /-- Where each name is among those glyphs. -/
  places : Std.HashMap String Nat
deriving Repr, Inhabited

namespace Font

def box (font : Font) : Bounds := font.topDict.fontBox

def charset (font : Font) : List Nat := font.sids.toList

def glyphs (font : Font) : List Glyph := font.drawn.toList

def glyph? (font : Font) (name : String) : Option Glyph := do
  let place ← font.places[name]?
  font.drawn[place]?

/-- The glyph of a program, if it was decoded. -/
def glyphAt? (font : Font) (index : Nat) : Option Glyph := do
  let sid ← font.sids[index]?
  let name ← font.strings.get? sid
  font.glyph? name

/-- Where each name is among the names. -/
def placesOf (names : List String) : Std.HashMap String Nat := .ofList names.zipIdx

/-- The names of glyphs, which have to differ from one another and from those `seen` before. -/
def resolveNames (strings : SidTable) (seen : Std.HashSet String) :
    List Nat → Except Fault (List String)
  | [] => .ok []
  | sid :: sids => do
    let name ← strings.get sid
    if seen.contains name then throw (.duplicateName name)
    else do
      let names ← resolveNames strings (seen.insert name) sids
      return name :: names

def glyphNames (strings : SidTable) (sids : List Nat) : Except Fault (List String) :=
  resolveNames strings ∅ sids

/-- A glyph program with what is known of it before it is run. -/
structure Draft where
  index : Nat
  sid : Nat
  name : String
  program : List UInt8
deriving Repr, Inhabited

def Draft.glyph (draft : Draft) (outline : Outline) : Glyph where
  sid := draft.sid
  name := draft.name
  width := outline.width
  path := outline.path

/-- Runs a glyph program. A glyph that asks for an unsupported feature may be left out. -/
def Draft.draw (context : Context) (nominal : Float) (skip : Bool) (draft : Draft) :
    Logged Failure (Option Glyph) :=
  let run := Outline.ofProgram context nominal draft.program
  match run.result with
  | .ok outline =>
    let told : Event := .interpreted draft.index draft.name outline.width outline.path.length
    ⟨.ok (some (draft.glyph outline)), run.events ++ [told]⟩
  | .error fault =>
    if skip && fault.isUnsupported then
      ⟨.ok none, run.events ++ [.skipped draft.index draft.name fault]⟩
    else ⟨.error { stage? := some (.glyph draft.index draft.name), fault }, run.events⟩

def drawAll (context : Context) (nominal : Float) (skip : Bool) :
    List Draft → Logged Failure (List (Option Glyph))
  | [] => pure []
  | draft :: drafts => do
    let slot ← draft.draw context nominal skip
    let slots ← drawAll context nominal skip drafts
    return slot :: slots

/-- Programs with their ids and names, numbered from `index` on. -/
def drafts (index : Nat) : List Nat → List String → List (List UInt8) → List Draft
  | sid :: sids, name :: names, program :: programs =>
    { index, sid, name, program } :: drafts (index + 1) sids names programs
  | _, _, _ => []

/-- The first name in the Name INDEX. -/
def resolveName (file : FontFile) : Except Failure String :=
  match file.names.get? 0 with
  | some name => .ok (Text.latin name)
  | none => .error { fault := .index .noFontName }

/-- The full name, or else the name in the Name INDEX. -/
def resolveFullName (file : FontFile) (strings : SidTable) (name : String) : Except Failure String :=
  match file.topDict.fullName? with
  | some sid => FontFile.during .fullName (strings.get sid)
  | none => .ok name

/-- What the glyph programs of a font are run with. -/
def context (options : Options) (file : FontFile) : Context where
  globals := Subroutines.ofIndex file.globals
  locals? := file.locals?.map Subroutines.ofIndex
  leftover := options.leftover
  maxDepth := options.maxDepth

/-- The width that the programs tell their own widths against. -/
def nominal (file : FontFile) : Float := (file.privateDict?.map (·.nominalWidth)).getD 0.0

/-- The font of a file, with the glyphs that were decoded. -/
def ofGlyphs (file : FontFile) (context : Context) (name fullName : String) (charset : List Nat)
    (glyphs : List Glyph) : Font where
  name := name
  fullName := fullName
  topDict := file.topDict
  privateDict? := file.privateDict?
  strings := SidTable.ofIndex file.strings
  globals := context.globals
  locals? := context.locals?
  sids := charset.toArray
  drawn := glyphs.toArray
  places := placesOf (glyphs.map Glyph.name)

def ofFile (options : Options) (file : FontFile) : Logged Failure Font := do
  let strings := SidTable.ofIndex file.strings
  let name ← .quiet (resolveName file)
  let fullName ← .quiet (resolveFullName file strings name)
  let charset ← .quiet (FontFile.bare (file.charset.sids file.charstrings.count))
  let names ← .quiet (FontFile.bare (glyphNames strings charset))
  let context := context options file
  Logged.note (.decoding fullName names.length ((context.locals?.map Subroutines.size).getD 0))
  let slots ← drawAll context (nominal file) options.skipUnsupported (drafts 0 charset names file.charstrings.items)
  return ofGlyphs file context name fullName charset (slots.filterMap id)

/-- Decodes the font in a FontSet file. -/
def decode (options : Options) (bytes : List UInt8) : Logged Failure Font := do
  let data ← FontSet.data bytes
  let file ← FontFile.read data
  ofFile options file

end Font
end CompactFont
