import CompactFont.Batch
import CompactFont.Charset
import CompactFont.Charstring.Callers
import CompactFont.Charstring.Compute
import CompactFont.Charstring.Draw
import CompactFont.Charstring.Machine
import CompactFont.Charstring.Operator
import CompactFont.Charstring.Outline
import CompactFont.Charstring.Registers
import CompactFont.Charstring.Semantics
import CompactFont.Charstring.Token
import CompactFont.Charstring.Transient
import CompactFont.Charstring.Work
import CompactFont.CommandLine.Arguments
import CompactFont.CommandLine.Run
import CompactFont.Dict.Entry
import CompactFont.Dict.Operands
import CompactFont.Dict.Private
import CompactFont.Dict.Real
import CompactFont.Dict.Top
import CompactFont.Event
import CompactFont.Fault
import CompactFont.FileName
import CompactFont.Font
import CompactFont.FontFile
import CompactFont.FontSet
import CompactFont.Geometry.Bounds
import CompactFont.Geometry.Pen
import CompactFont.Geometry.Point
import CompactFont.Geometry.Segment
import CompactFont.Index
import CompactFont.Main
import CompactFont.Number.Parts
import CompactFont.Number.Reading
import CompactFont.Number.Shortest
import CompactFont.Number.Text
import CompactFont.Options
import CompactFont.PredefinedCharsets
import CompactFont.Proofs.Batch
import CompactFont.Proofs.Charset
import CompactFont.Proofs.Charset.Expansion
import CompactFont.Proofs.Charset.Formats
import CompactFont.Proofs.Charstring.Alternating
import CompactFont.Proofs.Charstring.Clearing
import CompactFont.Proofs.Charstring.Compound
import CompactFont.Proofs.Charstring.Computation
import CompactFont.Proofs.Charstring.Drawing
import CompactFont.Proofs.Charstring.Effects
import CompactFont.Proofs.Charstring.Execution
import CompactFont.Proofs.Charstring.Halting
import CompactFont.Proofs.Charstring.Inlining
import CompactFont.Proofs.Charstring.Lexemes
import CompactFont.Proofs.Charstring.Masks
import CompactFont.Proofs.Charstring.Refusals
import CompactFont.Proofs.Charstring.Rolling
import CompactFont.Proofs.Charstring.Strokes
import CompactFont.Proofs.Charstring.Subpaths
import CompactFont.Proofs.Charstring.Unread
import CompactFont.Proofs.Charstring.Width
import CompactFont.Proofs.Charstring.Workspace
import CompactFont.Proofs.CommandLine.Confinement
import CompactFont.Proofs.CommandLine.Drawings
import CompactFont.Proofs.CommandLine.Preservation
import CompactFont.Proofs.Dict.Fields
import CompactFont.Proofs.Dict.Grammar
import CompactFont.Proofs.Dict.Nibbles
import CompactFont.Proofs.Dict.Real
import CompactFont.Proofs.Dict.Values
import CompactFont.Proofs.Font.Assembly
import CompactFont.Proofs.Font.Leniency
import CompactFont.Proofs.Font.Lookup
import CompactFont.Proofs.Font.Names
import CompactFont.Proofs.Font.Programs
import CompactFont.Proofs.Font.Refusals
import CompactFont.Proofs.FontFile.Layout
import CompactFont.Proofs.FontSet
import CompactFont.Proofs.Geometry.Bounds
import CompactFont.Proofs.Index
import CompactFont.Proofs.Number.Exact
import CompactFont.Proofs.Number.Order
import CompactFont.Proofs.Number.Text
import CompactFont.Proofs.Number.Whole
import CompactFont.Proofs.Source
import CompactFont.Proofs.Storage.Effects
import CompactFont.Proofs.Storage.Laws
import CompactFont.Proofs.Storage.Places
import CompactFont.Proofs.Subroutines
import CompactFont.Proofs.Svg
import CompactFont.Reader
import CompactFont.Reader.Advance
import CompactFont.Reader.Footprint
import CompactFont.Reader.Written
import CompactFont.SidTable
import CompactFont.StandardStrings
import CompactFont.Storage
import CompactFont.Storage.FileTree
import CompactFont.Subroutines
import CompactFont.Svg
import CompactFont.Text.Latin
import CompactFont.Text.Quoted
