import CompactFont.Batch
import CompactFont.CommandLine.Arguments
import CompactFont.FileName
import CompactFont.Svg

/-! Drawing fonts to files: a directory for every font, an SVG document for every glyph. -/

namespace CompactFont.CommandLine

variable {m : Type → Type} [Monad m]

inductive ExportFailure where
  | occupied (directory : String)
  | removing (directory : String) (error : OsError)
  | creating (directory : String) (error : OsError)
  | writing (path : String) (error : OsError)
deriving DecidableEq, Repr

def ExportFailure.text : ExportFailure → String
  | .occupied directory => "output directory " ++ directory ++ " exists, use --force to replace it"
  | .removing directory error => "removing " ++ directory ++ ": " ++ error.text
  | .creating directory error => "creating " ++ directory ++ ": " ++ error.text
  | .writing path error => "writing " ++ path ++ ": " ++ error.text

/-- The directory of a font. -/
def fontDirectory (output fullName : String) : String := joinPath output (FileName.ofFont fullName ++ ".d")

/-- The file of a glyph. -/
def glyphPath (directory name : String) : String := joinPath directory (FileName.ofGlyph name ++ ".svg")

/-- Removes what an earlier run has written, if that is allowed. -/
def clear (storage : Storage m) (force : Bool) (directory : String) : m (Except ExportFailure Unit) := do
  if ← storage.occupied directory then
    if force then return (← storage.removeTree directory).mapError (.removing directory)
    else return .error (.occupied directory)
  else return .ok ()

/-- Writes one document after another, up to the first that cannot be written. -/
def writeAll (storage : Storage m) : List (String × String) → m (Except ExportFailure Unit)
  | [] => return .ok ()
  | (path, document) :: rest => do
    match ← storage.write path document with
    | .ok () => writeAll storage rest
    | .error error => return .error (.writing path error)

/-- The documents of a font with their paths. -/
def documents (directory : String) (font : Font) : List (String × String) :=
  font.glyphs.map fun glyph => (glyphPath directory glyph.name, Svg.render font.box glyph.path)

def exportFont (storage : Storage m) (arguments : Arguments) (font : Font) : m (Except ExportFailure Unit) := do
  let directory := fontDirectory arguments.output font.fullName
  match ← clear storage arguments.force directory with
  | .error failure => return .error failure
  | .ok () =>
    match ← storage.createTree directory with
    | .error error => return .error (.creating directory error)
    | .ok () => writeAll storage (documents directory font)

/-- Draws fonts in order and tells what went wrong with each. -/
def exportAll (storage : Storage m) (arguments : Arguments) : List Font → m (List String)
  | [] => return []
  | font :: fonts => do
    let result ← exportFont storage arguments font
    let complaints ← exportAll storage arguments fonts
    match result with
    | .ok () => return complaints
    | .error failure => return (font.fullName ++ ": " ++ failure.text) :: complaints

/-- The end of a run: its exit code, the lines that it answers with and those that it complains with. -/
structure Report where
  exitCode : UInt8
  answers : List String := []
  complaints : List String := []
deriving DecidableEq, Repr, Inhabited

/-- Draws the fonts in the given files. -/
def draw (storage : Storage m) (arguments : Arguments) : m Report := do
  let (batch, _) ← Batch.decode storage arguments.options {} arguments.files
  let unread := batch.failures.map fun (path, failure) => path ++ ": " ++ failure.text
  let undrawn ← exportAll storage arguments batch.fonts.values
  let complaints := unread ++ undrawn
  return { exitCode := if complaints = [] then 0 else 1, complaints }

/-- What is told of a command that draws nothing. -/
def Interruption.report (interruption : Interruption) : Report :=
  if interruption.isQuestion then { exitCode := 0, answers := interruption.lines }
  else { exitCode := 2, complaints := interruption.lines }

/-- Runs the command. -/
def run (storage : Storage m) (words : List String) : m Report :=
  match Arguments.parse words with
  | .ok arguments => draw storage arguments
  | .error interruption => return interruption.report

end CompactFont.CommandLine
