import CompactFont.Options

/-! The arguments of the command: files to draw and options, in any order. -/

namespace CompactFont.CommandLine

structure Arguments where
  output : String := "."
  force : Bool := false
  strict : Bool := false
  skipUnsupported : Bool := false
  files : List String
deriving DecidableEq, Repr, Inhabited

def Arguments.options (arguments : Arguments) : Options :=
  { (if arguments.strict then Options.strict else {}) with skipUnsupported := arguments.skipUnsupported }

/-- What ends a command before it draws anything: words that make no sense, or a question about the command. -/
inductive Interruption where
  | unknown (argument : String)
  | repeated (option : String)
  | noValue (option : String)
  | needlessValue (option : String)
  | emptyArgument
  | noFiles
  | help
  | version
deriving DecidableEq, Repr

namespace Interruption

/-- Whether the command does as it was asked. -/
def isQuestion : Interruption → Bool
  | .help | .version => true
  | _ => false

/-- What the command can be asked to do. -/
def usage : List String :=
  ["Writes the outline of every glyph in CFF FontSet files as SVG",
    "Usage: cff2svg [OPTIONS] <FILES>...",
    "  <FILES>...              FontSet resources to decode",
    "  -o, --output <OUTPUT>   Directory receiving one <font name>.d directory per font [default: .]",
    "  -f, --force             Replace font directories that already exist",
    "      --strict            Fail glyphs that leave operands on the stack",
    "      --skip-unsupported  Leave out glyphs using flex, seac-style endchar or random instead of failing their font",
    "  -h, --help              Print help",
    "  -V, --version           Print version"]

def lines : Interruption → List String
  | .unknown argument => ["error: unexpected argument " ++ argument]
  | .repeated option => ["error: " ++ option ++ " cannot be used more than once"]
  | .noValue option => ["error: " ++ option ++ " needs a value"]
  | .needlessValue option => ["error: " ++ option ++ " takes no value"]
  | .emptyArgument => ["error: an argument is empty"]
  | .noFiles => ["error: no files are given"]
  | .help => usage
  | .version => ["cff_outline 0.1.0"]

end Interruption

/-- What the arguments read so far say. -/
structure Draft where
  output? : Option String := none
  force : Bool := false
  strict : Bool := false
  skipUnsupported : Bool := false
  /-- Latest first. -/
  files : List String := []
  /-- The next argument is the output directory. -/
  awaiting : Bool := false
  /-- All further arguments are files. -/
  literal : Bool := false
deriving Repr, Inhabited

namespace Draft

def setOutput (draft : Draft) (value : String) : Except Interruption Draft :=
  if value = "" then .error .emptyArgument
  else if draft.output?.isSome then .error (.repeated "--output")
  else .ok { draft with output? := some value, awaiting := false }

def awaitOutput (draft : Draft) : Draft := { draft with awaiting := true }

def setForce (draft : Draft) : Except Interruption Draft :=
  if draft.force then .error (.repeated "--force") else .ok { draft with force := true }

def setStrict (draft : Draft) : Except Interruption Draft :=
  if draft.strict then .error (.repeated "--strict") else .ok { draft with strict := true }

def setSkip (draft : Draft) : Except Interruption Draft :=
  if draft.skipUnsupported then .error (.repeated "--skip-unsupported")
  else .ok { draft with skipUnsupported := true }

def addFile (draft : Draft) (path : String) : Except Interruption Draft :=
  if path = "" then .error .emptyArgument else .ok { draft with files := path :: draft.files }

/-- An option of one word, with the value after an equals sign if there is one. -/
def long (draft : Draft) (name : String) (value? : Option String) : Except Interruption Draft :=
  match name, value? with
  | "output", none => .ok draft.awaitOutput
  | "output", some value => draft.setOutput value
  | "force", none => draft.setForce
  | "strict", none => draft.setStrict
  | "skip-unsupported", none => draft.setSkip
  | "help", none => .error .help
  | "version", none => .error .version
  | "force", some _ | "strict", some _ | "skip-unsupported", some _ | "help", some _ | "version", some _ =>
    .error (.needlessValue name)
  | _, _ => .error (.unknown name)

/-- Options of one letter; what follows the letter of the output directory is its value. -/
def short (draft : Draft) : List Char → Except Interruption Draft
  | [] => .ok draft
  | 'f' :: rest => do (← draft.setForce).short rest
  | ['o'] => .ok draft.awaitOutput
  | 'o' :: '=' :: value => draft.setOutput (String.ofList value)
  | 'o' :: value => draft.setOutput (String.ofList value)
  | 'h' :: _ => .error .help
  | 'V' :: _ => .error .version
  | letter :: _ => .error (.unknown (String.singleton letter))

/-- A lone dash is the name of a file. -/
def isOption : List Char → Bool
  | '-' :: _ :: _ => true
  | _ => false

def argument (draft : Draft) (text : String) : Except Interruption Draft :=
  if draft.literal then draft.addFile text
  else if draft.awaiting then
    if isOption text.toList then .error (.noValue "--output") else draft.setOutput text
  else
    match text.toList with
    | ['-', '-'] => .ok { draft with literal := true }
    | '-' :: '-' :: rest =>
      let name := rest.takeWhile (· != '=')
      let value? := (rest.dropWhile (· != '=')).tail?
      draft.long (String.ofList name) (value?.map String.ofList)
    | '-' :: letter :: rest => draft.short (letter :: rest)
    | _ => draft.addFile text

def finish (draft : Draft) : Except Interruption Arguments :=
  if draft.awaiting then .error (.noValue "--output")
  else if draft.files = [] then .error .noFiles
  else .ok {
    output := draft.output?.getD ".", force := draft.force, strict := draft.strict
    skipUnsupported := draft.skipUnsupported, files := draft.files.reverse }

end Draft

/-- Reads the arguments from left to right, up to the first that ends the command. -/
def Arguments.parse (arguments : List String) : Except Interruption Arguments := do
  (← arguments.foldlM Draft.argument {}).finish

end CompactFont.CommandLine
