import CompactFont.Font
import CompactFont.Storage
import Std.Data.TreeMap

/-! Many files decoded together. All of them are decoded before any result is taken in. Fonts are kept by full name; the
last file with a name wins. -/

namespace CompactFont

inductive FileFailure where
  | unreadable (path : String) (error : OsError)
  | undecodable (path : String) (failure : Failure)
deriving Repr

def FileFailure.text : FileFailure → String
  | .unreadable path error => "reading " ++ path ++ ": " ++ error.text
  | .undecodable path failure => "decoding " ++ path ++ ": " ++ failure.text

def Font.decodeFile {m : Type → Type} [Monad m] (storage : Storage m) (options : Options) (path : String) :
    m (Logged FileFailure Font) := do
  match ← storage.read path with
  | .error error => return .quiet (.error (.unreadable path error))
  | .ok bytes =>
    let decoded := Font.decode options bytes
    return { decoded with result := decoded.result.mapError (.undecodable path) }

structure Batch where
  fonts : Std.TreeMap String Font := {}
  /-- The files that gave no font, in the order in which they were named. -/
  failures : List (String × FileFailure) := []

namespace Batch

/-- Takes in what a file gave. -/
def add (batch : Batch) (path : String) : Except FileFailure Font → Batch
  | .ok font => { batch with fonts := batch.fonts.insert font.fullName font }
  | .error failure => { batch with failures := batch.failures ++ [(path, failure)] }

/-- What there is to tell about taking it in. -/
def addition? (batch : Batch) (path : String) : Except FileFailure Font → Option Event
  | .ok font => if batch.fonts.contains font.fullName then some (.replaced path font.fullName) else none
  | .error failure => some (.failed failure.text)

/-- Takes in what files gave, in the order in which they were named. -/
def collect (batch : Batch) : List (String × Except FileFailure Font) → Batch × List Event
  | [] => (batch, [])
  | (path, result) :: results =>
    let (whole, events) := (batch.add path result).collect results
    (whole, (batch.addition? path result).toList ++ events)

/-- What every file gives, decoded alone. -/
def decodeEach {m : Type → Type} [Monad m] (storage : Storage m) (options : Options) :
    List String → m (List (String × Logged FileFailure Font))
  | [] => return []
  | path :: paths => do
    let decoded ← Font.decodeFile storage options path
    let others ← decodeEach storage options paths
    return (path, decoded) :: others

def decode {m : Type → Type} [Monad m] (storage : Storage m) (options : Options) (batch : Batch)
    (paths : List String) : m (Batch × List Event) := do
  let given ← decodeEach storage options paths
  let (whole, events) := batch.collect (given.map fun (path, decoded) => (path, decoded.result))
  return (whole, (given.flatMap fun (_, decoded) => decoded.events) ++ events)

end Batch
end CompactFont
