import CompactFont.CommandLine.Run

/-! The command that draws the glyphs of fonts to files on disk. -/

namespace CompactFont.CommandLine

/-- The number of a system error; some layers count it downwards from zero. -/
def errorNumber (code : UInt32) : Nat := code.toInt32.toInt.natAbs

def describe : IO.Error → OsError
  | .noFileOrDirectory .. => .missing
  | .alreadyExists .. => .occupied
  | .inappropriateType _ code _ => if errorNumber code = 21 then .isDirectory else .notDirectory
  | .invalidArgument _ code text => if errorNumber code = 36 then .nameTooLong else .other text
  | error => .other (toString error)

def attempt {α : Type} (action : IO α) : IO (Except OsError α) := do
  try return .ok (← action)
  catch error => return .error (describe error)

/-- Storage in the file system. -/
def disk : Storage IO where
  read path := attempt do return (← IO.FS.readBinFile path).toList
  occupied path := do ((← IO.currentDir) / path).pathExists
  removeTree path := attempt (IO.FS.removeDirAll path)
  createTree path := attempt (IO.FS.createDirAll path)
  write path text := attempt (IO.FS.writeFile path text)

end CompactFont.CommandLine

def main (words : List String) : IO UInt32 := do
  let report ← CompactFont.CommandLine.run CompactFont.CommandLine.disk words
  report.answers.forM fun line => IO.println line
  report.complaints.forM fun line => IO.eprintln line
  return report.exitCode.toUInt32
