/-! Where fonts are read from and drawings are written to. -/

namespace CompactFont

/-- Why the system refuses an operation on a path. -/
inductive OsError where
  | missing
  | occupied
  | notDirectory
  | isDirectory
  | nameTooLong
  | nulInName
  | other (text : String)
deriving DecidableEq, Repr, Inhabited

def OsError.text : OsError → String
  | .missing => "No such file or directory (os error 2)"
  | .occupied => "File exists (os error 17)"
  | .notDirectory => "Not a directory (os error 20)"
  | .isDirectory => "Is a directory (os error 21)"
  | .nameTooLong => "File name too long (os error 36)"
  | .nulInName => "file name contained an unexpected NUL byte"
  | .other text => text

/-- What the program asks of the place where its files are. -/
structure Storage (m : Type → Type) where
  read : String → m (Except OsError (List UInt8))
  /-- Whether there is anything at a path. -/
  occupied : String → m Bool
  /-- Removes a directory and all that is in it. -/
  removeTree : String → m (Except OsError Unit)
  /-- Makes a directory and those above it, as far as they are missing. -/
  createTree : String → m (Except OsError Unit)
  /-- Writes a file, in place of the one that may be there. -/
  write : String → String → m (Except OsError Unit)

/-- Whether a path begins at the root. -/
def isAbsolute (path : List Char) : Bool := path.head? == some '/'

/-- A path below a directory; an absolute path stays as it is. -/
def joinPath (directory name : String) : String :=
  if isAbsolute name.toList || directory.isEmpty then name
  else if directory.toList.getLast? == some '/' then directory ++ name
  else directory ++ "/" ++ name

/-- The names in a path. What lies between two slashes, or a slash and an end, may be empty. -/
def pathNames : List Char → List (List Char)
  | [] => [[]]
  | c :: rest =>
    if c = '/' then [] :: pathNames rest
    else
      match pathNames rest with
      | [] => [[c]]
      | name :: names => (c :: name) :: names

end CompactFont
