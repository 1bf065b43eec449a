import CompactFont.Storage

/-! Files and directories held in memory, as seen from a working directory. -/

namespace CompactFont

inductive Entry where
  | file (bytes : List UInt8)
  | directory
deriving DecidableEq, Repr, Inhabited

/-- Names from the working directory down. An absolute place begins with a slash, one above the working
directory with two dots; neither is the name of a file. -/
abbrev Place := List String

structure FileTree where
  entries : List (Place × Entry) := []
deriving Repr, Inhabited

namespace FileTree

/-- The working directory, those above it and the root. -/
def isGiven (place : Place) : Bool := place.all (· == "..") || place == ["/"]

def lookup? (tree : FileTree) (place : Place) : Option Entry :=
  if isGiven place then some .directory else tree.entries.lookup place

def set (tree : FileTree) (place : Place) (entry : Entry) : FileTree where
  entries := (place, entry) :: tree.entries.filter fun other => other.1 != place

/-- Removes a place and all below it. -/
def remove (tree : FileTree) (place : Place) : FileTree where
  entries := tree.entries.filter fun other => !place.isPrefixOf other.1

def parent (place : Place) : Place :=
  if place == ["/"] then place
  else if isGiven place then ".." :: place
  else place.dropLast

/-- One name further. -/
def descend (place : Place) (name : String) : Place :=
  if name = "" ∨ name = "." then place else if name = ".." then parent place else place ++ [name]

/-- Names of more bytes than this are refused. -/
def longestName : Nat := 255

def longestPath : Nat := 4095

/-- The names in a path, as they stand. -/
def namesOf (path : String) : List String := (pathNames path.toList).map String.ofList

/-- The first place and the names of a path. -/
def split (path : String) : Except OsError (Place × List String) :=
  if path.toList.contains '\x00' then .error .nulInName
  else if longestPath < path.utf8ByteSize then .error .nameTooLong
  else if path = "" then .error .missing
  else .ok (if isAbsolute path.toList then ["/"] else [], namesOf path)

/-- Follows names through directories; the last one need not exist. -/
def follow (tree : FileTree) (place : Place) : List String → Except OsError Place
  | [] => .ok place
  | name :: names =>
    match tree.lookup? place with
    | none => .error .missing
    | some (.file _) => .error .notDirectory
    | some .directory =>
      if longestName < name.utf8ByteSize then .error .nameTooLong
      else tree.follow (descend place name) names

/-- The place that a path leads to. -/
def locate (tree : FileTree) (path : String) : Except OsError Place := do
  let (start, names) ← split path
  tree.follow start names

def read (tree : FileTree) (path : String) : Except OsError (List UInt8) := do
  match tree.lookup? (← tree.locate path) with
  | some (.file bytes) => return bytes
  | some .directory => throw .isDirectory
  | none => throw .missing

def occupied (tree : FileTree) (path : String) : Bool :=
  match tree.locate path with
  | .ok place => (tree.lookup? place).isSome
  | .error _ => false

def removeTree (tree : FileTree) (path : String) : Except OsError FileTree := do
  let place ← tree.locate path
  match tree.lookup? place with
  | some .directory => return tree.remove place
  | some (.file _) => throw .notDirectory
  | none => throw .missing

/-- Makes the missing directories along some names; those made before an error stay. A file on the way
is met as such until a directory has been `made`, and from then on as what is there already. -/
def createAlong (tree : FileTree) (made : Bool) (place : Place) : List String → Except OsError Unit × FileTree
  | [] => (.ok (), tree)
  | name :: names =>
    if longestName < name.utf8ByteSize then (.error .nameTooLong, tree)
    else
      let next := descend place name
      match tree.lookup? next with
      | some .directory => createAlong tree made next names
      | some (.file _) => (.error (if made || names.isEmpty then .occupied else .notDirectory), tree)
      | none => createAlong (tree.set next .directory) true next names

def createTree (tree : FileTree) (path : String) : Except OsError Unit × FileTree :=
  match split path with
  | .ok (start, names) => tree.createAlong false start names
  | .error error => (.error error, tree)

def write (tree : FileTree) (path text : String) : Except OsError FileTree := do
  let place ← tree.locate path
  match tree.lookup? place with
  | some .directory => throw .isDirectory
  | _ => return tree.set place (.file text.toUTF8.toList)

/-- Keeps the changed tree, or the old one with an error. -/
def commit (change : FileTree → Except OsError FileTree) : StateM FileTree (Except OsError Unit) :=
  fun tree =>
    match change tree with
    | .ok changed => (.ok (), changed)
    | .error error => (.error error, tree)

/-- Storage in memory. -/
def storage : Storage (StateM FileTree) where
  read path := fun tree => (tree.read path, tree)
  occupied path := fun tree => (tree.occupied path, tree)
  removeTree path := commit fun tree => tree.removeTree path
  createTree path := fun tree => tree.createTree path
  write path text := commit fun tree => tree.write path text

/-- The files at and below the working directory, with their paths. -/
def files (tree : FileTree) : List (String × List UInt8) :=
  tree.entries.filterMap fun (place, entry) =>
    match entry, place with
    | .file bytes, name :: names =>
      if name == "/" || name == ".." then none else some (String.intercalate "/" (name :: names), bytes)
    | _, _ => none

/-- Puts a file into the tree, with the directories on the way to it. -/
def put (tree : FileTree) (path : String) (bytes : List UInt8) : FileTree :=
  let names := namesOf path
  let above := (tree.createAlong false [] names.dropLast).2
  above.set (names.foldl descend []) (.file bytes)

end FileTree
end CompactFont
