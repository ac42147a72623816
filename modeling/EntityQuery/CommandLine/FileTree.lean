import EntityQuery.Text.Pieces

/-!
# Files and their paths

A path is followed name by name from the working directory. The files below it are known by the
names on their way; of the directories above it only their existence is.
-/

namespace EntityQuery

/-- Why a path leads to no text. -/
inductive PathFault where
  | notFound
  | notDirectory
  | isDirectory
  | nameTooLong
  deriving DecidableEq, Repr

namespace PathFault

/-- All faults. -/
def all : List PathFault := [.notFound, .notDirectory, .isDirectory, .nameTooLong]

/-- The number that the system gives a fault. -/
def number : PathFault → Nat
  | .notFound => 2
  | .notDirectory => 20
  | .isDirectory => 21
  | .nameTooLong => 36

/-- The name of a fault. -/
def text : PathFault → String
  | .notFound => "No such file or directory"
  | .notDirectory => "Not a directory"
  | .isDirectory => "Is a directory"
  | .nameTooLong => "File name too long"

/-- The fault of a number. -/
def ofNumber? (n : Nat) : Option PathFault := all.find? fun fault => fault.number == n

/-- The wording of a system error of which only number and name are known. -/
def systemMessage (text : String) (number : Nat) : String :=
  text ++ " (os error " ++ number.repr ++ ")"

/-- The wording of a fault. -/
def message (fault : PathFault) : String := systemMessage fault.text fault.number

end PathFault

/-- The names of a path, divided by slashes. -/
def pathNames (path : String) : List String := (Text.pieces '/' path.toList).map String.ofList

/-- The files below the working directory: the names on the way to each, and its text. -/
structure FileTree where
  files : List (List String × String)
  deriving DecidableEq, Repr

/-- Where a path has led so far: a directory by the names on the way to it, a directory above the
working directory, or a file. -/
inductive Place where
  | directory (names : List String)
  | above
  | file (text : String)
  deriving DecidableEq, Repr

namespace FileTree

/-- The most bytes that a name may have. -/
def maxNameSize : Nat := 255

/-- The most bytes that a path may have. -/
def maxPathSize : Nat := 4095

/-- The files with the given paths and texts. -/
def ofFiles (files : List (String × String)) : FileTree :=
  ⟨files.map fun (path, text) => (pathNames path, text)⟩

/-- The place at the end of a way down, if there is one. A directory is where a file lies below. -/
def find? (tree : FileTree) (names : List String) : Option Place :=
  match tree.files.lookup names with
  | some text => some (.file text)
  | none =>
    if tree.files.any fun f => names.isPrefixOf f.1 then some (.directory names) else none

/-- Follows a name. No name and a single dot stay, two dots go up, and nothing lies below a file. -/
def enter (tree : FileTree) (place : Place) (name : String) : Except PathFault Place :=
  match place with
  | .file _ => .error .notDirectory
  | .above =>
    if name = "" ∨ name = "." ∨ name = ".." then .ok .above
    else if maxNameSize < name.utf8ByteSize then .error .nameTooLong
    else .error .notFound
  | .directory names =>
    if name = "" ∨ name = "." then .ok (.directory names)
    else if name = ".." then .ok (if names.isEmpty then .above else .directory names.dropLast)
    else if maxNameSize < name.utf8ByteSize then .error .nameTooLong
    else
      match tree.find? (names ++ [name]) with
      | some next => .ok next
      | none => .error .notFound

/-- Follows names one after the other; the first fault decides. -/
def follow (tree : FileTree) (place : Place) : List String → Except PathFault Place
  | [] => .ok place
  | name :: rest =>
    match tree.enter place name with
    | .error e => .error e
    | .ok next => tree.follow next rest

/-- Where a path starts: a leading slash leaves the working directory. -/
def startOf (path : String) : Place :=
  if path.toList.head? = some '/' then .above else .directory []

/-- The text of the file at a path. -/
def read (tree : FileTree) (path : String) : Except PathFault String :=
  if path.isEmpty then .error .notFound
  else if maxPathSize < path.utf8ByteSize then .error .nameTooLong
  else
    match tree.follow (startOf path) (pathNames path) with
    | .error e => .error e
    | .ok (.file text) => .ok text
    | .ok _ => .error .isDirectory

end FileTree

end EntityQuery
