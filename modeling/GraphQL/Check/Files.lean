import GraphQL.Text.Split

/-!
Reading files. A check reads through a function from paths to texts; a tree of
files in memory is one. A path is walked segment by segment from the top of the
tree or from the working directory, and every segment but the last must be a
directory. Paths and names have a largest size in bytes.
-/

namespace GraphQL.Check

/-- Why a path cannot be read. -/
inductive ReadError where
  | missing
  | notDirectory
  | isDirectory
  | tooLong
  /-- The path has the character NUL in it, which no path can have. -/
  | invalid
  /-- Any other reason, in the words of the system. -/
  | other (text : String)
deriving DecidableEq

/-- The text of a read error. -/
def ReadError.message : ReadError → String
  | .missing => "No such file or directory (os error 2)"
  | .notDirectory => "Not a directory (os error 20)"
  | .isDirectory => "Is a directory (os error 21)"
  | .tooLong => "File name too long (os error 36)"
  | .invalid => "file name contained an unexpected NUL byte"
  | .other text => text

/-- Where texts come from. -/
abbrev Source := String → Except ReadError String

/-- A place in a tree, as the names on the way to it from the top. -/
abbrev Place := List String

/-- The parts of a path between slashes. An empty part says nothing but that a directory is meant. -/
def segments (path : String) : List String :=
  (Text.split '/' path.toList).map String.ofList

/-- A path that is read from the top of the tree. -/
def isAbsolute (path : String) : Bool :=
  path.toList.head? == some '/'

/-- The largest path, in bytes. -/
def maxPathSize : Nat := 4095

/-- The largest name of a file or directory, in bytes. -/
def maxNameSize : Nat := 255

/-- What makes a path unreadable in every tree. -/
def pathError? (path : String) : Option ReadError :=
  if path.toList.contains '\x00' then some .invalid
  else if path = "" then some .missing
  else if maxPathSize < path.utf8ByteSize then some .tooLong
  else none

/-- Files in memory, each at its place, and the working directory. -/
structure Files where
  entries : List (Place × String)
  workingDirectory : Place

namespace Files

/-- The place that a path names, if it has no steps up. -/
def placeOf (workingDirectory : Place) (path : String) : Place :=
  let names := (segments path).filter fun segment => segment ≠ "" ∧ segment ≠ "."
  if isAbsolute path then names else workingDirectory ++ names

/-- The files with the given paths and texts. -/
def ofList (workingDirectory : Place) (files : List (String × String)) : Files :=
  ⟨files.map fun file => (placeOf workingDirectory file.1, file.2), workingDirectory⟩

/-- The text of the file at a place. -/
def text? (files : Files) (place : Place) : Option String :=
  (files.entries.find? fun entry => entry.1 == place).map Prod.snd

/-- A place is on the way to a file, or on the way to the working directory or that directory itself. -/
def isDirectory (files : Files) (place : Place) : Bool :=
  place.isPrefixOf files.workingDirectory ||
    files.entries.any fun entry => place.isPrefixOf entry.1 && entry.1 != place

/-- Walks on from a place. A step up from the top stays there. -/
def walk (files : Files) (place : Place) : List String → Except ReadError String
  | [] =>
    match files.text? place with
    | some text => .ok text
    | none => .error .isDirectory
  | segment :: rest =>
    if !files.isDirectory place then .error .notDirectory
    else if segment = "" ∨ segment = "." then files.walk place rest
    else if segment = ".." then files.walk place.dropLast rest
    else if maxNameSize < segment.utf8ByteSize then .error .tooLong
    else
      let place := place ++ [segment]
      if files.isDirectory place || (files.text? place).isSome then files.walk place rest
      else .error .missing

/-- Reads the file that a path leads to. -/
def read (files : Files) : Source := fun path =>
  match pathError? path with
  | some error => .error error
  | none => files.walk (if isAbsolute path then [] else files.workingDirectory) (segments path)

end Files

end GraphQL.Check
