import Arborist.Path

/-!
# `Arborist.FileSystem`: a snapshot of the files that a run can see

A run works on a snapshot: the files below some directories with their contents, and the directory
that relative paths start from. Looking a path up walks it piece by piece, so a path may go up again
through a directory, and it is refused when it goes through a file.
-/

set_option autoImplicit false

namespace Arborist

/-- Why a path cannot be read or written. -/
inductive AccessError where
  | missing
  | notDirectory
  | isDirectory
  | undecodable
  deriving DecidableEq, Repr

namespace AccessError

def message : AccessError → String
  | .missing => "No such file or directory (os error 2)"
  | .notDirectory => "Not a directory (os error 20)"
  | .isDirectory => "Is a directory (os error 21)"
  | .undecodable => "stream did not contain valid UTF-8"

end AccessError

/-- What stands at a place. -/
inductive Entry where
  /-- A file; it has no text if its bytes are none. -/
  | file (text : Option String)
  | directory
  deriving DecidableEq, Repr

/-- A place in the file system: the names on the way from the root. -/
abbrev Place := List String

/-- Files and directories at one moment. -/
structure Snapshot where
  /-- Where relative paths start. -/
  workingDirectory : Place := []
  files : List (Place × Option String) := []
  /-- Directories that are there even if they hold no file. -/
  directories : List Place := []
  deriving Repr

namespace Snapshot

/-- The place is on the way to some file or known directory. -/
def isDirectoryAt (s : Snapshot) (place : Place) : Bool :=
  place.isEmpty || place.isPrefixOf s.workingDirectory || s.directories.any place.isPrefixOf ||
    s.files.any fun (file, _) => file.length > place.length && place.isPrefixOf file

/-- What stands at a place, if anything. -/
def entryAt? (s : Snapshot) (place : Place) : Option Entry :=
  match s.files.find? fun (file, _) => file = place with
  | some (_, text) => some (.file text)
  | none => if s.isDirectoryAt place then some .directory else none

/-- Walks on from a place. Every piece starts at a directory, also one that stays where it is. -/
def follow (s : Snapshot) (place : Place) : List (List Char) → Except AccessError Place
  | [] => .ok place
  | piece :: rest =>
    match s.entryAt? place with
    | none => .error .missing
    | some (.file _) => .error .notDirectory
    | some .directory =>
      if Path.isIdle piece then s.follow place rest
      else if piece = ['.', '.'] then s.follow place.dropLast rest
      else s.follow (place ++ [String.ofList piece]) rest

/-- The place that a path leads to; nothing need stand there. The empty path leads nowhere. -/
def locate (s : Snapshot) (path : String) : Except AccessError Place :=
  if path.isEmpty then .error .missing
  else s.follow (if Path.isAbsolute path then [] else s.workingDirectory) (Path.pieces path)

/-- What a path leads to. -/
def entry (s : Snapshot) (path : String) : Except AccessError Entry := do
  match s.entryAt? (← s.locate path) with
  | some found => return found
  | none => .error .missing

def isFile (s : Snapshot) (path : String) : Bool :=
  match s.entry path with
  | .ok (.file _) => true
  | _ => false

def isDirectory (s : Snapshot) (path : String) : Bool :=
  match s.entry path with
  | .ok .directory => true
  | _ => false

def pathExists (s : Snapshot) (path : String) : Bool := (s.entry path).isOk

/-- The text of a file. -/
def read (s : Snapshot) (path : String) : Except AccessError String := do
  match ← s.entry path with
  | .file (some text) => return text
  | .file none => .error .undecodable
  | .directory => .error .isDirectory

/-- Puts a file at a place. -/
def put (s : Snapshot) (place : Place) (text : String) : Snapshot :=
  { s with files := s.files.filter (fun (file, _) => file ≠ place) ++ [(place, some text)] }

/-- Writes a file; its directory has to be there. -/
def write (s : Snapshot) (path text : String) : Except AccessError Snapshot := do
  let place ← s.locate path
  match s.entryAt? place with
  | some .directory => .error .isDirectory
  | some (.file _) => return s.put place text
  | none => if s.isDirectoryAt place.dropLast then return s.put place text else .error .missing

end Snapshot

end Arborist
