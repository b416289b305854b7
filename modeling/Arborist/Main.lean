import Arborist.Command.Run

/-!
# `Arborist.Main`: the program

Takes a snapshot of the files that a run can need, runs on it, and prints and writes what the run
leaves behind.
-/

set_option autoImplicit false

namespace Arborist.Main

/-- The place of an absolute path. -/
def placeOf (path : String) : Place :=
  ((Path.pieces path).filter fun piece => !Path.isIdle piece).map String.ofList

/-- The path of a place. -/
def pathOf (place : Place) : String := "/" ++ String.intercalate "/" place

/-- The names of files that say how a directory is searched. -/
def settingNames : List Place :=
  [["treelint.toml"], [".treelint.toml"], [".ignore"], [".gitignore"], [".git", "HEAD"],
   [".git", "info", "exclude"]]

/-- The file of this name may have to be read. -/
def isRelevant (name : String) : Bool :=
  [some "rs", some "toml"].contains (Path.extension? name) || settingNames.contains [name]

/-- The text of a file, if there is one; a file whose bytes are no text has none. -/
def readText (path : String) : IO (Option (Option String)) := do
  try
    return some (String.fromUTF8? (← IO.FS.readBinFile path))
  catch _ => return none

/-- Adds one file, if it is there. -/
def addFile (snapshot : Snapshot) (place : Place) : IO Snapshot := do
  if (snapshot.files.find? (·.1 = place)).isSome then return snapshot
  match ← readText (pathOf place) with
  | some text => return { snapshot with files := snapshot.files ++ [(place, text)] }
  | none => return snapshot

/-- Adds a directory with the relevant files in it, without following links. -/
partial def addTree (snapshot : Snapshot) (place : Place) : IO Snapshot := do
  let mut snapshot := { snapshot with directories := snapshot.directories ++ [place] }
  try
    for entry in ← (← IO.FS.realPath (pathOf place)).readDir do
      let inner := place ++ [entry.fileName]
      match (← entry.path.symlinkMetadata).type with
      | .dir => snapshot ← addTree snapshot inner
      | .file => if isRelevant entry.fileName then snapshot ← addFile snapshot inner
      | _ => pure ()
  catch _ => pure ()
  return snapshot

/-- Adds what a path leads to, and the settings of the directories around it. -/
def addTarget (snapshot : Snapshot) (path : String) : IO Snapshot := do
  let found ← try pure (some (← IO.FS.realPath path)) catch _ => pure none
  match found with
  | none => return snapshot
  | some found =>
    let place := placeOf found.toString
    let around := Snapshot.directoriesAround place
    let settings := around.flatMap fun directory => settingNames.map (directory ++ ·)
    let snapshot ← settings.foldlM addFile snapshot
    if ← found.isDir then addTree snapshot place else addFile snapshot place

/-- What a run with these arguments can see. -/
def environment (arguments : List String) : IO Environment := do
  let home ← IO.getEnv "HOME"
  let config ← IO.getEnv "TREELINT_CONFIG"
  let configDirectory ← IO.getEnv "TREELINT_CONFIG_DIR"
  let workingDirectory := placeOf (← IO.currentDir).toString
  let globalDirectory := (configDirectory.toList ++ home.toList.map (Path.join · ".treelint")).map
    (Path.join · globalConfigName)
  let files ← (["."] ++ arguments ++ config.toList ++ globalDirectory).foldlM addTarget
    { workingDirectory }
  return { files, home, config, configDirectory }

end Arborist.Main

/-- Runs the program. -/
def main (arguments : List String) : IO UInt32 := do
  let outcome := Arborist.runProgram (← Arborist.Main.environment arguments) arguments
  IO.print outcome.output
  outcome.errors.forM fun line => IO.eprintln line
  if outcome.status = 2 then IO.eprint Arborist.helpText
  outcome.writes.forM fun (path, text) => IO.FS.writeFile path text
  return outcome.status.toUInt32
