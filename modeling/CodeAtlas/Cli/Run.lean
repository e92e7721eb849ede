/-
# Running commands

A command reads a disk and may write a snapshot to it.  It prints lines and ends well, or prints
the message of what went wrong.
-/
import CodeAtlas.Cli.Command
import CodeAtlas.Cli.Inspect
import CodeAtlas.Json.Printer
import CodeAtlas.Load.Workspace
import CodeAtlas.Query.Files
import CodeAtlas.Query.Xml
import CodeAtlas.Snapshot.Basic

namespace CodeAtlas

/-! ## Snapshots on a disk -/

/-- Reads the snapshot a path leads to. -/
def Snapshot.load (disk : Disk) (generation : Nat) (path : String) : Except SnapshotError Index :=
  match disk.open? path with
  | .error error => .error (.disk error)
  | .ok (.archive entries) => Snapshot.read generation entries
  | .ok _ => .error .notArchive

/-- Goes to what a segment of a path names, and makes a directory where there is nothing. -/
def Disk.enterOrMake (state : Place × Disk) (segment : String) : Except DiskError (Place × Disk) :=
  let (place, disk) := state
  match disk.enter place segment with
  | .ok next => .ok (next, disk)
  | .error .missing =>
    if segment == ".." then .error .missing
    else .ok (place ++ [segment], disk.put (place ++ [segment]) .directory)
  | .error error => .error error

/-- Makes the directories of a path that do not exist. -/
def Disk.makePath (disk : Disk) (path : String) : Except DiskError (Place × Disk) := do
  if path.isEmpty then return ([], disk)
  if Path.isAbsolute path then throw .missing
  let (place, disk) ← (Text.splitOn '/' path).foldlM Disk.enterOrMake ([], disk)
  if (disk.node? place).any DiskNode.isDirectory then return (place, disk) else throw .taken

/-- Writes the snapshot of an index into a directory; returns the path of the file. -/
def Snapshot.save (disk : Disk) (index : Index) (dir : String) (version : UInt32) :
    Except SnapshotError (String × Disk) := do
  let (place, disk) ← (disk.makePath dir).mapError .disk
  let name := fileName version
  if (disk.node? (place ++ [name])).any DiskNode.isDirectory then throw (.disk .isDirectory)
  let parts ← write index
  let entries := parts.map (fun part => ⟨part.name, .text part.text⟩)
  return (Path.join dir name, disk.put (place ++ [name]) (.archive entries))

namespace Cli

/-- How a command ends: what it prints, or the message of a failure. -/
structure Outcome where
  /-- What is printed, each text followed by a line break. -/
  lines : List String
  failure : Option String
  /-- Whether the arguments were wrong. -/
  badUsage : Bool := false

/-- The exit code of an outcome. -/
def Outcome.code (outcome : Outcome) : Nat :=
  if outcome.badUsage then 2 else if outcome.failure.isSome then 1 else 0

/-- What a command works with besides the disk. -/
structure Setting where
  grammar : Source.Grammar
  /-- The environment. -/
  var : String → Option String

/-- The message of a query that is refused, or its first line. -/
def queryMessage (error : QueryError) : String :=
  error.message?.getD <|
    match error with
    | .badRegex => "regex error: regex parse error:"
    | _ => "query XML error: malformed document"

/-- The settings for loading: those of a file, changed by the environment, changed by options. -/
def loadConfig (setting : Setting) (disk : Disk) (file : Option String) (workers : Option Nat)
    (noPrune : Bool) : Except String LoadConfig := do
  let config ← match file with
    | none => pure {}
    | some path =>
      match (disk.readText path).toOption.bind LoadConfig.ofText? with
      | some config => pure config
      | none => throw ("reading config " ++ path)
  let config := config.withEnvironment setting.var
  let config := match workers with
    | some workers => { config with workers := max workers 1 }
    | none => config
  return if noPrune then { config with pruneThirdParty := false } else config

/-- Loads a workspace and writes the next snapshot. -/
def runIndex (setting : Setting) (options : IndexOptions) (disk : Disk) :
    Except String (List String × Disk) := do
  let config ← loadConfig setting disk options.config options.workers options.noPrune
  let base ← options.base.mapM fun path =>
    (Snapshot.load disk 0 path).mapError (fun _ => "reading base snapshot " ++ path)
  let outcome ← (loadWorkspace disk setting.grammar config base 1 options.path).mapError
    LoadError.message
  let dir := options.out.getD options.path
  let version := max (Snapshot.nextVersion (disk.names dir)) config.snapshotVersion
  let (path, disk) ← (Snapshot.save disk outcome.index dir version).mapError SnapshotError.message
  return ([path], disk)

/-- Searches the sources of a workspace. -/
def runSearch (setting : Setting) (path queryPath : String) (snapshot : Option String)
    (json : Bool) (disk : Disk) : Except String (List String) := do
  let text ← (disk.readText queryPath).mapError (fun _ => "reading query " ++ queryPath)
  let query ← (Query.ofXml text).mapError queryMessage
  let config ← loadConfig setting disk none none false
  let index ← match snapshot with
    | some file =>
      (Snapshot.load disk 0 file).mapError (fun _ => "reading snapshot " ++ file)
    | none =>
      ((loadWorkspace disk setting.grammar config none 0 path).map LoadOutcome.index).mapError
        LoadError.message
  let hits ← (query.searchFiles disk setting.grammar index config.projectMarkers
    (disk.sources path)).mapError (fun error => "I/O error: " ++ error.message)
  return if json then [(Json.Value.list (hits.map SearchHit.toJson)).pretty]
    else hits.map (SearchHit.summary path)

/-- Describes a snapshot or the items of a name in it. -/
def runInspect (path : String) (name : Option String) (disk : Disk) :
    Except String (List String) := do
  let index ← (Snapshot.load disk 0 path).mapError SnapshotError.message
  match name with
  | none => return index.overview
  | some name =>
    let found := index.itemsNamed name
    if found.isEmpty then throw ("no item named " ++ name ++ " in " ++ path)
    return found.flatMap index.describe

/-- The name and the version of the program. -/
def versionLine : String := "cmtscope 0.1.0"

/-- Runs a command. -/
def Command.run (setting : Setting) (disk : Disk) : Command → Except String (List String × Disk)
  | index options => runIndex setting options disk
  | search path query snapshot json =>
    (runSearch setting path query snapshot json disk).map (·, disk)
  | inspect snapshot name => (runInspect snapshot name disk).map (·, disk)
  | version => .ok ([versionLine], disk)
  | help => .ok ([], disk)

/-- Runs the program with its arguments. -/
def run (setting : Setting) (args : List String) (disk : Disk) : Outcome × Disk :=
  match Command.ofArgs? args with
  | none => (⟨[], none, true⟩, disk)
  | some command =>
    match command.run setting disk with
    | .ok (lines, disk) => (⟨lines, none, false⟩, disk)
    | .error message => (⟨[], some message, false⟩, disk)

end Cli

end CodeAtlas
