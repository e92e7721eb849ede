/-
# Project directories

A directory is a project when it holds one of the marker files.  It may describe itself in XML.  Its
name stands in its `.project` file, or else is that of the directory; its source folders stand in its
`.classpath` file, which also lists the projects that it requires, or else are the configured folders
that exist.

A traversal of a workspace finds its projects and archives.  Hidden directories and the source folders
of projects already found are not entered.
-/
import CodeAtlas.Disk.Basic
import CodeAtlas.Index.Basic
import CodeAtlas.Load.Config
import CodeAtlas.Load.Manifest
import CodeAtlas.Text.Blank
import CodeAtlas.Xml.Document

namespace CodeAtlas

/-! ## Project files -/

/-- What the class path of a project lists: source folders relative to its directory and the names
of other projects. -/
structure ClassPath where
  sourceFolders : List String
  requiredProjects : List String
deriving DecidableEq, Repr

namespace ClassPath

/-- Nothing is listed. -/
def empty : ClassPath :=
  ⟨[], []⟩

/-- Adds an entry by its path.  A path that begins with a slash names a project. -/
def addPath (classPath : ClassPath) (path : String) : ClassPath :=
  match Text.stripLead? "/" path with
  | some project =>
    if project.isEmpty then classPath
    else { classPath with requiredProjects := classPath.requiredProjects ++ [project] }
  | none =>
    if path.isEmpty then classPath
    else { classPath with sourceFolders := classPath.sourceFolders ++ [path] }

/-- The trimmed path of an entry for sources. -/
def sourcePath? (node : Xml.Node) : Option String :=
  if node.hasName "classpathentry" && node.attribute? "kind" == some "src" then
    (node.attribute? "path").map Text.trim
  else none

/-- Reads a `.classpath` file; none when it is malformed. -/
def ofText? (text : String) : Option ClassPath :=
  (Xml.parse text).map (fun root => (root.children.filterMap sourcePath?).foldl addPath empty)

end ClassPath

/-- Reads the name in a `.project` file.  The outer option is none when the file is malformed, the
inner one when it gives no name. -/
def projectFileName? (text : String) : Option (Option String) :=
  (Xml.parse text).map fun root =>
    (((root.children.find? (Xml.Node.hasName "name")).bind Xml.Node.text?).map Text.trim).filter
      (fun name => !name.isEmpty)

/-! ## Project directories -/

namespace Disk

/-- Whether a directory holds one of the marker files. -/
def isProject (disk : Disk) (markers : List String) (dir : String) : Bool :=
  markers.any (fun marker => disk.isFile (Path.join dir marker))

/-- The class path that a directory declares in a well-formed file. -/
def classPath? (disk : Disk) (dir : String) : Option ClassPath :=
  (disk.readText (Path.join dir ".classpath")).toOption.bind ClassPath.ofText?

/-- The projects that a directory requires by its class path. -/
def requiredProjects (disk : Disk) (dir : String) : List String :=
  ((disk.classPath? dir).map ClassPath.requiredProjects).getD []

/-- The source folders of a project. -/
def sourceFolders (disk : Disk) (config : LoadConfig) (dir : String) : List String :=
  let declared := ((disk.classPath? dir).map ClassPath.sourceFolders).getD []
  if declared.isEmpty then
    config.sourceFolders.filter (fun folder => disk.isDirectory (Path.join dir folder))
  else declared

/-- The name of a project. -/
def projectName (disk : Disk) (dir : String) : String :=
  match (disk.readText (Path.join dir ".project")).toOption.bind projectFileName? with
  | some (some name) => name
  | _ => (Path.fileName? dir).getD dir

/-- The path of the manifest of a directory or an archive. -/
def manifestPath : String := "META-INF/MANIFEST.MF"

/-- What a project depends on: the projects its class path requires, and what the manifests in the
directory and its source folders name.  A required project is found by its name, as an archive. -/
def projectDependencies (disk : Disk) (dir : String) (folders : List String) :
    List Manifest.Dependency :=
  let manifests := dir :: folders.map (Path.join dir)
  let texts := manifests.filterMap fun dir =>
    (disk.readText (Path.join dir manifestPath)).toOption
  (disk.requiredProjects dir).map .archive ++ texts.flatMap Manifest.dependencies

/-- The item of the project that a file belongs to: the innermost directory above it, or the path
itself, that holds a marker file, by the name of that project. -/
def owningProject (disk : Disk) (index : Index) (markers : List String) (path : String) :
    Option ItemId :=
  ((Path.withAncestors path).find? (disk.isProject markers)).bind fun dir =>
    index.findItem none (disk.projectName dir) .project

end Disk

/-! ## Discovery -/

/-- What a traversal of a workspace has found, latest first. -/
structure Discovery where
  projects : List String
  archives : List String
  /-- The source folders of the projects found. -/
  claimed : List String
  /-- The directories that were not entered. -/
  closed : List Place

namespace Discovery

/-- Nothing has been found. -/
def start : Discovery :=
  ⟨[], [], [], []⟩

/-- Whether a directory below the root is hidden. -/
def isHidden (visit : Disk.Visit) : Bool :=
  visit.below.getLast?.any (Text.startsWith ".")

/-- Takes a node of the traversal into account. -/
def step (disk : Disk) (config : LoadConfig) (found : Discovery) (visit : Disk.Visit) : Discovery :=
  if found.closed.any (fun place => place.isPrefixOf visit.below) then found
  else if visit.isDirectory then
    if isHidden visit || found.claimed.any (Path.same visit.path) then
      { found with closed := visit.below :: found.closed }
    else if disk.isProject config.projectMarkers visit.path then
      { found with
        projects := visit.path :: found.projects
        claimed := found.claimed ++
          (disk.sourceFolders config visit.path).map (Path.join visit.path) }
    else found
  else if config.isArchive visit.path then { found with archives := visit.path :: found.archives }
  else found

/-- The projects and archives below a path, in the order of the traversal. -/
def run (disk : Disk) (config : LoadConfig) (root : String) : List String × List String :=
  let found := (disk.walk root).foldl (step disk config) start
  (found.projects.reverse, found.archives.reverse)

end Discovery

end CodeAtlas
