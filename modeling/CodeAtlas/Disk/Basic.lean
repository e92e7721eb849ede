/-
# The disk

A disk is a tree of directories and files, held as a list of places in the order of a traversal
that takes the entries of a directory by name, each directory before what it contains.  Paths start
at the working directory, which is the root of the tree; nothing outside it exists.
-/
import CodeAtlas.Disk.Archive
import CodeAtlas.Disk.Path

namespace CodeAtlas

/-- A place on the disk: the names on the way to it. -/
abbrev Place := List String

/-- What stands at a place. -/
inductive DiskNode where
  | directory
  | file (data : FileData)
  /-- A file that is an archive. -/
  | archive (entries : Archive)

/-- Whether a node is a directory. -/
def DiskNode.isDirectory : DiskNode → Bool
  | directory => true
  | _ => false

/-- A disk: its nodes below the root, ordered by place. -/
structure Disk where
  nodes : List (Place × DiskNode)

namespace Disk

/-- A disk with nothing on it. -/
def empty : Disk :=
  ⟨[]⟩

/-- Puts a node at a place among ordered nodes; what stood there is replaced. -/
def insertNode (place : Place) (node : DiskNode) : List (Place × DiskNode) → List (Place × DiskNode)
  | [] => [(place, node)]
  | (other, known) :: rest =>
    if other < place then (other, known) :: insertNode place node rest
    else if place < other then (place, node) :: (other, known) :: rest
    else (place, node) :: rest

/-- The node at a place. -/
def node? (disk : Disk) (place : Place) : Option DiskNode :=
  if place.isEmpty then some .directory else disk.nodes.lookup place

/-- Puts a node at a place, whatever stands above it. -/
def put (disk : Disk) (place : Place) (node : DiskNode) : Disk :=
  ⟨insertNode place node disk.nodes⟩

/-- Makes the directories on the way to a place, the place included. -/
def makeDirectory (disk : Disk) (place : Place) : Disk :=
  ((List.range place.length).map (fun n => place.take (n + 1))).foldl
    (fun disk above => if (disk.node? above).isSome then disk else disk.put above .directory) disk

/-- Puts a node at a place and makes the directories above it. -/
def write (disk : Disk) (place : Place) (node : DiskNode) : Disk :=
  (disk.makeDirectory place.dropLast).put place node

/-! ## Following paths -/

/-- Goes from a place to what a segment of a path names. -/
def enter (disk : Disk) (place : Place) (segment : String) : Except DiskError Place :=
  if !(disk.node? place).any DiskNode.isDirectory then .error .notDirectory
  else if segment.isEmpty || segment == "." then .ok place
  else if segment == ".." then
    if place.isEmpty then .error .missing else .ok place.dropLast
  else if (disk.node? (place ++ [segment])).isSome then .ok (place ++ [segment])
  else .error .missing

/-- The place a path leads to. -/
def locate (disk : Disk) (path : String) : Except DiskError Place :=
  if path.isEmpty || Path.isAbsolute path then .error .missing
  else (Text.splitOn '/' path).foldlM disk.enter []

/-- The node a path leads to. -/
def open? (disk : Disk) (path : String) : Except DiskError DiskNode := do
  match disk.node? (← disk.locate path) with
  | some node => return node
  | none => throw .missing

/-- Whether a path leads to a directory. -/
def isDirectory (disk : Disk) (path : String) : Bool :=
  (disk.open? path).toOption.any DiskNode.isDirectory

/-- Whether a path leads to a file. -/
def isFile (disk : Disk) (path : String) : Bool :=
  (disk.open? path).toOption.any (fun node => !node.isDirectory)

/-- The text of the file a path leads to. -/
def readText (disk : Disk) (path : String) : Except DiskError String := do
  match ← disk.open? path with
  | .directory => throw .isDirectory
  | .file data => data.readText
  | .archive _ => throw .notText

/-- The archive a path leads to. -/
def archive? (disk : Disk) (path : String) : Option Archive :=
  match disk.open? path with
  | .ok (.archive entries) => some entries
  | _ => none

/-- The names of the entries of the directory a path leads to, in order. -/
def names (disk : Disk) (path : String) : List String :=
  match disk.locate path with
  | .error _ => []
  | .ok place =>
    disk.nodes.filterMap fun (other, _) =>
      if other.dropLast == place then other.getLast? else none

/-! ## Traversals -/

/-- A node met on a traversal: its path, the names that lead to it from the start of the
traversal, and whether it is a directory. -/
structure Visit where
  path : String
  below : Place
  isDirectory : Bool
deriving DecidableEq, Repr

/-- The visit of a node below a place that a path leads to. -/
def visit? (root : String) (place : Place) (entry : Place × DiskNode) : Option Visit :=
  if place.isPrefixOf entry.1 && place.length < entry.1.length then
    let below := entry.1.drop place.length
    some ⟨below.foldl Path.join root, below, entry.2.isDirectory⟩
  else none

/-- Everything from a path on, directories before what they contain, entries by name. -/
def walk (disk : Disk) (root : String) : List Visit :=
  match disk.locate root, disk.isDirectory root with
  | .error _, _ => []
  | .ok place, true => ⟨root, [], true⟩ :: disk.nodes.filterMap (visit? root place)
  | .ok _, false => [⟨root, [], false⟩]

/-- The files with an extension from a path on. -/
def filesWithExtension (disk : Disk) (root extension : String) : List String :=
  ((disk.walk root).filter fun visit =>
    !visit.isDirectory && Path.extension? visit.path == some extension).map Visit.path

end Disk

end CodeAtlas
