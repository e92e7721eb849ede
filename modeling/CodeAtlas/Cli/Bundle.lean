/-
# Bundles

The files of a working directory as a disk.  Archives are kept unpacked: a directory whose name has
the extension of an archive stands for the archive of the files below it.  The tree of a source file
is listed in a file beside it: a first line that says `clean` or `errors`, then a line for each node
with its depth, its kind, its field or a dash, its start and its end.
-/
import CodeAtlas.Disk.Basic
import CodeAtlas.Source.Tree
import CodeAtlas.Text.Blank
import CodeAtlas.Text.Decimal
import Std.Data.HashMap

namespace CodeAtlas.Cli

open Source (Cst CstEntry Grammar ParseTree)

/-- A file of a bundle. -/
structure BundleFile where
  path : String
  content : ByteArray

namespace Bundle

/-- The extensions of archives. -/
def archiveExtensions : List String :=
  ["jar", "rar", "zip"]

/-- Whether a directory of a name stands for an archive. -/
def isArchiveName (name : String) : Bool :=
  (Path.extension? name).any archiveExtensions.contains

/-- The place of the archive that a file belongs to, and the name of the file in it. -/
def archiveOf? : Place → Option (Place × String)
  | [] => none
  | [_] => none
  | name :: rest =>
    if isArchiveName name then some ([name], "/".intercalate rest)
    else (archiveOf? rest).map (fun (place, entry) => (name :: place, entry))

/-- The names on the way to a file. -/
def placeOf (path : String) : Place :=
  (Path.segments path).filter (· != ".")

/-- Puts a file on a disk. -/
def addFile (disk : Disk) (file : BundleFile) : Disk :=
  let place := placeOf file.path
  match archiveOf? place with
  | none => disk.write place (.file (.bytes file.content))
  | some (archive, name) =>
    let entries := match disk.node? archive with
      | some (.archive entries) => entries
      | _ => []
    disk.write archive (.archive (entries ++ [⟨name, .bytes file.content⟩]))

/-- The disk of a bundle. -/
def disk (files : List BundleFile) : Disk :=
  files.foldl addFile .empty

/-! ## Trees -/

/-- What the path of a source file is followed by in the path of its tree. -/
def treeSuffix : String := ".tree"

/-- The node of a line. -/
def entryOfLine? (line : String) : Option CstEntry :=
  match Text.words line with
  | [depth, kind, field, start, stop] => do
    return ⟨← Text.readWord64? depth, kind, if field == "-" then none else some field,
      ← Text.readWord64? start, ← Text.readWord64? stop⟩
  | _ => none

/-- The tree of a listing. -/
def treeOfText? (text : String) : Option ParseTree :=
  match Text.lines text with
  | [] => none
  | first :: rest => do
    let root ← Cst.ofEntries? (← rest.mapM entryOfLine?)
    return ⟨root, first == "errors"⟩

/-- The text of a source file with its tree. -/
def parsed? (files : List BundleFile) (file : BundleFile) : Option (String × ParseTree) := do
  let listing ← files.find? (fun other => other.path == file.path ++ treeSuffix)
  let tree ← (String.fromUTF8? listing.content).bind treeOfText?
  return (← String.fromUTF8? file.content, tree)

/-- A text without a tree counts as an empty file with errors. -/
def missingTree : ParseTree :=
  ⟨.node "program" none 0 0 [], true⟩

/-- The parser that knows the trees of a bundle. -/
def grammar (files : List BundleFile) : Grammar :=
  let trees : Std.HashMap String ParseTree := .ofList (files.filterMap (parsed? files))
  fun text => trees.getD text missingTree

/-! ## Writing -/

/-- The files of the archives that stand on a disk and not on an earlier one. -/
def newFiles (before after : Disk) : List BundleFile :=
  after.nodes.flatMap fun (place, node) =>
    match before.node? place, node with
    | none, .archive entries => entries.filterMap fun entry =>
        entry.data.bytes?.map (fun content =>
          ⟨"/".intercalate (place ++ [entry.name]), content⟩)
    | _, _ => []

end Bundle

end CodeAtlas.Cli
