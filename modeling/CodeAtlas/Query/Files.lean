/-
# Searching files

Running a query over the source files of a workspace.  Files with syntax errors are skipped; a file
whose text cannot be read stops the search.  What was found is shown as lines of text or as JSON.
-/
import CodeAtlas.Disk.Path
import CodeAtlas.Json.Value
import CodeAtlas.Load.Jobs
import CodeAtlas.Query.Search

namespace CodeAtlas

/-! ## Files -/

/-- The source files from a path on, in order. -/
def Disk.sources (disk : Disk) (root : String) : List String :=
  disk.filesWithExtension root "java"

/-- What a query finds in a file, which is resolved as part of the project it belongs to. -/
def Query.searchFile (query : Query) (disk : Disk) (grammar : Source.Grammar) (index : Index)
    (markers : List String) (path : String) : Except DiskError (List SearchHit) := do
  let text ← disk.readText path
  let unit := Source.CompilationUnit.parse path text (grammar text)
  if unit.hasErrors then return []
  let project := disk.owningProject index markers path
  return CallContext.search ⟨index, ⟨unit, project⟩⟩ query

/-- What a query finds in those of the files that it applies to, in the order of the files. -/
def Query.searchFiles (query : Query) (disk : Disk) (grammar : Source.Grammar) (index : Index)
    (markers : List String) (paths : List String) : Except DiskError (List SearchHit) := do
  let hits ← (paths.filter query.appliesTo).mapM
    (query.searchFile disk grammar index markers)
  return hits.flatten

/-! ## Reports -/

/-- A capture as JSON. -/
def Capture.toJson (capture : Capture) : Json.Value :=
  .ofFields [("pattern", .ofString capture.pattern), ("text", .ofString capture.text),
    ("groups", .list (capture.groups.map (fun group => (group.map .ofString).getD .null)))]

namespace SearchHit

/-- A hit as JSON. -/
def toJson (hit : SearchHit) : Json.Value :=
  .ofFields [("path", .ofString hit.path), ("node_kind", .ofString hit.kind.text),
    ("start", .ofNat hit.start), ("end", .ofNat hit.stop), ("line", .ofNat hit.line),
    ("text", .ofString hit.text), ("captures", .list (hit.captures.map Capture.toJson))]

/-- A capture at the end of a line; a group that took no part is a dash. -/
def captureText (capture : Capture) : String :=
  " \x7b" ++ capture.text ++ " => " ++
    ", ".intercalate (capture.groups.map (fun group => group.getD "-")) ++ "\x7d"

/-- A hit as a line: its place below a root, its kind, the first line of its text and what was
captured. -/
def summary (root : String) (hit : SearchHit) : String :=
  (Path.below? root hit.path).getD hit.path ++ ":" ++ Text.showNat hit.line ++ ": [" ++
    hit.kind.text ++ "] " ++ (Text.lines hit.text).head?.getD "" ++
    String.join (hit.captures.map captureText)

end SearchHit

end CodeAtlas
