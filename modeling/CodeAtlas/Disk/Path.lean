/-
# Paths

A path is a text whose segments stand between slashes.  Empty segments and single dots say nothing,
except for a dot at the very beginning.
-/
import CodeAtlas.Text.Split

namespace CodeAtlas.Path

/-- Whether a path begins at the root of the file system. -/
def isAbsolute (path : String) : Bool :=
  Text.startsWith "/" path

/-- The segments of a path. -/
def segments (path : String) : List String :=
  match Text.splitOn '/' path with
  | [] => []
  | first :: rest =>
    (if first.isEmpty then [] else [first]) ++
      rest.filter (fun segment => !segment.isEmpty && segment != ".")

/-- The last segment of a path, if it names something. -/
def fileName? (path : String) : Option String :=
  match (segments path).getLast? with
  | some name => if name == ".." || name == "." then none else some name
  | none => none

/-- The last segment cut at its last dot; a dot at the beginning does not count. -/
def cutName (name : String) : String × Option String :=
  match Text.splitLast '.' name with
  | some (stem, extension) => if stem.isEmpty then (name, none) else (stem, some extension)
  | none => (name, none)

/-- What follows the last dot in the last segment. -/
def extension? (path : String) : Option String :=
  (fileName? path).bind (fun name => (cutName name).2)

/-- The last segment without its extension. -/
def stem? (path : String) : Option String :=
  (fileName? path).map (fun name => (cutName name).1)

/-- A path followed by a relative one; an absolute path stands for itself. -/
def join (path tail : String) : String :=
  if isAbsolute tail || path.isEmpty then tail
  else if Text.endsWith "/" path then path ++ tail
  else path ++ "/" ++ tail

/-- The path of segments. -/
def ofSegments (absolute : Bool) (segments : List String) : String :=
  (if absolute then "/" else "") ++ "/".intercalate segments

/-- A path and the paths of the directories above it, innermost first. -/
def withAncestors (path : String) : List String :=
  let segments := segments path
  path :: ((List.range segments.length).reverse.map
    (fun n => ofSegments (isAbsolute path) (segments.take n)))

/-- Whether two paths have the same segments. -/
def same (a b : String) : Bool :=
  isAbsolute a == isAbsolute b && segments a == segments b

/-- What follows a path in a path below it. -/
def below? (root path : String) : Option String :=
  let rootSegments := segments root
  let pathSegments := segments path
  if isAbsolute root == isAbsolute path && rootSegments.isPrefixOf pathSegments then
    some ("/".intercalate (pathSegments.drop rootSegments.length))
  else none

end CodeAtlas.Path
