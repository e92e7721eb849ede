/-
# Class paths of manifests

The manifest of an archive or project names what it needs in the header `Class-Path`.  Long headers
are wrapped: a line break followed by one space continues the line.  Wrapped manifests may glue two
archive names together, so a name is cut after `.jar` or `.rar` unless a slash follows or nothing
does.
-/
import CodeAtlas.Text.Blank
import CodeAtlas.Text.Split

namespace CodeAtlas.Manifest

/-! ## Unwrapping -/

/-- Takes out every line feed that a space follows, with the space. -/
def joinLines : List Char → List Char
  | [] => []
  | '\n' :: ' ' :: rest => joinLines rest
  | c :: rest => c :: joinLines rest

/-- The manifest with its continuation lines joined. -/
def unwrap (manifest : List Char) : List Char :=
  joinLines (Text.plainBreaks manifest)

/-! ## Glued names -/

/-- Whether four characters are the ending of an archive name. -/
def isArchiveEnding (c₀ c₁ c₂ c₃ : Char) : Bool :=
  let ending := String.ofList ([c₀, c₁, c₂, c₃].map Char.toLower)
  ending == ".jar" || ending == ".rar"

/-- Whether a name is cut before this rest: something follows and it is no slash. -/
def cutsBefore : List Char → Bool
  | [] => false
  | c :: _ => c != '/'

/-- The piece a text begins with and the pieces after it. -/
def gluedPieces : List Char → List Char × List (List Char)
  | [] => ([], [])
  | c₀ :: c₁ :: c₂ :: c₃ :: rest =>
    if isArchiveEnding c₀ c₁ c₂ c₃ then
      let (piece, others) := gluedPieces rest
      if cutsBefore rest then ([c₀, c₁, c₂, c₃], Text.consRun piece others)
      else (c₀ :: c₁ :: c₂ :: c₃ :: piece, others)
    else
      let (piece, others) := gluedPieces (c₁ :: c₂ :: c₃ :: rest)
      (c₀ :: piece, others)
  | c₀ :: rest =>
    let (piece, others) := gluedPieces rest
    (c₀ :: piece, others)

/-- A token cut after each archive name in it. -/
def splitGlued (token : List Char) : List (List Char) :=
  let (piece, others) := gluedPieces token
  Text.consRun piece others

/-! ## Tokens and dependencies -/

/-- The value of a header line, when the line is the class path. -/
def classPathValue? (line : List Char) : Option (List Char) :=
  match Text.cutFirst (· == ':') line with
  | none => none
  | some (key, value) =>
    if Text.sameIgnoringCase (String.ofList (Text.trimBlanks key)) "Class-Path" then some value
    else none

/-- The entries of the class path, glued names cut apart. -/
def classPathTokens (manifest : String) : List String :=
  match (Text.linesOf (unwrap manifest.toList)).findSome? classPathValue? with
  | none => []
  | some value => ((Text.wordsOf value).flatMap splitGlued).map String.ofList

/-- What a class path entry refers to. -/
inductive Dependency where
  /-- An archive, by its file name without the ending. -/
  | archive (name : String)
  /-- A directory, by its last segment. -/
  | directory (name : String)
deriving DecidableEq, Repr

/-- Whether a character separates the segments of a path. -/
def isSeparator (c : Char) : Bool :=
  c == '/' || c == '\\'

/-- What an entry refers to; an entry without a name refers to nothing. -/
def dependencyOf? (token : List Char) : Option Dependency :=
  let segments := Text.pieces isSeparator token
  match segments.getLast? with
  | none => none
  | some last =>
    if last.isEmpty && !token.isEmpty then
      (segments.reverse.find? (fun segment => !segment.isEmpty && segment != ['.'])).map
        (fun name => .directory (String.ofList name))
    else
      let stem := ((Text.cutLast (· == '.') last).map Prod.fst).getD last
      if stem.isEmpty then none else some (.archive (String.ofList stem))

/-- Adds a dependency at the end unless it is there. -/
def addDependency (known : List Dependency) (dependency : Dependency) : List Dependency :=
  if known.contains dependency then known else known ++ [dependency]

/-- What a manifest depends on, in order and without repetition. -/
def dependencies (manifest : String) : List Dependency :=
  ((classPathTokens manifest).filterMap (fun token => dependencyOf? token.toList)).foldl
    addDependency []

end CodeAtlas.Manifest
