/-
# Queries as XML

The root element of a query names what to look for, and each element inside is a filter:

    <methodref>
      <hasparam num="&lt;=2"/>
      <name><regex>get(\w+)</regex></name>
    </methodref>
-/
import CodeAtlas.Query.Basic
import CodeAtlas.Xml.Document

namespace CodeAtlas

namespace Query

/-! ## Reading -/

/-- Reads the name of a filter: a pattern, or all text that stands right inside. -/
def readMatcher (children : List Xml.Node) : Except QueryError NameMatcher :=
  match children.find? (Xml.Node.hasName "regex") with
  | some regex => NameMatcher.ofRegex (regex.text?.getD "")
  | none => NameMatcher.ofLiteral (Text.trim (String.join (children.filterMap Xml.Node.content?)))

/-- Reads a count of parameters. -/
def readCount (num : Option String) : Except QueryError ParamCount :=
  match num with
  | none => .error .needsCount
  | some text =>
    match ParamCount.ofText? text with
    | some count => .ok count
    | none => .error (.badCount text)

/-- The filter of a tag that holds filters. -/
def groupFilter? : String → Option (List Filter → Filter)
  | "hassupertype" => some .hasSupertype
  | "isinmethod" => some .isInMethod
  | "not" => some .not
  | "and" => some .and
  | _ => none

mutual

/-- Reads a filter from an element; other nodes are none. -/
def readFilter : Xml.Node → Except QueryError (Option Filter)
  | .text _ => .ok none
  | .comment => .ok none
  | .instruction => .ok none
  | .element tag attributes children =>
    match tag with
    | "name" => (readMatcher children).map (fun matcher => some (.name matcher))
    | "classname" => (readMatcher children).map (fun matcher => some (.className matcher))
    | "hasparam" => (readCount (attributes.lookup "num")).map (fun count => some (.hasParam count))
    | "issupertype" => .ok (some .isSupertype)
    | tag =>
      match groupFilter? tag with
      | none => .error (.unknownFilter tag)
      | some group => do
        let filters ← someFilters tag (← readFilters children)
        return some (group filters)

/-- Reads the filters of a list of nodes. -/
def readFilters : List Xml.Node → Except QueryError (List Filter)
  | [] => .ok []
  | node :: rest => do
    let filter ← readFilter node
    let filters ← readFilters rest
    return filter.toList ++ filters

end

/-- Reads a query. -/
def ofXml (text : String) : Except QueryError Query :=
  match Xml.parse text with
  | none => .error .malformedXml
  | some root =>
    let tag := root.name?.getD ""
    match SearchKind.ofTag? tag with
    | none => .error (.unknownSearch tag)
    | some kind => do make kind (← readFilters root.children)

/-! ## Writing -/

/-- A line break and the indentation of a depth. -/
def lineBreak (depth : Nat) : String :=
  "\n" ++ String.join (List.replicate depth "  ")

/-- An element on a line of its own that holds only text. -/
def textElement (depth : Nat) (tag text : String) : String :=
  lineBreak depth ++ "<" ++ tag ++ ">" ++ Xml.escape text ++ "</" ++ tag ++ ">"

/-- An element on lines of its own around what stands inside. -/
def wrapElement (depth : Nat) (tag inside : String) : String :=
  lineBreak depth ++ "<" ++ tag ++ ">" ++ inside ++ lineBreak depth ++ "</" ++ tag ++ ">"

/-- The lines of a name. -/
def writeMatcher (depth : Nat) (tag : String) : NameMatcher → String
  | .literal name => textElement depth tag name
  | .regex pattern => wrapElement depth tag (textElement (depth + 1) "regex" pattern.pattern)

mutual

/-- The lines of a filter. -/
def writeFilter (depth : Nat) : Filter → String
  | .name matcher => writeMatcher depth "name" matcher
  | .className matcher => writeMatcher depth "classname" matcher
  | .hasParam count => lineBreak depth ++ "<hasparam num=\"" ++ Xml.escape count.text ++ "\"/>"
  | .isSupertype => lineBreak depth ++ "<issupertype/>"
  | .hasSupertype filters => wrapElement depth "hassupertype" (writeFilters (depth + 1) filters)
  | .isInMethod filters => wrapElement depth "isinmethod" (writeFilters (depth + 1) filters)
  | .not filters => wrapElement depth "not" (writeFilters (depth + 1) filters)
  | .and filters => wrapElement depth "and" (writeFilters (depth + 1) filters)

/-- The lines of a list of filters. -/
def writeFilters (depth : Nat) : List Filter → String
  | [] => ""
  | filter :: rest => writeFilter depth filter ++ writeFilters depth rest

end

/-- The text of a query. -/
def toXml (query : Query) : String :=
  "<" ++ query.kind.tag ++ ">" ++ writeFilters 1 query.filters ++ lineBreak 0 ++
    "</" ++ query.kind.tag ++ ">"

end Query

end CodeAtlas
