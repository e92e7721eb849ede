/-
# Matching names

A name is asked for literally or by a pattern that is set between the ends of the text.  A query that
asks for no name, or is malformed in another way, is refused.
-/
import CodeAtlas.Regex.Program
import CodeAtlas.Text.Blank

namespace CodeAtlas

/-- Why a query is refused. -/
inductive QueryError where
  /-- A literal name is blank. -/
  | emptyName
  | emptyRegex
  /-- An element holds no filter. -/
  | needsFilter (tag : String)
  /-- A parameter filter has no count. -/
  | needsCount
  | badCount (text : String)
  | unknownSearch (tag : String)
  | unknownFilter (tag : String)
  | malformedXml
  | badRegex
deriving DecidableEq, Repr

namespace QueryError

/-- The message, where the library itself words it. -/
def message? : QueryError → Option String
  | emptyName => some "invalid argument: name must not be empty"
  | emptyRegex => some "invalid argument: regex must not be empty"
  | needsFilter tag => some ("invalid argument: " ++ tag ++ " needs at least one filter")
  | needsCount => some "invalid argument: hasparam needs a num attribute"
  | badCount text => some ("invalid argument: bad parameter count '" ++ Text.trim text ++ "'")
  | unknownSearch tag => some ("query XML error: unknown search element <" ++ tag ++ ">")
  | unknownFilter tag => some ("query XML error: unknown filter element <" ++ tag ++ ">")
  | malformedXml => none
  | badRegex => none

end QueryError

/-- The written form in which a name pattern is compiled. -/
def anchored (pattern : String) : String :=
  "^(?:" ++ pattern ++ ")$"

/-- A name pattern with its matcher. -/
structure NamePattern where
  pattern : String
  matcher : Regex.Matcher
  compiled : Regex.Matcher.ofText? (anchored pattern) = some matcher

/-- What a name is compared with. -/
inductive NameMatcher where
  | literal (name : String)
  | regex (pattern : NamePattern)

/-- The groups of a pattern that matched a name. -/
structure Capture where
  pattern : String
  text : String
  groups : List (Option String)
deriving DecidableEq, Repr

namespace NameMatcher

/-- A matcher for a literal name, which must not be blank. -/
def ofLiteral (name : String) : Except QueryError NameMatcher :=
  if Text.allBlank name then .error .emptyName else .ok (.literal name)

/-- A matcher for a pattern, which must not be empty. -/
def ofRegex (pattern : String) : Except QueryError NameMatcher :=
  if pattern.isEmpty then .error .emptyRegex
  else
    match h : Regex.Matcher.ofText? (anchored pattern) with
    | some matcher => .ok (.regex ⟨pattern, matcher, h⟩)
    | none => .error .badRegex

/-- The text a matcher is written with. -/
def text : NameMatcher → String
  | literal name => name
  | regex pattern => pattern.pattern

/-- Whether a matcher is a pattern. -/
def isRegex : NameMatcher → Bool
  | literal _ => false
  | regex _ => true

/-- Compares a name; the result holds what the groups of a pattern matched. -/
def captures? (name : String) : NameMatcher → Option (List Capture)
  | literal wanted => if wanted == name then some [] else none
  | regex pattern =>
    (pattern.matcher.captures name).map (fun groups => [⟨pattern.pattern, name, groups⟩])

end NameMatcher

end CodeAtlas
