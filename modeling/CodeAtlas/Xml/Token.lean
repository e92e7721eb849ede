/-
# Tokens of a document

A document is a sequence of tags, character data, comments and processing instructions.  Document
type declarations are not supported.
-/
import CodeAtlas.Xml.Content

namespace CodeAtlas.Xml

/-- A name: the prefix of its namespace, empty when there is none, and the local part. -/
structure QName where
  qualifier : String
  localName : String
deriving DecidableEq, Repr

/-- An attribute. -/
structure Attribute where
  name : QName
  value : String
deriving DecidableEq, Repr

/-- A token. -/
inductive Token where
  /-- A start tag; `closed` tells whether it is an empty element. -/
  | start (name : QName) (attributes : List Attribute) (closed : Bool)
  | stop (name : QName)
  /-- Character data as it is written. -/
  | text (raw : List Char)
  | cdata (content : List Char)
  | comment
  | instruction
deriving DecidableEq, Repr

/-- A reader takes characters from the front, or fails. -/
abbrev Reader := StateT (List Char) Option

namespace Reader

/-- Reads the longest run of characters that satisfy `p`. -/
def run (p : Char → Bool) : Reader (List Char) := fun input =>
  some (input.takeWhile p, input.dropWhile p)

/-- Skips blanks; the result tells whether there were any. -/
def spaces : Reader Bool := do
  return !(← run isSpace).isEmpty

/-- Reads a fixed text. -/
def expect (lead : String) : Reader PUnit := fun input =>
  (Text.afterLead? lead.toList input).map (fun rest => (⟨⟩, rest))

/-- Whether a fixed text comes next. -/
def next (lead : String) : Reader Bool := fun input =>
  some ((Text.afterLead? lead.toList input).isSome, input)

/-- What comes before the first occurrence of `tail`, and what comes after it. -/
def splitAt (tail : List Char) : List Char → Option (List Char × List Char)
  | [] => none
  | c :: rest =>
    match Text.afterLead? tail (c :: rest) with
    | some after => some ([], after)
    | none => (splitAt tail rest).map (fun (before, after) => (c :: before, after))

/-- Reads the characters up to the first occurrence of `tail`, which is read too. -/
def upTo (tail : String) : Reader (List Char) := fun input =>
  match splitAt tail.toList input with
  | some (content, rest) => if content.all isXmlChar then some (content, rest) else none
  | none => none

/-- A local name or prefix has to begin as names do. -/
def beginsName (name : List Char) : Bool :=
  name.head?.any isNameStart

/-- Reads a name with at most one colon. -/
def qname : Reader QName := do
  let first ← run isNameChar
  if ← next ":" then
    expect ":"
    let second ← run isNameChar
    if (first.isEmpty || beginsName first) && beginsName second && !(← next ":") then
      return ⟨String.ofList first, String.ofList second⟩
    else failure
  else if beginsName first then return ⟨"", String.ofList first⟩
  else failure

/-- Reads an attribute. -/
def attr : Reader Attribute := do
  let name ← qname
  discard spaces
  expect "="
  discard spaces
  let quote ← if ← next "\"" then pure '"' else pure '\''
  expect (String.singleton quote)
  let raw ← run (fun c => c != quote && c != '<' && isXmlChar c)
  expect (String.singleton quote)
  match value? raw with
  | some value => return ⟨name, value⟩
  | none => failure

/-- Reads the attributes and the end of a start tag, with at most `fuel` attributes. -/
def startTag (name : QName) : Nat → List Attribute → Reader Token
  | 0, _ => failure
  | fuel + 1, known => do
    let separated ← spaces
    if ← next "/" then
      expect "/>"
      return .start name known.reverse true
    else if ← next ">" then
      expect ">"
      return .start name known.reverse false
    else if separated then startTag name fuel ((← attr) :: known)
    else failure

/-- Whether the content of a comment is allowed: it has no two hyphens in a row and does not end in
one. -/
def isComment (content : List Char) : Bool :=
  !Text.occursIn ['-', '-'] content && content.getLast? != some '-'

/-- Reads the rest of a processing instruction. -/
def instruction : Reader Token := do
  let target ← run (fun c => isNameChar c || c == ':')
  if target.head?.any (fun c => isNameStart c || c == ':') then
    discard (upTo "?>")
    return .instruction
  else failure

/-- Reads a token, which has at most `size` characters. -/
def token (size : Nat) : Reader Token := do
  if ← next "<!--" then
    expect "<!--"
    let content ← upTo "-->"
    if isComment content then return .comment else failure
  else if ← next "<![CDATA[" then
    expect "<![CDATA["
    return .cdata (← upTo "]]>")
  else if ← next "<?xml " then failure
  else if ← next "<?" then
    expect "<?"
    instruction
  else if ← next "</" then
    expect "</"
    let name ← qname
    discard spaces
    expect ">"
    return .stop name
  else if ← next "<" then
    expect "<"
    startTag (← qname) size []
  else
    let raw ← run (fun c => c != '<')
    if raw.all isXmlChar && !Text.occursIn [']', ']', '>'] raw then return .text raw else failure

/-- Reads the blanks after a part of the declaration, unless the declaration ends. -/
def declarationGap : Reader PUnit := do
  if !(← spaces) && !(← next "?>") then failure

/-- Reads an attribute of the declaration, if it comes next. -/
def declarationPart (name : String) : Reader PUnit := do
  if ← next name then discard attr

/-- Reads the declaration at the beginning of a document. -/
def declaration : Reader PUnit := do
  expect "<?xml"
  declarationGap
  if ← next "version" then
    discard attr
    declarationGap
    if ← next "encoding" then
      discard attr
      declarationGap
    declarationPart "standalone"
    discard spaces
    expect "?>"
  else failure

/-- Reads a byte order mark and a declaration, as far as they are there. -/
def prolog : Reader PUnit := do
  if ← next "\uFEFF" then expect "\uFEFF"
  if ← next "<?xml " then declaration

end Reader

/-- The tokens of a text. -/
def tokens (input : List Char) : Option (List Token) :=
  match input with
  | [] => some []
  | c :: rest =>
    match Reader.token (c :: rest).length (c :: rest) with
    | none => none
    | some (token, after) =>
      if _shorter : after.length < (c :: rest).length then (tokens after).map (token :: ·) else none
termination_by input.length
decreasing_by assumption

/-- The tokens of a document. -/
def documentTokens (document : String) : Option (List Token) :=
  match Reader.prolog document.toList with
  | some (_, rest) => tokens rest
  | none => none

end CodeAtlas.Xml
