/-
# Characters and character data

The character classes of the XML grammar, and what raw character data stands for.  Such data may
hold references to characters, by number or by one of five names.  A line break counts as one line
feed in text and as a space in the value of an attribute.  Characters that are written as references
are taken as they are.
-/
import CodeAtlas.Text.Decimal
import CodeAtlas.Text.Split

namespace CodeAtlas.Xml

/-! ## Characters -/

/-- The blanks of XML. -/
def isSpace (c : Char) : Bool :=
  c == ' ' || c == '\t' || c == '\n' || c == '\r'

/-- The characters a document may hold. -/
def isXmlChar (c : Char) : Bool :=
  if c.toNat < 0x20 then isSpace c else c.toNat != 0xFFFE && c.toNat != 0xFFFF

/-- Whether a code point lies in one of the ranges. -/
def inRanges (ranges : List (Nat × Nat)) (c : Char) : Bool :=
  ranges.any (fun range => range.1 ≤ c.toNat && c.toNat ≤ range.2)

/-- The code points beyond ASCII that a name may begin with. -/
def nameStartRanges : List (Nat × Nat) :=
  [(0xC0, 0xD6), (0xD8, 0xF6), (0xF8, 0x2FF), (0x370, 0x37D), (0x37F, 0x1FFF), (0x200C, 0x200D),
    (0x2070, 0x218F), (0x2C00, 0x2FEF), (0x3001, 0xD7FF), (0xF900, 0xFDCF), (0xFDF0, 0xFFFD),
    (0x10000, 0xEFFFF)]

/-- The code points beyond ASCII that may stand in a name but not begin it. -/
def nameExtraRanges : List (Nat × Nat) :=
  [(0xB7, 0xB7), (0x300, 0x36F), (0x203F, 0x2040)]

/-- The characters a name may begin with, the colon apart. -/
def isNameStart (c : Char) : Bool :=
  c.isAlpha || c == '_' || inRanges nameStartRanges c

/-- The characters that may stand in a name, the colon apart. -/
def isNameChar (c : Char) : Bool :=
  isNameStart c || c.isDigit || c == '-' || c == '.' || inRanges nameExtraRanges c

/-! ## References -/

/-- A character of raw data: as it stands or written as a reference. -/
inductive Piece where
  | plain (c : Char)
  | reference (c : Char)
deriving DecidableEq, Repr

/-- The value of a hexadecimal digit. -/
def hexValue? (c : Char) : Option Nat :=
  if c.isDigit then some (c.toNat - 48)
  else if 'a' ≤ c && c ≤ 'f' then some (c.toNat - 87)
  else if 'A' ≤ c && c ≤ 'F' then some (c.toNat - 55)
  else none

/-- The value of a run of hexadecimal digits below a 32-bit bound. -/
def readHex? (digits : List Char) : Option Nat :=
  if digits.isEmpty then none
  else
    match digits.mapM hexValue? with
    | some values =>
      let n := values.foldl (fun n digit => 16 * n + digit) 0
      if n < Text.bound32 then some n else none
    | none => none

/-- The character of a code point; a code point that is none gives the replacement character. -/
def charOfCode (n : Nat) : Char :=
  if n.isValidChar then Char.ofNat n else Char.ofNat 0xFFFD

/-- The character of a code point, when a document may hold it. -/
def xmlCharOfCode? (n : Nat) : Option Char :=
  let c := charOfCode n
  if isXmlChar c then some c else none

/-- The character a reference stands for, by what is between the ampersand and the semicolon. -/
def referenced? : List Char → Option Char
  | '#' :: 'x' :: digits => (readHex? digits).bind xmlCharOfCode?
  | '#' :: digits => (Text.readDigits? Text.bound32 digits).bind xmlCharOfCode?
  | ['q', 'u', 'o', 't'] => some '"'
  | ['a', 'm', 'p'] => some '&'
  | ['a', 'p', 'o', 's'] => some '\''
  | ['l', 't'] => some '<'
  | ['g', 't'] => some '>'
  | _ => none

mutual

/-- The pieces of raw data; none when a reference is wrong. -/
def pieces : List Char → Option (List Piece)
  | [] => some []
  | '&' :: rest => referencePieces [] rest
  | c :: rest => (pieces rest).map (.plain c :: ·)

/-- The pieces of raw data inside a reference, of which `name` has been read, latest first. -/
def referencePieces (name : List Char) : List Char → Option (List Piece)
  | [] => none
  | ';' :: rest =>
    match referenced? name.reverse with
    | some c => (pieces rest).map (.reference c :: ·)
    | none => none
  | c :: rest => referencePieces (c :: name) rest

end

/-! ## Line breaks -/

/-- Text with its line breaks as line feeds.  A carriage return in front of a reference is kept, as
is one at the very end right after a reference. -/
def textOf (afterReference : Bool) : List Piece → List Char
  | [] => []
  | .reference c :: rest => c :: textOf true rest
  | .plain '\r' :: [] => if afterReference then ['\r'] else ['\n']
  | .plain '\r' :: .reference c :: rest => '\r' :: c :: textOf true rest
  | .plain '\r' :: .plain '\n' :: rest => '\n' :: textOf false rest
  | .plain '\r' :: rest => '\n' :: textOf false rest
  | .plain c :: rest => c :: textOf false rest

/-- An attribute value with its line breaks and tabs as spaces. -/
def valueOf : List Piece → List Char
  | [] => []
  | .reference c :: rest => c :: valueOf rest
  | .plain '\r' :: .plain '\n' :: rest => ' ' :: valueOf rest
  | .plain c :: rest => (if isSpace c then ' ' else c) :: valueOf rest

/-- The text that raw data between tags stands for. -/
def text? (raw : List Char) : Option String :=
  (pieces raw).map (fun data => String.ofList (textOf false data))

/-- The value that raw data between quotes stands for. -/
def value? (raw : List Char) : Option String :=
  (pieces raw).map (fun data => String.ofList (valueOf data))

/-! ## Writing -/

/-- The written form of a character. -/
def escapeChar : Char → List Char
  | '<' => "&lt;".toList
  | '>' => "&gt;".toList
  | '&' => "&amp;".toList
  | '\'' => "&apos;".toList
  | '"' => "&quot;".toList
  | c => [c]

/-- Text as it is written between tags or quotes. -/
def escape (text : String) : String :=
  String.ofList (text.toList.flatMap escapeChar)

end CodeAtlas.Xml
