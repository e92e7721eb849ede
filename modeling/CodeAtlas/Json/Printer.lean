/-
# Writing JSON

A value is written over several lines, each level two spaces further to the right.  An empty list
or record stays on one line.
-/
import CodeAtlas.Json.Value

namespace CodeAtlas.Json

/-- The hexadecimal digit of a number below sixteen. -/
def hexDigit (n : Nat) : Char :=
  if n < 10 then Char.ofNat ('0'.toNat + n) else Char.ofNat ('a'.toNat + (n - 10))

/-- How a character stands between quotes. -/
def escape (c : Char) : List Char :=
  match c with
  | '"' => ['\\', '"']
  | '\\' => ['\\', '\\']
  | '\x08' => ['\\', 'b']
  | '\x0c' => ['\\', 'f']
  | '\n' => ['\\', 'n']
  | '\r' => ['\\', 'r']
  | '\t' => ['\\', 't']
  | c =>
    if c.toNat < 0x20 then
      ['\\', 'u', '0', '0', hexDigit (c.toNat / 16), hexDigit (c.toNat % 16)]
    else [c]

/-- A text between quotes. -/
def quote (s : String) : String :=
  String.ofList ('"' :: s.toList.flatMap escape ++ ['"'])

/-- The beginning of a line at a level. -/
def margin (level : Nat) : String :=
  String.ofList (List.replicate (2 * level) ' ')

/-- Lines in brackets, one for each text, separated by commas. -/
def bracket (level : Nat) (left right : String) (parts : List String) : String :=
  if parts.isEmpty then left ++ right
  else
    left ++ "\n" ++ ",\n".intercalate (parts.map (fun part => margin (level + 1) ++ part)) ++
      "\n" ++ margin level ++ right

mutual

/-- A value at a level.  A number without a value and a text without a value are written as
`null`. -/
def render (level : Nat) : Value → String
  | .null => "null"
  | .bool value => if value then "true" else "false"
  | .number value => (value.map Text.showNat).getD "null"
  | .text value => (value.map quote).getD "null"
  | .list items => bracket level "[" "]" (renderItems (level + 1) items)
  | .record fields => bracket level "\x7b" "\x7d" (renderFields (level + 1) fields)

/-- The items of a list at a level. -/
def renderItems (level : Nat) : List Value → List String
  | [] => []
  | item :: rest => render level item :: renderItems level rest

/-- The fields of a record at a level. -/
def renderFields (level : Nat) : List (Option String × Value) → List String
  | [] => []
  | (name, value) :: rest =>
    (quote (name.getD "") ++ ": " ++ render level value) :: renderFields level rest

end

/-- A value as text. -/
def Value.pretty (value : Value) : String :=
  render 0 value

end CodeAtlas.Json
