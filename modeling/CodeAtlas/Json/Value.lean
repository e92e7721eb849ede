/-
# JSON values

Reading a text as one value, and writing a value over several lines.
-/
import CodeAtlas.Json.Token
import CodeAtlas.Text.Split

namespace CodeAtlas.Json

/-- A JSON value.  Numbers and texts have a value as their tokens have; records keep the order and
the repetitions of their fields. -/
inductive Value where
  | null
  | bool (value : Bool)
  | number (value : Option Nat)
  | text (value : Option String)
  | list (items : List Value)
  | record (fields : List (Option String × Value))

namespace Value

/-- A number. -/
def ofNat (n : Nat) : Value :=
  number (some n)

/-- A text. -/
def ofString (s : String) : Value :=
  text (some s)

/-- A record with the given fields. -/
def ofFields (fields : List (String × Value)) : Value :=
  record (fields.map (fun (name, value) => (some name, value)))

/-- A value of a truth value. -/
def bool? : Value → Option Bool
  | bool value => some value
  | _ => none

/-- A number written with digits alone, below a bound. -/
def natBelow? (bound : Nat) : Value → Option Nat
  | number (some n) => if n < bound then some n else none
  | _ => none

/-- The content of a text. -/
def text? : Value → Option String
  | text value => value
  | _ => none

/-- The texts of a list of texts. -/
def texts? : Value → Option (List String)
  | list items => items.mapM text?
  | _ => none

end Value

/-! ## Reading -/

/-- A list or a record that is still open, with what it holds so far, latest first. -/
inductive Frame where
  | list (items : List Value)
  /-- The name belongs to the value that is read next. -/
  | record (fields : List (Option String × Value)) (name : Option String)

/-- What may come next. -/
inductive Expect where
  | value
  | valueOrClose
  | name (fields : List (Option String × Value))
  | nameOrClose
  | colon (fields : List (Option String × Value)) (name : Option String)
  /-- A value is complete: a separator, or the end of what is open. -/
  | next (value : Value)

/-- Begins a value. -/
def beginValue (stack : List Frame) : Token → Option (List Frame × Expect)
  | .null => some (stack, .next .null)
  | .bool value => some (stack, .next (.bool value))
  | .number value => some (stack, .next (.number value))
  | .text value => some (stack, .next (.text value))
  | .openList => some (stack, .valueOrClose)
  | .openRecord => some (stack, .nameOrClose)
  | _ => none

/-- Goes on behind a complete value. -/
def afterValue (value : Value) : List Frame → Token → Option (List Frame × Expect)
  | .list items :: stack, .comma => some (.list (value :: items) :: stack, .value)
  | .list items :: stack, .closeList => some (stack, .next (.list (items.reverse ++ [value])))
  | .record fields name :: stack, .comma => some (stack, .name ((name, value) :: fields))
  | .record fields name :: stack, .closeRecord =>
    some (stack, .next (.record (fields.reverse ++ [(name, value)])))
  | _, _ => none

/-- Takes a token. -/
def step : List Frame × Expect → Token → Option (List Frame × Expect)
  | (stack, .value), token => beginValue stack token
  | (stack, .valueOrClose), token =>
    if token = .closeList then some (stack, .next (.list []))
    else beginValue (.list [] :: stack) token
  | (stack, .nameOrClose), .closeRecord => some (stack, .next (.record []))
  | (stack, .nameOrClose), .text name => some (stack, .colon [] name)
  | (stack, .name fields), .text name => some (stack, .colon fields name)
  | (stack, .colon fields name), .colon => some (.record fields name :: stack, .value)
  | (stack, .next value), token => afterValue value stack token
  | _, _ => none

/-- The value that a text holds; nothing but white space may stand around it. -/
def read? (text : String) : Option Value :=
  match (tokens? text.toList).bind (fun tokens => tokens.foldlM step ([], .value)) with
  | some ([], .next value) => some value
  | _ => none
end CodeAtlas.Json
