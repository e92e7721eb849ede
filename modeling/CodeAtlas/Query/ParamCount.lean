/-
# Parameter counts

A constraint on a number of parameters is written `=N`, `<=N` or `>=N`, where `N` is a 64-bit
number in ASCII digits.
-/
import CodeAtlas.Text.Blank
import CodeAtlas.Text.Decimal
import CodeAtlas.Text.Split

namespace CodeAtlas

/-- How a number is compared with the bound. -/
inductive CountOp where
  | eq
  | le
  | ge
deriving DecidableEq, Repr

/-- A constraint on a number of parameters. -/
structure ParamCount where
  op : CountOp
  count : Nat
deriving DecidableEq, Repr

namespace ParamCount

/-- Reads an operator; the second part is what follows it. -/
def readOp? : List Char → Option (CountOp × List Char)
  | '<' :: '=' :: rest => some (.le, rest)
  | '>' :: '=' :: rest => some (.ge, rest)
  | '=' :: rest => some (.eq, rest)
  | _ => none

/-- Reads a constraint without blanks around it. -/
def ofChars? (text : List Char) : Option ParamCount :=
  match readOp? text with
  | none => none
  | some (op, digits) => (Text.readDigits? Text.bound64 digits).map (fun count => ⟨op, count⟩)

/-- Reads a constraint; blanks around it are ignored. -/
def ofText? (text : String) : Option ParamCount :=
  ofChars? (Text.trimBlanks text.toList)

/-- The text of an operator. -/
def opText : CountOp → String
  | .eq => "="
  | .le => "<="
  | .ge => ">="

/-- The text of a constraint. -/
def text (constraint : ParamCount) : String :=
  opText constraint.op ++ Text.showNat constraint.count

/-- Whether a number satisfies a constraint. -/
def accepts (constraint : ParamCount) (n : Nat) : Bool :=
  match constraint.op with
  | .eq => n == constraint.count
  | .le => n ≤ constraint.count
  | .ge => constraint.count ≤ n

end ParamCount

end CodeAtlas
