/-
# Decimal numbers

Unsigned numbers are written in decimal without leading zeros.  They are read more freely: a
plus sign may stand in front and leading zeros are skipped, but only ASCII digits count and the
value has to stay below a bound given by the reader.
-/

namespace CodeAtlas.Text

/-- The value of a digit. -/
def digitValue (c : Char) : Nat :=
  c.toNat - 48

/-- The value of a run of digits, most significant first. -/
def digitsValue (digits : List Char) : Nat :=
  digits.foldl (fun n c => 10 * n + digitValue c) 0

/-- Reads one or more ASCII digits whose value lies below `bound`. -/
def readDigits? (bound : Nat) (digits : List Char) : Option Nat :=
  if digits.isEmpty || !digits.all Char.isDigit then none
  else
    let n := digitsValue digits
    if n < bound then some n else none

/-- Reads a number below `bound`, with an optional plus sign in front. -/
def readNatBelow? (bound : Nat) (s : String) : Option Nat :=
  match s.toList with
  | '+' :: digits => readDigits? bound digits
  | digits => readDigits? bound digits

/-- The number of values of a 32-bit word. -/
def bound32 : Nat := 4294967296

/-- The number of values of a 64-bit word. -/
def bound64 : Nat := 18446744073709551616

/-- Reads a 32-bit number. -/
def readWord32? (s : String) : Option UInt32 :=
  (readNatBelow? bound32 s).map Nat.toUInt32

/-- Reads a 64-bit number. -/
def readWord64? (s : String) : Option Nat :=
  readNatBelow? bound64 s

/-- The decimal text of a number. -/
def showNat (n : Nat) : String :=
  String.ofList (Nat.toDigits 10 n)

/-- The decimal text of a 32-bit number. -/
def showWord32 (n : UInt32) : String :=
  showNat n.toNat

end CodeAtlas.Text
