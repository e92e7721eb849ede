/-
# JSON tokens

Words, numbers, quoted texts and punctuation, with white space between them.  A quoted text may
name UTF-16 units; one that leaves half of a pair alone has no value.
-/
import CodeAtlas.Text.Decimal

namespace CodeAtlas.Json

/-- A piece of a JSON text. -/
inductive Token where
  | null
  | bool (value : Bool)
  /-- A number; it has a value when it is written with digits alone. -/
  | number (value : Option Nat)
  /-- A quoted text; it has a value when its surrogates are paired. -/
  | text (value : Option String)
  | openList
  | closeList
  | openRecord
  | closeRecord
  | comma
  | colon
deriving DecidableEq, Repr

/-- Whether a character may stand between tokens. -/
def isSpace (c : Char) : Bool :=
  c == ' ' || c == '\n' || c == '\t' || c == '\r'

/-! ## Numbers -/

/-- Whether a character can be part of a number. -/
def isNumberChar (c : Char) : Bool :=
  c.isDigit || c == '-' || c == '+' || c == '.' || c == 'e' || c == 'E'

/-- Whether digits are written without a leading zero. -/
def isWhole : List Char → Bool
  | [] => false
  | ['0'] => true
  | '0' :: _ => false
  | digits => digits.all Char.isDigit

/-- Whether a list holds digits, at least one. -/
def isDigits (s : List Char) : Bool :=
  !s.isEmpty && s.all Char.isDigit

/-- Drops a sign. -/
def dropSign : List Char → List Char
  | '-' :: rest => rest
  | '+' :: rest => rest
  | s => s

/-- Whether a list is what follows the whole part of a number: a fraction and an exponent, either
of which may be missing. -/
def isNumberTail (s : List Char) : Bool :=
  let isExponent : List Char → Bool
    | [] => true
    | c :: rest => (c == 'e' || c == 'E') && isDigits (dropSign rest)
  match s with
  | '.' :: rest => isDigits (rest.takeWhile Char.isDigit) && isExponent (rest.dropWhile Char.isDigit)
  | s => isExponent s

/-- The token of a number. -/
def numberToken? (s : List Char) : Option Token :=
  let unsigned := match s with
    | '-' :: rest => rest
    | s => s
  let whole := unsigned.takeWhile Char.isDigit
  if isWhole whole && isNumberTail (unsigned.dropWhile Char.isDigit) then
    some (.number (if whole == s then some (Text.digitsValue s) else none))
  else none

/-! ## Quoted texts -/

/-- The character that a letter stands for behind a backslash. -/
def escaped? : Char → Option Char
  | '"' => some '"'
  | '\\' => some '\\'
  | '/' => some '/'
  | 'b' => some '\x08'
  | 'f' => some '\x0c'
  | 'n' => some '\n'
  | 'r' => some '\r'
  | 't' => some '\t'
  | _ => none

/-- The value of a hexadecimal digit. -/
def hexDigit? (c : Char) : Option Nat :=
  if c.isDigit then some (c.toNat - '0'.toNat)
  else if 'a' ≤ c && c ≤ 'f' then some (c.toNat - 'a'.toNat + 10)
  else if 'A' ≤ c && c ≤ 'F' then some (c.toNat - 'A'.toNat + 10)
  else none

/-- The UTF-16 unit of four hexadecimal digits. -/
def unit? (a b c d : Char) : Option Nat :=
  match hexDigit? a, hexDigit? b, hexDigit? c, hexDigit? d with
  | some a, some b, some c, some d => some (((a * 16 + b) * 16 + c) * 16 + d)
  | _, _, _, _ => none

/-- A piece of a quoted text: a character, or a UTF-16 unit that is named. -/
inductive Piece where
  | char (c : Char)
  | unit (value : Nat)

/-- The pieces of a quoted text up to its closing quote, with what follows that quote. -/
def quoted? : List Char → Option (List Piece × List Char)
  | [] => none
  | '"' :: rest => some ([], rest)
  | '\\' :: 'u' :: a :: b :: c :: d :: rest =>
    match unit? a b c d with
    | none => none
    | some unit => (quoted? rest).map (fun (pieces, after) => (.unit unit :: pieces, after))
  | '\\' :: c :: rest =>
    match escaped? c with
    | none => none
    | some c => (quoted? rest).map (fun (pieces, after) => (.char c :: pieces, after))
  | c :: rest =>
    if c == '\\' || c.toNat < 0x20 then none
    else (quoted? rest).map (fun (pieces, after) => (.char c :: pieces, after))

/-- What follows the closing quote is shorter than what follows the opening one. -/
theorem length_lt_of_quoted? {s rest : List Char} {pieces : List Piece}
    (h : quoted? s = some (pieces, rest)) : rest.length < s.length := by
  fun_induction quoted? s generalizing pieces with
  | case1 => simp at h
  | case2 rest =>
    simp only [Option.some.injEq, Prod.mk.injEq] at h
    simp [h.2]
  | case3 => simp at h
  | case4 a b c d rest unit hunit ih =>
    obtain ⟨⟨more, after⟩, hmore, heq⟩ := Option.map_eq_some_iff.1 h
    simp only [Prod.mk.injEq] at heq
    have := ih (heq.2 ▸ hmore)
    simp only [List.length_cons]
    omega
  | case5 => simp at h
  | case6 c rest _ c' hc ih =>
    obtain ⟨⟨more, after⟩, hmore, heq⟩ := Option.map_eq_some_iff.1 h
    simp only [Prod.mk.injEq] at heq
    have := ih (heq.2 ▸ hmore)
    simp only [List.length_cons]
    omega
  | case7 => simp at h
  | case8 c rest _ _ _ hc ih =>
    obtain ⟨⟨more, after⟩, hmore, heq⟩ := Option.map_eq_some_iff.1 h
    simp only [Prod.mk.injEq] at heq
    have := ih (heq.2 ▸ hmore)
    simp only [List.length_cons]
    omega

/-- Whether a unit is the first half of a pair. -/
def isHighHalf (unit : Nat) : Bool :=
  0xD800 ≤ unit && unit < 0xDC00

/-- Whether a unit is the second half of a pair. -/
def isLowHalf (unit : Nat) : Bool :=
  0xDC00 ≤ unit && unit < 0xE000

/-- The characters that pieces spell; none when half of a pair stands alone. -/
def spell : List Piece → Option (List Char)
  | [] => some []
  | .char c :: rest => (spell rest).map (c :: ·)
  | .unit high :: .unit low :: rest =>
    if isHighHalf high then
      if isLowHalf low then
        (spell rest).map (Char.ofNat (0x10000 + (high - 0xD800) * 0x400 + (low - 0xDC00)) :: ·)
      else none
    else if isLowHalf high then none
    else (spell (.unit low :: rest)).map (Char.ofNat high :: ·)
  | .unit unit :: rest =>
    if isHighHalf unit || isLowHalf unit then none
    else (spell rest).map (Char.ofNat unit :: ·)

/-! ## All tokens -/

/-- The token that begins with a character, given what follows it, and what follows the token. -/
def token? (c : Char) (rest : List Char) : Option (Token × { after : List Char // after.length ≤ rest.length }) :=
  match c, rest with
  | '[', rest => some (.openList, ⟨rest, Nat.le_refl _⟩)
  | ']', rest => some (.closeList, ⟨rest, Nat.le_refl _⟩)
  | '\x7b', rest => some (.openRecord, ⟨rest, Nat.le_refl _⟩)
  | '\x7d', rest => some (.closeRecord, ⟨rest, Nat.le_refl _⟩)
  | ',', rest => some (.comma, ⟨rest, Nat.le_refl _⟩)
  | ':', rest => some (.colon, ⟨rest, Nat.le_refl _⟩)
  | 'n', 'u' :: 'l' :: 'l' :: rest => some (.null, ⟨rest, by simp only [List.length_cons]; omega⟩)
  | 't', 'r' :: 'u' :: 'e' :: rest =>
    some (.bool true, ⟨rest, by simp only [List.length_cons]; omega⟩)
  | 'f', 'a' :: 'l' :: 's' :: 'e' :: rest =>
    some (.bool false, ⟨rest, by simp only [List.length_cons]; omega⟩)
  | '"', rest =>
    match h : quoted? rest with
    | none => none
    | some (pieces, after) =>
      some (.text ((spell pieces).map String.ofList),
        ⟨after, Nat.le_of_lt (length_lt_of_quoted? h)⟩)
  | c, rest =>
    if isNumberChar c then
      (numberToken? (c :: rest.takeWhile isNumberChar)).map fun token =>
        (token, ⟨rest.dropWhile isNumberChar, (List.dropWhile_suffix _).length_le⟩)
    else none

/-- The tokens of a text. -/
def tokens? : List Char → Option (List Token)
  | [] => some []
  | c :: rest =>
    if isSpace c then tokens? rest
    else
      match token? c rest with
      | none => none
      | some (token, ⟨after, _⟩) => (tokens? after).map (token :: ·)
termination_by s => s.length
decreasing_by all_goals simp only [List.length_cons]; omega

end CodeAtlas.Json
