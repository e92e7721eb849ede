/-
# Reading patterns

The written form of patterns: alternatives, groups with and without numbers or names, repetitions,
sets in brackets with nesting and set operations, escapes, conditions on the place, and flags that
hold for the rest of a group.  Look-around and back references do not exist.
-/
import CodeAtlas.Regex.Pattern
import CodeAtlas.Regex.Property
import CodeAtlas.Text.Blank
import CodeAtlas.Text.Decimal
import CodeAtlas.Text.Split

namespace CodeAtlas.Regex

/-- The flags in force. -/
structure Flags where
  ignoreCase : Bool
  multiLine : Bool
  dotAll : Bool
  swapGreed : Bool
  unicode : Bool
  crlf : Bool
  verbose : Bool
deriving DecidableEq, Repr

namespace Flags

/-- The flags at the beginning of a pattern. -/
def initial : Flags :=
  ⟨false, false, false, false, true, false, false⟩

/-- Sets a flag by its letter. -/
def set? (flags : Flags) (letter : Char) (value : Bool) : Option Flags :=
  match letter with
  | 'i' => some { flags with ignoreCase := value }
  | 'm' => some { flags with multiLine := value }
  | 's' => some { flags with dotAll := value }
  | 'U' => some { flags with swapGreed := value }
  | 'u' => some { flags with unicode := value }
  | 'R' => some { flags with crlf := value }
  | 'x' => some { flags with verbose := value }
  | _ => none

end Flags

/-- What remains to be read, the number of groups so far and their names. -/
structure Cursor where
  rest : List Char
  groups : Nat
  names : List String

/-- Reading may fail. -/
abbrev Reader := StateT Cursor Option

namespace Reader

/-! ## Characters -/

/-- The next character. -/
def peek : Reader (Option Char) :=
  return (← get).rest.head?

/-- Reads the next character. -/
def take : Reader Char := do
  match (← get).rest with
  | [] => failure
  | c :: rest =>
    modify (fun cursor => { cursor with rest := rest })
    return c

/-- Reads a fixed text if it comes next. -/
def accept (lead : String) : Reader Bool := do
  match Text.afterLead? lead.toList (← get).rest with
  | some rest =>
    modify (fun cursor => { cursor with rest := rest })
    return true
  | none => return false

/-- Reads a fixed text. -/
def expect (lead : String) : Reader PUnit := do
  if !(← accept lead) then failure

/-- Reads the longest run of characters that satisfy `p`. -/
def run (p : Char → Bool) : Reader (List Char) := do
  let rest := (← get).rest
  modify (fun cursor => { cursor with rest := rest.dropWhile p })
  return rest.takeWhile p

/-- A text without the blanks and comments at its front; `inComment` tells whether it begins inside
a comment. -/
def dropSpace (inComment : Bool) : List Char → List Char
  | [] => []
  | c :: rest =>
    if inComment then dropSpace (c != '\n') rest
    else if Text.isBlank c then dropSpace false rest
    else if c == '#' then dropSpace true rest
    else c :: rest

/-- Skips blanks and comments where the flags say so. -/
def space (flags : Flags) : Reader PUnit := do
  if flags.verbose then modify (fun cursor => { cursor with rest := dropSpace false cursor.rest })

/-! ## Escapes -/

/-- What an escape or a single character stands for. -/
inductive Atom where
  | literal (c : Char)
  | set (set : CharSet)
  | look (look : Look)

/-- The characters that mean something in patterns. -/
def isMeta (c : Char) : Bool :=
  "\\.+*?()|[]\x7b\x7d^$#&-~".toList.contains c

/-- The characters that may be escaped without need: ASCII without letters, digits and angles. -/
def isEscapable (c : Char) : Bool :=
  isMeta c || (c.toNat < 128 && !c.isAlphanum && c != '<' && c != '>')

/-- The value of a hexadecimal digit. -/
def hexDigit? (c : Char) : Option Nat :=
  if c.isDigit then some (c.toNat - 48)
  else if 'a' ≤ c && c ≤ 'f' then some (c.toNat - 87)
  else if 'A' ≤ c && c ≤ 'F' then some (c.toNat - 55)
  else none

/-- The character whose code point has the given hexadecimal digits. -/
def hexChar (digits : List Char) : Reader Char := do
  if digits.isEmpty then failure
  match digits.mapM hexDigit? with
  | none => failure
  | some values =>
    let n := values.foldl (fun n digit => 16 * n + digit) 0
    if n.isValidChar then return Char.ofNat n else failure

/-- Reads `n` characters. -/
def takeMany : Nat → Reader (List Char)
  | 0 => return []
  | n + 1 => return (← take) :: (← takeMany n)

/-- Reads a code point: in braces, or in `width` digits.  Without Unicode two digits stand for a byte,
which is a character only in ASCII. -/
def codePoint (flags : Flags) (width : Nat) : Reader Char := do
  space flags
  if ← accept "\x7b" then
    let digits ← run (· != '\x7d')
    expect "\x7d"
    hexChar (if flags.verbose then digits.filter (fun c => !Text.isBlank c) else digits)
  else
    let c ← hexChar (← takeMany width)
    if width = 2 && !flags.unicode && 128 ≤ c.toNat then failure
    return c

/-- The set of a letter such as `d`; its capital stands for the complement. -/
def letterSet? (flags : Flags) (letter : Char) : Option CharSet :=
  let choose := fun (full ascii : CharSet) => if flags.unicode then full else ascii
  match letter with
  | 'd' => some (choose isDecimal Char.isDigit)
  | 's' => some (choose Text.isBlank (fun c => c.toNat < 128 && Text.isBlank c))
  | 'w' => some (choose isWord isAsciiWord)
  | _ => none

/-- The control character of a letter. -/
def control? : Char → Option Char
  | 'a' => some '\x07'
  | 'f' => some '\x0c'
  | 't' => some '\t'
  | 'n' => some '\n'
  | 'r' => some '\r'
  | 'v' => some '\x0b'
  | _ => none

/-- Reads what follows `\b`: a word edge or one of its variants. -/
def wordEdge (flags : Flags) (isWord : CharSet) : Reader Look := do
  let cursor ← get
  if ← accept "\x7b" then
    space flags
    match ← peek with
    | none => failure
    | some c =>
      if c.isAlpha || c == '-' then
        let name ← run (fun c => c.isAlpha || c == '-' || (flags.verbose && Text.isBlank c))
        expect "\x7d"
        match String.ofList (name.filter (fun c => !Text.isBlank c)) with
        | "start" => return .wordStart isWord
        | "end" => return .wordEnd isWord
        | "start-half" => return .wordStartHalf isWord
        | "end-half" => return .wordEndHalf isWord
        | _ => failure
      else
        set cursor
        return .wordEdge isWord
  else return .wordEdge isWord

/-- The complement of a set of characters.  Without Unicode a complement would match parts of
characters, so there is none. -/
def complement (flags : Flags) (a : CharSet) : Reader CharSet :=
  if flags.unicode then return a.compl else failure

/-- The complement of a set, or the set itself. -/
def complementIf (flags : Flags) (negated : Bool) (a : CharSet) : Reader CharSet :=
  if negated then complement flags a else return a

/-- Reads the name of a property, after the letter that announces it: a single letter, or a text in
braces.  A negated property is the complement of its set with case taken into account. -/
def property (flags : Flags) (negated : Bool) : Reader CharSet := do
  if !flags.unicode then failure
  space flags
  let (set, isUnequal) ←
    if ← accept "\x7b" then
      let text ← run (· != '\x7d')
      expect "\x7d"
      (braceSet? (if flags.verbose then text.filter (fun c => !Text.isBlank c) else text) : Option _)
    else
      let letter ← take
      (((propertySet? letter.toString).map (·, false)) : Option _)
  let set := if flags.ignoreCase then set.ignoringCase else set
  return if negated != isUnequal then set.compl else set

/-- Reads an escape, after its backslash. -/
def escape (flags : Flags) : Reader Atom := do
  let c ← take
  let isWord := if flags.unicode then isWord else isAsciiWord
  match c with
  | 'x' => return .literal (← codePoint flags 2)
  | 'u' => return .literal (← codePoint flags 4)
  | 'U' => return .literal (← codePoint flags 8)
  | 'p' => return .set (← property flags false)
  | 'P' => return .set (← property flags true)
  | 'A' => return .look .textStart
  | 'z' => return .look .textEnd
  | 'b' => return .look (← wordEdge flags isWord)
  | 'B' => if flags.unicode then return .look (.noWordEdge isWord) else failure
  | '<' => return .look (.wordStart isWord)
  | '>' => return .look (.wordEnd isWord)
  | c =>
    if isEscapable c then return .literal c
    else
      match letterSet? flags c, letterSet? flags c.toLower, control? c with
      | some set, _, _ => return .set set
      | none, some set, _ => return .set (← complement flags set)
      | none, none, some control => return .literal control
      | none, none, none => failure

/-! ## Sets -/

/-- The ASCII classes, by name. -/
def namedSet? : String → Option CharSet
  | "alnum" => some Char.isAlphanum
  | "alpha" => some Char.isAlpha
  | "ascii" => some (fun c => c.toNat < 128)
  | "blank" => some (fun c => c == '\t' || c == ' ')
  | "cntrl" => some (fun c => c.toNat < 32 || c.toNat == 127)
  | "digit" => some Char.isDigit
  | "graph" => some (fun c => 33 ≤ c.toNat && c.toNat ≤ 126)
  | "lower" => some Char.isLower
  | "print" => some (fun c => 32 ≤ c.toNat && c.toNat ≤ 126)
  | "punct" => some (fun c => 33 ≤ c.toNat && c.toNat ≤ 126 && !c.isAlphanum)
  | "space" => some (fun c => c.toNat < 128 && Text.isBlank c)
  | "upper" => some Char.isUpper
  | "word" => some isAsciiWord
  | "xdigit" => some (fun c => (hexDigit? c).isSome)
  | _ => none

/-- Reads an ASCII class such as `[:alpha:]`, if one comes next. -/
def asciiClass (flags : Flags) : Reader (Option CharSet) := do
  let cursor ← get
  if ← accept "[:" then
    let negated ← accept "^"
    let name ← run (· != ':')
    if ← accept ":]" then
      match namedSet? (String.ofList name) with
      | some set => return some (← complementIf flags negated set)
      | none =>
        set cursor
        return none
    else
      set cursor
      return none
  else return none

/-- The operations between sets. -/
inductive SetOp where
  | inter
  | diff
  | symmDiff
deriving DecidableEq, Repr

/-- Applies an operation. -/
def SetOp.apply : SetOp → CharSet → CharSet → CharSet
  | inter => CharSet.inter
  | diff => CharSet.diff
  | symmDiff => CharSet.symmDiff

/-- A set in brackets while it is read: the operation that waits for its right side, with its left
side, and the union of the items since. -/
structure SetState where
  pending : Option (CharSet × SetOp)
  union : CharSet
  isFresh : Bool

/-- The empty set. -/
def noChars : CharSet := fun _ => false

namespace SetState

/-- Nothing has been read. -/
def start : SetState :=
  ⟨none, noChars, true⟩

/-- Adds the characters of a set. -/
def add (state : SetState) (set : CharSet) : SetState :=
  { state with union := state.union.union set, isFresh := false }

/-- What has been read, as one set. -/
def value (state : SetState) : CharSet :=
  match state.pending with
  | some (left, op) => op.apply left state.union
  | none => state.union

/-- Starts the right side of an operation. -/
def operate (state : SetState) (op : SetOp) : SetState :=
  ⟨some (state.value, op), noChars, false⟩

end SetState

/-- A set with case ignored where the flags say so. -/
def withCase (flags : Flags) (set : CharSet) : CharSet :=
  if !flags.ignoreCase then set
  else if flags.unicode then set.ignoringCase
  else set.ignoringAsciiCase

/-- Reads one character or escape of a set.  Without Unicode a set holds ASCII characters only. -/
def setAtom (flags : Flags) : Reader Atom := do
  let atom ← match ← take with
    | '\\' => escape flags
    | c => pure (.literal c)
  match atom with
  | .literal c => if flags.unicode || c.toNat < 128 then return atom else failure
  | _ => return atom

/-- The set of an item; conditions on the place are no items. -/
def atomSet : Atom → Reader CharSet
  | .literal c => return .single c
  | .set set => return set
  | .look _ => failure

/-- Whether a range follows: a hyphen that no bracket and no hyphen follows. -/
def rangeFollows (flags : Flags) : Reader Bool := do
  match (← get).rest with
  | '-' :: rest =>
    match (if flags.verbose then dropSpace false rest else rest).head? with
    | some c => return c != ']' && c != '-'
    | none => failure
  | [] => failure
  | _ => return false

/-- Reads an item of a set: a character, an escape or a range. -/
def setItem (flags : Flags) : Reader CharSet := do
  let first ← setAtom flags
  space flags
  if ← rangeFollows flags then
    expect "-"
    space flags
    match first, ← setAtom flags with
    | .literal low, .literal high =>
      if low ≤ high then return .range low high else failure
    | _, _ => failure
  else atomSet first

/-- Reads hyphens and a closing bracket at the beginning of a set as they are. -/
def setStart (flags : Flags) : Reader SetState := do
  space flags
  let hyphens ← run (· == '-')
  let state := if hyphens.isEmpty then SetState.start else SetState.start.add (.single '-')
  space flags
  if state.isFresh && (← accept "]") then return state.add (.single ']') else return state

/-- Reads the items of a set up to its closing bracket; each step reads something, and there are at
most `fuel` steps. -/
def setItems (flags : Flags) : Nat → SetState → Reader CharSet
  | 0, _ => failure
  | fuel + 1, state => do
    space flags
    if ← accept "]" then return state.value
    else if ← accept "&&" then setItems flags fuel (state.operate .inter)
    else if ← accept "--" then setItems flags fuel (state.operate .diff)
    else if ← accept "~~" then setItems flags fuel (state.operate .symmDiff)
    else
      match ← asciiClass flags with
      | some set => setItems flags fuel (state.add (withCase flags set))
      | none =>
        if ← accept "[" then
          let negated ← accept "^"
          let inner ← setItems flags fuel (← setStart flags)
          setItems flags fuel (state.add (← complementIf flags negated inner))
        else setItems flags fuel (state.add (withCase flags (← setItem flags)))

/-- Reads a set, after its opening bracket. -/
def bracketSet (flags : Flags) (fuel : Nat) : Reader CharSet := do
  let negated ← accept "^"
  complementIf flags negated (← setItems flags fuel (← setStart flags))

/-! ## Repetitions -/

/-- The largest count of a repetition, plus one. -/
def countBound : Nat := Text.bound32

/-- Reads a decimal number with blanks around it. -/
def count : Reader (Option Nat) := do
  discard (run Text.isBlank)
  let digits ← run Char.isDigit
  discard (run Text.isBlank)
  if digits.isEmpty then return none
  match Text.readDigits? countBound digits with
  | some n => return some n
  | none => failure

/-- Reads the bounds of a counted repetition, after its opening brace. -/
def bounds (flags : Flags) : Reader (Nat × Option Nat) := do
  space flags
  match ← count with
  | none => failure
  | some min =>
    if ← accept "," then
      space flags
      if ← accept "\x7d" then return (min, none)
      else
        match ← count with
        | none => failure
        | some max =>
          expect "\x7d"
          if min ≤ max then return (min, some max) else failure
    else
      expect "\x7d"
      return (min, some min)

/-- Reads the bounds of a repetition, if an operator comes next. -/
def repetition (flags : Flags) : Reader (Option (Nat × Option Nat)) := do
  if ← accept "*" then return some (0, none)
  else if ← accept "+" then return some (1, none)
  else if ← accept "?" then return some (0, some 1)
  else if ← accept "\x7b" then return some (← bounds flags)
  else return none

/-! ## Groups -/

/-- The characters a group name may begin with. -/
def startsGroupName (c : Char) : Bool :=
  c == '_' || (isWord c && !isDecimal c)

/-- The characters a group name may hold. -/
def isGroupNameChar (c : Char) : Bool :=
  isWord c || c == '.' || c == '[' || c == ']'

/-- Reads the name of a group and the angle behind it; no two groups have the same name. -/
def groupName : Reader PUnit := do
  let name ← run isGroupNameChar
  expect ">"
  let known := (← get).names
  if name.head?.any startsGroupName && !known.contains (String.ofList name) then
    modify (fun cursor => { cursor with names := String.ofList name :: known })
  else failure

/-- Reads the letters of a group of flags; `seen` holds those read, and `value` turns false behind a
hyphen. -/
def flagLetters : Nat → Flags → List Char → Bool → Reader Flags
  | 0, _, _, _ => failure
  | fuel + 1, flags, seen, value => do
    match ← peek with
    | none => failure
    | some ')' => if seen.head? == some '-' then failure else return flags
    | some ':' => if seen.head? == some '-' then failure else return flags
    | some c =>
      discard take
      if seen.contains c then failure
      else if c == '-' then flagLetters fuel flags (c :: seen) false
      else
        match flags.set? c value with
        | some flags => flagLetters fuel flags (c :: seen) value
        | none => failure

/-- What an opening parenthesis opens. -/
inductive Opening where
  | numbered (index : Nat)
  | plain (flags : Flags)
  /-- Flags for the rest of the surrounding group. -/
  | switch (flags : Flags)

/-- Gives the next group its number. -/
def nextGroup : Reader Nat := do
  let index := (← get).groups + 1
  modify (fun cursor => { cursor with groups := index })
  return index

/-- Reads what follows an opening parenthesis. -/
def opening (flags : Flags) : Reader Opening := do
  space flags
  let fuel := (← get).rest.length + 1
  if (← accept "?=") || (← accept "?!") || (← accept "?<=") || (← accept "?<!") then failure
  else if (← accept "?P<") || (← accept "?<") then
    let index ← nextGroup
    groupName
    return .numbered index
  else if ← accept "?" then
    let isBare := (← peek) == some ')'
    let inner ← flagLetters fuel flags [] true
    if isBare then failure
    else if ← accept ")" then return .switch inner
    else
      expect ":"
      return .plain inner
  else return .numbered (← nextGroup)

/-! ## Patterns -/

/-- The set of all characters but line breaks, as far as the flags make a difference. -/
def dot (flags : Flags) : Reader CharSet := do
  if !flags.unicode then failure
  else if flags.dotAll then return fun _ => true
  else if flags.crlf then return fun c => c != '\n' && c != '\r'
  else return fun c => c != '\n'

/-- The pattern of a single character, escape or condition. -/
def atomPattern (flags : Flags) : Atom → Pattern
  | .literal c => .chars (withCase flags (.single c))
  | .set set => .chars set
  | .look look => .look look

/-- The condition of a caret. -/
def caret (flags : Flags) : Look :=
  if !flags.multiLine then .textStart else if flags.crlf then .breakStart else .lineStart

/-- The condition of a dollar sign. -/
def dollar (flags : Flags) : Look :=
  if !flags.multiLine then .textEnd else if flags.crlf then .breakEnd else .lineEnd

/-- Reads what is neither a group, an alternative nor a repetition. -/
def primitive (flags : Flags) (fuel : Nat) : Reader Pattern := do
  match ← take with
  | '\\' => return atomPattern flags (← escape flags)
  | '.' => return .chars (← dot flags)
  | '^' => return .look (caret flags)
  | '$' => return .look (dollar flags)
  | '[' => return .chars (← bracketSet flags fuel)
  | c => return atomPattern flags (.literal c)

/-- The alternatives read so far, latest first: the items of the current one, of which a change of
flags has no pattern, and the ones before it. -/
structure Branches where
  items : List (Option Pattern)
  done : List Pattern

namespace Branches

/-- Nothing has been read. -/
def start : Branches :=
  ⟨[], []⟩

/-- Adds an item to the current alternative. -/
def add (branches : Branches) (item : Option Pattern) : Branches :=
  { branches with items := item :: branches.items }

/-- The pattern of the current alternative. -/
def current (branches : Branches) : Pattern :=
  .sequence (branches.items.reverse.filterMap (fun item => item))

/-- Starts the next alternative. -/
def next (branches : Branches) : Branches :=
  ⟨[], branches.current :: branches.done⟩

/-- The pattern of all alternatives. -/
def pattern (branches : Branches) : Pattern :=
  .choice (branches.current :: branches.done).reverse

/-- Repeats the last item. -/
def repeatLast (branches : Branches) (min : Nat) (max : Option Nat) (greedy : Bool) :
    Option Branches :=
  match branches.items with
  | some last :: rest => some { branches with items := some (last.repeated min max greedy) :: rest }
  | _ => none

end Branches

/-- Reads alternatives up to a closing parenthesis or the end; each step reads something, and there
are at most `fuel` steps. -/
def alternatives : Nat → Flags → Branches → Reader Pattern
  | 0, _, _ => failure
  | fuel + 1, flags, branches => do
    space flags
    match ← peek with
    | none => return branches.pattern
    | some ')' => return branches.pattern
    | some _ =>
      if ← accept "|" then alternatives fuel flags branches.next
      else if ← accept "(" then
        match ← opening flags with
        | .switch inner => alternatives fuel inner (branches.add none)
        | .numbered index =>
          let inner ← alternatives fuel flags .start
          expect ")"
          alternatives fuel flags (branches.add (some (.group index inner)))
        | .plain innerFlags =>
          let inner ← alternatives fuel innerFlags .start
          expect ")"
          alternatives fuel flags (branches.add (some inner))
      else
        match ← repetition flags with
        | some (min, max) =>
          let lazy ← accept "?"
          match branches.repeatLast min max (lazy == flags.swapGreed) with
          | some branches => alternatives fuel flags branches
          | none => failure
        | none => alternatives fuel flags (branches.add (some (← primitive flags fuel)))

end Reader

/-- Reads a pattern; none when its written form is wrong. -/
def Pattern.ofText? (text : String) : Option Pattern :=
  let input := text.toList
  match Reader.alternatives (2 * input.length + 2) .initial .start ⟨input, 0, []⟩ with
  | some (pattern, cursor) => if cursor.rest.isEmpty then some pattern else none
  | none => none

end CodeAtlas.Regex
