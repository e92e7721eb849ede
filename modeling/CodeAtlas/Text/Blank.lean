/-
# Blank characters, trimming and words

Every reader of the library skips blanks in the same sense: a character is blank when Unicode
gives it the property `White_Space`.  Texts are handled as lists of characters inside the
library and as `String` at its edges.
-/

namespace CodeAtlas.Text

/-- The characters with the Unicode property `White_Space`. -/
def isBlank (c : Char) : Bool :=
  let n := c.toNat
  (9 ≤ n && n ≤ 13) || n == 0x20 || n == 0x85 || n == 0xA0 || n == 0x1680 ||
    (0x2000 ≤ n && n ≤ 0x200A) || n == 0x2028 || n == 0x2029 || n == 0x202F ||
    n == 0x205F || n == 0x3000

/-- A text without the blanks at its front. -/
def trimFront (s : List Char) : List Char :=
  s.dropWhile isBlank

/-- A text without the blanks at its back. -/
def trimBack (s : List Char) : List Char :=
  (s.reverse.dropWhile isBlank).reverse

/-- A text without the blanks at either end. -/
def trimBlanks (s : List Char) : List Char :=
  trimBack (trimFront s)

/-- A string without the blanks at either end. -/
def trim (s : String) : String :=
  String.ofList (trimBlanks s.toList)

/-- A string that holds nothing but blanks. -/
def allBlank (s : String) : Bool :=
  s.toList.all isBlank

/-- A string with every blank taken out. -/
def dropBlanks (s : String) : String :=
  String.ofList (s.toList.filter (fun c => !isBlank c))

/-! ## Words -/

/-- Puts a finished run of characters in front of the runs behind it, unless it is empty. -/
def consRun (run : List Char) (runs : List (List Char)) : List (List Char) :=
  if run.isEmpty then runs else run :: runs

/-- One step of the scan from the right: the run that is being read and the finished runs. -/
def wordStep (c : Char) (state : List Char × List (List Char)) :
    List Char × List (List Char) :=
  if isBlank c then ([], consRun state.1 state.2) else (c :: state.1, state.2)

/-- The maximal runs of characters that are not blank. -/
def wordsOf (s : List Char) : List (List Char) :=
  let state := s.foldr wordStep ([], [])
  consRun state.1 state.2

/-- The words of a string, in order. -/
def words (s : String) : List String :=
  (wordsOf s.toList).map String.ofList

/-- A blank in front adds no word. -/
theorem wordsOf_cons_blank {c : Char} (s : List Char) (h : isBlank c = true) :
    wordsOf (c :: s) = wordsOf s := by
  simp [wordsOf, wordStep, h, consRun]

end CodeAtlas.Text
