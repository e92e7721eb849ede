/-
# Cutting texts

Cutting a text at a character, at a fixed beginning or ending, into lines and at byte offsets.
All cuts are functions on lists of characters; the string forms follow them.
-/

namespace CodeAtlas.Text

/-! ## At a character -/

/-- The part before the first character that satisfies `p` and the part after it. -/
def cutFirst (p : Char → Bool) : List Char → Option (List Char × List Char)
  | [] => none
  | c :: rest =>
    if p c then some ([], rest)
    else (cutFirst p rest).map (fun cut => (c :: cut.1, cut.2))

/-- The part before the last character that satisfies `p` and the part after it. -/
def cutLast (p : Char → Bool) (s : List Char) : Option (List Char × List Char) :=
  (cutFirst p s.reverse).map (fun cut => (cut.2.reverse, cut.1.reverse))

/-- One step of the scan from the right: the piece that is being read and the pieces after it. -/
def pieceStep (p : Char → Bool) (c : Char) (state : List Char × List (List Char)) :
    List Char × List (List Char) :=
  if p c then ([], state.1 :: state.2) else (c :: state.1, state.2)

/-- All pieces between the characters that satisfy `p`, empty ones included. -/
def pieces (p : Char → Bool) (s : List Char) : List (List Char) :=
  let state := s.foldr (pieceStep p) ([], [])
  state.1 :: state.2

/-- The pieces of a string between the occurrences of `sep`. -/
def splitOn (sep : Char) (s : String) : List String :=
  (pieces (· == sep) s.toList).map String.ofList

/-- `splitOnce sep s` cuts `s` at the first `sep`. -/
def splitOnce (sep : Char) (s : String) : Option (String × String) :=
  (cutFirst (· == sep) s.toList).map (fun cut => (String.ofList cut.1, String.ofList cut.2))

/-- `splitLast sep s` cuts `s` at the last `sep`. -/
def splitLast (sep : Char) (s : String) : Option (String × String) :=
  (cutLast (· == sep) s.toList).map (fun cut => (String.ofList cut.1, String.ofList cut.2))

/-- The piece after the last `sep`, the whole string when there is none. -/
def lastPiece (sep : Char) (s : String) : String :=
  match splitLast sep s with
  | some (_, last) => last
  | none => s

/-- A string with every `old` replaced by `new`. -/
def replaceChar (old new : Char) (s : String) : String :=
  String.ofList (s.toList.map (fun c => if c == old then new else c))

/-! ## At a fixed beginning or ending -/

/-- What follows the beginning `lead`, if the text begins so. -/
def afterLead? : List Char → List Char → Option (List Char)
  | [], s => some s
  | _ :: _, [] => none
  | l :: lead, c :: s => if l == c then afterLead? lead s else none

/-- What precedes the ending `tail`, if the text ends so. -/
def beforeTail? (tail s : List Char) : Option (List Char) :=
  (afterLead? tail.reverse s.reverse).map List.reverse

@[simp] theorem afterLead?_append (lead s : List Char) :
    afterLead? lead (lead ++ s) = some s := by
  induction lead with
  | nil => rfl
  | cons l lead ih => simp [afterLead?, ih]

/-- Taking off a beginning and putting it back gives the text. -/
theorem eq_append_of_afterLead? {lead s rest : List Char}
    (h : afterLead? lead s = some rest) : s = lead ++ rest := by
  induction lead generalizing s with
  | nil => simpa [afterLead?] using h
  | cons l lead ih =>
    cases s with
    | nil => simp [afterLead?] at h
    | cons c s =>
      by_cases hc : l = c
      · subst hc
        simp only [afterLead?, beq_self_eq_true, if_true] at h
        simp [ih h]
      · simp [afterLead?, hc] at h

/-- A beginning is taken off whatever follows. -/
theorem afterLead?_append_of_some {lead s rest : List Char} (h : afterLead? lead s = some rest)
    (more : List Char) : afterLead? lead (s ++ more) = some (rest ++ more) := by
  rw [eq_append_of_afterLead? h, List.append_assoc, afterLead?_append]

/-- The string after the beginning `lead`. -/
def stripLead? (lead s : String) : Option String :=
  (afterLead? lead.toList s.toList).map String.ofList

/-- The string before the ending `tail`. -/
def stripTail? (tail s : String) : Option String :=
  (beforeTail? tail.toList s.toList).map String.ofList

/-- Whether a string begins with `lead`. -/
def startsWith (lead s : String) : Bool :=
  (afterLead? lead.toList s.toList).isSome

/-- Whether a string ends with `tail`. -/
def endsWith (tail s : String) : Bool :=
  (beforeTail? tail.toList s.toList).isSome

/-- Whether `part` occurs in a text. -/
def occursIn (part : List Char) : List Char → Bool
  | [] => part.isEmpty
  | c :: s => (afterLead? part (c :: s)).isSome || occursIn part s

/-! ## Lines -/

/-- A text with every line break, be it CR LF, CR or LF, written as one line feed. -/
def plainBreaks : List Char → List Char
  | [] => []
  | '\r' :: '\n' :: rest => '\n' :: plainBreaks rest
  | '\r' :: rest => '\n' :: plainBreaks rest
  | c :: rest => c :: plainBreaks rest

/-- A line without the carriage return at its end. -/
def dropReturn (line : List Char) : List Char :=
  match line.reverse with
  | '\r' :: rest => rest.reverse
  | _ => line

/-- The lines of a text: each ends in a line feed, which is dropped together with a carriage
return right before it; what follows the last line feed is a line unless it is empty. -/
def linesOf (s : List Char) : List (List Char) :=
  let all := pieces (· == '\n') s
  match all.getLast? with
  | some last => all.dropLast.map dropReturn ++ (if last.isEmpty then [] else [last])
  | none => []

/-- The lines of a string. -/
def lines (s : String) : List String :=
  (linesOf s.toList).map String.ofList

/-! ## At byte offsets -/

/-- The part of a string between two byte offsets of its UTF-8 form; nothing when an offset lies
outside the string or inside a character. -/
def sliceBytes? (s : String) (start stop : Nat) : Option String :=
  if start ≤ stop && String.Pos.Raw.isValid s ⟨start⟩ && String.Pos.Raw.isValid s ⟨stop⟩ then
    some (String.Pos.Raw.extract s ⟨start⟩ ⟨stop⟩)
  else none

/-! ## Case -/

/-- A string with its ASCII capitals made small. -/
def lowerAscii (s : String) : String :=
  String.ofList (s.toList.map Char.toLower)

/-- Equality up to the case of ASCII letters. -/
def sameIgnoringCase (s t : String) : Bool :=
  lowerAscii s == lowerAscii t

end CodeAtlas.Text
