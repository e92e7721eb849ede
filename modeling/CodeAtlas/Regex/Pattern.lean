/-
# Patterns

The abstract form of a regular expression.  A pattern describes texts together with an order of
preference between the ways in which a text can match: the left side of an alternative before the
right one, more repetitions before fewer when a repetition is greedy, and fewer first when not.
-/
import CodeAtlas.Regex.CharClass

namespace CodeAtlas.Regex

/-- A set of characters. -/
abbrev CharSet := Char → Bool

namespace CharSet

/-- The set of one character. -/
def single (c : Char) : CharSet := (· == c)

/-- The characters between two, both included. -/
def range (first last : Char) : CharSet := fun c => first ≤ c && c ≤ last

/-- The characters of either set. -/
def union (a b : CharSet) : CharSet := fun c => a c || b c

/-- The characters of both sets. -/
def inter (a b : CharSet) : CharSet := fun c => a c && b c

/-- The characters of the first set that are not in the second. -/
def diff (a b : CharSet) : CharSet := fun c => a c && !b c

/-- The characters of exactly one of the sets. -/
def symmDiff (a b : CharSet) : CharSet := fun c => a c != b c

/-- The characters that are not in the set. -/
def compl (a : CharSet) : CharSet := fun c => !a c

/-- The characters that differ from one of the set in case only. -/
def ignoringCase (a : CharSet) : CharSet := fun c => (caseVariants c).any a

/-- The characters that differ from one of the set in the case of an ASCII letter only. -/
def ignoringAsciiCase (a : CharSet) : CharSet := fun c => a c || a c.toLower || a c.toUpper

end CharSet

/-- A condition on a place in a text, given by the characters before and after it. -/
inductive Look where
  | textStart
  | textEnd
  | lineStart
  | lineEnd
  /-- Like `lineStart` and `lineEnd`, where CR LF, CR and LF all end a line. -/
  | breakStart
  | breakEnd
  /-- One side is a word character and the other is not. -/
  | wordEdge (isWord : CharSet)
  | noWordEdge (isWord : CharSet)
  | wordStart (isWord : CharSet)
  | wordEnd (isWord : CharSet)
  /-- No word character stands before. -/
  | wordStartHalf (isWord : CharSet)
  /-- No word character stands after. -/
  | wordEndHalf (isWord : CharSet)

/-- Whether a condition holds between two characters; a side without a character is an end of the
text. -/
def Look.holds (before after : Option Char) : Look → Bool
  | textStart => before.isNone
  | textEnd => after.isNone
  | lineStart => before.isNone || before == some '\n'
  | lineEnd => after.isNone || after == some '\n'
  | breakStart =>
    before.isNone || before == some '\n' || (before == some '\r' && after != some '\n')
  | breakEnd =>
    after.isNone || after == some '\r' || (after == some '\n' && before != some '\r')
  | wordEdge isWord => before.any isWord != after.any isWord
  | noWordEdge isWord => before.any isWord == after.any isWord
  | wordStart isWord => !before.any isWord && after.any isWord
  | wordEnd isWord => before.any isWord && !after.any isWord
  | wordStartHalf isWord => !before.any isWord
  | wordEndHalf isWord => !after.any isWord

/-- A pattern. -/
inductive Pattern where
  | empty
  | chars (set : CharSet)
  | look (look : Look)
  | seq (first second : Pattern)
  | alt (first second : Pattern)
  /-- At least `min` times and, if a bound is given, at most `max` times. -/
  | repeat (inner : Pattern) (min : Nat) (max : Option Nat) (greedy : Bool)
  /-- A group whose match is recorded under a number. -/
  | group (index : Nat) (inner : Pattern)

namespace Pattern

/-- Whether a pattern can match the empty text; conditions on the place are taken to hold. -/
def canBeEmpty : Pattern → Bool
  | empty => true
  | chars _ => false
  | look _ => true
  | seq first second => first.canBeEmpty && second.canBeEmpty
  | alt first second => first.canBeEmpty || second.canBeEmpty
  | .repeat inner min _ _ => min == 0 || inner.canBeEmpty
  | group _ inner => inner.canBeEmpty

/-- Whether a pattern matches nothing but the empty text. -/
def isEmptyOnly : Pattern → Bool
  | empty => true
  | chars _ => false
  | look _ => true
  | seq first second => first.isEmptyOnly && second.isEmptyOnly
  | alt first second => first.isEmptyOnly && second.isEmptyOnly
  | .repeat inner _ max _ => max == some 0 || inner.isEmptyOnly
  | group _ inner => inner.isEmptyOnly

/-- A repetition in its simplest form.  Repeating what only matches the empty text is no better
than matching it once; no repetition at all is the empty pattern, and one is the pattern itself. -/
def repeated (inner : Pattern) (min : Nat) (max : Option Nat) (greedy : Bool) : Pattern :=
  let once := inner.isEmptyOnly
  let min := if once then Nat.min min 1 else min
  let max := if once then some (Nat.min (max.getD 1) 1) else max
  if max == some 0 then empty
  else if min == 1 && max == some 1 then inner
  else .repeat inner min max greedy

/-- The highest number of a group, 0 when there is none. -/
def groupCount : Pattern → Nat
  | empty => 0
  | chars _ => 0
  | look _ => 0
  | seq first second => Nat.max first.groupCount second.groupCount
  | alt first second => Nat.max first.groupCount second.groupCount
  | .repeat inner _ _ _ => inner.groupCount
  | group index inner => Nat.max index inner.groupCount

/-- The number of steps that matching a pattern takes to write down. -/
def stepCount : Pattern → Nat
  | empty => 0
  | chars _ => 1
  | look _ => 1
  | seq first second => first.stepCount + second.stepCount
  | alt first second => first.stepCount + second.stepCount + 2
  | .repeat inner min max _ => (inner.stepCount + 1) * Nat.max (max.getD 0) (min + 1)
  | group _ inner => inner.stepCount + 2

/-- The patterns of a list, one after the other. -/
def sequence : List Pattern → Pattern
  | [] => empty
  | [pattern] => pattern
  | pattern :: rest => seq pattern (sequence rest)

/-- Any of the patterns of a list, earlier ones first. -/
def choice : List Pattern → Pattern
  | [] => empty
  | [pattern] => pattern
  | pattern :: rest => alt pattern (choice rest)

end Pattern

end CodeAtlas.Regex
