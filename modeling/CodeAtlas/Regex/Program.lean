/-
# Matching

A pattern is turned into a program of small steps.  A search follows the steps depth first, in
order of preference, and never visits the same step twice at the same place; the first end of the
program it reaches gives the match.  The number of steps and places bounds the work.
-/
import CodeAtlas.Regex.Parser

namespace CodeAtlas.Regex

/-! ## Programs -/

/-- A step of a program; the numbers are those of steps to go on with. -/
inductive Step where
  | jump (next : Nat)
  | chars (set : CharSet) (next : Nat)
  | look (look : Look) (next : Nat)
  /-- Goes on with the first step or, failing that, with the second. -/
  | split (first second : Nat)
  /-- Records the place in a slot. -/
  | save (slot : Nat) (next : Nat)
  | done

/-- A program: its steps by number. -/
abbrev Program := Array Step

namespace Program

/-- A split with the repetition first when it is greedy. -/
def branch (greedy : Bool) (again leave : Nat) : Step :=
  if greedy then .split again leave else .split leave again

/-- Appends code `n` times; each copy is built to go on with the number it is given. -/
def copies (n : Nat) (code : Program → Program) (program : Program) : Program :=
  n.fold (fun _ _ program => code program) program

/-- Appends `n` copies of code, each of which may be left out together with those after it. -/
def optionals (greedy : Bool) (code : Program → Program) : Nat → Program → Program
  | 0, program => program
  | n + 1, program =>
    let start := program.size
    let inner := optionals greedy code n (code (program.push .done))
    inner.setIfInBounds start (branch greedy (start + 1) inner.size)

/-- Appends code that is repeated as long as it matches, at least once. -/
def oneOrMore (greedy : Bool) (code : Program → Program) (program : Program) : Program :=
  let start := program.size
  let inner := code program
  inner.push (branch greedy start (inner.size + 1))

/-- Appends code that is repeated as long as it matches.  When it can match the empty text, the
repetition is an option of one or more, which keeps the order of preference right. -/
def zeroOrMore (greedy canBeEmpty : Bool) (code : Program → Program) (program : Program) :
    Program :=
  let start := program.size
  if canBeEmpty then
    let inner := oneOrMore greedy code (program.push .done)
    inner.setIfInBounds start (branch greedy (start + 1) inner.size)
  else
    let inner := (code (program.push .done)).push (.jump start)
    inner.setIfInBounds start (branch greedy (start + 1) inner.size)

/-- Appends code for `min` or more repetitions. -/
def atLeast (min : Nat) (greedy canBeEmpty : Bool) (code : Program → Program) (program : Program) :
    Program :=
  match min with
  | 0 => zeroOrMore greedy canBeEmpty code program
  | n + 1 => oneOrMore greedy code (copies n code program)

/-- Appends code for a pattern; it goes on with the step behind it. -/
def append : Pattern → Program → Program
  | .empty, program => program
  | .chars set, program => program.push (.chars set (program.size + 1))
  | .look look, program => program.push (.look look (program.size + 1))
  | .seq first second, program => append second (append first program)
  | .alt first second, program =>
    let start := program.size
    let left := append first (program.push .done)
    let middle := left.size
    let right := append second (left.push .done)
    (right.setIfInBounds start (.split (start + 1) (middle + 1))).setIfInBounds middle
      (.jump right.size)
  | .repeat inner min none greedy, program =>
    atLeast min greedy inner.canBeEmpty (append inner) program
  | .repeat inner min (some max) greedy, program =>
    optionals greedy (append inner) (max - min) (copies min (append inner) program)
  | .group index inner, program =>
    let opened := program.push (.save (2 * index) (program.size + 1))
    let inner := append inner opened
    inner.push (.save (2 * index + 1) (inner.size + 1))

/-- The program of a pattern. -/
def ofPattern (pattern : Pattern) : Program :=
  (append pattern #[]).push .done

end Program

/-! ## Search -/

/-- The places recorded in slots, latest first. -/
abbrev Slots := List (Nat × Nat)

/-- A step to be followed at a place. -/
structure Job where
  step : Nat
  place : Nat
  slots : Slots

/-- A set of numbers, as the bits of a number. -/
abbrev Visited := Nat

/-- Whether a number is in the set. -/
def Visited.has (visited : Visited) (n : Nat) : Bool :=
  Nat.testBit visited n

/-- Adds a number. -/
def Visited.insert (visited : Visited) (n : Nat) : Visited :=
  Nat.lor visited (Nat.shiftLeft 1 n)

/-- The jobs that a job leads to, in order of preference. -/
def follow (text : Array Char) (job : Job) : Step → List Job
  | .jump next => [{ job with step := next }]
  | .chars set next =>
    match text[job.place]? with
    | some c => if set c then [{ job with step := next, place := job.place + 1 }] else []
    | none => []
  | .look look next =>
    let before := if job.place = 0 then none else text[job.place - 1]?
    if look.holds before text[job.place]? then [{ job with step := next }] else []
  | .split first second => [{ job with step := first }, { job with step := second }]
  | .save slot next => [{ job with step := next, slots := (slot, job.place) :: job.slots }]
  | .done => []

/-- Follows jobs, the first of the list first, for at most `fuel` jobs.  The result is the job that
reached the end of the program, if any, and what has been visited. -/
def runJobs (program : Program) (text : Array Char) :
    Nat → List Job → Visited → Option Job × Visited
  | 0, _, visited => (none, visited)
  | _ + 1, [], visited => (none, visited)
  | fuel + 1, job :: rest, visited =>
    let key := job.step * (text.size + 1) + job.place
    if visited.has key then runJobs program text fuel rest visited
    else
      match program[job.step]? with
      | none => (none, visited)
      | some .done => (some job, visited)
      | some step => runJobs program text fuel (follow text job step ++ rest) (visited.insert key)

/-- A bound on the number of jobs: each step at each place leads to at most two. -/
def jobBound (program : Program) (text : Array Char) : Nat :=
  2 * program.size * (text.size + 1) + 2

/-- Searches from a place on and from `count` places behind it. -/
def searchFrom (program : Program) (text : Array Char) (place : Nat) :
    Nat → Visited → Option (Nat × Job)
  | 0, _ => none
  | count + 1, visited =>
    match runJobs program text (jobBound program text) [⟨0, place, []⟩] visited with
    | (some job, _) => some (place, job)
    | (none, visited) => searchFrom program text (place + 1) count visited

/-- A compiled pattern with the number of its groups. -/
structure Matcher where
  program : Program
  groups : Nat

namespace Matcher

/-- The largest number of steps a pattern may take to write down. -/
def maxSteps : Nat := 400000

/-- The matcher of a pattern in written form; none when the form is wrong or the pattern too
large. -/
def ofText? (text : String) : Option Matcher :=
  match Pattern.ofText? text with
  | some pattern =>
    if pattern.stepCount ≤ maxSteps then some ⟨.ofPattern pattern, pattern.groupCount⟩ else none
  | none => none

/-- The first match in a text. -/
def search (matcher : Matcher) (text : String) : Option Job :=
  let chars := text.toList.toArray
  (searchFrom matcher.program chars 0 (chars.size + 1) 0).map Prod.snd

/-- Whether a text has a match. -/
def isMatch (matcher : Matcher) (text : String) : Bool :=
  (matcher.search text).isSome

/-- The text of a group in a match. -/
def groupText (text : String) (slots : Slots) (index : Nat) : Option String :=
  match slots.lookup (2 * index), slots.lookup (2 * index + 1) with
  | some start, some stop => some (String.ofList ((text.toList.drop start).take (stop - start)))
  | _, _ => none

/-- The texts of the groups in the first match of a text; a group that took no part has none. -/
def captures (matcher : Matcher) (text : String) : Option (List (Option String)) :=
  (matcher.search text).map fun job =>
    (List.range matcher.groups).map (fun index => groupText text job.slots (index + 1))

end Matcher

end CodeAtlas.Regex
