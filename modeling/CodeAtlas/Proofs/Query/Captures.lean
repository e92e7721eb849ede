/-
# Names that match and what filters capture

A name that is asked for by a pattern has to match the pattern as a whole.

A filter is either passed or not, and the captures of a candidate are those of the patterns on the
accepting path, in the order in which the filters are tried.  Of the supertypes of a class only the
first that passes the inner filters counts, what is asked of the method around a node is captured
on that method, and nothing is captured under a negation.

A search may as well fill one list as it goes, with a list of its own for every conjunction.  The
list then grows by exactly these captures when the candidate passes, and is left alone otherwise.
-/
import Mathlib.Data.List.Basic
import CodeAtlas.Proofs.Regex.Reading
import CodeAtlas.Proofs.Regex.Search
import CodeAtlas.Query.Search

namespace CodeAtlas

open Source

/-! ## Names -/

namespace NameMatcher

open Regex (Matcher Pattern)

variable {matcher : NameMatcher} {name : String} {taken : List Capture}

/-- Whether a name is the one that is asked for, or matches the pattern. -/
def Matches (name : String) : NameMatcher → Prop
  | literal wanted => wanted = name
  | regex pattern => (pattern.matcher.captures name).isSome

/-- What a name that matches is captured with: its groups, when it was asked for by a pattern. -/
inductive Takes (name : String) : NameMatcher → List Capture → Prop
  | literal : Takes name (literal name) []
  | regex {pattern : NamePattern} {groups : List (Option String)}
      (hgroups : pattern.matcher.captures name = some groups) :
      Takes name (regex pattern) [⟨pattern.pattern, name, groups⟩]

theorem isSome_captures?_iff : (matcher.captures? name).isSome ↔ matcher.Matches name := by
  cases matcher with
  | literal wanted => by_cases h : wanted = name <;> simp [captures?, Matches, h]
  | regex pattern => simp [captures?, Matches]

theorem captures?_eq_some_iff : matcher.captures? name = some taken ↔ matcher.Takes name taken := by
  constructor
  · intro h
    cases matcher with
    | literal wanted =>
      by_cases hwanted : wanted = name
      · subst hwanted
        obtain rfl : [] = taken := by simpa [captures?] using h
        exact .literal
      · simp [captures?, hwanted] at h
    | regex pattern =>
      obtain ⟨groups, hgroups, rfl⟩ := Option.map_eq_some_iff.1 h
      exact .regex hgroups
  · intro h
    cases h with
    | literal => simp [captures?]
    | regex hgroups => simp [captures?, hgroups]

/-! ## Whole names

A pattern is set in a group between the ends of the text, and names are searched for that.  Where the
pattern is one by itself, the match is all of the name and exactly what the pattern matches; a pattern
that closes the group and opens another one is accepted too, but then its alternatives come free of the
ends. -/

theorem exists_pattern_of_ofText? {text : String} {matcher : Matcher}
    (h : Matcher.ofText? text = some matcher) :
    ∃ pattern, Pattern.ofText? text = some pattern ∧
      matcher = ⟨.ofPattern pattern, pattern.groupCount⟩ := by
  rw [Matcher.ofText?] at h
  split at h
  · rename_i pattern hpattern
    split at h
    · exact ⟨pattern, hpattern, (Option.some.inj h).symm⟩
    · cases h
  · cases h

theorem exists_of_ofRegex {pattern : String} {matcher : NameMatcher}
    (h : ofRegex pattern = .ok matcher) :
    ∃ compiled, matcher = .regex compiled ∧ compiled.pattern = pattern := by
  rw [ofRegex] at h
  split at h
  · cases h
  · split at h
    · obtain rfl := Except.ok.inj h
      exact ⟨_, rfl, rfl⟩
    · cases h

/-- An accepted name pattern accepts a name if what it is compiled as matches somewhere in the name; one
that is a pattern by itself has to match all of the name. -/
theorem whole_names_matched {pattern : String} {matcher : NameMatcher}
    (h : ofRegex pattern = .ok matcher) :
    ∃ enclosed, Pattern.ofText? (anchored pattern) = some enclosed ∧
      (∀ name, (matcher.captures? name).isSome ↔ enclosed.MatchesWithin name) ∧
      ∀ alone, Pattern.ofText? pattern = some alone →
        ∀ name, (matcher.captures? name).isSome ↔ alone.MatchesWhole name := by
  obtain ⟨compiled, rfl, rfl⟩ := exists_of_ofRegex h
  obtain ⟨enclosed, henclosed, hmatcher⟩ := exists_pattern_of_ofText? compiled.compiled
  have hwithin : ∀ name, ((regex compiled).captures? name).isSome ↔ enclosed.MatchesWithin name := by
    intro name
    rw [captures?, hmatcher, Option.isSome_map, Matcher.captures, Option.isSome_map]
    exact Regex.isSome_search_iff (Pattern.isProper_of_ofText? henclosed) _ name
  refine ⟨enclosed, henclosed, hwithin, fun alone halone name => ?_⟩
  rw [hwithin, Pattern.ofText?_enclosed halone henclosed]
  exact Regex.matchesWithin_anchored_iff

/-- Names of getters: the one that only ends like such a name is not accepted. -/
theorem whole_names_matched_getters :
    ∃ matcher alone, ofRegex "get\\w+" = .ok matcher ∧ Pattern.ofText? "get\\w+" = some alone ∧
      (matcher.captures? "getName").isSome ∧ alone.MatchesWhole "getName" ∧
      ¬ (matcher.captures? "forgetName").isSome ∧ ¬ alone.MatchesWhole "forgetName" := by
  have hfound : (ofRegex "get\\w+").isOk ∧ ∀ matcher ∈ (ofRegex "get\\w+").toOption,
      (matcher.captures? "getName").isSome ∧ ¬ (matcher.captures? "forgetName").isSome := by
    decide +kernel
  obtain ⟨alone, halone⟩ := Option.isSome_iff_exists.1
    (show (Pattern.ofText? "get\\w+").isSome = true by decide +kernel)
  cases h : ofRegex "get\\w+" with
  | error error =>
    rw [h] at hfound
    cases hfound.1
  | ok matcher =>
    rw [h] at hfound
    obtain ⟨hgetter, hother⟩ := hfound.2 matcher rfl
    obtain ⟨_, _, _, hiff⟩ := whole_names_matched h
    exact ⟨matcher, alone, rfl, halone, hgetter, (hiff alone halone _).1 hgetter, hother,
      mt (hiff alone halone _).2 hother⟩

-- what is no pattern by itself may be one in the group, and its first alternative may end anywhere
example : (Pattern.ofText? "a)|(?:b").isNone ∧
    ∀ matcher ∈ (ofRegex "a)|(?:b").toOption, (matcher.captures? "axyz").isSome := by
  decide +kernel

end NameMatcher

namespace CallContext

variable {context : CallContext} {filter : Filter} {filters : List Filter} {candidate : Candidate}
  {taken : List Capture}

/-! ## What filters mean -/

/-- A supertype as a filter sees it: the node of the candidate with the name of the supertype. -/
def supertypeView (candidate : Candidate) (ancestor : ItemId) (name : String) : Candidate :=
  .ofClass candidate.node name (.known (some ancestor))

/-- The declaration of the method around a candidate. -/
def methodAround (context : CallContext) (candidate : Candidate) : Option Candidate :=
  (context.ast.enclosingMethod candidate.node).bind (Candidate.ofDeclaration? context.ast)

mutual

/-- The meaning of a filter as a condition on a candidate. -/
def Holds (context : CallContext) : Filter → Candidate → Prop
  | .name matcher, candidate => matcher.Matches candidate.name
  | .className matcher, candidate =>
    ∃ name, candidate.ownerName context = some name ∧ matcher.Matches name
  | .hasParam count, candidate => ∃ number, candidate.argCount = some number ∧ count.accepts number
  | .hasSupertype filters, candidate =>
    ∃ cls, candidate.owner context = some cls ∧
      ∃ ancestor ∈ context.index.supertypes cls,
        ∃ name, context.index.qualifiedName ancestor = some name ∧
          HoldsAll context filters (supertypeView candidate ancestor name)
  | .isSupertype, candidate => candidate.isSupertype context.ast
  | .isInMethod filters, candidate =>
    ∃ method, context.methodAround candidate = some method ∧ HoldsAll context filters method
  | .not filters, candidate => ¬ HoldsAll context filters candidate
  | .and filters, candidate => HoldsAll context filters candidate

/-- Every filter holds. -/
def HoldsAll (context : CallContext) : List Filter → Candidate → Prop
  | [], _ => True
  | filter :: rest, candidate => Holds context filter candidate ∧ HoldsAll context rest candidate

end

theorem holdsAll_iff : context.HoldsAll filters candidate ↔
    ∀ filter ∈ filters, context.Holds filter candidate := by
  induction filters with
  | nil => simp [HoldsAll]
  | cons filter rest ih => rw [HoldsAll, ih, List.forall_mem_cons]

/-- A supertype passes the inner filters of a filter on supertypes. -/
def HoldsAbove (context : CallContext) (filters : List Filter) (candidate : Candidate)
    (ancestor : ItemId) : Prop :=
  ∃ name, context.index.qualifiedName ancestor = some name ∧
    context.HoldsAll filters (supertypeView candidate ancestor name)

mutual

/-- `Takes context filter candidate taken`: the candidate passes the filter, and `taken` are the
captures on the way. -/
inductive Takes (context : CallContext) : Filter → Candidate → List Capture → Prop
  | name {matcher : NameMatcher} {candidate : Candidate} {taken : List Capture}
      (htaken : matcher.Takes candidate.name taken) : Takes context (.name matcher) candidate taken
  | className {matcher : NameMatcher} {candidate : Candidate} {name : String}
      {taken : List Capture} (hname : candidate.ownerName context = some name)
      (htaken : matcher.Takes name taken) : Takes context (.className matcher) candidate taken
  | hasParam {count : ParamCount} {candidate : Candidate} {number : Nat}
      (hnumber : candidate.argCount = some number) (haccepts : count.accepts number) :
      Takes context (.hasParam count) candidate []
  /-- The supertype is the first that passes. -/
  | hasSupertype {filters : List Filter} {candidate : Candidate} {cls ancestor : ItemId}
      {before after : List ItemId} {name : String} {taken : List Capture}
      (howner : candidate.owner context = some cls)
      (hsplit : context.index.supertypes cls = before ++ ancestor :: after)
      (hfirst : ∀ other ∈ before, ¬ context.HoldsAbove filters candidate other)
      (hname : context.index.qualifiedName ancestor = some name)
      (htaken : TakesAll context filters (supertypeView candidate ancestor name) taken) :
      Takes context (.hasSupertype filters) candidate taken
  | isSupertype {candidate : Candidate} (hrole : candidate.isSupertype context.ast) :
      Takes context .isSupertype candidate []
  | isInMethod {filters : List Filter} {candidate method : Candidate} {taken : List Capture}
      (hmethod : context.methodAround candidate = some method)
      (htaken : TakesAll context filters method taken) :
      Takes context (.isInMethod filters) candidate taken
  | not {filters : List Filter} {candidate : Candidate}
      (hfails : ¬ context.HoldsAll filters candidate) : Takes context (.not filters) candidate []
  | and {filters : List Filter} {candidate : Candidate} {taken : List Capture}
      (htaken : TakesAll context filters candidate taken) :
      Takes context (.and filters) candidate taken

/-- The candidate passes every filter; their captures follow each other. -/
inductive TakesAll (context : CallContext) : List Filter → Candidate → List Capture → Prop
  | nil {candidate : Candidate} : TakesAll context [] candidate []
  | cons {filter : Filter} {rest : List Filter} {candidate : Candidate}
      {taken others : List Capture} (hfirst : Takes context filter candidate taken)
      (hrest : TakesAll context rest candidate others) :
      TakesAll context (filter :: rest) candidate (taken ++ others)

end

/-! ## What is accepted -/

mutual

/-- A filter accepts the candidates that it holds of. -/
theorem isSome_accept_iff (context : CallContext) (filter : Filter) (candidate : Candidate) :
    (context.accept filter candidate).isSome ↔ context.Holds filter candidate := by
  cases filter with
  | name matcher => rw [accept, Holds, NameMatcher.isSome_captures?_iff]
  | className matcher =>
    rw [accept, Holds, Option.isSome_bind, Option.any_eq_true]
    simp only [NameMatcher.isSome_captures?_iff]
  | hasParam count =>
    rw [accept, Holds, ← Option.any_eq_true]
    split <;> simp [*]
  | hasSupertype filters =>
    rw [accept, Holds]
    cases candidate.owner context with
    | none => simp
    | some cls =>
      simp only [Option.some.injEq, exists_eq_left', List.findSome?_isSome_iff,
        Option.isSome_bind, Option.any_eq_true]
      simp only [isSome_acceptAll_iff context filters, supertypeView]
  | isSupertype =>
    rw [accept, Holds]
    split <;> simp [*]
  | isInMethod filters =>
    rw [accept, Holds, Option.isSome_bind, Option.any_eq_true]
    simp only [isSome_acceptAll_iff context filters, methodAround]
  | not filters =>
    rw [accept, Holds, ← isSome_acceptAll_iff context filters candidate]
    split <;> simp [*]
  | and filters => rw [accept, Holds, isSome_acceptAll_iff context filters candidate]

theorem isSome_acceptAll_iff (context : CallContext) (filters : List Filter)
    (candidate : Candidate) :
    (context.acceptAll filters candidate).isSome ↔ context.HoldsAll filters candidate := by
  cases filters with
  | nil => simp [acceptAll, HoldsAll]
  | cons filter rest =>
    rw [acceptAll, HoldsAll, ← isSome_accept_iff context filter candidate,
      ← isSome_acceptAll_iff context rest candidate]
    cases context.accept filter candidate <;> simp

end

/-- What a supertype contributes is nothing unless it passes the inner filters. -/
theorem bind_acceptAll_eq_none_iff {ancestor : ItemId} :
    ((context.index.qualifiedName ancestor).bind fun name =>
      context.acceptAll filters (supertypeView candidate ancestor name)) = none ↔
      ¬ context.HoldsAbove filters candidate ancestor := by
  rw [← Option.not_isSome_iff_eq_none, Option.isSome_bind, Option.any_eq_true, HoldsAbove]
  simp only [isSome_acceptAll_iff]

mutual

/-- A filter captures what lies on the accepting path. -/
theorem accept_eq_some_iff (context : CallContext) (filter : Filter) (candidate : Candidate)
    (taken : List Capture) :
    context.accept filter candidate = some taken ↔ context.Takes filter candidate taken := by
  cases filter with
  | name matcher =>
    rw [accept, NameMatcher.captures?_eq_some_iff]
    exact ⟨.name, fun (.name htaken) => htaken⟩
  | className matcher =>
    rw [accept, Option.bind_eq_some_iff]
    simp only [NameMatcher.captures?_eq_some_iff]
    exact ⟨fun ⟨_, hname, htaken⟩ => .className hname htaken,
      fun (.className hname htaken) => ⟨_, hname, htaken⟩⟩
  | hasParam count =>
    rw [accept, Option.ite_none_right_eq_some, Option.any_eq_true, Option.some.injEq]
    constructor
    · rintro ⟨⟨number, hnumber, haccepts⟩, rfl⟩
      exact .hasParam hnumber haccepts
    · intro h
      cases h with
      | hasParam hnumber haccepts => exact ⟨⟨_, hnumber, haccepts⟩, rfl⟩
  | hasSupertype filters =>
    rw [accept]
    constructor
    · intro h
      cases howner : candidate.owner context with
      | none => simp [howner] at h
      | some cls =>
        simp only [howner] at h
        obtain ⟨before, ancestor, after, hsplit, hfound, hbefore⟩ := List.findSome?_eq_some_iff.1 h
        obtain ⟨name, hname, htaken⟩ := Option.bind_eq_some_iff.1 hfound
        exact .hasSupertype howner hsplit
          (fun other hother => bind_acceptAll_eq_none_iff.1 (hbefore other hother)) hname
          ((acceptAll_eq_some_iff context filters _ taken).1 htaken)
    · intro h
      cases h with
      | hasSupertype howner hsplit hfirst hname htaken =>
        simp only [howner]
        refine List.findSome?_eq_some_iff.2 ⟨_, _, _, hsplit, ?_, fun other hother =>
          bind_acceptAll_eq_none_iff.2 (hfirst other hother)⟩
        rw [hname, Option.bind_some]
        exact (acceptAll_eq_some_iff context filters _ taken).2 htaken
  | isSupertype =>
    rw [accept, Option.ite_none_right_eq_some, Option.some.injEq]
    constructor
    · rintro ⟨hrole, rfl⟩
      exact .isSupertype hrole
    · intro h
      cases h with
      | isSupertype hrole => exact ⟨hrole, rfl⟩
  | isInMethod filters =>
    rw [accept, Option.bind_eq_some_iff]
    simp only [acceptAll_eq_some_iff context filters]
    exact ⟨fun ⟨_, hmethod, htaken⟩ => .isInMethod hmethod htaken,
      fun (.isInMethod hmethod htaken) => ⟨_, hmethod, htaken⟩⟩
  | not filters =>
    rw [accept, Option.ite_none_left_eq_some, isSome_acceptAll_iff, Option.some.injEq]
    constructor
    · rintro ⟨hfails, rfl⟩
      exact .not hfails
    · intro h
      cases h with
      | not hfails => exact ⟨hfails, rfl⟩
  | and filters =>
    rw [accept, acceptAll_eq_some_iff context filters]
    exact ⟨.and, fun (.and htaken) => htaken⟩

theorem acceptAll_eq_some_iff (context : CallContext) (filters : List Filter)
    (candidate : Candidate) (taken : List Capture) :
    context.acceptAll filters candidate = some taken ↔
      context.TakesAll filters candidate taken := by
  cases filters with
  | nil =>
    rw [acceptAll, Option.some.injEq]
    constructor
    · rintro rfl
      exact .nil
    · intro h
      cases h with
      | nil => rfl
  | cons filter rest =>
    rw [acceptAll]
    constructor
    · intro h
      cases hfirst : context.accept filter candidate with
      | none => simp [hfirst] at h
      | some captures =>
        simp only [hfirst] at h
        obtain ⟨others, hrest, rfl⟩ := Option.map_eq_some_iff.1 h
        exact .cons ((accept_eq_some_iff context filter candidate captures).1 hfirst)
          ((acceptAll_eq_some_iff context rest candidate others).1 hrest)
    · intro h
      cases h with
      | cons hfirst hrest =>
        rw [(accept_eq_some_iff context filter candidate _).2 hfirst,
          (acceptAll_eq_some_iff context rest candidate _).2 hrest]
        rfl

end

/-! ## Lists that are filled -/

/-- A verdict with the list that was filled: grown by what was taken, or as it was. -/
def grown (captures : List Capture) : Option (List Capture) → Bool × List Capture
  | none => (false, captures)
  | some taken => (true, captures ++ taken)

/-- What a conjunction that filled a list of its own adds to the list it was given. -/
def adopt (captures : List Capture) : Bool × List Capture → Bool × List Capture
  | (true, own) => (true, captures ++ own)
  | (false, _) => (false, captures)

/-- Tries the members of a list, each with the list that the one before has left, until one is
accepted. -/
def anyInto {α : Type} (test : α → List Capture → Bool × List Capture) :
    List α → List Capture → Bool × List Capture
  | [], captures => (false, captures)
  | first :: rest, captures =>
    match test first captures with
    | (true, left) => (true, left)
    | (false, left) => anyInto test rest left

/-- Compares a name and adds what was captured to a list. -/
def matchInto (name : String) (captures : List Capture) : NameMatcher → Bool × List Capture
  | .literal wanted => (wanted == name, captures)
  | .regex pattern =>
    match pattern.matcher.captures name with
    | some groups => (true, captures ++ [⟨pattern.pattern, name, groups⟩])
    | none => (false, captures)

mutual

/-- Tries a filter and adds what it captures to a list. -/
def acceptInto (context : CallContext) :
    Filter → Candidate → List Capture → Bool × List Capture
  | .name matcher, candidate, captures => matchInto candidate.name captures matcher
  | .className matcher, candidate, captures =>
    match candidate.ownerName context with
    | none => (false, captures)
    | some name => matchInto name captures matcher
  | .hasParam count, candidate, captures => (candidate.argCount.any count.accepts, captures)
  | .hasSupertype filters, candidate, captures =>
    match candidate.owner context with
    | none => (false, captures)
    | some cls =>
      anyInto (fun ancestor captures =>
        match context.index.qualifiedName ancestor with
        | none => (false, captures)
        | some name =>
          adopt captures (tryAll context filters (supertypeView candidate ancestor name) []))
        (context.index.supertypes cls) captures
  | .isSupertype, candidate, captures => (candidate.isSupertype context.ast, captures)
  | .isInMethod filters, candidate, captures =>
    match context.methodAround candidate with
    | none => (false, captures)
    | some method => adopt captures (tryAll context filters method [])
  | .not filters, candidate, captures =>
    (!(adopt [] (tryAll context filters candidate [])).1, captures)
  | .and filters, candidate, captures => adopt captures (tryAll context filters candidate [])

/-- Tries filters in turn until one fails.  What was captured up to there stays in the list. -/
def tryAll (context : CallContext) :
    List Filter → Candidate → List Capture → Bool × List Capture
  | [], _, own => (true, own)
  | filter :: rest, candidate, own =>
    match acceptInto context filter candidate own with
    | (true, own) => tryAll context rest candidate own
    | (false, own) => (false, own)

end

/-- Tries filters and adds what they capture to a list, if all are passed. -/
def acceptAllInto (context : CallContext) (filters : List Filter) (candidate : Candidate)
    (captures : List Capture) : Bool × List Capture :=
  adopt captures (tryAll context filters candidate [])

theorem matchInto_eq (name : String) (captures : List Capture) (matcher : NameMatcher) :
    matchInto name captures matcher = grown captures (matcher.captures? name) := by
  cases matcher with
  | literal wanted => by_cases h : wanted = name <;> simp [matchInto, NameMatcher.captures?, grown, h]
  | regex pattern =>
    rw [matchInto, NameMatcher.captures?]
    cases pattern.matcher.captures name <;> rfl

/-- A list that grows by the first result of a search. -/
theorem anyInto_eq {α : Type} {test : α → List Capture → Bool × List Capture}
    {find : α → Option (List Capture)}
    (htest : ∀ (member : α) (captures : List Capture),
      test member captures = grown captures (find member))
    (members : List α) (captures : List Capture) :
    anyInto test members captures = grown captures (members.findSome? find) := by
  induction members with
  | nil => rfl
  | cons first rest ih =>
    rw [anyInto, htest, List.findSome?_cons]
    cases find first with
    | none => exact ih
    | some taken => rfl

mutual

/-- Filling a list comes to the same verdict, and the list grows by what the filter captures. -/
theorem acceptInto_eq (context : CallContext) (filter : Filter) (candidate : Candidate)
    (captures : List Capture) :
    context.acceptInto filter candidate captures =
      grown captures (context.accept filter candidate) := by
  cases filter with
  | name matcher => rw [acceptInto, accept, matchInto_eq]
  | className matcher =>
    rw [acceptInto, accept]
    cases candidate.ownerName context with
    | none => rfl
    | some name => exact matchInto_eq name captures matcher
  | hasParam count =>
    rw [acceptInto, accept]
    cases candidate.argCount.any count.accepts <;> simp [grown]
  | hasSupertype filters =>
    rw [acceptInto, accept]
    cases candidate.owner context with
    | none => rfl
    | some cls =>
      refine anyInto_eq (fun ancestor captures => ?_) _ captures
      cases context.index.qualifiedName ancestor with
      | none => rfl
      | some name => exact adopt_tryAll context filters _ captures
  | isSupertype =>
    rw [acceptInto, accept]
    cases candidate.isSupertype context.ast <;> simp [grown]
  | isInMethod filters =>
    rw [acceptInto, accept, ← methodAround]
    cases context.methodAround candidate with
    | none => rfl
    | some method => exact adopt_tryAll context filters method captures
  | not filters =>
    rw [acceptInto, accept, adopt_tryAll context filters candidate []]
    cases context.acceptAll filters candidate <;> simp [grown]
  | and filters =>
    rw [acceptInto, accept, adopt_tryAll context filters candidate captures]

/-- A conjunction adds what its filters capture, or nothing. -/
theorem adopt_tryAll (context : CallContext) (filters : List Filter) (candidate : Candidate)
    (captures : List Capture) :
    adopt captures (context.tryAll filters candidate []) =
      grown captures (context.acceptAll filters candidate) := by
  rw [adopt_tryAll_own context filters candidate captures []]
  simp

theorem adopt_tryAll_own (context : CallContext) (filters : List Filter) (candidate : Candidate)
    (captures own : List Capture) :
    adopt captures (context.tryAll filters candidate own) =
      grown captures ((context.acceptAll filters candidate).map (own ++ ·)) := by
  cases filters with
  | nil => simp [tryAll, acceptAll, adopt, grown]
  | cons filter rest =>
    rw [tryAll, acceptAll, acceptInto_eq context filter candidate own]
    cases context.accept filter candidate with
    | none => rfl
    | some taken =>
      refine (adopt_tryAll_own context rest candidate captures (own ++ taken)).trans ?_
      rw [Option.map_map]
      congr 2
      funext others
      exact List.append_assoc own taken others

end

/-- A verdict with a list that was filled, for a condition on a candidate: the verdict says whether
the condition holds.  The list has grown by the captures on the accepting path, of which there is
one, or nothing was added. -/
structure IsExact (captures : List Capture) (holds : Prop) (takes : List Capture → Prop)
    (result : Option (List Capture)) (filled : Bool × List Capture) : Prop where
  accepts_iff : result.isSome ↔ holds
  verdict_iff : filled.1 = true ↔ holds
  unchanged : filled.1 = false → filled.2 = captures
  extended : filled.1 = true → ∃ taken, takes taken ∧ (∀ other, takes other → other = taken) ∧
    result = some taken ∧ filled.2 = captures ++ taken

theorem isExact_of_iff {captures : List Capture} {holds : Prop} {takes : List Capture → Prop}
    {result : Option (List Capture)} {filled : Bool × List Capture}
    (hholds : result.isSome ↔ holds) (htakes : ∀ taken, result = some taken ↔ takes taken)
    (hfilled : filled = grown captures result) : IsExact captures holds takes result filled := by
  subst hfilled
  cases result with
  | none => exact ⟨hholds, by simpa [grown] using hholds, fun _ => rfl, by simp [grown]⟩
  | some taken =>
    refine ⟨hholds, by simpa [grown] using hholds, by simp [grown], fun _ => ?_⟩
    exact ⟨taken, (htakes taken).1 rfl, fun other hother =>
      (Option.some.inj ((htakes other).2 hother)).symm, rfl, rfl⟩

/-- Captures are exact.  A filter or a list of filters is passed when it holds as a condition, and
then the list of captures has grown by those on the accepting path; otherwise the list is as it was.
A negation holds when one of its filters fails, and captures nothing. -/
theorem isExact_acceptInto (context : CallContext) (candidate : Candidate)
    (captures : List Capture) :
    (∀ filter, IsExact captures (context.Holds filter candidate) (context.Takes filter candidate)
      (context.accept filter candidate) (context.acceptInto filter candidate captures)) ∧
    (∀ filters, IsExact captures (∀ filter ∈ filters, context.Holds filter candidate)
      (context.TakesAll filters candidate) (context.acceptAll filters candidate)
      (context.acceptAllInto filters candidate captures)) ∧
    (∀ filters, (context.Holds (.not filters) candidate ↔
        ¬ ∀ filter ∈ filters, context.Holds filter candidate) ∧
      ∀ taken, context.Takes (.not filters) candidate taken → taken = []) := by
  refine ⟨fun filter => ?_, fun filters => ?_, fun filters => ⟨?_, fun taken htaken => ?_⟩⟩
  · exact isExact_of_iff (isSome_accept_iff context filter candidate)
      (accept_eq_some_iff context filter candidate) (acceptInto_eq context filter candidate captures)
  · rw [← holdsAll_iff]
    exact isExact_of_iff (isSome_acceptAll_iff context filters candidate)
      (acceptAll_eq_some_iff context filters candidate)
      (adopt_tryAll context filters candidate captures)
  · rw [Holds, holdsAll_iff]
  · cases htaken with
    | not _ => rfl

end CallContext

end CodeAtlas
