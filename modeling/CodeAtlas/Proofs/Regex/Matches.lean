/-
# What a pattern matches

A pattern relates the places of a text: it matches between two of them.  Of the ways in which it can
match there, this relation keeps no order; a text as a whole is matched when its ends are related.

Running the program of a pattern from its first step gets behind its last step exactly at the places
that the pattern relates to the start.  Every piece of code is described in the same way, by the
relation between the places where it is entered and left, whatever program it becomes a part of.
-/
import CodeAtlas.Regex.Program

namespace CodeAtlas.Regex

/-- The character before a place in a text. -/
def before (text : Array Char) (place : Nat) : Option Char :=
  if place = 0 then none else text[place - 1]?

/-- A relation applied a number of times. -/
def Times (relation : Nat → Nat → Prop) : Nat → Nat → Nat → Prop
  | 0, i, j => j = i
  | n + 1, i, j => ∃ k, relation i k ∧ Times relation n k j

namespace Pattern

/-- Whether a pattern matches between two places of a text. -/
def Matches (text : Array Char) : Pattern → Nat → Nat → Prop
  | empty, i, j => j = i
  | chars set, i, j => j = i + 1 ∧ ∃ c, text[i]? = some c ∧ set c = true
  | .look condition, i, j => j = i ∧ condition.holds (before text i) text[i]? = true
  | seq first second, i, j => ∃ k, first.Matches text i k ∧ second.Matches text k j
  | alt first second, i, j => first.Matches text i j ∨ second.Matches text i j
  | .repeat inner min max _, i, j =>
    ∃ n, min ≤ n ∧ (∀ bound ∈ max, n ≤ bound) ∧ Times (inner.Matches text) n i j
  | group _ inner, i, j => inner.Matches text i j

/-- Whether a pattern matches all of a text. -/
def MatchesWhole (pattern : Pattern) (text : String) : Prop :=
  pattern.Matches text.toList.toArray 0 text.toList.length

/-- Whether a pattern matches between two places of a text, wherever they are. -/
def MatchesWithin (pattern : Pattern) (text : String) : Prop :=
  ∃ i j, i ≤ text.toList.length ∧ pattern.Matches text.toList.toArray i j

/-- Every repetition can take place: its highest count is not below the lowest. -/
def IsProper : Pattern → Prop
  | empty | chars _ | .look _ => True
  | seq first second | alt first second => first.IsProper ∧ second.IsProper
  | .repeat inner min max _ => (∀ bound ∈ max, min ≤ bound) ∧ inner.IsProper
  | group _ inner => inner.IsProper

/-- Bounds of a repetition that can take place. -/
def IsRange (bounds : Nat × Option Nat) : Prop :=
  ∀ bound ∈ bounds.2, bounds.1 ≤ bound

theorem isProper_sequence {patterns : List Pattern} (h : ∀ pattern ∈ patterns, pattern.IsProper) :
    (sequence patterns).IsProper := by
  induction patterns with
  | nil => exact trivial
  | cons pattern rest ih =>
    obtain ⟨hpattern, hrest⟩ := List.forall_mem_cons.1 h
    cases rest with
    | nil => exact hpattern
    | cons next rest => exact ⟨hpattern, ih hrest⟩

theorem isProper_choice {patterns : List Pattern} (h : ∀ pattern ∈ patterns, pattern.IsProper) :
    (choice patterns).IsProper := by
  induction patterns with
  | nil => exact trivial
  | cons pattern rest ih =>
    obtain ⟨hpattern, hrest⟩ := List.forall_mem_cons.1 h
    cases rest with
    | nil => exact hpattern
    | cons next rest => exact ⟨hpattern, ih hrest⟩

theorem isProper_repeated {pattern : Pattern} {bounds : Nat × Option Nat} (h : pattern.IsProper)
    (hbounds : IsRange bounds) (greedy : Bool) :
    (pattern.repeated bounds.1 bounds.2 greedy).IsProper := by
  obtain ⟨min, max⟩ := bounds
  have hsimple : ∀ (min : Nat) (max : Option Nat), IsRange (min, max) →
      (if max == some 0 then empty else if min == 1 && max == some 1 then pattern
        else .repeat pattern min max greedy).IsProper := by
    intro min max hrange
    split
    · exact trivial
    · split
      · exact h
      · exact ⟨hrange, h⟩
  refine hsimple _ _ ?_
  cases pattern.isEmptyOnly with
  | false => exact hbounds
  | true =>
    -- what only matches the empty text is not repeated more than once
    intro bound hbound
    obtain rfl := Option.some.inj hbound
    cases max with
    | none => exact Nat.min_le_right _ _
    | some max =>
      exact Nat.le_min.2 ⟨Nat.le_trans (Nat.min_le_left _ _) (hbounds max rfl), Nat.min_le_right _ _⟩

end Pattern

/-! ## Repetitions -/

variable {relation : Nat → Nat → Prop} {text : Array Char}

theorem times_one {i j : Nat} : Times relation 1 i j ↔ relation i j := by
  simp [Times]

theorem times_add (m n : Nat) {i j : Nat} :
    Times relation (m + n) i j ↔ ∃ k, Times relation m i k ∧ Times relation n k j := by
  induction m generalizing i with
  | zero => simp [Times]
  | succ m ih =>
    rw [Nat.succ_add]
    simp only [Times, ih]
    constructor
    · rintro ⟨k, hk, l, hl, hj⟩
      exact ⟨l, ⟨k, hk, hl⟩, hj⟩
    · rintro ⟨l, ⟨k, hk, hl⟩, hj⟩
      exact ⟨k, hk, l, hl, hj⟩

/-- What a relation keeps, its repetitions keep. -/
theorem Times.keeps {holds : Nat → Prop} (hstep : ∀ i j, relation i j → holds i → holds j) {n i j : Nat}
    (h : Times relation n i j) (hi : holds i) : holds j := by
  induction n generalizing i with
  | zero =>
    obtain rfl : j = i := h
    exact hi
  | succ n ih =>
    obtain ⟨k, hk, hj⟩ := h
    exact ih hj (hstep i k hk hi)

/-- A match that begins in a text ends in it. -/
theorem Pattern.Matches.le_size {pattern : Pattern} {i j : Nat} (h : pattern.Matches text i j)
    (hi : i ≤ text.size) : j ≤ text.size := by
  induction pattern generalizing i j with
  | empty =>
    obtain rfl : j = i := h
    exact hi
  | chars set =>
    obtain ⟨rfl, c, hc, _⟩ := h
    exact (Array.getElem?_eq_some_iff.1 hc).1
  | look condition =>
    obtain ⟨rfl, _⟩ := h
    exact hi
  | seq first second ihfirst ihsecond =>
    obtain ⟨k, hfirst, hsecond⟩ := h
    exact ihsecond hsecond (ihfirst hfirst hi)
  | alt first second ihfirst ihsecond =>
    rcases h with hfirst | hsecond
    · exact ihfirst hfirst hi
    · exact ihsecond hsecond hi
  | «repeat» inner min max greedy ih =>
    obtain ⟨n, _, _, hn⟩ := h
    exact hn.keeps (fun i j hstep hplace => ih hstep hplace) hi
  | group index inner ih => exact ih h hi

/-! ## Between the ends of a text -/

/-- A pattern set between the ends of a text matches exactly what the pattern matches as a whole. -/
theorem matches_anchored_iff {pattern : Pattern} {i j : Nat} (hi : i ≤ text.size) :
    (Pattern.seq (.look .textStart) (.seq pattern (.look .textEnd))).Matches text i j ↔
      i = 0 ∧ j = text.size ∧ pattern.Matches text 0 text.size := by
  constructor
  · rintro ⟨k, ⟨rfl, hstart⟩, l, hpattern, hends, hend⟩
    obtain rfl : k = 0 := by
      refine Nat.eq_zero_of_not_pos fun hpos => ?_
      have hbefore : before text k = text[k - 1]? := if_neg (Nat.ne_of_gt hpos)
      rw [Look.holds, hbefore, Array.getElem?_eq_getElem (by omega)] at hstart
      cases hstart
    obtain rfl : l = text.size := by
      refine Nat.le_antisymm (hpattern.le_size hi) (Nat.le_of_not_lt fun hlt => ?_)
      rw [Look.holds, Array.getElem?_eq_getElem hlt] at hend
      cases hend
    exact ⟨rfl, hends, hpattern⟩
  · rintro ⟨rfl, rfl, hpattern⟩
    refine ⟨0, ⟨rfl, rfl⟩, text.size, hpattern, rfl, ?_⟩
    rw [Look.holds, Array.getElem?_eq_none (Nat.le_refl _)]
    rfl

theorem matchesWithin_anchored_iff {pattern : Pattern} {text : String} :
    (Pattern.seq (.look .textStart) (.seq pattern (.look .textEnd))).MatchesWithin text ↔
      pattern.MatchesWhole text := by
  constructor
  · rintro ⟨i, j, hi, hmatches⟩
    exact ((matches_anchored_iff (by simpa using hi)).1 hmatches).2.2
  · intro hwhole
    exact ⟨0, _, Nat.zero_le _, (matches_anchored_iff (Nat.zero_le _)).2 ⟨rfl, rfl, hwhole⟩⟩

open Program (branch copies optionals oneOrMore zeroOrMore atLeast)

variable {program : Program} {m step place : Nat}

/-! ## Ways to the end -/

/-- Whether following the program from a step at a place can reach an end in `m` steps. -/
def Wins (program : Program) (text : Array Char) : Nat → Nat → Nat → Prop
  | 0, step, _ => program[step]? = some .done
  | m + 1, step, place => ∃ here, program[step]? = some here ∧
      ∃ job ∈ follow text ⟨step, place, []⟩ here, Wins program text m job.step job.place

theorem wins_iff {here : Step} (h : program[step]? = some here) (hne : here ≠ .done) :
    Wins program text m step place ↔ ∃ n, m = n + 1 ∧
      ∃ job ∈ follow text ⟨step, place, []⟩ here, Wins program text n job.step job.place := by
  cases m with
  | zero =>
    rw [Wins, h]
    simp [hne]
  | succ m =>
    rw [Wins, h]
    simp

theorem wins_jump {next : Nat} (h : program[step]? = some (.jump next)) :
    Wins program text m step place ↔ ∃ n, m = n + 1 ∧ Wins program text n next place := by
  rw [wins_iff h (by simp)]
  simp [follow]

theorem wins_split {first second : Nat} (h : program[step]? = some (.split first second)) :
    Wins program text m step place ↔ ∃ n, m = n + 1 ∧
      (Wins program text n first place ∨ Wins program text n second place) := by
  rw [wins_iff h (by simp)]
  simp [follow]

/-- Greed decides what is tried first, not what can be reached. -/
theorem wins_branch {greedy : Bool} {again leave : Nat}
    (h : program[step]? = some (branch greedy again leave)) :
    Wins program text m step place ↔ ∃ n, m = n + 1 ∧
      (Wins program text n again place ∨ Wins program text n leave place) := by
  cases greedy with
  | true => exact wins_split h
  | false =>
    have hsplit : program[step]? = some (.split leave again) := h
    rw [wins_split hsplit]
    simp only [or_comm]

/-! ## Pieces of code -/

theorem getElem?_push_of_lt {last : Step} {k : Nat} (h : k < program.size) :
    (program.push last)[k]? = program[k]? := by
  rw [Array.getElem?_push_lt h, Array.getElem?_eq_getElem h]

/-- A step of a program that was given one more is one of those it had or the new one. -/
theorem getElem?_push_cases {last here : Step} {k : Nat} (h : (program.push last)[k]? = some here) :
    (k < program.size ∧ program[k]? = some here) ∨ (k = program.size ∧ here = last) := by
  rw [Array.getElem?_push] at h
  split at h
  · rename_i hk
    exact .inr ⟨hk, (Option.some.inj h).symm⟩
  · exact .inl ⟨(Array.getElem?_eq_some_iff.1 h).1, h⟩

/-- Whether the steps of a piece of code from a number on stand in a program. -/
def Contains (program code : Program) (start : Nat) : Prop :=
  ∀ k, start ≤ k → k < code.size → program[k]? = code[k]?

/-- What appending a piece of code does: it adds steps behind those there are, none of which leads past
the end of the code, and the added steps lead from its beginning to its end between the places that are
related.  The way on is not longer than the way from the beginning. -/
structure Emits (text : Array Char) (code : Program → Program) (relation : Nat → Nat → Prop) :
    Prop where
  grows : ∀ program, program.size ≤ (code program).size
  keeps : ∀ program k, k < program.size → (code program)[k]? = program[k]?
  stays : ∀ program k here, program.size ≤ k → (code program)[k]? = some here →
    ∀ place, ∀ job ∈ follow text ⟨k, place, []⟩ here, job.step ≤ (code program).size
  leads : ∀ program whole, Contains whole (code program) program.size → ∀ i j m, relation i j →
    Wins whole text m (code program).size j → ∃ n, Wins whole text n program.size i
  returns : ∀ program whole, Contains whole (code program) program.size → ∀ i m,
    Wins whole text m program.size i →
      ∃ j n, relation i j ∧ n ≤ m ∧ Wins whole text n (code program).size j

variable {code next : Program → Program} {relation other : Nat → Nat → Prop}

theorem Emits.congr (h : Emits text code relation) (hrelation : ∀ i j, relation i j ↔ other i j) :
    Emits text code other := by
  obtain rfl : relation = other := funext fun i => funext fun j => propext (hrelation i j)
  exact h

/-- No code at all. -/
theorem emits_id : Emits text (fun program => program) (fun i j => j = i) where
  grows program := Nat.le_refl _
  keeps _ _ _ := rfl
  stays program k here hk hhere := by
    rw [Array.getElem?_eq_none hk] at hhere
    cases hhere
  leads program whole _ i j m hrelation hwins := by
    subst hrelation
    exact ⟨m, hwins⟩
  returns program whole _ i m hwins := ⟨i, m, rfl, Nat.le_refl m, hwins⟩

theorem contains_andThen {whole : Program} (h : Emits text code relation) (hnext : Emits text next other)
    (hwhole : Contains whole (next (code program)) program.size) :
    Contains whole (code program) program.size ∧
      Contains whole (next (code program)) (code program).size := by
  refine ⟨fun k hk hlt => ?_, fun k hk => hwhole k (Nat.le_trans (h.grows program) hk)⟩
  rw [hwhole k hk (Nat.lt_of_lt_of_le hlt (hnext.grows _)), hnext.keeps _ k hlt]

/-- One piece of code behind another. -/
theorem Emits.andThen (h : Emits text code relation) (hnext : Emits text next other) :
    Emits text (fun program => next (code program)) (fun i j => ∃ k, relation i k ∧ other k j) where
  grows program := Nat.le_trans (h.grows program) (hnext.grows _)
  keeps program k hk := by
    rw [hnext.keeps _ k (Nat.lt_of_lt_of_le hk (h.grows program)), h.keeps program k hk]
  stays program k here hk hhere place job hjob := by
    by_cases hfirst : k < (code program).size
    · rw [hnext.keeps _ k hfirst] at hhere
      exact Nat.le_trans (h.stays program k here hk hhere place job hjob) (hnext.grows _)
    · exact hnext.stays _ k here (Nat.le_of_not_lt hfirst) hhere place job hjob
  leads program whole hwhole i j m hrelation hwins := by
    obtain ⟨hfront, hbehind⟩ := contains_andThen h hnext hwhole
    obtain ⟨k, hfirst, hsecond⟩ := hrelation
    obtain ⟨n, hn⟩ := hnext.leads _ whole hbehind k j m hsecond hwins
    exact h.leads program whole hfront i k n hfirst hn
  returns program whole hwhole i m hwins := by
    obtain ⟨hfront, hbehind⟩ := contains_andThen h hnext hwhole
    obtain ⟨k, n, hfirst, hn, hmiddle⟩ := h.returns program whole hfront i m hwins
    obtain ⟨j, l, hsecond, hl, hend⟩ := hnext.returns _ whole hbehind k n hmiddle
    exact ⟨j, l, ⟨k, hfirst, hsecond⟩, Nat.le_trans hl hn, hend⟩

/-- A single step that goes on with the step behind it. -/
theorem emits_push {single : Nat → Step} (hne : ∀ next, single next ≠ .done)
    (hfollow : ∀ step next i t j, (∃ job ∈ follow text ⟨step, i, []⟩ (single next),
      job.step = t ∧ job.place = j) ↔ t = next ∧ relation i j) :
    Emits text (fun program => program.push (single (program.size + 1))) relation where
  grows program := by simp
  keeps program k hk := getElem?_push_of_lt hk
  stays program k here hk hhere place job hjob := by
    obtain ⟨hlt, _⟩ | ⟨rfl, rfl⟩ := getElem?_push_cases hhere
    · exact absurd hlt (Nat.not_lt.2 hk)
    · rw [Array.size_push]
      exact Nat.le_of_eq ((hfollow _ _ _ _ _).1 ⟨job, hjob, rfl, rfl⟩).1
  leads program whole hwhole i j m hrelation hwins := by
    have hhere := hwhole program.size (Nat.le_refl _) (by simp)
    rw [Array.getElem?_push_size] at hhere
    obtain ⟨job, hjob, hstep, hplace⟩ :=
      (hfollow program.size (program.size + 1) i _ j).2 ⟨rfl, hrelation⟩
    rw [Array.size_push, ← hstep, ← hplace] at hwins
    exact ⟨m + 1, (wins_iff hhere (hne _)).2 ⟨m, rfl, job, hjob, hwins⟩⟩
  returns program whole hwhole i m hwins := by
    have hhere := hwhole program.size (Nat.le_refl _) (by simp)
    rw [Array.getElem?_push_size] at hhere
    obtain ⟨n, rfl, job, hjob, hlater⟩ := (wins_iff hhere (hne _)).1 hwins
    obtain ⟨hstep, hrelation⟩ := (hfollow _ _ _ _ _).1 ⟨job, hjob, rfl, rfl⟩
    rw [Array.size_push]
    rw [hstep] at hlater
    exact ⟨job.place, n, hrelation, Nat.le_succ n, hlater⟩

theorem emits_chars (set : CharSet) :
    Emits text (fun program => program.push (.chars set (program.size + 1)))
      ((Pattern.chars set).Matches text) := by
  refine emits_push (fun next => by simp) (fun step next i t j => ?_)
  simp only [follow, Pattern.Matches]
  cases text[i]? with
  | none => simp
  | some c =>
    by_cases hc : set c = true
    · simpa [hc] using and_congr eq_comm eq_comm
    · simp [hc]

theorem emits_look (look : Look) :
    Emits text (fun program => program.push (.look look (program.size + 1)))
      ((Pattern.look look).Matches text) := by
  refine emits_push (fun next => by simp) (fun step next i t j => ?_)
  show (∃ job ∈ (if look.holds (before text i) text[i]? then [⟨next, i, []⟩] else ([] : List Job)),
    job.step = t ∧ job.place = j) ↔ _
  by_cases hholds : look.holds (before text i) text[i]? = true
  · simpa [hholds, Pattern.Matches] using and_congr eq_comm eq_comm
  · simp [hholds, Pattern.Matches]

/-- Recording a place. -/
theorem emits_save (slot : Nat) :
    Emits text (fun program => program.push (.save slot (program.size + 1))) (fun i j => j = i) := by
  refine emits_push (fun next => by simp) (fun step next i t j => ?_)
  simpa [follow] using and_congr eq_comm eq_comm

/-! ## Repetitions -/

theorem step_of_mem_follow_branch {greedy : Bool} {again leave : Nat} {start job : Job}
    (h : job ∈ follow text start (branch greedy again leave)) : job.step = again ∨ job.step = leave := by
  cases greedy <;> simp only [branch, if_true, Bool.false_eq_true, if_false, follow, List.mem_cons,
    List.not_mem_nil, or_false] at h
  · rcases h with rfl | rfl
    · exact .inr rfl
    · exact .inl rfl
  · rcases h with rfl | rfl
    · exact .inl rfl
    · exact .inr rfl

/-- A number of copies of code. -/
theorem Emits.copies (h : Emits text code relation) (n : Nat) :
    Emits text (copies n code) (Times relation n) := by
  induction n with
  | zero => exact emits_id
  | succ n ih =>
    have hlast : Program.copies (n + 1) code = fun program => code (Program.copies n code program) := by
      funext program
      rw [Program.copies, Nat.fold_succ]
      rfl
    rw [hlast]
    refine (ih.andThen h).congr (fun i j => ?_)
    rw [times_add n 1]
    simp only [times_one]

theorem contains_oneOrMore {whole : Program} {greedy : Bool} (h : Emits text code relation)
    (hwhole : Contains whole (oneOrMore greedy code program) program.size) :
    Contains whole (code program) program.size ∧ whole[(code program).size]? =
      some (branch greedy program.size ((code program).size + 1)) := by
  rw [Program.oneOrMore] at hwhole
  refine ⟨fun k hk hlt => ?_, ?_⟩
  · rw [hwhole k hk (by rw [Array.size_push]; omega), getElem?_push_of_lt hlt]
  · rw [hwhole _ (h.grows program) (by simp), Array.getElem?_push_size]

/-- Code that is repeated, at least once. -/
theorem Emits.oneOrMore (h : Emits text code relation) (greedy : Bool) :
    Emits text (oneOrMore greedy code) (fun i j => ∃ n, Times relation (n + 1) i j) where
  grows program := by
    rw [Program.oneOrMore, Array.size_push]
    exact Nat.le_succ_of_le (h.grows program)
  keeps program k hk := by
    rw [Program.oneOrMore, getElem?_push_of_lt (Nat.lt_of_lt_of_le hk (h.grows program)),
      h.keeps program k hk]
  stays program k here hk hhere place job hjob := by
    rw [Program.oneOrMore] at hhere ⊢
    rw [Array.size_push]
    obtain ⟨_, hinner⟩ | ⟨rfl, rfl⟩ := getElem?_push_cases hhere
    · exact Nat.le_succ_of_le (h.stays program k here hk hinner place job hjob)
    · rcases step_of_mem_follow_branch hjob with hstep | hstep
      · rw [hstep]
        exact Nat.le_succ_of_le (h.grows program)
      · exact Nat.le_of_eq hstep
  leads program whole hwhole i j m hrelation hwins := by
    obtain ⟨hinner, hlast⟩ := contains_oneOrMore h hwhole
    rw [Program.oneOrMore, Array.size_push] at hwins
    obtain ⟨n, hn⟩ := hrelation
    -- each round leads to the branch behind the code, from where the next one starts
    induction n generalizing i with
    | zero =>
      have hleave : Wins whole text (m + 1) _ j := (wins_branch hlast).2 ⟨m, rfl, .inr hwins⟩
      exact h.leads program whole hinner i j _ (times_one.1 hn) hleave
    | succ n ih =>
      obtain ⟨k, hk, hj⟩ := hn
      obtain ⟨l, hl⟩ := ih k hj
      have hagain : Wins whole text (l + 1) _ k := (wins_branch hlast).2 ⟨l, rfl, .inl hl⟩
      exact h.leads program whole hinner i k _ hk hagain
  returns program whole hwhole i m hwins := by
    obtain ⟨hinner, hlast⟩ := contains_oneOrMore h hwhole
    rw [Program.oneOrMore, Array.size_push]
    induction m using Nat.strongRecOn generalizing i with
    | ind m ih =>
      obtain ⟨k, l, hk, hl, hmiddle⟩ := h.returns program whole hinner i m hwins
      obtain ⟨n, rfl, hagain | hleave⟩ := (wins_branch hlast).1 hmiddle
      · obtain ⟨j, r, ⟨c, hc⟩, hr, hend⟩ := ih n (by omega) k hagain
        exact ⟨j, r, ⟨c + 1, k, hk, hc⟩, by omega, hend⟩
      · exact ⟨k, n, ⟨0, times_one.2 hk⟩, by omega, hleave⟩

/-! ### Code behind a step that is put in last -/

/-- A program whose step of a given number was put in when the steps behind it were there. -/
structure Frames (program inner final : Program) (first : Step) : Prop where
  size_eq : final.size = inner.size
  lt_size : program.size < inner.size
  keeps : ∀ k, k < program.size → final[k]? = program[k]?
  first : final[program.size]? = some first
  rest : ∀ k, program.size < k → final[k]? = inner[k]?

theorem frames {inner : Program} (hgrows : program.size < inner.size)
    (hkeeps : ∀ k, k < program.size → inner[k]? = program[k]?) (first : Step) :
    Frames program inner (inner.setIfInBounds program.size first) first where
  size_eq := Array.size_setIfInBounds
  lt_size := hgrows
  keeps k hk := by
    rw [Array.getElem?_setIfInBounds_ne (Nat.ne_of_gt hk), hkeeps k hk]
  first := Array.getElem?_setIfInBounds_self_of_lt hgrows
  rest k hk := Array.getElem?_setIfInBounds_ne (Nat.ne_of_lt hk)

/-- Code behind a placeholder. -/
theorem Emits.frames (h : Emits text code relation) (program : Program) (first : Step) :
    Frames program (code (program.push .done))
      ((code (program.push .done)).setIfInBounds program.size first) first := by
  have hgrows := h.grows (program.push .done)
  rw [Array.size_push] at hgrows
  refine Regex.frames hgrows (fun k hk => ?_) first
  rw [h.keeps _ k (by rw [Array.size_push]; omega), getElem?_push_of_lt hk]

theorem Frames.contains {inner final whole : Program} {first : Step}
    (h : Frames program inner final first) (hwhole : Contains whole final program.size) :
    whole[program.size]? = some first ∧ Contains whole inner (program.size + 1) := by
  refine ⟨?_, fun k hk hlt => ?_⟩
  · rw [hwhole _ (Nat.le_refl _) (by rw [h.size_eq]; exact h.lt_size), h.first]
  · rw [hwhole k (by omega) (by rw [h.size_eq]; exact hlt), h.rest k (by omega)]

/-- Code behind a branch to its beginning or its end. -/
def option (greedy : Bool) (code : Program → Program) (program : Program) : Program :=
  (code (program.push .done)).setIfInBounds program.size
    (branch greedy (program.size + 1) (code (program.push .done)).size)

theorem Emits.frames_option (h : Emits text code relation) (greedy : Bool) (program : Program) :
    Frames program (code (program.push .done)) (option greedy code program)
      (branch greedy (program.size + 1) (code (program.push .done)).size) :=
  h.frames program _

/-- Code that may be left out. -/
theorem Emits.option (h : Emits text code relation) (greedy : Bool) :
    Emits text (option greedy code) (fun i j => j = i ∨ relation i j) where
  grows program := by
    have hframes := h.frames_option greedy program
    rw [hframes.size_eq]
    exact Nat.le_of_lt hframes.lt_size
  keeps program := (h.frames_option greedy program).keeps
  stays program k here hk hhere place job hjob := by
    have hframes := h.frames_option greedy program
    rw [hframes.size_eq]
    rcases Nat.eq_or_lt_of_le hk with rfl | hlt
    · rw [hframes.first] at hhere
      obtain rfl := Option.some.inj hhere
      rcases step_of_mem_follow_branch hjob with hstep | hstep
      · rw [hstep]
        exact hframes.lt_size
      · exact Nat.le_of_eq hstep
    · rw [hframes.rest k hlt] at hhere
      exact h.stays _ k here (by rw [Array.size_push]; exact hlt) hhere place job hjob
  leads program whole hwhole i j m hrelation hwins := by
    have hframes := h.frames_option greedy program
    obtain ⟨hfirst, hinner⟩ := hframes.contains hwhole
    rw [hframes.size_eq] at hwins
    rcases hrelation with rfl | hrelation
    · exact ⟨m + 1, (wins_branch hfirst).2 ⟨m, rfl, .inr hwins⟩⟩
    · obtain ⟨n, hn⟩ := h.leads _ whole (by rwa [Array.size_push]) i j m hrelation hwins
      rw [Array.size_push] at hn
      exact ⟨n + 1, (wins_branch hfirst).2 ⟨n, rfl, .inl hn⟩⟩
  returns program whole hwhole i m hwins := by
    have hframes := h.frames_option greedy program
    obtain ⟨hfirst, hinner⟩ := hframes.contains hwhole
    rw [hframes.size_eq]
    obtain ⟨n, rfl, hagain | hleave⟩ := (wins_branch hfirst).1 hwins
    · obtain ⟨j, l, hrelation, hl, hend⟩ := h.returns (program.push .done) whole
        (by rwa [Array.size_push]) i n (by rwa [Array.size_push])
      exact ⟨j, l, .inr hrelation, by omega, hend⟩
    · exact ⟨i, n, .inl rfl, by omega, hleave⟩

/-- A number of optional copies of code, each behind the one before it. -/
theorem Emits.optionals (h : Emits text code relation) (greedy : Bool) (n : Nat) :
    Emits text (optionals greedy code n) (fun i j => ∃ k, k ≤ n ∧ Times relation k i j) := by
  induction n with
  | zero =>
    refine emits_id.congr (fun i j => ⟨fun hj => ⟨0, Nat.le_refl 0, hj⟩, fun ⟨k, hk, hj⟩ => ?_⟩)
    obtain rfl := Nat.le_zero.1 hk
    exact hj
  | succ n ih =>
    refine ((h.andThen ih).option greedy).congr (fun i j => ⟨?_, ?_⟩)
    · rintro (hj | ⟨l, hl, k, hk, hj⟩)
      · exact ⟨0, Nat.zero_le _, hj⟩
      · exact ⟨k + 1, Nat.succ_le_succ hk, l, hl, hj⟩
    · rintro ⟨k, hk, hj⟩
      cases k with
      | zero => exact .inl hj
      | succ k =>
        obtain ⟨l, hl, hj⟩ := hj
        exact .inr ⟨l, hl, k, Nat.le_of_succ_le_succ hk, hj⟩

/-- A loop is code behind a branch, with a jump back to it. -/
theorem Emits.frames_loop (h : Emits text code relation) (greedy : Bool) (program : Program) :
    Frames program ((code (program.push .done)).push (.jump program.size))
      (zeroOrMore greedy false code program)
      (branch greedy (program.size + 1) (zeroOrMore greedy false code program).size) := by
  have hinner := h.frames program .done
  have hframes := Regex.frames
    (show program.size < ((code (program.push .done)).push (.jump program.size)).size by
      rw [Array.size_push]
      exact Nat.lt_succ_of_lt hinner.lt_size)
    (fun k hk => by
      rw [getElem?_push_of_lt (Nat.lt_trans hk hinner.lt_size), ← hinner.keeps k hk,
        Array.getElem?_setIfInBounds_ne (Nat.ne_of_gt hk)])
    (branch greedy (program.size + 1) ((code (program.push .done)).push (.jump program.size)).size)
  have hbranch : branch greedy (program.size + 1) (zeroOrMore greedy false code program).size = _ :=
    congrArg (branch greedy (program.size + 1)) hframes.size_eq
  rw [hbranch]
  exact hframes

theorem contains_loop {whole : Program} {greedy : Bool} (h : Emits text code relation)
    (hwhole : Contains whole (zeroOrMore greedy false code program) program.size) :
    whole[program.size]? = some (branch greedy (program.size + 1)
        (zeroOrMore greedy false code program).size) ∧
      Contains whole (code (program.push .done)) (program.push .done).size ∧
      whole[(code (program.push .done)).size]? = some (.jump program.size) := by
  obtain ⟨hfirst, hinner⟩ := (h.frames_loop greedy program).contains hwhole
  refine ⟨hfirst, fun k hk hlt => ?_, ?_⟩
  · rw [Array.size_push] at hk
    rw [hinner k hk (by rw [Array.size_push]; omega), getElem?_push_of_lt hlt]
  · have hgrows := h.grows (program.push .done)
    rw [Array.size_push] at hgrows
    rw [hinner _ hgrows (by simp), Array.getElem?_push_size]

/-- Code that is repeated from its first step on. -/
theorem Emits.loop (h : Emits text code relation) (greedy : Bool) :
    Emits text (zeroOrMore greedy false code) (fun i j => ∃ n, Times relation n i j) where
  grows program := by
    have hframes := h.frames_loop greedy program
    exact Nat.le_of_lt (Nat.lt_of_lt_of_eq hframes.lt_size hframes.size_eq.symm)
  keeps program := (h.frames_loop greedy program).keeps
  stays program k here hk hhere place job hjob := by
    have hframes := h.frames_loop greedy program
    rcases Nat.eq_or_lt_of_le hk with rfl | hlt
    · obtain rfl := Option.some.inj (hframes.first.symm.trans hhere)
      rcases step_of_mem_follow_branch hjob with hstep | hstep
      · rw [hstep, hframes.size_eq]
        exact hframes.lt_size
      · exact Nat.le_of_eq hstep
    · rw [hframes.rest k hlt] at hhere
      rw [hframes.size_eq, Array.size_push]
      obtain ⟨_, hinner⟩ | ⟨rfl, rfl⟩ := getElem?_push_cases hhere
      · exact Nat.le_succ_of_le
          (h.stays _ k here (by rw [Array.size_push]; exact hlt) hinner place job hjob)
      · rw [follow, List.mem_singleton] at hjob
        rw [hjob]
        exact Nat.le_succ_of_le (Nat.le_of_lt hlt)
  leads program whole hwhole i j m hrelation hwins := by
    obtain ⟨hfirst, hinner, hlast⟩ := contains_loop h hwhole
    obtain ⟨n, hn⟩ := hrelation
    induction n generalizing i with
    | zero =>
      obtain rfl : j = i := hn
      exact ⟨m + 1, (wins_branch hfirst).2 ⟨m, rfl, .inr hwins⟩⟩
    | succ n ih =>
      obtain ⟨k, hk, hj⟩ := hn
      obtain ⟨l, hl⟩ := ih k hj
      have hback : Wins whole text (l + 1) _ k := (wins_jump hlast).2 ⟨l, rfl, hl⟩
      obtain ⟨r, hr⟩ := h.leads _ whole hinner i k _ hk hback
      rw [Array.size_push] at hr
      exact ⟨r + 1, (wins_branch hfirst).2 ⟨r, rfl, .inl hr⟩⟩
  returns program whole hwhole i m hwins := by
    obtain ⟨hfirst, hinner, hlast⟩ := contains_loop h hwhole
    induction m using Nat.strongRecOn generalizing i with
    | ind m ih =>
      obtain ⟨n, rfl, hagain | hleave⟩ := (wins_branch hfirst).1 hwins
      · obtain ⟨k, l, hk, hl, hmiddle⟩ := h.returns _ whole hinner i n (by rwa [Array.size_push])
        obtain ⟨l, rfl, hback⟩ := (wins_jump hlast).1 hmiddle
        obtain ⟨j, r, ⟨c, hc⟩, hr, hend⟩ := ih l (by omega) k hback
        exact ⟨j, r, ⟨c + 1, k, hk, hc⟩, by omega, hend⟩
      · exact ⟨i, n, ⟨0, rfl⟩, by omega, hleave⟩

/-- Code that is repeated as long as it matches. -/
theorem Emits.zeroOrMore (h : Emits text code relation) (greedy canBeEmpty : Bool) :
    Emits text (zeroOrMore greedy canBeEmpty code) (fun i j => ∃ n, Times relation n i j) := by
  cases canBeEmpty with
  | false => exact h.loop greedy
  | true =>
    refine ((h.oneOrMore greedy).option greedy).congr (fun i j => ⟨?_, ?_⟩)
    · rintro (hj | ⟨n, hn⟩)
      · exact ⟨0, hj⟩
      · exact ⟨n + 1, hn⟩
    · rintro ⟨n, hn⟩
      cases n with
      | zero => exact .inl hn
      | succ n => exact .inr ⟨n, hn⟩

/-- Code that is repeated a number of times or more. -/
theorem Emits.atLeast (h : Emits text code relation) (min : Nat) (greedy canBeEmpty : Bool) :
    Emits text (atLeast min greedy canBeEmpty code)
      (fun i j => ∃ n, min ≤ n ∧ Times relation n i j) := by
  cases min with
  | zero =>
    refine (h.zeroOrMore greedy canBeEmpty).congr (fun i j => ?_)
    simp
  | succ min =>
    refine ((h.copies min).andThen (h.oneOrMore greedy)).congr (fun i j => ⟨?_, ?_⟩)
    · rintro ⟨k, hk, n, hn⟩
      exact ⟨min + (n + 1), by omega, (times_add min (n + 1)).2 ⟨k, hk, hn⟩⟩
    · rintro ⟨n, hmin, hn⟩
      obtain ⟨c, rfl⟩ := Nat.exists_eq_add_of_le hmin
      rw [show min + 1 + c = min + (c + 1) by omega] at hn
      obtain ⟨k, hk, hj⟩ := (times_add min (c + 1)).1 hn
      exact ⟨k, hk, c, hj⟩

/-! ## Alternatives -/

/-- Code for either of two alternatives. -/
def either (code next : Program → Program) (program : Program) : Program :=
  let left := code (program.push .done)
  let right := next (left.push .done)
  (right.setIfInBounds program.size (.split (program.size + 1) (left.size + 1))).setIfInBounds left.size
    (.jump right.size)

/-- Where the steps of alternatives come from. -/
structure Forks (program left right final : Program) : Prop where
  size_eq : final.size = right.size
  lt_left : program.size < left.size
  lt_right : left.size < right.size
  keeps : ∀ k, k < program.size → final[k]? = program[k]?
  first : final[program.size]? = some (.split (program.size + 1) (left.size + 1))
  middle : final[left.size]? = some (.jump right.size)
  inLeft : ∀ k, program.size < k → k < left.size → final[k]? = left[k]?
  inRight : ∀ k, left.size < k → final[k]? = right[k]?

theorem forks (h : Emits text code relation) (hnext : Emits text next other) (program : Program) :
    Forks program (code (program.push .done)) (next ((code (program.push .done)).push .done))
      (either code next program) := by
  have hsecond := hnext.frames (code (program.push .done))
    (.jump (next ((code (program.push .done)).push .done)).size)
  have hleft := h.frames program .done
  have hlt : program.size < ((next ((code (program.push .done)).push .done)).setIfInBounds
      (code (program.push .done)).size
      (.jump (next ((code (program.push .done)).push .done)).size)).size := by
    rw [hsecond.size_eq]
    exact Nat.lt_trans hleft.lt_size hsecond.lt_size
  have hfirst := Regex.frames hlt
    (fun k hk => by
      rw [hsecond.keeps k (Nat.lt_trans hk hleft.lt_size), ← hleft.keeps k hk,
        Array.getElem?_setIfInBounds_ne (Nat.ne_of_gt hk)])
    (.split (program.size + 1) ((code (program.push .done)).size + 1))
  have hfinal : either code next program =
      ((next ((code (program.push .done)).push .done)).setIfInBounds (code (program.push .done)).size
        (.jump (next ((code (program.push .done)).push .done)).size)).setIfInBounds program.size
        (.split (program.size + 1) ((code (program.push .done)).size + 1)) :=
    Array.setIfInBounds_comm _ _ (Nat.ne_of_lt hleft.lt_size)
  rw [hfinal]
  refine ⟨hfirst.size_eq.trans hsecond.size_eq, hleft.lt_size, hsecond.lt_size, hfirst.keeps,
    hfirst.first, ?_, fun k hk hlt => ?_, fun k hk => ?_⟩
  · rw [hfirst.rest _ hleft.lt_size, hsecond.first]
  · rw [hfirst.rest k hk, hsecond.keeps k hlt]
  · rw [hfirst.rest k (Nat.lt_trans hleft.lt_size hk), hsecond.rest k hk]

/-- What a program with alternatives in it contains. -/
theorem Forks.contains {left right final whole : Program} (h : Forks program left right final)
    (hwhole : Contains whole final program.size) :
    whole[program.size]? = some (.split (program.size + 1) (left.size + 1)) ∧
      whole[left.size]? = some (.jump right.size) ∧ Contains whole left (program.size + 1) ∧
      Contains whole right (left.size + 1) := by
  obtain ⟨hsize, hleft, hright, _, hfirst, hmiddle, hinLeft, hinRight⟩ := h
  refine ⟨?_, ?_, fun k hk hlt => ?_, fun k hk hlt => ?_⟩
  · rw [hwhole _ (Nat.le_refl _) (by omega), hfirst]
  · rw [hwhole _ (by omega) (by omega), hmiddle]
  · rw [hwhole k (by omega) (by omega), hinLeft k hk hlt]
  · rw [hwhole k (by omega) (by omega), hinRight k hk]

theorem Emits.either (h : Emits text code relation) (hnext : Emits text next other) :
    Emits text (either code next) (fun i j => relation i j ∨ other i j) where
  grows program := by
    have hforks := forks h hnext program
    rw [hforks.size_eq]
    exact Nat.le_of_lt (Nat.lt_trans hforks.lt_left hforks.lt_right)
  keeps program := (forks h hnext program).keeps
  stays program k here hk hhere place job hjob := by
    have hforks := forks h hnext program
    have hleft := hforks.lt_left
    have hright := hforks.lt_right
    rw [hforks.size_eq]
    rcases Nat.eq_or_lt_of_le hk with rfl | hk
    · obtain rfl := Option.some.inj (hforks.first.symm.trans hhere)
      simp only [follow, List.mem_cons, List.not_mem_nil, or_false] at hjob
      rcases hjob with rfl | rfl
      · exact Nat.le_trans hleft (Nat.le_of_lt hright)
      · exact hright
    · rcases Nat.lt_trichotomy k (code (program.push .done)).size with hlt | rfl | hlt
      · rw [hforks.inLeft k hk hlt] at hhere
        have hstays := h.stays _ k here (by rw [Array.size_push]; exact hk) hhere place job hjob
        exact Nat.le_trans hstays (Nat.le_of_lt hright)
      · obtain rfl := Option.some.inj (hforks.middle.symm.trans hhere)
        rw [follow, List.mem_singleton] at hjob
        exact Nat.le_of_eq (congrArg Job.step hjob)
      · rw [hforks.inRight k hlt] at hhere
        exact hnext.stays _ k here (by rw [Array.size_push]; exact hlt) hhere place job hjob
  leads program whole hwhole i j m hrelation hwins := by
    have hforks := forks h hnext program
    obtain ⟨hfirst, hmiddle, hleft, hright⟩ := hforks.contains hwhole
    rw [hforks.size_eq] at hwins
    rcases hrelation with hrelation | hrelation
    · have hjump : Wins whole text (m + 1) _ j := (wins_jump hmiddle).2 ⟨m, rfl, hwins⟩
      obtain ⟨n, hn⟩ := h.leads _ whole (by rwa [Array.size_push]) i j _ hrelation hjump
      rw [Array.size_push] at hn
      exact ⟨n + 1, (wins_split hfirst).2 ⟨n, rfl, .inl hn⟩⟩
    · obtain ⟨n, hn⟩ := hnext.leads _ whole (by rwa [Array.size_push]) i j _ hrelation hwins
      rw [Array.size_push] at hn
      exact ⟨n + 1, (wins_split hfirst).2 ⟨n, rfl, .inr hn⟩⟩
  returns program whole hwhole i m hwins := by
    have hforks := forks h hnext program
    obtain ⟨hfirst, hmiddle, hleft, hright⟩ := hforks.contains hwhole
    rw [hforks.size_eq]
    obtain ⟨n, rfl, hwins | hwins⟩ := (wins_split hfirst).1 hwins
    · obtain ⟨j, l, hrelation, hl, hend⟩ := h.returns (program.push .done) whole
        (by rwa [Array.size_push]) i n (by rwa [Array.size_push])
      obtain ⟨r, rfl, hout⟩ := (wins_jump hmiddle).1 hend
      exact ⟨j, r, .inl hrelation, by omega, hout⟩
    · obtain ⟨j, l, hrelation, hl, hend⟩ := hnext.returns _ whole
        (by rwa [Array.size_push]) i n (by rwa [Array.size_push])
      exact ⟨j, l, .inr hrelation, by omega, hend⟩

/-! ## Patterns -/

/-- The code of a pattern leads between the places that the pattern relates. -/
theorem emits_append {pattern : Pattern} (h : pattern.IsProper) :
    Emits text (Program.append pattern) (pattern.Matches text) := by
  induction pattern with
  | empty => exact emits_id
  | chars set => exact emits_chars set
  | look condition => exact emits_look condition
  | seq first second ihfirst ihsecond => exact (ihfirst h.1).andThen (ihsecond h.2)
  | alt first second ihfirst ihsecond => exact (ihfirst h.1).either (ihsecond h.2)
  | «repeat» inner min max greedy ih =>
    cases max with
    | none =>
      refine ((ih h.2).atLeast min greedy inner.canBeEmpty).congr (fun i j => ?_)
      simp [Pattern.Matches]
    | some max =>
      refine (((ih h.2).copies min).andThen ((ih h.2).optionals greedy (max - min))).congr
        (fun i j => ⟨?_, ?_⟩)
      · rintro ⟨k, hk, n, hn, hj⟩
        have hmin : min ≤ max := h.1 max rfl
        refine ⟨min + n, Nat.le_add_right _ _, fun bound hbound => ?_, (times_add min n).2 ⟨k, hk, hj⟩⟩
        obtain rfl := Option.some.inj hbound
        omega
      · rintro ⟨n, hmin, hmax, hn⟩
        have hle : n ≤ max := hmax max rfl
        obtain ⟨c, rfl⟩ := Nat.exists_eq_add_of_le hmin
        obtain ⟨k, hk, hj⟩ := (times_add min c).1 hn
        exact ⟨k, hk, c, by omega, hj⟩
  | group index inner ih =>
    refine (((emits_save (2 * index)).andThen (ih h)).andThen (emits_save (2 * index + 1))).congr
      (fun i j => ⟨?_, ?_⟩)
    · rintro ⟨l, ⟨k, rfl, hl⟩, rfl⟩
      exact hl
    · exact fun hj => ⟨j, ⟨i, rfl, hj⟩, rfl⟩

/-- The program of a pattern reaches its end from a place exactly if the pattern matches from there. -/
theorem wins_ofPattern_iff {pattern : Pattern} (h : pattern.IsProper) (place : Nat) :
    (∃ m, Wins (.ofPattern pattern) text m 0 place) ↔ ∃ j, pattern.Matches text place j := by
  have hemits : Emits text (Program.append pattern) (pattern.Matches text) := emits_append h
  have hcontains : Contains (.ofPattern pattern) (Program.append pattern #[]) 0 :=
    fun k _ hlt => getElem?_push_of_lt hlt
  have hdone : (Program.ofPattern pattern)[(Program.append pattern #[]).size]? = some .done := by
    rw [Program.ofPattern, Array.getElem?_push_size]
  constructor
  · rintro ⟨m, hm⟩
    obtain ⟨j, _, hj, _⟩ := hemits.returns #[] _ hcontains place m hm
    exact ⟨j, hj⟩
  · rintro ⟨j, hj⟩
    exact hemits.leads #[] _ hcontains place j 0 hj hdone

/-- The steps of the program of a pattern lead to steps of the program. -/
theorem step_lt_of_follow {pattern : Pattern} (h : pattern.IsProper) {here : Step} {k : Nat}
    (hhere : (Program.ofPattern pattern)[k]? = some here) {place : Nat} {job : Job}
    (hjob : job ∈ follow text ⟨k, place, []⟩ here) : job.step < (Program.ofPattern pattern).size := by
  have hemits : Emits text (Program.append pattern) (pattern.Matches text) := emits_append h
  rw [Program.ofPattern, Array.size_push]
  obtain ⟨_, hinner⟩ | ⟨rfl, rfl⟩ := getElem?_push_cases hhere
  · exact Nat.lt_succ_of_le (hemits.stays #[] k here (Nat.zero_le _) hinner place job hjob)
  · simp [follow] at hjob

end CodeAtlas.Regex
