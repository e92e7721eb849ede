/-
# Patterns in a group

What is read from the beginning of a text is read in the same way when the closing characters of a
group follow, except that the end of the text is now a closing parenthesis.  A comment at the end may
swallow the closing characters; the group is then never closed.

Readers are compared step by step: whatever one of them reads, the other one reads too, and leaves a
cursor that goes on alike.
-/
import CodeAtlas.Proofs.Regex.Matches
import Mathlib.Data.List.TakeWhile

namespace CodeAtlas.Regex.Reader

/-! ## Proper patterns -/

theorem isProper_atomPattern (flags : Flags) (atom : Atom) : (atomPattern flags atom).IsProper := by
  cases atom <;> exact trivial

namespace Branches

/-- Every pattern that was read so far is proper. -/
structure AreProper (branches : Branches) : Prop where
  items : ∀ item ∈ branches.items, ∀ pattern ∈ item, pattern.IsProper
  done : ∀ pattern ∈ branches.done, pattern.IsProper

theorem areProper_start : start.AreProper :=
  ⟨by simp [start], by simp [start]⟩

theorem AreProper.add {branches : Branches} (h : branches.AreProper) {item : Option Pattern}
    (hitem : ∀ pattern ∈ item, pattern.IsProper) : (branches.add item).AreProper :=
  ⟨List.forall_mem_cons.2 ⟨hitem, h.items⟩, h.done⟩

theorem AreProper.current {branches : Branches} (h : branches.AreProper) : branches.current.IsProper := by
  refine Pattern.isProper_sequence fun pattern hpattern => ?_
  obtain ⟨item, hitem, hsome⟩ := List.mem_filterMap.1 hpattern
  exact h.items item (List.mem_reverse.1 hitem) pattern hsome

theorem AreProper.next {branches : Branches} (h : branches.AreProper) : branches.next.AreProper :=
  ⟨by simp [Branches.next], List.forall_mem_cons.2 ⟨h.current, h.done⟩⟩

theorem AreProper.pattern {branches : Branches} (h : branches.AreProper) : branches.pattern.IsProper :=
  Pattern.isProper_choice fun pattern hpattern =>
    List.forall_mem_cons.2 ⟨h.current, h.done⟩ pattern (List.mem_reverse.1 hpattern)

theorem AreProper.repeatLast {branches : Branches} (h : branches.AreProper)
    {bounds : Nat × Option Nat}
    (hbounds : Pattern.IsRange bounds) {greedy : Bool} {repeated : Branches}
    (hrepeated : branches.repeatLast bounds.1 bounds.2 greedy = some repeated) : repeated.AreProper := by
  rw [Branches.repeatLast] at hrepeated
  split at hrepeated
  · rename_i last rest heq
    obtain rfl := Option.some.inj hrepeated
    have hitems := h.items
    rw [heq] at hitems
    obtain ⟨hlast, hrest⟩ := List.forall_mem_cons.1 hitems
    refine ⟨List.forall_mem_cons.2 ⟨fun pattern hpattern => ?_, hrest⟩, h.done⟩
    obtain rfl := Option.some.inj hpattern
    exact Pattern.isProper_repeated (hlast last rfl) hbounds greedy
  · cases hrepeated

end Branches

/-! ## Cursors that go on alike -/

variable {α β : Type}

/-- What closes the group around a pattern between the ends of a text. -/
def closing : List Char :=
  [')', '$']

/-- A cursor with the closing characters behind what the other one has to read; at the end of that they
may be missing. -/
structure Extends (inner outer : Cursor) : Prop where
  groups : outer.groups = inner.groups
  names : outer.names = inner.names
  rest : outer.rest = inner.rest ++ closing ∨ (inner.rest = [] ∧ outer.rest = [])

theorem Extends.rest_of_cons {inner outer : Cursor} (h : Extends inner outer) {c : Char}
    {rest : List Char} (hrest : inner.rest = c :: rest) : outer.rest = c :: (rest ++ closing) := by
  rcases h.rest with houter | ⟨hempty, _⟩
  · rw [houter, hrest, List.cons_append]
  · rw [hrest] at hempty
    cases hempty

theorem extends_beginning (s : List Char) : Extends ⟨s, 0, []⟩ ⟨s ++ closing, 0, []⟩ :=
  ⟨rfl, rfl, .inl rfl⟩

/-- Whether what a reader reads at a cursor is read by the other one at the other cursor, and is good. -/
def LiftsAt (good : α → Prop) (inner outer : Cursor) (reader reader' : Reader α) : Prop :=
  ∀ value after, reader inner = some (value, after) →
    good value ∧ ∃ after', reader' outer = some (value, after') ∧ Extends after after'

/-- Whether what one reader reads is read by the other one where the closing characters follow. -/
def Lifts (good : α → Prop) (reader reader' : Reader α) : Prop :=
  ∀ inner outer, Extends inner outer → LiftsAt good inner outer reader reader'

/-- Nothing is asked of a value. -/
def Any (_ : α) : Prop :=
  True

/-! ## Combining readers -/

variable {good : α → Prop} {better : β → Prop} {inner outer : Cursor} {reader reader' : Reader α}
  {next next' : α → Reader β}

theorem run_bind (reader : Reader α) (next : α → Reader β) (cursor : Cursor) :
    (reader >>= next) cursor = (reader cursor).bind (fun read => next read.1 read.2) :=
  rfl

theorem lifts_pure {value : α} (h : good value) : Lifts good (pure value) (pure value) := by
  intro inner outer hextends value' after hrun
  obtain ⟨rfl, rfl⟩ := Prod.mk.inj (Option.some.inj hrun)
  exact ⟨h, outer, rfl, hextends⟩

/-- Where nothing is read, nothing has to be read. -/
theorem liftsAt_of_none (h : reader inner = none) : LiftsAt good inner outer reader reader' := by
  intro value after hrun
  rw [h] at hrun
  cases hrun

theorem liftsAt_of_lifts (hextends : Extends inner outer) (h : Lifts good reader reader') :
    LiftsAt good inner outer reader reader' :=
  h inner outer hextends

theorem lifts_failure : Lifts good (failure : Reader α) reader' :=
  fun _ _ _ => liftsAt_of_none rfl

theorem LiftsAt.bind (h : LiftsAt good inner outer reader reader')
    (hnext : ∀ value, good value → Lifts better (next value) (next' value)) :
    LiftsAt better inner outer (reader >>= next) (reader' >>= next') := by
  intro value after hrun
  rw [run_bind] at hrun
  obtain ⟨⟨first, middle⟩, hfirst, hrest⟩ := Option.bind_eq_some_iff.1 hrun
  obtain ⟨hgood, middle', hfirst', hextends⟩ := h first middle hfirst
  obtain ⟨hbetter, after', hrest', hafter⟩ := hnext first hgood middle middle' hextends value after hrest
  refine ⟨hbetter, after', ?_, hafter⟩
  rw [run_bind, hfirst']
  exact hrest'

theorem Lifts.bind (h : Lifts good reader reader')
    (hnext : ∀ value, good value → Lifts better (next value) (next' value)) :
    Lifts better (reader >>= next) (reader' >>= next') :=
  fun inner outer hextends => (h inner outer hextends).bind hnext

theorem Lifts.ite {condition : Prop} [Decidable condition] {other other' : Reader α}
    (h : condition → Lifts good reader reader') (hother : ¬ condition → Lifts good other other') :
    Lifts good (if condition then reader else other) (if condition then reader' else other') := by
  by_cases hcondition : condition
  · rw [if_pos hcondition, if_pos hcondition]
    exact h hcondition
  · rw [if_neg hcondition, if_neg hcondition]
    exact hother hcondition

theorem Lifts.discard (h : Lifts good reader reader') :
    Lifts Any (discard reader) (discard reader') := by
  intro inner outer hextends value after hrun
  obtain ⟨⟨found, after⟩, hfound, hdone⟩ := Option.bind_eq_some_iff.1 hrun
  obtain ⟨rfl, rfl⟩ := Prod.mk.inj (Option.some.inj hdone)
  obtain ⟨_, after', hfound', hafter⟩ := h inner outer hextends found after hfound
  refine ⟨trivial, after', ?_, hafter⟩
  show (reader' outer).bind _ = _
  rw [hfound']
  rfl

theorem lifts_lift {choice : Option α} : Lifts Any (liftM choice : Reader α) (liftM choice) := by
  intro inner outer hextends value after hrun
  cases choice with
  | none => cases hrun
  | some found =>
    obtain ⟨rfl, rfl⟩ := Prod.mk.inj (Option.some.inj hrun)
    exact ⟨trivial, outer, rfl, hextends⟩

/-! ### Reading and moving the cursor -/

theorem lifts_get_bind {next next' : Cursor → Reader β}
    (h : ∀ inner outer, Extends inner outer → LiftsAt better inner outer (next inner) (next' outer)) :
    Lifts better (get >>= next) (get >>= next') :=
  fun inner outer hextends value after hrun => h inner outer hextends value after hrun

theorem lifts_set {inner outer : Cursor} (h : Extends inner outer) :
    Lifts Any (set inner : Reader PUnit) (set outer) := by
  intro _ _ _ value after hrun
  obtain ⟨rfl, rfl⟩ := Prod.mk.inj (Option.some.inj hrun)
  exact ⟨trivial, outer, rfl, h⟩

theorem lifts_modify {f : Cursor → Cursor}
    (h : ∀ inner outer, Extends inner outer → Extends (f inner) (f outer)) :
    Lifts Any (modify f : Reader PUnit) (modify f) := by
  intro inner outer hextends value after hrun
  obtain ⟨rfl, rfl⟩ := Prod.mk.inj (Option.some.inj hrun)
  exact ⟨trivial, f outer, rfl, h inner outer hextends⟩

/-- At the next character the cursors differ only where the inner one is at its end. -/
theorem lifts_peek_bind {next next' : Option Char → Reader β}
    (hsome : ∀ c, Lifts better (next (some c)) (next' (some c)))
    (hnone : ∀ inner outer, Extends inner outer → inner.rest = [] → ∀ c, c = none ∨ c = some ')' →
      LiftsAt better inner outer (next none) (next' c)) :
    Lifts better (peek >>= next) (peek >>= next') := by
  intro inner outer hextends
  show LiftsAt better inner outer (next inner.rest.head?) (next' outer.rest.head?)
  cases hrest : inner.rest with
  | nil =>
    refine hnone inner outer hextends hrest _ ?_
    rcases hextends.rest with houter | ⟨_, houter⟩
    · rw [houter, hrest]
      exact .inr rfl
    · rw [houter]
      exact .inl rfl
  | cons c rest =>
    rw [hextends.rest_of_cons hrest]
    exact hsome c inner outer hextends

/-! ## Characters -/

theorem lifts_take : Lifts Any take take := by
  intro inner outer hextends value after hrun
  obtain ⟨rest, groups, names⟩ := inner
  cases rest with
  | nil => cases hrun
  | cons c rest =>
    obtain ⟨rfl, rfl⟩ := Prod.mk.inj (Option.some.inj hrun)
    refine ⟨trivial, ⟨rest ++ closing, outer.groups, outer.names⟩, ?_,
      ⟨hextends.groups, hextends.names, .inl rfl⟩⟩
    have houter := hextends.rest_of_cons rfl
    obtain ⟨rest', groups', names'⟩ := outer
    obtain rfl : rest' = c :: (rest ++ closing) := houter
    rfl

/-- What accepting a text does. -/
theorem run_accept (lead : String) (cursor : Cursor) :
    accept lead cursor = some (match Text.afterLead? lead.toList cursor.rest with
      | some rest => (true, { cursor with rest := rest })
      | none => (false, cursor)) := by
  rw [accept, run_bind]
  show (match Text.afterLead? lead.toList cursor.rest with
    | some rest => (modify (fun cursor : Cursor => { cursor with rest := rest }) >>=
        fun _ => pure true : Reader Bool)
    | none => pure false) cursor = _
  cases Text.afterLead? lead.toList cursor.rest <;> rfl

/-- A text without a parenthesis that does not come next does not come next behind the end either. -/
theorem afterLead?_append_of_none {lead s : List Char} (hlead : ')' ∉ lead)
    (h : Text.afterLead? lead s = none) : Text.afterLead? lead (s ++ closing) = none := by
  induction lead generalizing s with
  | nil => cases h
  | cons l lead ih =>
    rw [List.mem_cons, not_or] at hlead
    cases s with
    | nil =>
      show (if l == ')' then _ else none) = none
      rw [if_neg (by simpa using Ne.symm hlead.1)]
    | cons c s =>
      rw [Text.afterLead?] at h
      rw [List.cons_append, Text.afterLead?]
      split
      · rename_i hc
        rw [if_pos hc] at h
        exact ih hlead.2 h
      · rfl

/-- What comes next comes next where the closing characters follow. -/
theorem liftsAt_accept {lead : String} (hextends : Extends inner outer)
    (h : Text.afterLead? lead.toList inner.rest = none → Text.afterLead? lead.toList outer.rest = none) :
    LiftsAt Any inner outer (accept lead) (accept lead) := by
  intro value after hrun
  rw [run_accept, Option.some.injEq] at hrun
  refine ⟨trivial, ?_⟩
  rw [run_accept]
  obtain ⟨hgroups, hnames, hrest⟩ := hextends
  cases hlead : Text.afterLead? lead.toList inner.rest with
  | some rest =>
    rw [hlead] at hrun
    obtain ⟨rfl, rfl⟩ := Prod.mk.inj hrun
    rcases hrest with houter | ⟨hinner, houter⟩
    · rw [houter, Text.afterLead?_append_of_some hlead]
      exact ⟨_, rfl, hgroups, hnames, .inl rfl⟩
    · rw [houter, ← hinner, hlead]
      have hempty := Text.eq_append_of_afterLead? hlead
      rw [hinner, List.nil_eq, List.append_eq_nil_iff] at hempty
      exact ⟨_, rfl, hgroups, hnames, .inr ⟨hempty.2, hempty.2⟩⟩
  | none =>
    rw [hlead] at hrun
    obtain ⟨rfl, rfl⟩ := Prod.mk.inj hrun
    rw [h hlead]
    exact ⟨outer, rfl, hgroups, hnames, hrest⟩

theorem lifts_accept {lead : String} (h : ')' ∉ lead.toList) :
    Lifts Any (accept lead) (accept lead) := by
  refine fun inner outer hextends => liftsAt_accept hextends fun hnone => ?_
  rcases hextends.rest with houter | ⟨hinner, houter⟩
  · rw [houter]
    exact afterLead?_append_of_none h hnone
  · rwa [houter, ← hinner]

/-- A text that has to come next. -/
theorem lifts_expect (lead : String) : Lifts Any (expect lead) (expect lead) := by
  intro inner outer hextends
  by_cases hlead : (Text.afterLead? lead.toList inner.rest).isSome = true
  · exact (liftsAt_accept hextends (fun hnone => by simp [hnone] at hlead)).bind fun _ _ =>
      Lifts.ite (fun _ => lifts_failure) (fun _ => lifts_pure trivial)
  · have hnone : Text.afterLead? lead.toList inner.rest = none := by simpa using hlead
    refine liftsAt_of_none ?_
    rw [expect, run_bind, run_accept, hnone]
    rfl

theorem takeWhile_append_closing {p : Char → Bool} (h : p ')' = false) (s : List Char) :
    (s ++ closing).takeWhile p = s.takeWhile p := by
  induction s with
  | nil => simp [closing, h]
  | cons c s ih =>
    rw [List.cons_append, List.takeWhile_cons, List.takeWhile_cons, ih]

theorem dropWhile_append_closing {p : Char → Bool} (h : p ')' = false) (s : List Char) :
    (s ++ closing).dropWhile p = s.dropWhile p ++ closing := by
  induction s with
  | nil => simp [closing, h]
  | cons c s ih =>
    rw [List.cons_append, List.dropWhile_cons, List.dropWhile_cons, ih]
    split <;> rfl

theorem takeWhile_append_of_dropWhile {p : Char → Bool} {s more : List Char}
    (h : s.dropWhile p ≠ []) : (s ++ more).takeWhile p = s.takeWhile p := by
  induction s with
  | nil => exact absurd rfl h
  | cons c s ih =>
    rw [List.dropWhile_cons] at h
    rw [List.cons_append, List.takeWhile_cons, List.takeWhile_cons]
    split
    · rename_i hc
      rw [if_pos hc] at h
      rw [ih h]
    · rfl

theorem dropWhile_append_of_dropWhile {p : Char → Bool} {s more : List Char}
    (h : s.dropWhile p ≠ []) : (s ++ more).dropWhile p = s.dropWhile p ++ more := by
  induction s with
  | nil => exact absurd rfl h
  | cons c s ih =>
    rw [List.dropWhile_cons] at h
    rw [List.cons_append, List.dropWhile_cons, List.dropWhile_cons]
    split
    · rename_i hc
      rw [if_pos hc] at h
      exact ih h
    · rfl

/-- A run of characters that stops in front of a parenthesis. -/
theorem lifts_run {p : Char → Bool} (h : p ')' = false) : Lifts Any (run p) (run p) := by
  intro inner outer hextends value after hrun
  obtain ⟨rfl, rfl⟩ := Prod.mk.inj (Option.some.inj hrun)
  obtain ⟨hgroups, hnames, hrest⟩ := hextends
  refine ⟨trivial, { outer with rest := outer.rest.dropWhile p }, ?_, hgroups, hnames, ?_⟩
  · show some (outer.rest.takeWhile p, _) = _
    rcases hrest with houter | ⟨hinner, houter⟩
    · rw [houter, takeWhile_append_closing h]
    · rw [houter, hinner]
  · rcases hrest with houter | ⟨hinner, houter⟩
    · rw [houter, dropWhile_append_closing h]
      exact .inl rfl
    · rw [houter, hinner]
      exact .inr ⟨rfl, rfl⟩

/-- A run of characters that stops within the text. -/
theorem liftsAt_run {p : Char → Bool} (hextends : Extends inner outer)
    (hend : inner.rest.dropWhile p ≠ []) : LiftsAt Any inner outer (run p) (run p) := by
  intro value after hvalue
  obtain ⟨rfl, rfl⟩ := Prod.mk.inj (Option.some.inj hvalue)
  obtain ⟨hgroups, hnames, hrest⟩ := hextends
  rcases hrest with houter | ⟨hinner, _⟩
  · refine ⟨trivial, { outer with rest := outer.rest.dropWhile p }, ?_, hgroups, hnames, .inl ?_⟩
    · show some (outer.rest.takeWhile p, _) = _
      rw [houter, takeWhile_append_of_dropWhile hend]
    · show outer.rest.dropWhile p = _
      rw [houter, dropWhile_append_of_dropWhile hend]
  · rw [hinner] at hend
    exact absurd rfl hend

theorem afterLead?_nil {lead : List Char} (h : lead ≠ []) : Text.afterLead? lead [] = none := by
  cases lead with
  | nil => exact absurd rfl h
  | cons c cs => rfl

/-- A run of characters that something has to follow stops within the text. -/
theorem lifts_run_expect {p : Char → Bool} {lead : String} (hlead : lead.toList ≠ [])
    {next next' : List Char → Reader β} (hnext : ∀ cs, Lifts better (next cs) (next' cs)) :
    Lifts better (run p >>= fun cs => expect lead >>= fun _ => next cs)
      (run p >>= fun cs => expect lead >>= fun _ => next' cs) := by
  intro inner outer hextends
  by_cases hend : inner.rest.dropWhile p = []
  · refine liftsAt_of_none ?_
    have hnone : Text.afterLead? lead.toList [] = none := afterLead?_nil hlead
    rw [run_bind]
    show (expect lead >>= fun _ => next (inner.rest.takeWhile p))
      { inner with rest := inner.rest.dropWhile p } = none
    rw [run_bind, expect, run_bind, run_accept]
    simp only [hend, hnone]
    rfl
  · exact (liftsAt_run hextends hend).bind fun cs _ => (lifts_expect lead).bind fun _ _ => hnext cs

/-- A run that goes on to the end where nothing stops it, the closing characters included. -/
theorem lifts_run_accept {p : Char → Bool} {lead : String} (hlead : lead.toList ≠ [])
    (hno : ')' ∉ lead.toList) (hclosing : closing.all p = true)
    {next next' : List Char → Reader β} {other other' : Reader β}
    (hfound : ∀ cs, Lifts better (next cs) (next' cs)) (hmissing : Lifts better other other') :
    Lifts better (run p >>= fun cs => accept lead >>= fun found => if found = true then next cs else other)
      (run p >>= fun cs => accept lead >>= fun found => if found = true then next' cs else other') := by
  intro inner outer hextends
  by_cases hend : inner.rest.dropWhile p = []
  · have hall := List.dropWhile_eq_nil_iff.1 hend
    have hend' : outer.rest.dropWhile p = [] := by
      rcases hextends.rest with houter | ⟨_, houter⟩
      · rw [houter, List.dropWhile_eq_nil_iff]
        exact List.forall_mem_append.2 ⟨hall, List.all_eq_true.1 hclosing⟩
      · rw [houter]
        rfl
    have hnone : Text.afterLead? lead.toList [] = none := afterLead?_nil hlead
    have hat : ∀ (next : List Char → Reader β) (other : Reader β) (cursor : Cursor),
        cursor.rest.dropWhile p = [] →
        (run p >>= fun cs => accept lead >>= fun found => if found = true then next cs else other) cursor =
          other { cursor with rest := [] } := by
      intro next other cursor hcursor
      rw [run_bind]
      show (accept lead >>= fun found => if found = true then next (cursor.rest.takeWhile p) else other)
        { cursor with rest := cursor.rest.dropWhile p } = _
      rw [hcursor, run_bind, run_accept]
      simp only [hnone]
      rfl
    intro value after hrun
    rw [hat next other inner hend] at hrun
    rw [hat next' other' outer hend']
    exact hmissing { inner with rest := [] } { outer with rest := [] }
      ⟨hextends.groups, hextends.names, .inr ⟨rfl, rfl⟩⟩ value after hrun
  · refine (liftsAt_run hextends hend).bind fun cs _ => (lifts_accept hno).bind fun found _ => ?_
    exact Lifts.ite (fun _ => hfound cs) (fun _ => hmissing)

/-! ## Blanks and comments -/

/-- Blanks and comments end where they did, or a comment goes on to the end. -/
theorem dropSpace_append_closing (inComment : Bool) (s : List Char) :
    dropSpace inComment (s ++ closing) = dropSpace inComment s ++ closing ∨
      (dropSpace inComment s = [] ∧ dropSpace inComment (s ++ closing) = []) := by
  induction s generalizing inComment with
  | nil => cases inComment <;> decide
  | cons c s ih =>
    rw [List.cons_append, dropSpace, dropSpace]
    cases inComment with
    | true => exact ih _
    | false =>
      simp only [Bool.false_eq_true, if_false]
      split
      · exact ih false
      · split
        · exact ih true
        · exact .inl rfl

theorem Extends.dropSpace (h : Extends inner outer) :
    Extends { inner with rest := dropSpace false inner.rest }
      { outer with rest := dropSpace false outer.rest } := by
  obtain ⟨hgroups, hnames, hrest⟩ := h
  refine ⟨hgroups, hnames, ?_⟩
  rcases hrest with houter | ⟨hinner, houter⟩
  · rw [houter]
    exact dropSpace_append_closing false inner.rest
  · rw [hinner, houter]
    exact .inr ⟨rfl, rfl⟩

theorem lifts_space (flags : Flags) : Lifts Any (space flags) (space flags) :=
  Lifts.ite (fun _ => lifts_modify fun _ _ hextends => hextends.dropSpace)
    (fun _ => lifts_pure trivial)

/-! ## Escapes -/

theorem lifts_hexChar (digits : List Char) : Lifts Any (hexChar digits) (hexChar digits) := by
  rw [hexChar]
  split
  · exact lifts_failure
  · dsimp only
    split
    · exact lifts_failure
    · exact Lifts.ite (fun _ => lifts_pure trivial) (fun _ => lifts_failure)

theorem lifts_takeMany (n : Nat) : Lifts Any (takeMany n) (takeMany n) := by
  induction n with
  | zero => exact lifts_pure trivial
  | succ n ih => exact lifts_take.bind fun _ _ => ih.bind fun _ _ => lifts_pure trivial

theorem lifts_codePoint (flags : Flags) (width : Nat) :
    Lifts Any (codePoint flags width) (codePoint flags width) := by
  refine (lifts_space flags).bind fun _ _ => (lifts_accept (by decide)).bind fun _ _ => Lifts.ite ?_ ?_
  · exact fun _ => lifts_run_expect (by decide) fun _ => lifts_hexChar _
  · refine fun _ => (lifts_takeMany width).bind fun digits _ => (lifts_hexChar digits).bind fun c _ => ?_
    exact Lifts.ite (fun _ => lifts_failure) (fun _ => lifts_pure trivial)

/-- Reading what follows `\b`.  Where the text ends behind an opening brace, nothing is read. -/
theorem lifts_wordEdge (flags : Flags) (isWord : CharSet) :
    Lifts Any (wordEdge flags isWord) (wordEdge flags isWord) := by
  refine lifts_get_bind fun inner outer hextends => ?_
  refine liftsAt_of_lifts hextends ?_
  refine (lifts_accept (by decide)).bind fun _ _ => Lifts.ite (fun _ => ?_)
    (fun _ => lifts_pure trivial)
  refine (lifts_space flags).bind fun _ _ => lifts_peek_bind (fun c => ?_)
    (fun _ _ _ _ _ _ => liftsAt_of_none rfl)
  refine Lifts.ite (fun _ => ?_) (fun _ => (lifts_set hextends).bind fun _ _ => lifts_pure trivial)
  refine lifts_run_expect (by decide) fun name => ?_
  split
  all_goals first | exact lifts_pure trivial | exact lifts_failure

theorem lifts_complement (flags : Flags) (a : CharSet) :
    Lifts Any (complement flags a) (complement flags a) :=
  Lifts.ite (fun _ => lifts_pure trivial) (fun _ => lifts_failure)

theorem lifts_complementIf (flags : Flags) (negated : Bool) (a : CharSet) :
    Lifts Any (complementIf flags negated a) (complementIf flags negated a) :=
  Lifts.ite (fun _ => lifts_complement flags a) (fun _ => lifts_pure trivial)

theorem lifts_property (flags : Flags) (negated : Bool) :
    Lifts Any (property flags negated) (property flags negated) := by
  rw [property]
  split
  · exact lifts_failure
  · refine (lifts_space flags).bind fun _ _ => (lifts_accept (by decide)).bind fun _ _ => ?_
    refine Lifts.ite (fun _ => ?_) (fun _ => ?_)
    · exact lifts_run_expect (by decide) fun _ => lifts_lift.bind fun _ _ => lifts_pure trivial
    · exact lifts_take.bind fun _ _ => lifts_lift.bind fun _ _ => lifts_pure trivial

theorem lifts_escape (flags : Flags) : Lifts Any (escape flags) (escape flags) := by
  refine lifts_take.bind fun c _ => ?_
  dsimp only
  split
  · exact (lifts_codePoint flags 2).bind fun _ _ => lifts_pure trivial
  · exact (lifts_codePoint flags 4).bind fun _ _ => lifts_pure trivial
  · exact (lifts_codePoint flags 8).bind fun _ _ => lifts_pure trivial
  · exact (lifts_property flags false).bind fun _ _ => lifts_pure trivial
  · exact (lifts_property flags true).bind fun _ _ => lifts_pure trivial
  · exact lifts_pure trivial
  · exact lifts_pure trivial
  · exact (lifts_wordEdge flags _).bind fun _ _ => lifts_pure trivial
  · exact Lifts.ite (fun _ => lifts_pure trivial) (fun _ => lifts_failure)
  · exact lifts_pure trivial
  · exact lifts_pure trivial
  · refine Lifts.ite (fun _ => lifts_pure trivial) (fun _ => ?_)
    split
    · exact lifts_pure trivial
    · exact (lifts_complement flags _).bind fun _ _ => lifts_pure trivial
    · exact lifts_pure trivial
    · exact lifts_failure

/-! ## Sets -/

/-- Where no class in colons ends, nothing is read, whether the text goes on or not. -/
theorem lifts_asciiClass (flags : Flags) : Lifts Any (asciiClass flags) (asciiClass flags) := by
  refine lifts_get_bind fun inner outer hextends => ?_
  refine liftsAt_of_lifts hextends ?_
  refine (lifts_accept (by decide)).bind fun _ _ => Lifts.ite (fun _ => ?_)
    (fun _ => lifts_pure trivial)
  refine (lifts_accept (by decide)).bind fun negated _ => ?_
  refine lifts_run_accept (by decide) (by decide) (by decide) (fun name => ?_) ?_
  · split
    · exact (lifts_complementIf flags negated _).bind fun _ _ => lifts_pure trivial
    · exact (lifts_set hextends).bind fun _ _ => lifts_pure trivial
  · exact (lifts_set hextends).bind fun _ _ => lifts_pure trivial

theorem lifts_setAtom (flags : Flags) : Lifts Any (setAtom flags) (setAtom flags) := by
  refine lifts_take.bind fun c _ => ?_
  have hliteral : Lifts Any (pure (.literal c) : Reader Atom) (pure (.literal c)) := lifts_pure trivial
  dsimp only
  split
  -- what was read is looked at in the same way, whether it was an escape or not
  · refine (lifts_escape flags).bind fun atom _ => ?_
    cases atom with
    | literal c => exact Lifts.ite (fun _ => lifts_pure trivial) (fun _ => lifts_failure)
    | _ => exact lifts_pure trivial
  · refine hliteral.bind fun atom _ => ?_
    cases atom with
    | literal c => exact Lifts.ite (fun _ => lifts_pure trivial) (fun _ => lifts_failure)
    | _ => exact lifts_pure trivial

theorem lifts_atomSet (atom : Atom) : Lifts Any (atomSet atom) (atomSet atom) := by
  cases atom with
  | literal c => exact lifts_pure trivial
  | set set => exact lifts_pure trivial
  | look look => exact lifts_failure

/-- Blanks and comments in front of a character end where they did. -/
theorem head?_afterSpace {flags : Flags} {rest : List Char} {d : Char}
    (h : (if flags.verbose then dropSpace false rest else rest).head? = some d) :
    (if flags.verbose then dropSpace false (rest ++ closing) else rest ++ closing).head? = some d := by
  split at h
  · rename_i hverbose
    rw [if_pos hverbose]
    rcases dropSpace_append_closing false rest with happend | ⟨hempty, _⟩
    · rw [happend, List.head?_append, h, Option.some_or]
    · rw [hempty] at h
      cases h
  · rename_i hverbose
    rw [if_neg hverbose, List.head?_append, h, Option.some_or]

theorem lifts_rangeFollows (flags : Flags) : Lifts Any (rangeFollows flags) (rangeFollows flags) := by
  refine lifts_get_bind fun inner outer hextends => ?_
  cases hrest : inner.rest with
  | nil => exact liftsAt_of_none rfl
  | cons c rest =>
    have houter := hextends.rest_of_cons hrest
    rw [houter]
    by_cases hc : c = '-'
    · subst hc
      cases hd : (if flags.verbose then dropSpace false rest else rest).head? with
      | none =>
        refine liftsAt_of_none ?_
        simp only [hd]
        rfl
      | some d =>
        simp only [hd, head?_afterSpace hd]
        exact lifts_pure trivial inner outer hextends
    · split
      · rename_i heq
        exact absurd (List.cons.inj heq).1 hc
      · rename_i heq
        cases heq
      · split
        · rename_i heq
          exact absurd (List.cons.inj heq).1 hc
        · rename_i heq
          cases heq
        · exact lifts_pure trivial inner outer hextends

theorem lifts_setItem (flags : Flags) : Lifts Any (setItem flags) (setItem flags) := by
  refine (lifts_setAtom flags).bind fun first _ => (lifts_space flags).bind fun _ _ =>
    (lifts_rangeFollows flags).bind fun _ _ => Lifts.ite (fun _ => ?_) (fun _ => lifts_atomSet first)
  refine (lifts_expect "-").bind fun _ _ => (lifts_space flags).bind fun _ _ =>
    (lifts_setAtom flags).bind fun second _ => ?_
  split
  · exact Lifts.ite (fun _ => lifts_pure trivial) (fun _ => lifts_failure)
  · exact lifts_failure

theorem lifts_setStart (flags : Flags) : Lifts Any (setStart flags) (setStart flags) := by
  refine (lifts_space flags).bind fun _ _ => (lifts_run (by decide)).bind fun hyphens _ =>
    (lifts_space flags).bind fun _ _ => (lifts_accept (by decide)).bind fun _ _ => ?_
  exact Lifts.ite (fun _ => lifts_pure trivial) (fun _ => lifts_pure trivial)

/-- A set takes no more steps where the closing characters follow. -/
theorem lifts_setItems (flags : Flags) {fuel fuel' : Nat} (hfuel : fuel ≤ fuel') (state : SetState) :
    Lifts Any (setItems flags fuel state) (setItems flags fuel' state) := by
  induction fuel generalizing fuel' state with
  | zero => exact lifts_failure
  | succ fuel ih =>
    obtain ⟨fuel', rfl⟩ : ∃ n, fuel' = n + 1 := Nat.exists_eq_add_of_le' (Nat.le_of_add_left_le hfuel)
    have ih := fun state => ih (Nat.le_of_succ_le_succ hfuel) state
    refine (lifts_space flags).bind fun _ _ => (lifts_accept (by decide)).bind fun _ _ =>
      Lifts.ite (fun _ => lifts_pure trivial) (fun _ => ?_)
    refine (lifts_accept (by decide)).bind fun _ _ => Lifts.ite (fun _ => ih _) (fun _ => ?_)
    refine (lifts_accept (by decide)).bind fun _ _ => Lifts.ite (fun _ => ih _) (fun _ => ?_)
    refine (lifts_accept (by decide)).bind fun _ _ => Lifts.ite (fun _ => ih _) (fun _ => ?_)
    refine (lifts_asciiClass flags).bind fun found _ => ?_
    cases found with
    | some set => exact ih _
    | none =>
      refine (lifts_accept (by decide)).bind fun _ _ => Lifts.ite (fun _ => ?_) (fun _ => ?_)
      · exact (lifts_accept (by decide)).bind fun negated _ => (lifts_setStart flags).bind fun start _ =>
          (ih start).bind fun inner _ => (lifts_complementIf flags negated inner).bind fun _ _ => ih _
      · exact (lifts_setItem flags).bind fun _ _ => ih _

theorem lifts_bracketSet (flags : Flags) {fuel fuel' : Nat} (hfuel : fuel ≤ fuel') :
    Lifts Any (bracketSet flags fuel) (bracketSet flags fuel') := by
  refine (lifts_accept (by decide)).bind fun negated _ => (lifts_setStart flags).bind fun state _ =>
    (lifts_setItems flags hfuel state).bind fun set _ => lifts_complementIf flags negated set

/-! ## Repetitions -/

theorem lifts_count : Lifts Any count count := by
  have hblanks : Lifts Any (run Text.isBlank) (run Text.isBlank) := lifts_run (by decide)
  refine hblanks.discard.bind fun _ _ => (lifts_run (by decide)).bind fun digits _ =>
    hblanks.discard.bind fun _ _ => Lifts.ite (fun _ => lifts_pure trivial) (fun _ => ?_)
  split
  · exact lifts_pure trivial
  · exact lifts_failure

theorem lifts_bounds (flags : Flags) : Lifts Pattern.IsRange (bounds flags) (bounds flags) := by
  refine (lifts_space flags).bind fun _ _ => lifts_count.bind fun min _ => ?_
  cases min with
  | none => exact lifts_failure
  | some min =>
    refine (lifts_accept (by decide)).bind fun _ _ => Lifts.ite (fun _ => ?_) (fun _ => ?_)
    · refine (lifts_space flags).bind fun _ _ => (lifts_accept (by decide)).bind fun _ _ =>
        Lifts.ite (fun _ => lifts_pure (by simp [Pattern.IsRange])) (fun _ => ?_)
      refine lifts_count.bind fun max _ => ?_
      cases max with
      | none => exact lifts_failure
      | some max =>
        exact (lifts_expect _).bind fun _ _ => Lifts.ite
          (fun hle => lifts_pure (by simpa [Pattern.IsRange] using hle)) (fun _ => lifts_failure)
    · exact (lifts_expect _).bind fun _ _ => lifts_pure (by simp [Pattern.IsRange])

/-- What is read as the bounds of a repetition is proper. -/
theorem lifts_repetition (flags : Flags) :
    Lifts (fun found => ∀ bounds ∈ found, Pattern.IsRange bounds) (repetition flags) (repetition flags) := by
  refine (lifts_accept (by decide)).bind fun _ _ => Lifts.ite
    (fun _ => lifts_pure (by simp [Pattern.IsRange])) (fun _ => ?_)
  refine (lifts_accept (by decide)).bind fun _ _ => Lifts.ite
    (fun _ => lifts_pure (by simp [Pattern.IsRange])) (fun _ => ?_)
  refine (lifts_accept (by decide)).bind fun _ _ => Lifts.ite
    (fun _ => lifts_pure (by simp [Pattern.IsRange])) (fun _ => ?_)
  refine (lifts_accept (by decide)).bind fun _ _ => Lifts.ite (fun _ => ?_)
    (fun _ => lifts_pure (by simp))
  exact (lifts_bounds flags).bind fun bounds hbounds => lifts_pure (by simpa using hbounds)

/-! ## Groups -/

theorem lifts_groupName : Lifts Any groupName groupName := by
  refine (lifts_run (by decide +kernel)).bind fun name _ => (lifts_expect ">").bind fun _ _ =>
    lifts_get_bind fun inner outer hextends => ?_
  rw [hextends.names]
  refine liftsAt_of_lifts hextends (Lifts.ite (fun _ => ?_) (fun _ => lifts_failure))
  exact lifts_modify fun _ _ hextends => ⟨hextends.groups, rfl, hextends.rest⟩

/-- The letters of flags end in front of a character that has to be there. -/
theorem lifts_flagLetters {fuel fuel' : Nat} (hfuel : fuel ≤ fuel') (flags : Flags) (seen : List Char)
    (value : Bool) :
    Lifts Any (flagLetters fuel flags seen value) (flagLetters fuel' flags seen value) := by
  induction fuel generalizing fuel' flags seen value with
  | zero => exact lifts_failure
  | succ fuel ih =>
    obtain ⟨fuel', rfl⟩ : ∃ n, fuel' = n + 1 := Nat.exists_eq_add_of_le' (Nat.le_of_add_left_le hfuel)
    have ih := fun flags seen value => ih (Nat.le_of_succ_le_succ hfuel) flags seen value
    refine lifts_peek_bind (fun c => ?_) (fun _ _ _ _ _ _ => liftsAt_of_none rfl)
    split
    · rename_i heq
      cases heq
    · exact Lifts.ite (fun _ => lifts_failure) (fun _ => lifts_pure trivial)
    · exact Lifts.ite (fun _ => lifts_failure) (fun _ => lifts_pure trivial)
    · refine lifts_take.discard.bind fun _ _ => Lifts.ite (fun _ => lifts_failure) (fun _ => ?_)
      refine Lifts.ite (fun _ => ih _ _ _) (fun _ => ?_)
      split
      · exact ih _ _ _
      · exact lifts_failure

theorem lifts_nextGroup : Lifts Any nextGroup nextGroup := by
  refine lifts_get_bind fun inner outer hextends => ?_
  rw [hextends.groups]
  have hcounted := lifts_modify (f := fun cursor => { cursor with groups := inner.groups + 1 })
    fun _ _ hextends => ⟨rfl, hextends.names, hextends.rest⟩
  exact liftsAt_of_lifts hextends (hcounted.bind fun _ _ => lifts_pure trivial)

theorem flagLetters_eq_none (fuel : Nat) (flags : Flags) (seen : List Char) (value : Bool)
    {cursor : Cursor} (h : cursor.rest = []) : flagLetters fuel flags seen value cursor = none := by
  cases fuel with
  | zero => rfl
  | succ fuel =>
    have hpeek : peek cursor = some (none, cursor) := by
      show some (cursor.rest.head?, cursor) = _
      rw [h]
      rfl
    rw [flagLetters, run_bind, hpeek]
    rfl

/-- Where something has to follow, a closing parenthesis is taken for none that was not there. -/
theorem lifts_accept_or_expect {value value' : α} {lead : String} (hlead : lead.toList ≠ []) :
    Lifts Any (accept ")" >>= fun closed => if closed = true then pure value else
        expect lead >>= fun _ => pure value')
      (accept ")" >>= fun closed => if closed = true then pure value else
        expect lead >>= fun _ => pure value') := by
  intro inner outer hextends
  cases hrest : inner.rest with
  | nil =>
    refine liftsAt_of_none ?_
    rw [run_bind, run_accept, hrest]
    show (expect lead >>= fun _ => pure value') inner = none
    rw [run_bind, expect, run_bind, run_accept, hrest, afterLead?_nil hlead]
    rfl
  | cons c rest =>
    have houter := hextends.rest_of_cons hrest
    refine LiftsAt.bind (liftsAt_accept hextends fun hnone => ?_) fun closed _ =>
      Lifts.ite (fun _ => lifts_pure trivial)
        (fun _ => (lifts_expect lead).bind fun _ _ => lifts_pure trivial)
    rw [hrest] at hnone
    rw [houter]
    change (if ')' == c then some rest else none) = none at hnone
    change (if ')' == c then some (rest ++ closing) else none) = none
    split at hnone
    · cases hnone
    · rename_i hc
      rw [if_neg hc]

theorem lifts_opening (flags : Flags) : Lifts Any (opening flags) (opening flags) := by
  refine (lifts_space flags).bind fun _ _ => lifts_get_bind fun inner outer hextends => ?_
  have hfuel : inner.rest.length + 1 ≤ outer.rest.length + 1 := by
    rcases hextends.rest with houter | ⟨hinner, _⟩
    · rw [houter, List.length_append]
      omega
    · rw [hinner]
      exact Nat.succ_le_succ (Nat.zero_le _)
  refine liftsAt_of_lifts hextends ?_
  refine (lifts_accept (by decide)).bind fun _ _ => (lifts_accept (by decide)).bind fun _ _ =>
    (lifts_accept (by decide)).bind fun _ _ => (lifts_accept (by decide)).bind fun _ _ =>
    Lifts.ite (fun _ => lifts_failure) (fun _ => ?_)
  refine (lifts_accept (by decide)).bind fun _ _ => (lifts_accept (by decide)).bind fun _ _ =>
    Lifts.ite (fun _ => ?_) (fun _ => ?_)
  · exact lifts_nextGroup.bind fun _ _ => lifts_groupName.bind fun _ _ => lifts_pure trivial
  refine (lifts_accept (by decide)).bind fun _ _ => Lifts.ite (fun _ => ?_) (fun _ => ?_)
  · refine lifts_peek_bind (fun c => ?_) (fun inner _ _ hempty _ _ => liftsAt_of_none ?_)
    · exact (lifts_flagLetters hfuel flags [] true).bind fun inner _ =>
        Lifts.ite (fun _ => lifts_failure) (fun _ => lifts_accept_or_expect (by decide))
    · rw [run_bind, flagLetters_eq_none _ _ _ _ hempty]
      rfl
  · exact lifts_nextGroup.bind fun _ _ => lifts_pure trivial

/-! ## Patterns -/

theorem lifts_dot (flags : Flags) : Lifts Any (dot flags) (dot flags) :=
  Lifts.ite (fun _ => lifts_failure) fun _ => Lifts.ite (fun _ => lifts_pure trivial) fun _ =>
    Lifts.ite (fun _ => lifts_pure trivial) (fun _ => lifts_pure trivial)

theorem lifts_primitive (flags : Flags) {fuel fuel' : Nat} (hfuel : fuel ≤ fuel') :
    Lifts Pattern.IsProper (primitive flags fuel) (primitive flags fuel') := by
  refine lifts_take.bind fun c _ => ?_
  split
  · exact (lifts_escape flags).bind fun atom _ => lifts_pure (isProper_atomPattern flags atom)
  · exact (lifts_dot flags).bind fun _ _ => lifts_pure trivial
  · exact lifts_pure trivial
  · exact lifts_pure trivial
  · exact (lifts_bracketSet flags hfuel).bind fun _ _ => lifts_pure trivial
  · exact lifts_pure (isProper_atomPattern flags _)

/-- Alternatives end where the text ends, or in front of the closing characters. -/
theorem lifts_alternatives {fuel fuel' : Nat} (hfuel : fuel ≤ fuel') (flags : Flags)
    {branches : Branches} (h : branches.AreProper) :
    Lifts Pattern.IsProper (alternatives fuel flags branches) (alternatives fuel' flags branches) := by
  induction fuel generalizing fuel' flags branches with
  | zero => exact lifts_failure
  | succ fuel ih =>
    obtain ⟨fuel', rfl⟩ : ∃ n, fuel' = n + 1 := Nat.exists_eq_add_of_le' (Nat.le_of_add_left_le hfuel)
    have hless := Nat.le_of_succ_le_succ hfuel
    have ih := fun flags {branches : Branches} (h : branches.AreProper) => ih hless flags h
    refine (lifts_space flags).bind fun _ _ => lifts_peek_bind (fun c => ?_)
      (fun inner outer hextends _ c hc => ?_)
    · split
      · exact lifts_pure h.pattern
      · exact lifts_pure h.pattern
      · refine (lifts_accept (by decide)).bind fun _ _ => Lifts.ite (fun _ => ih flags h.next) fun _ => ?_
        refine (lifts_accept (by decide)).bind fun _ _ => Lifts.ite (fun _ => ?_) (fun _ => ?_)
        · refine (lifts_opening flags).bind fun opened _ => ?_
          cases opened with
          | «switch» flags => exact ih flags (h.add (by simp))
          | numbered index =>
            refine (ih flags Branches.areProper_start).bind fun inner hinner => ?_
            exact (lifts_expect ")").bind fun _ _ =>
              ih flags (h.add (by simpa [Pattern.IsProper] using hinner))
          | plain innerFlags =>
            refine (ih innerFlags Branches.areProper_start).bind fun inner hinner => ?_
            exact (lifts_expect ")").bind fun _ _ => ih flags (h.add (by simpa using hinner))
        · refine (lifts_repetition flags).bind fun found hfound => ?_
          cases found with
          | none =>
            refine (lifts_primitive flags hless).bind fun pattern hpattern => ?_
            exact ih flags (h.add (by simpa using hpattern))
          | some bounds =>
            refine (lifts_accept (by decide)).bind fun lazy _ => ?_
            cases hrepeated : branches.repeatLast bounds.1 bounds.2 (lazy == flags.swapGreed) with
            | none => exact lifts_failure
            | some repeated => exact ih flags (h.repeatLast (hfound bounds rfl) hrepeated)
    · rcases hc with rfl | rfl <;> exact lifts_pure h.pattern inner outer hextends

/-! ## A group between the ends of a text -/

variable {fuel : Nat} {branches : Branches} {rest : List Char} {groups : Nat} {names : List String}

theorem alternatives_caret :
    alternatives (fuel + 1) .initial branches ⟨'^' :: rest, groups, names⟩ =
      alternatives fuel .initial (branches.add (some (.look .textStart))) ⟨rest, groups, names⟩ :=
  rfl

theorem alternatives_group :
    alternatives (fuel + 1) .initial branches ⟨'(' :: '?' :: ':' :: rest, groups, names⟩ =
      (alternatives fuel .initial .start >>= fun inner => expect ")" >>= fun _ =>
        alternatives fuel .initial (branches.add (some inner))) ⟨rest, groups, names⟩ :=
  rfl

theorem alternatives_dollar :
    alternatives (fuel + 2) .initial branches ⟨['$'], groups, names⟩ =
      some ((branches.add (some (.look .textEnd))).pattern, ⟨[], groups, names⟩) :=
  rfl

end CodeAtlas.Regex.Reader

namespace CodeAtlas.Regex.Pattern

open Reader

/-- A text that is read as a pattern is read to its end. -/
theorem ofText?_eq_some {text : String} {pattern : Pattern} (h : ofText? text = some pattern) :
    ∃ cursor, alternatives (2 * text.toList.length + 2) .initial .start ⟨text.toList, 0, []⟩ =
      some (pattern, cursor) ∧ cursor.rest = [] := by
  rw [ofText?] at h
  split at h
  · rename_i found cursor hread
    split at h
    · rename_i hend
      obtain rfl := Option.some.inj h
      exact ⟨cursor, hread, List.isEmpty_iff.1 hend⟩
    · cases h
  · cases h

theorem isProper_of_ofText? {text : String} {pattern : Pattern} (h : ofText? text = some pattern) :
    pattern.IsProper := by
  obtain ⟨cursor, hread, _⟩ := ofText?_eq_some h
  exact (lifts_alternatives (Nat.le_refl _) .initial Branches.areProper_start _ _
    (extends_beginning text.toList) pattern cursor hread).1

/-- What is set in a group between the ends of a text is read as it is alone. -/
theorem ofText?_enclosed {text : String} {pattern whole : Pattern} (h : ofText? text = some pattern)
    (hwhole : ofText? ("^(?:" ++ text ++ ")$") = some whole) :
    whole = .seq (.look .textStart) (.seq pattern (.look .textEnd)) := by
  obtain ⟨inner, hinner, hend⟩ := ofText?_eq_some h
  obtain ⟨outer, houter, _⟩ := ofText?_eq_some hwhole
  have htext : ("^(?:" ++ text ++ ")$").toList = '^' :: '(' :: '?' :: ':' :: (text.toList ++ closing) := by
    simp [closing]
  obtain ⟨fuel, hfuel, hle⟩ : ∃ fuel, 2 * ("^(?:" ++ text ++ ")$").toList.length + 2 = fuel + 4 ∧
      2 * text.toList.length + 2 ≤ fuel + 2 := by
    refine ⟨2 * text.toList.length + 10, ?_, by omega⟩
    rw [htext]
    simp [closing]
    omega
  obtain ⟨_, after, hread, hafter⟩ := lifts_alternatives hle .initial Branches.areProper_start _ _
    (extends_beginning text.toList) pattern inner hinner
  rw [hfuel, htext, alternatives_caret, alternatives_group, run_bind, hread] at houter
  obtain ⟨rest, groups, names⟩ := after
  rcases hafter.rest with hrest | ⟨_, hrest⟩
  · rw [hend, List.nil_append] at hrest
    obtain rfl : rest = closing := hrest
    exact (Prod.mk.inj (Option.some.inj (houter.symm.trans alternatives_dollar))).1
  · -- a comment that swallows the closing characters leaves the group open
    obtain rfl : rest = [] := hrest
    cases houter

end CodeAtlas.Regex.Pattern
