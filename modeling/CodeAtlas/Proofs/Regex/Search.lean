/-
# Searching for a match

A search follows every step at every place at most once, so it reaches an end of the program if there
is a way to one, and its bound on the number of jobs is never met.  What has been visited without an end
being reached leads only to what has been visited; it stays useless for the places that come later.
-/
import CodeAtlas.Proofs.Regex.Matches
import Mathlib.Data.Finset.Card
import Mathlib.Data.Finset.Range

namespace CodeAtlas.Regex

variable {program : Program} {text : Array Char} {visited : Visited} {jobs : List Job}

/-! ## Jobs -/

theorem follow_chars (start : Job) (set : CharSet) (next : Nat) :
    follow text start (.chars set next) =
      if (text[start.place]?).any set then [⟨next, start.place + 1, start.slots⟩] else [] := by
  simp only [follow]
  cases text[start.place]? <;> rfl

theorem follow_look (start : Job) (look : Look) (next : Nat) :
    follow text start (.look look next) =
      if look.holds (before text start.place) text[start.place]? then
        [⟨next, start.place, start.slots⟩] else [] :=
  rfl

/-- What was recorded on the way does not matter for where a job leads. -/
theorem exists_mem_follow {start other job : Job} {here : Step} (hstep : start.step = other.step)
    (hplace : start.place = other.place) (h : job ∈ follow text start here) :
    ∃ twin ∈ follow text other here, twin.step = job.step ∧ twin.place = job.place := by
  obtain ⟨step, place, slots⟩ := start
  obtain ⟨step', place', slots'⟩ := other
  obtain rfl : step = step' := hstep
  obtain rfl : place = place' := hplace
  cases here with
  | jump next =>
    obtain rfl := List.mem_singleton.1 h
    exact ⟨_, List.mem_singleton_self _, rfl, rfl⟩
  | chars set next =>
    rw [follow_chars] at h ⊢
    split at h
    · rename_i hset
      obtain rfl := List.mem_singleton.1 h
      rw [if_pos hset]
      exact ⟨_, List.mem_singleton_self _, rfl, rfl⟩
    · simp at h
  | look look next =>
    rw [follow_look] at h ⊢
    split at h
    · rename_i hholds
      obtain rfl := List.mem_singleton.1 h
      rw [if_pos hholds]
      exact ⟨_, List.mem_singleton_self _, rfl, rfl⟩
    · simp at h
  | split first second =>
    simp only [follow, List.mem_cons, List.not_mem_nil, or_false] at h ⊢
    rcases h with rfl | rfl
    · exact ⟨_, .inl rfl, rfl, rfl⟩
    · exact ⟨_, .inr rfl, rfl, rfl⟩
  | save slot next =>
    obtain rfl := List.mem_singleton.1 h
    exact ⟨_, List.mem_singleton_self _, rfl, rfl⟩
  | done => simp [follow] at h

theorem exists_mem_follow_bare {start job : Job} {here : Step} (h : job ∈ follow text start here) :
    ∃ twin ∈ follow text ⟨start.step, start.place, []⟩ here,
      twin.step = job.step ∧ twin.place = job.place := by
  refine exists_mem_follow ?_ ?_ h <;> rfl

/-- A job leads to at most two. -/
theorem length_follow_le (start : Job) (here : Step) : (follow text start here).length ≤ 2 := by
  cases here with
  | chars set next =>
    rw [follow_chars]
    split <;> simp
  | look look next =>
    rw [follow_look]
    split <;> simp
  | _ => simp [follow]

/-- No job leads out of the text. -/
theorem place_le_of_mem_follow {start job : Job} {here : Step} (hstart : start.place ≤ text.size)
    (h : job ∈ follow text start here) : job.place ≤ text.size := by
  cases here with
  | chars set next =>
    rw [follow_chars] at h
    split at h
    · rename_i hset
      obtain ⟨c, hc, _⟩ := (Option.any_eq_true _ _).1 hset
      obtain rfl := List.mem_singleton.1 h
      exact (Array.getElem?_eq_some_iff.1 hc).1
    · simp at h
  | look look next =>
    rw [follow_look] at h
    split at h
    · obtain rfl := List.mem_singleton.1 h
      exact hstart
    · simp at h
  | split first second =>
    simp only [follow, List.mem_cons, List.not_mem_nil, or_false] at h
    rcases h with rfl | rfl <;> exact hstart
  | done => simp [follow] at h
  | _ =>
    obtain rfl := List.mem_singleton.1 h
    exact hstart

/-! ## What has been visited -/

/-- The number under which a step at a place is visited. -/
def visit (text : Array Char) (step place : Nat) : Nat :=
  step * (text.size + 1) + place

theorem visit_inj {step step' place place' : Nat} (hplace : place ≤ text.size)
    (hplace' : place' ≤ text.size) (h : visit text step place = visit text step' place') :
    step = step' ∧ place = place' := by
  have hstep : step = step' := by
    have hdiv := congrArg (fun n => n / (text.size + 1)) h
    simp only [visit] at hdiv
    rwa [Nat.mul_comm, Nat.mul_add_div (Nat.succ_pos _), Nat.div_eq_of_lt (Nat.lt_succ_of_le hplace),
      Nat.mul_comm, Nat.mul_add_div (Nat.succ_pos _),
      Nat.div_eq_of_lt (Nat.lt_succ_of_le hplace')] at hdiv
  refine ⟨hstep, ?_⟩
  rw [visit, visit, hstep] at h
  exact Nat.add_left_cancel h

theorem has_insert (visited : Visited) (n k : Nat) :
    (visited.insert n).has k = (visited.has k || decide (k = n)) := by
  have hlor : (visited.insert n).has k = ((visited : Nat) ||| 1 <<< n).testBit k := rfl
  rw [hlor, Nat.testBit_or, Nat.one_shiftLeft, Nat.testBit_two_pow]
  simp only [eq_comm]
  rfl

/-- The numbers that have not been visited. -/
def unseen (program : Program) (text : Array Char) (visited : Visited) : Finset Nat :=
  (Finset.range (program.size * (text.size + 1))).filter (fun n => visited.has n = false)

theorem card_unseen_insert {step place : Nat} (hstep : step < program.size) (hplace : place ≤ text.size)
    (h : visited.has (visit text step place) = false) :
    (unseen program text (visited.insert (visit text step place))).card <
      (unseen program text visited).card := by
  refine Finset.card_lt_card ((Finset.ssubset_iff_of_subset fun n hn => ?_).2
    ⟨visit text step place, ?_, fun hmem => ?_⟩)
  · rw [unseen, Finset.mem_filter, has_insert, Bool.or_eq_false_iff] at hn
    exact Finset.mem_filter.2 ⟨hn.1, hn.2.1⟩
  · refine Finset.mem_filter.2 ⟨Finset.mem_range.2 ?_, h⟩
    calc visit text step place
        < step * (text.size + 1) + (text.size + 1) := Nat.add_lt_add_left (Nat.lt_succ_of_le hplace) _
      _ = (step + 1) * (text.size + 1) := (Nat.succ_mul _ _).symm
      _ ≤ program.size * (text.size + 1) := Nat.mul_le_mul_right _ hstep
  · rw [unseen, Finset.mem_filter, has_insert] at hmem
    simp at hmem

theorem card_unseen_le : (unseen program text visited).card ≤ program.size * (text.size + 1) := by
  calc (unseen program text visited).card
      ≤ (Finset.range (program.size * (text.size + 1))).card := Finset.card_filter_le _ _
    _ = program.size * (text.size + 1) := Finset.card_range _

/-- Whether a job stands at a step of the program and at a place of the text. -/
def IsInside (program : Program) (text : Array Char) (job : Job) : Prop :=
  job.step < program.size ∧ job.place ≤ text.size

/-- Whether a program leads only to steps of its own. -/
def IsSealed (program : Program) (text : Array Char) : Prop :=
  ∀ start here, program[start.step]? = some here →
    ∀ job ∈ follow text start here, job.step < program.size

/-- Nothing that has been visited is an end, and what it leads to has been visited or waits. -/
def Covers (program : Program) (text : Array Char) (jobs : List Job) (visited : Visited) : Prop :=
  ∀ start : Job, start.place ≤ text.size → visited.has (visit text start.step start.place) = true →
    ∃ here, program[start.step]? = some here ∧ here ≠ .done ∧ ∀ job ∈ follow text start here,
      visited.has (visit text job.step job.place) = true ∨
        ∃ waiting ∈ jobs, waiting.step = job.step ∧ waiting.place = job.place

/-- No way leads from what has been visited to an end, when nothing waits. -/
theorem Covers.not_wins (h : Covers program text [] visited) {m step place : Nat}
    (hplace : place ≤ text.size) (hvisited : visited.has (visit text step place) = true) :
    ¬ Wins program text m step place := by
  induction m generalizing step place with
  | zero =>
    intro hwins
    obtain ⟨here, hhere, hne, _⟩ := h ⟨step, place, []⟩ hplace hvisited
    exact hne (Option.some.inj (hhere.symm.trans hwins))
  | succ m ih =>
    rintro ⟨here, hhere, job, hjob, hwins⟩
    obtain ⟨here', hhere', _, hleads⟩ := h ⟨step, place, []⟩ hplace hvisited
    obtain rfl := Option.some.inj (hhere.symm.trans hhere')
    rcases hleads job hjob with hseen | ⟨_, hwaiting, _⟩
    · exact ih (place_le_of_mem_follow hplace hjob) hseen hwins
    · simp at hwaiting

/-- A job that was visited before need not wait. -/
theorem Covers.skip {job : Job} (h : Covers program text (job :: jobs) visited)
    (hvisited : visited.has (visit text job.step job.place) = true) :
    Covers program text jobs visited := by
  intro start hplace hstart
  obtain ⟨here, hhere, hne, hleads⟩ := h start hplace hstart
  refine ⟨here, hhere, hne, fun next hnext => ?_⟩
  rcases hleads next hnext with hseen | ⟨waiting, hwaiting, hstep, hplace⟩
  · exact .inl hseen
  · rcases List.mem_cons.1 hwaiting with rfl | hwaiting
    · exact .inl (by rwa [← hstep, ← hplace])
    · exact .inr ⟨waiting, hwaiting, hstep, hplace⟩

/-- A job that is followed is visited, and what it leads to waits. -/
theorem Covers.follow {job : Job} {here : Step} (h : Covers program text (job :: jobs) visited)
    (hinside : IsInside program text job) (hhere : program[job.step]? = some here)
    (hne : here ≠ .done) :
    Covers program text (follow text job here ++ jobs)
      (visited.insert (visit text job.step job.place)) := by
  intro start hplace hstart
  rw [has_insert, Bool.or_eq_true, decide_eq_true_eq] at hstart
  rcases hstart with hstart | hself
  · obtain ⟨there, hthere, hne, hleads⟩ := h start hplace hstart
    refine ⟨there, hthere, hne, fun next hnext => ?_⟩
    rw [has_insert, Bool.or_eq_true, decide_eq_true_eq]
    rcases hleads next hnext with hseen | ⟨waiting, hwaiting, hstep, hplace⟩
    · exact .inl (.inl hseen)
    · rcases List.mem_cons.1 hwaiting with rfl | hwaiting
      · exact .inl (.inr (by rw [hstep, hplace]))
      · exact .inr ⟨waiting, List.mem_append_right _ hwaiting, hstep, hplace⟩
  · obtain ⟨hstep, hsame⟩ := visit_inj hplace hinside.2 hself
    refine ⟨here, by rw [hstep, hhere], hne, fun next hnext => .inr ?_⟩
    obtain ⟨twin, htwin, hstep, hplace⟩ := exists_mem_follow hstep hsame hnext
    exact ⟨twin, List.mem_append_left _ htwin, hstep, hplace⟩

/-! ## Runs -/

theorem runJobs_cons (fuel : Nat) (job : Job) (jobs : List Job) :
    runJobs program text (fuel + 1) (job :: jobs) visited =
      if visited.has (visit text job.step job.place) then runJobs program text fuel jobs visited
      else
        match program[job.step]? with
        | none => (none, visited)
        | some .done => (some job, visited)
        | some here => runJobs program text fuel (follow text job here ++ jobs)
            (visited.insert (visit text job.step job.place)) :=
  rfl

/-- What a run finds can be reached from one of its jobs. -/
theorem exists_wins_of_runJobs {fuel : Nat} {found : Job} {visited' : Visited}
    (h : runJobs program text fuel jobs visited = (some found, visited')) :
    ∃ job ∈ jobs, ∃ m, Wins program text m job.step job.place := by
  induction fuel generalizing jobs visited with
  | zero => simp [runJobs] at h
  | succ fuel ih =>
    cases jobs with
    | nil => simp [runJobs] at h
    | cons job jobs =>
      rw [runJobs_cons] at h
      split at h
      · obtain ⟨winner, hwinner, hwins⟩ := ih h
        exact ⟨winner, List.mem_cons_of_mem _ hwinner, hwins⟩
      · split at h
        · simp at h
        · rename_i hdone
          exact ⟨job, List.mem_cons_self, 0, hdone⟩
        · rename_i here _ hhere
          obtain ⟨winner, hwinner, m, hwins⟩ := ih h
          rcases List.mem_append.1 hwinner with hnext | hlater
          · obtain ⟨twin, htwin, hstep, hplace⟩ := exists_mem_follow_bare hnext
            refine ⟨job, List.mem_cons_self, m + 1, here, hhere, twin, htwin, ?_⟩
            rwa [hstep, hplace]
          · exact ⟨winner, List.mem_cons_of_mem _ hlater, m, hwins⟩

/-- A run that finds nothing has visited all its jobs and everything they lead to. -/
theorem covers_of_runJobs {fuel : Nat} {visited' : Visited} (hsealed : IsSealed program text)
    (hinside : ∀ job ∈ jobs, IsInside program text job) (hcovers : Covers program text jobs visited)
    (hfuel : 2 * (unseen program text visited).card + jobs.length < fuel)
    (h : runJobs program text fuel jobs visited = (none, visited')) :
    Covers program text [] visited' ∧ (∀ n, visited.has n = true → visited'.has n = true) ∧
      ∀ job ∈ jobs, visited'.has (visit text job.step job.place) = true := by
  induction fuel generalizing jobs visited with
  | zero => omega
  | succ fuel ih =>
    cases jobs with
    | nil =>
      rw [runJobs] at h
      obtain rfl := (Prod.mk.inj h).2
      exact ⟨hcovers, fun n hn => hn, by simp⟩
    | cons job jobs =>
      obtain ⟨hjob, hjobs⟩ := List.forall_mem_cons.1 hinside
      rw [List.length_cons] at hfuel
      rw [runJobs_cons] at h
      split at h
      · rename_i hseen
        obtain ⟨hcovers', hkept, hall⟩ := ih hjobs (hcovers.skip hseen) (by omega) h
        exact ⟨hcovers', hkept, List.forall_mem_cons.2 ⟨hkept _ hseen, hall⟩⟩
      · rename_i hnew
        have hnew : visited.has (visit text job.step job.place) = false := by simpa using hnew
        split at h
        · rename_i hnone
          rw [Array.getElem?_eq_getElem hjob.1] at hnone
          cases hnone
        · cases h
        · rename_i here hne hhere
          have hless := card_unseen_insert hjob.1 hjob.2 hnew
          have hlength : (follow text job here).length ≤ 2 := length_follow_le job here
          have hnext : ∀ next ∈ follow text job here ++ jobs, IsInside program text next :=
            List.forall_mem_append.2 ⟨fun next hnext => ⟨hsealed job here hhere next hnext,
              place_le_of_mem_follow hjob.2 hnext⟩, hjobs⟩
          obtain ⟨hcovers', hkept, hall⟩ := ih hnext (hcovers.follow hjob hhere (by simpa using hne))
            (by rw [List.length_append]; omega) h
          refine ⟨hcovers', fun n hn => hkept n ?_, List.forall_mem_cons.2 ⟨hkept _ ?_,
            (List.forall_mem_append.1 hall).2⟩⟩
          · rw [has_insert, hn, Bool.true_or]
          · rw [has_insert, decide_eq_true rfl, Bool.or_true]

/-! ## Searches -/

/-- A search finds something exactly if an end can be reached from one of the places it starts at. -/
theorem isSome_searchFrom_iff (hsealed : IsSealed program text) (hsize : 0 < program.size)
    {place count : Nat} (hplaces : place + count = text.size + 1)
    (hcovers : Covers program text [] visited) :
    (searchFrom program text place count visited).isSome ↔
      ∃ i, place ≤ i ∧ i ≤ text.size ∧ ∃ m, Wins program text m 0 i := by
  induction count generalizing place visited with
  | zero =>
    simp only [searchFrom, Option.isSome_none, Bool.false_eq_true, false_iff, not_exists, not_and]
    omega
  | succ count ih =>
    have hplace : place ≤ text.size := by omega
    have hstart : IsInside program text ⟨0, place, []⟩ := ⟨hsize, hplace⟩
    rw [searchFrom]
    rcases hrun : runJobs program text (jobBound program text) [⟨0, place, []⟩] visited with
      ⟨_ | job, visited'⟩
    · have hcovers' : Covers program text [⟨0, place, []⟩] visited := fun start hplace hvisited => by
        obtain ⟨here, hhere, hne, hleads⟩ := hcovers start hplace hvisited
        exact ⟨here, hhere, hne, fun next hnext =>
          (hleads next hnext).imp_right fun ⟨_, hwaiting, _⟩ => absurd hwaiting (by simp)⟩
      have hbound : 2 * (unseen program text visited).card + 1 < jobBound program text := by
        have hcard : (unseen program text visited).card ≤ program.size * (text.size + 1) :=
          card_unseen_le
        rw [jobBound, Nat.mul_assoc]
        omega
      obtain ⟨hlater, _, hvisited⟩ := covers_of_runJobs hsealed
        (List.forall_mem_singleton.2 hstart) hcovers' hbound hrun
      have hlost : ∀ m, ¬ Wins program text m 0 place := fun m =>
        hlater.not_wins hplace (hvisited ⟨0, place, []⟩ List.mem_cons_self)
      rw [ih (by omega) hlater]
      constructor
      · rintro ⟨i, hi, hle, hwins⟩
        exact ⟨i, by omega, hle, hwins⟩
      · rintro ⟨i, hi, hle, m, hwins⟩
        refine ⟨i, Nat.lt_of_le_of_ne hi ?_, hle, m, hwins⟩
        rintro rfl
        exact hlost m hwins
    · obtain ⟨winner, hwinner, hwins⟩ := exists_wins_of_runJobs hrun
      obtain rfl := List.mem_singleton.1 hwinner
      exact iff_of_true rfl ⟨place, Nat.le_refl _, hplace, hwins⟩

/-- The program of a pattern leads only to its own steps. -/
theorem isSealed_ofPattern {pattern : Pattern} (h : pattern.IsProper) :
    IsSealed (.ofPattern pattern) text := by
  intro start here hhere job hjob
  obtain ⟨twin, htwin, hstep, _⟩ := exists_mem_follow_bare hjob
  rw [← hstep]
  exact step_lt_of_follow h hhere htwin

/-- A search for a pattern finds something exactly if the pattern matches somewhere in the text. -/
theorem isSome_search_iff {pattern : Pattern} (h : pattern.IsProper) (groups : Nat) (text : String) :
    ((⟨.ofPattern pattern, groups⟩ : Matcher).search text).isSome ↔ pattern.MatchesWithin text := by
  have hsize : 0 < (Program.ofPattern pattern).size := by simp [Program.ofPattern]
  have hcovers : Covers (.ofPattern pattern) text.toList.toArray [] 0 := fun start _ hvisited => by
    simp [Visited.has] at hvisited
  rw [Matcher.search, Option.isSome_map,
    isSome_searchFrom_iff (isSealed_ofPattern h) hsize (Nat.zero_add _) hcovers]
  simp only [wins_ofPattern_iff h]
  constructor
  · rintro ⟨i, _, hle, j, hj⟩
    exact ⟨i, j, by simpa using hle, hj⟩
  · rintro ⟨i, j, hle, hj⟩
    exact ⟨i, Nat.zero_le i, by simpa using hle, j, hj⟩

end CodeAtlas.Regex
