/-
# The number of workers does not matter

Several workers take a whole band at once and insert what it spawned afterwards; a single worker
looks through the list again after every task.  Where tasks spawn nothing above their own priority
and leave the inputs of the other tasks of their priority or a higher one as they are, the single
worker takes the tasks of the band one after the other and only then anything else, since what they
spawn waits behind them.  So both come to the same lists, and both runs end alike or not at all.
-/
import CodeAtlas.Proofs.Tasks.Rounds

namespace CodeAtlas.Tasks

variable {Task Key Ctx World Rank : Type} [LT Rank] {flow : Workflow Task Key Ctx World Rank}

/-! ## Waiting in order -/

/-- The tasks from a priority upwards come before the others. -/
theorem InOrder.eq_append {waiting : List (Pending Task)} (h : InOrder waiting) (priority : Int) :
    waiting = waiting.filter (fun p => priority ≤ p.priority) ++
      waiting.filter (fun p => !decide (priority ≤ p.priority)) := by
  induction waiting with
  | nil => rfl
  | cons first rest ih =>
    obtain ⟨hfirst, hrest⟩ := List.pairwise_cons.1 h
    by_cases hle : priority ≤ first.priority
    · rw [List.filter_cons_of_pos (by simpa using hle), List.filter_cons_of_neg (by simpa using hle),
        List.cons_append, ← ih hrest]
    · have hlower : ∀ other ∈ rest, ¬ priority ≤ other.priority := by
        intro other hother
        have := hfirst other hother
        omega
      rw [List.filter_cons_of_neg (by simpa using hle), List.filter_cons_of_pos (by simpa using hle),
        List.filter_eq_nil_iff.2 (by simpa using hlower),
        List.filter_eq_self.2 (by simpa using hlower), List.nil_append]

/-! ## A level -/

namespace Workflow

/-- The tasks of a band, run in order as long as they finish, spawn nothing above their own priority
and leave the inputs of the other tasks of their priority or a higher one bound or unbound. -/
def KeepsOthers (flow : Workflow Task Key Ctx World Rank) :
    List (Pending Task) → List (Pending Task) → Board Ctx World → Prop
  | [], _, _ => True
  | first :: rest, behind, board =>
    ∀ outcome ∈ (flow.execute first board).1.toOption,
      (∀ spawned ∈ outcome.spawned, spawned.priority ≤ first.priority) ∧
      (∀ other ∈ rest ++ behind, first.priority ≤ other.priority →
        flow.isEligible (flow.execute first board).2 other = flow.isEligible board other) ∧
      KeepsOthers flow rest behind (flow.execute first board).2

instance decidableKeepsOthers (flow : Workflow Task Key Ctx World Rank) :
    ∀ (band behind : List (Pending Task)) (board : Board Ctx World),
      Decidable (flow.KeepsOthers band behind board)
  | [], _, _ => isTrue trivial
  | first :: rest, behind, board =>
    have := decidableKeepsOthers flow rest behind (flow.execute first board).2
    inferInstanceAs (Decidable (∀ outcome ∈ (flow.execute first board).1.toOption, _ ∧ _ ∧ _))

theorem KeepsOthers.of_execute {first : Pending Task} {rest behind : List (Pending Task)}
    {board after : Board Ctx World} {outcome : Outcome Task}
    (h : flow.KeepsOthers (first :: rest) behind board)
    (hexecute : flow.execute first board = (.ok outcome, after)) :
    (∀ spawned ∈ outcome.spawned, spawned.priority ≤ first.priority) ∧
      (∀ other ∈ rest ++ behind, first.priority ≤ other.priority →
        flow.isEligible after other = flow.isEligible board other) ∧
      flow.KeepsOthers rest behind after := by
  simpa [KeepsOthers, hexecute, Except.toOption] using h

theorem KeepsOthers.mono {band behind others : List (Pending Task)} {board : Board Ctx World}
    (h : flow.KeepsOthers band behind board) (hsubset : others ⊆ behind) :
    flow.KeepsOthers band others board := by
  induction band generalizing board with
  | nil => exact trivial
  | cons first rest ih =>
    intro outcome houtcome
    obtain ⟨hspawned, hothers, hrest⟩ := h outcome houtcome
    refine ⟨hspawned, fun other hother => hothers other ?_, ih hrest⟩
    rcases List.mem_append.1 hother with hother | hother
    · exact List.mem_append_left _ hother
    · exact List.mem_append_right _ (hsubset hother)

/-- The tasks of a level have its priority or a higher one, and only those of its own priority have
their inputs. -/
structure IsLevel (flow : Workflow Task Key Ctx World Rank) (board : Board Ctx World)
    (priority : Int) (level : List (Pending Task)) : Prop where
  le : ∀ pending ∈ level, priority ≤ pending.priority
  eq : ∀ pending ∈ level, flow.isEligible board pending → pending.priority = priority

/-- The tasks of a list that have their inputs. -/
def ready (flow : Workflow Task Key Ctx World Rank) (board : Board Ctx World)
    (level : List (Pending Task)) : List (Pending Task) :=
  level.filter (flow.isEligible board)

/-- The tasks of a list that lack an input. -/
def unready (flow : Workflow Task Key Ctx World Rank) (board : Board Ctx World)
    (level : List (Pending Task)) : List (Pending Task) :=
  level.filter (fun pending => !flow.isEligible board pending)

variable {board after : Board Ctx World} {priority : Int}
  {level rest low : List (Pending Task)} {first : Pending Task} {outcome : Outcome Task}

theorem IsLevel.priority_eq_of_ready (h : flow.IsLevel board priority level)
    (hready : flow.ready board level = first :: rest) : first.priority = priority := by
  have hmem : first ∈ flow.ready board level := hready ▸ List.mem_cons_self
  exact h.eq first (List.mem_filter.1 hmem).1 (List.mem_filter.1 hmem).2

/-- What the first task of a level that has its inputs leaves of the level. -/
theorem IsLevel.exists_rest (h : flow.IsLevel board priority level)
    (hready : flow.ready board level = first :: rest)
    (hothers : ∀ other ∈ rest ++ flow.unready board level, first.priority ≤ other.priority →
      flow.isEligible after other = flow.isEligible board other) :
    ∃ others, flow.IsLevel after priority others ∧ flow.ready after others = rest ∧
      flow.unready after others = flow.unready board level ∧ others ⊆ level ∧
      ∀ low, (level ++ low).eraseP (flow.isEligible board) = others ++ low := by
  obtain ⟨before, behind, rfl, hbefore, hfirst, rfl⟩ := List.filter_eq_cons_iff.1 hready
  have hpriority : first.priority = priority := h.eq first (by simp) hfirst
  have hsubset : before ++ behind ⊆ before ++ first :: behind := by simp
  have hunready : flow.unready board (before ++ first :: behind) =
      flow.unready board (before ++ behind) := by
    simp [unready, hfirst]
  have hnone : flow.ready board before = [] := by
    simpa [ready] using hbefore
  have hsame : ∀ other ∈ before ++ behind,
      flow.isEligible after other = flow.isEligible board other := by
    intro other hother
    refine hothers other ?_ (hpriority ▸ h.le other (hsubset hother))
    rw [hunready]
    by_cases heligible : flow.isEligible board other
    · have hmem : other ∈ flow.ready board (before ++ behind) :=
        List.mem_filter.2 ⟨hother, heligible⟩
      rw [ready, List.filter_append, ← ready, hnone, List.nil_append] at hmem
      exact List.mem_append_left _ hmem
    · exact List.mem_append_right _ (List.mem_filter.2 ⟨hother, by simpa using heligible⟩)
  refine ⟨before ++ behind, ⟨?_, ?_⟩, ?_, ?_, hsubset, fun low => ?_⟩
  · exact fun other hother => h.le other (hsubset hother)
  · intro other hother heligible
    exact h.eq other (hsubset hother) (hsame other hother ▸ heligible)
  · rw [ready, List.filter_congr hsame, List.filter_append, ← ready, hnone, List.nil_append]
  · rw [hunready, unready, List.filter_congr (fun other hother => by rw [hsame other hother])]
    rfl
  · rw [List.append_assoc, List.eraseP_append_right _ hbefore, List.cons_append,
      List.eraseP_cons_of_pos hfirst, List.append_assoc]

theorem find?_append_of_ready (hready : flow.ready board level = first :: rest)
    (low : List (Pending Task)) :
    (level ++ low).find? (flow.isEligible board) = some first := by
  rw [List.find?_append, ← List.head?_filter, ← ready, hready]
  rfl

/-- Taking the first task of a level that has its inputs leaves the others. -/
theorem subset_eraseP_of_ready (hready : flow.ready board level = first :: rest)
    (low : List (Pending Task)) :
    rest ++ flow.unready board level ⊆ (level ++ low).eraseP (flow.isEligible board) := by
  obtain ⟨before, behind, rfl, hbefore, hfirst, rfl⟩ := List.filter_eq_cons_iff.1 hready
  rw [List.append_assoc, List.eraseP_append_right _ hbefore, List.cons_append,
    List.eraseP_cons_of_pos hfirst]
  intro other hother
  simp only [unready, List.mem_append, List.mem_filter, List.mem_cons] at hother ⊢
  rcases hother with ⟨hother, _⟩ | ⟨hother | rfl | hother, hlacks⟩
  · exact .inr (.inl hother)
  · exact .inl hother
  · simp [hfirst] at hlacks
  · exact .inr (.inl hother)

/-- Several workers take all tasks of a level that have their inputs. -/
theorem exists_level {waiting : List (Pending Task)} (h : InOrder waiting)
    (hfind : waiting.find? (flow.isEligible board) = some first) :
    ∃ level low, waiting = level ++ low ∧ flow.IsLevel board first.priority level ∧
      (∀ pending ∈ low, pending.priority < first.priority) ∧
      ∀ many, ¬ many ≤ 1 → flow.band many board waiting = flow.ready board level ∧
        flow.behindBand many board waiting = flow.unready board level ++ low := by
  have hsplit := h.eq_append first.priority
  generalize hlevel : waiting.filter (fun p => first.priority ≤ p.priority) = level at hsplit
  generalize hlow : waiting.filter (fun p => !decide (first.priority ≤ p.priority)) = low at hsplit
  have hlower : ∀ pending ∈ low, pending.priority < first.priority := by
    intro pending hpending
    rw [← hlow] at hpending
    simpa using (List.mem_filter.1 hpending).2
  have hle : ∀ pending ∈ level, first.priority ≤ pending.priority := by
    intro pending hpending
    rw [← hlevel] at hpending
    simpa using (List.mem_filter.1 hpending).2
  have heq : ∀ pending ∈ level, flow.isEligible board pending →
      pending.priority = first.priority := by
    intro pending hpending heligible
    have hmem : pending ∈ waiting := hsplit ▸ List.mem_append_left _ hpending
    exact Int.le_antisymm (priority_le_of_find? h hfind hmem heligible) (hle pending hpending)
  have hin : ∀ pending ∈ level,
      (pending.priority == first.priority && flow.isEligible board pending) =
        flow.isEligible board pending := by
    intro pending hpending
    by_cases heligible : flow.isEligible board pending
    · simp [heq pending hpending heligible]
    · simp [heligible]
  have hout : ∀ pending ∈ low,
      (pending.priority == first.priority && flow.isEligible board pending) = false := by
    intro pending hpending
    have hne : pending.priority ≠ first.priority := Int.ne_of_lt (hlower pending hpending)
    rw [beq_eq_false_iff_ne.2 hne, Bool.false_and]
  refine ⟨level, low, hsplit, ⟨hle, heq⟩, hlower, fun many hmany => ⟨?_, ?_⟩⟩
  · have hnone : low.filter
        (fun p => p.priority == first.priority && flow.isEligible board p) = [] :=
      List.filter_eq_nil_iff.2 (fun p hp => by simp [hout p hp])
    simp only [band, hfind, hmany, if_false]
    rw [hsplit, List.filter_append, List.filter_congr hin, hnone, List.append_nil]
    rfl
  · have hall : low.filter
        (fun p => !(p.priority == first.priority && flow.isEligible board p)) = low :=
      List.filter_eq_self.2 (fun p hp => by simp [hout p hp])
    simp only [behindBand, hfind, hmany, if_false]
    rw [hsplit, List.filter_append, hall,
      List.filter_congr (fun p hp => congrArg Bool.not (hin p hp))]
    rfl

variable {few many : Nat}

theorem band_congr (h : few ≤ 1 ↔ many ≤ 1) (board : Board Ctx World)
    (waiting : List (Pending Task)) : flow.band few board waiting = flow.band many board waiting := by
  simp only [band, h]

theorem behindBand_congr (h : few ≤ 1 ↔ many ≤ 1) (board : Board Ctx World)
    (waiting : List (Pending Task)) :
    flow.behindBand few board waiting = flow.behindBand many board waiting := by
  simp only [behindBand, h]

end Workflow

/-! ## A level by one worker -/

namespace TaskList

variable {one : Nat} {board after : Board Ctx World} {priority : Int}
  {level rest band low waiting : List (Pending Task)} {report report' : Report}
  {first : Pending Task} {outcome : Outcome Task} {error : RunError}

/-- One worker takes the first task of a level that has its inputs; what it spawns waits behind the
level. -/
theorem exists_rounds_level (hone : one ≤ 1) (hlevel : flow.IsLevel board priority level)
    (hready : flow.ready board level = first :: rest)
    (hexecute : flow.execute first board = (.ok outcome, after))
    (hspawned : ∀ spawned ∈ outcome.spawned, spawned.priority ≤ first.priority)
    (hothers : ∀ other ∈ rest ++ flow.unready board level, first.priority ≤ other.priority →
      flow.isEligible after other = flow.isEligible board other) (low : List (Pending Task))
    (report : Report) :
    ∃ others, flow.IsLevel after priority others ∧ flow.ready after others = rest ∧
      flow.unready after others = flow.unready board level ∧
      insertAll outcome.spawned (flow.unready board level ++ low) =
        flow.unready board level ++ insertAll outcome.spawned low ∧
      Rounds flow ⟨one, level ++ low, board, report⟩ [⟨first, board, after, outcome⟩]
        ⟨one, others ++ insertAll outcome.spawned low, after, report.add outcome⟩ := by
  obtain ⟨others, hothersLevel, hrest, hunready, hsubset, herase⟩ :=
    hlevel.exists_rest hready hothers
  have hfind := flow.find?_append_of_ready hready low
  have hfirst : first.priority = priority := hlevel.priority_eq_of_ready hready
  have hbehind : ∀ spawned ∈ outcome.spawned, ∀ other ∈ level,
      spawned.priority ≤ other.priority := by
    intro spawned hmem other hother
    have := hspawned spawned hmem
    have := hlevel.le other hother
    omega
  have hinsert : insertAll outcome.spawned (others ++ low) =
      others ++ insertAll outcome.spawned low :=
    insertAll_append (fun spawned hmem other hother => hbehind spawned hmem other (hsubset hother))
  have hrounds : Rounds flow ⟨one, level ++ low, board, report⟩ _ _ :=
    rounds_of_execute_ok hone hfind hexecute
  rw [herase, hinsert] at hrounds
  refine ⟨others, hothersLevel, hrest, hunready, insertAll_append ?_, hrounds⟩
  exact fun spawned hmem other hother =>
    hbehind spawned hmem other (List.mem_filter.1 hother).1

/-- One worker runs the tasks of a level that have their inputs as if they were one band. -/
theorem rounds_level (hone : one ≤ 1) (hlevel : flow.IsLevel board priority level)
    (hband : flow.ready board level = band)
    (hkeeps : flow.KeepsOthers band (flow.unready board level) board)
    (hsettle : settle (flow.executeAll band board).1 (flow.unready board level ++ low) report =
      (none, waiting, report')) :
    Rounds flow ⟨one, level ++ low, board, report⟩ (flow.executions band board)
      ⟨one, waiting, (flow.executeAll band board).2, report'⟩ := by
  induction band generalizing level low board report with
  | nil =>
    simp only [Workflow.executeAll, settle, Prod.mk.injEq, true_and] at hsettle
    obtain ⟨rfl, rfl⟩ := hsettle
    have hall : flow.unready board level = level := by
      rw [Workflow.ready, List.filter_eq_nil_iff] at hband
      exact List.filter_eq_self.2 (fun pending hpending => by simpa using hband pending hpending)
    rw [hall]
    exact .refl
  | cons first rest ih =>
    rcases hexecute : flow.execute first board with ⟨error | outcome, after⟩
    · simp [Workflow.executeAll, hexecute, settle] at hsettle
    · obtain ⟨hspawned, hothers, hrest⟩ := hkeeps.of_execute hexecute
      obtain ⟨others, hlevel', hready, hunready, hinsert, hrounds⟩ :=
        exists_rounds_level hone hlevel hband hexecute hspawned hothers low report
      simp only [Workflow.executeAll, hexecute, settle, hinsert] at hsettle
      rw [← hunready] at hsettle hrest
      simp only [Workflow.executions, Workflow.executeAll, hexecute]
      exact hrounds.trans (ih hlevel' hready hrest hsettle)

/-- Where the tasks of a level fail as a band, one worker fails as well. -/
theorem exists_failsWith_level (hone : one ≤ 1) (hlevel : flow.IsLevel board priority level)
    (hband : flow.ready board level = band)
    (hkeeps : flow.KeepsOthers band (flow.unready board level) board)
    (hsettle : (settle (flow.executeAll band board).1 (flow.unready board level ++ low) report).1 =
      some error) :
    ∃ finished final, Rounds flow ⟨one, level ++ low, board, report⟩ finished final ∧
      final.FailsWith flow error := by
  induction band generalizing level low board report with
  | nil => simp [Workflow.executeAll, settle] at hsettle
  | cons first rest ih =>
    rcases hexecute : flow.execute first board with ⟨error' | outcome, after⟩
    · simp only [Workflow.executeAll, hexecute, settle, Option.some.injEq] at hsettle
      subst hsettle
      have hfind := flow.find?_append_of_ready hband low
      exact ⟨[], _, .refl, failsWith_of_execute_error hone hfind hexecute⟩
    · obtain ⟨hspawned, hothers, hrest⟩ := hkeeps.of_execute hexecute
      obtain ⟨others, hlevel', hready, hunready, hinsert, hrounds⟩ :=
        exists_rounds_level hone hlevel hband hexecute hspawned hothers low report
      simp only [Workflow.executeAll, hexecute, settle, hinsert] at hsettle
      rw [← hunready] at hsettle hrest
      obtain ⟨finished, final, hlater, hfails⟩ := ih hlevel' hready hrest hsettle
      exact ⟨_, final, hrounds.trans hlater, hfails⟩

/-! ## Steady runs -/

/-- The same list for another number of workers. -/
def withWorkers (list : TaskList Task Ctx World) (workers : Nat) : TaskList Task Ctx World :=
  { list with workers := workers }

/-- All tasks of a run spawn nothing above their own priority and leave the inputs of the other
waiting tasks of their priority or a higher one bound or unbound. -/
def IsSteady (flow : Workflow Task Key Ctx World Rank) (list : TaskList Task Ctx World) : Prop :=
  ∀ finished later, Rounds flow list finished later →
    flow.KeepsOthers (flow.band later.workers later.board later.waiting)
      (flow.behindBand later.workers later.board later.waiting) later.board

theorem IsSteady.of_rounds {list later : TaskList Task Ctx World}
    {finished : List (Execution Task Ctx World)} (h : list.IsSteady flow)
    (hrounds : Rounds flow list finished later) : later.IsSteady flow :=
  fun _ _ hlater => h _ _ (hrounds.trans hlater)

theorem Rounds.inOrder {list later : TaskList Task Ctx World}
    {finished : List (Execution Task Ctx World)} (hrounds : Rounds flow list finished later)
    (h : InOrder list.waiting) : InOrder later.waiting := by
  induction hrounds with
  | refl => exact h
  | next _ hsettle _ ih => exact ih ((h.behindBand _ _).settle hsettle)

/-- A run is steady if its first band is and what follows is. -/
theorem IsSteady.of_keepsOthers {list : TaskList Task Ctx World}
    (hkeeps : flow.KeepsOthers (flow.band list.workers list.board list.waiting)
      (flow.behindBand list.workers list.board list.waiting) list.board)
    (hnext : flow.band list.workers list.board list.waiting ≠ [] → ∀ waiting report, settle
      (flow.executeAll (flow.band list.workers list.board list.waiting) list.board).1
      (flow.behindBand list.workers list.board list.waiting) list.report =
        (none, waiting, report) →
      IsSteady flow ⟨list.workers, waiting,
        (flow.executeAll (flow.band list.workers list.board list.waiting) list.board).2, report⟩) :
    list.IsSteady flow := by
  intro finished later hrounds
  cases hrounds with
  | refl => exact hkeeps
  | next hband hsettle hrest => exact hnext hband _ _ hsettle _ _ hrest

/-- In a steady run of one worker, the tasks of a level are steady as a band. -/
theorem IsSteady.keepsOthers_level {lower : List (Pending Task)} (hone : one ≤ 1)
    (h : IsSteady flow ⟨one, level ++ low, board, report⟩)
    (hlevel : flow.IsLevel board priority level) (hband : flow.ready board level = band)
    (hlower : ∀ pending ∈ lower, pending.priority < priority) :
    flow.KeepsOthers band (flow.unready board level ++ lower) board := by
  induction band generalizing level low board report with
  | nil => exact trivial
  | cons first rest ih =>
    intro outcome houtcome
    rcases hexecute : flow.execute first board with ⟨error | outcome', after⟩
    · simp [hexecute, Except.toOption] at houtcome
    simp only [hexecute, Except.toOption, Option.mem_def, Option.some.injEq] at houtcome
    subst houtcome
    have hfirst : first.priority = priority := hlevel.priority_eq_of_ready hband
    have hfind := flow.find?_append_of_ready hband low
    have hkeeps := h _ _ .refl
    simp only [flow.band_of_find? hone hfind, flow.behindBand_of_find? hone hfind] at hkeeps
    obtain ⟨hspawned, hothers, _⟩ := hkeeps.of_execute hexecute
    have hlevelOthers : ∀ other ∈ rest ++ flow.unready board level,
        first.priority ≤ other.priority →
        flow.isEligible after other = flow.isEligible board other :=
      fun other hother => hothers other (flow.subset_eraseP_of_ready hband low hother)
    obtain ⟨others, hlevel', hready, hunready, _, hrounds⟩ :=
      exists_rounds_level hone hlevel hband hexecute hspawned hlevelOthers low report
    refine ⟨hspawned, fun other hother hle => ?_, ?_⟩
    · rcases List.mem_append.1 hother with hother | hother
      · exact hlevelOthers other (List.mem_append_left _ hother) hle
      · rcases List.mem_append.1 hother with hother | hother
        · exact hlevelOthers other (List.mem_append_right _ hother) hle
        · have := hlower other hother
          omega
    · rw [← hunready]
      exact ih (h.of_rounds hrounds) hlevel' hready

/-! ## One worker and many -/

section Counts

variable {list final : TaskList Task Ctx World} {finished : List (Execution Task Ctx World)}

/-- A list on which a round begins, cut at the level of the first task that has its inputs. -/
theorem exists_cut (h : InOrder list.waiting) (hmany : ¬ list.workers ≤ 1)
    (hband : flow.band list.workers list.board list.waiting ≠ []) :
    ∃ priority level low, list.waiting = level ++ low ∧ flow.IsLevel list.board priority level ∧
      (∀ pending ∈ low, pending.priority < priority) ∧
      flow.band list.workers list.board list.waiting = flow.ready list.board level ∧
      flow.behindBand list.workers list.board list.waiting =
        flow.unready list.board level ++ low := by
  rw [Ne, Workflow.band_eq_nil_iff] at hband
  obtain ⟨first, hfind⟩ := Option.ne_none_iff_exists'.1 hband
  obtain ⟨level, low, hsplit, hlevel, hlower, hmany'⟩ := flow.exists_level h hfind
  obtain ⟨hready, hbehind⟩ := hmany' list.workers hmany
  exact ⟨first.priority, level, low, hsplit, hlevel, hlower, hready, hbehind⟩

theorem withWorkers_eq {level low : List (Pending Task)} (hsplit : list.waiting = level ++ low) :
    list.withWorkers one = ⟨one, level ++ low, list.board, list.report⟩ := by
  rw [← hsplit]
  rfl

/-- One worker comes to the list to which a steady band of several leads. -/
theorem rounds_withWorkers_of_settle (hone : one ≤ 1) (hmany : ¬ list.workers ≤ 1)
    (h : InOrder list.waiting)
    (hkeeps : flow.KeepsOthers (flow.band list.workers list.board list.waiting)
      (flow.behindBand list.workers list.board list.waiting) list.board)
    (hband : flow.band list.workers list.board list.waiting ≠ [])
    (hsettle : settle
      (flow.executeAll (flow.band list.workers list.board list.waiting) list.board).1
      (flow.behindBand list.workers list.board list.waiting) list.report =
        (none, waiting, report)) :
    Rounds flow (list.withWorkers one)
      (flow.executions (flow.band list.workers list.board list.waiting) list.board)
      ⟨one, waiting,
        (flow.executeAll (flow.band list.workers list.board list.waiting) list.board).2,
        report⟩ := by
  obtain ⟨priority, level, low, hsplit, hlevel, -, hready, hbehind⟩ := exists_cut h hmany hband
  rw [hready, hbehind] at hkeeps hsettle
  rw [withWorkers_eq hsplit, hready]
  exact rounds_level hone hlevel rfl (hkeeps.mono (List.subset_append_left _ _)) hsettle

/-- One worker comes to a failure where a steady band of several fails. -/
theorem FailsWith.exists_withWorkers (hone : one ≤ 1) (hmany : ¬ list.workers ≤ 1)
    (h : InOrder list.waiting) (hsteady : list.IsSteady flow) (hfails : list.FailsWith flow error) :
    ∃ finished final, Rounds flow (list.withWorkers one) finished final ∧
      final.FailsWith flow error := by
  obtain ⟨hband, hsettle⟩ := hfails
  have hkeeps := hsteady _ _ .refl
  obtain ⟨priority, level, low, hsplit, hlevel, -, hready, hbehind⟩ := exists_cut h hmany hband
  rw [hready, hbehind] at hkeeps hsettle
  rw [withWorkers_eq hsplit]
  exact exists_failsWith_level hone hlevel rfl (hkeeps.mono (List.subset_append_left _ _)) hsettle

theorem isIdle_withWorkers : (list.withWorkers one).IsIdle flow ↔ list.IsIdle flow := by
  simp only [IsIdle, Workflow.band_eq_nil_iff, withWorkers]

/-- One worker comes to every list to which the steady rounds of several lead. -/
theorem Rounds.withWorkers (hrounds : Rounds flow list finished final) (hone : one ≤ 1)
    (hmany : ¬ list.workers ≤ 1) (h : InOrder list.waiting) (hsteady : list.IsSteady flow) :
    Rounds flow (list.withWorkers one) finished (final.withWorkers one) := by
  induction hrounds with
  | refl => exact .refl
  | next hband hsettle _ ih =>
    have hsingle := Rounds.single hband hsettle
    have hfirst := rounds_withWorkers_of_settle hone hmany h (hsteady _ _ .refl) hband hsettle
    exact hfirst.trans (ih hmany (hsingle.inOrder h) (hsteady.of_rounds hsingle))

/-- If the run of one worker is steady, so is the next band of several. -/
theorem IsSteady.keepsOthers_of_withWorkers (hone : one ≤ 1) (hmany : ¬ list.workers ≤ 1)
    (h : InOrder list.waiting) (hsteady : (list.withWorkers one).IsSteady flow) :
    flow.KeepsOthers (flow.band list.workers list.board list.waiting)
      (flow.behindBand list.workers list.board list.waiting) list.board := by
  by_cases hband : flow.band list.workers list.board list.waiting = []
  · rw [hband]
    exact trivial
  · obtain ⟨priority, level, low, hsplit, hlevel, hlower, hready, hbehind⟩ :=
      exists_cut h hmany hband
    rw [hready, hbehind]
    rw [withWorkers_eq hsplit] at hsteady
    exact hsteady.keepsOthers_level hone hlevel rfl hlower

/-- If the run of one worker is steady, so is the run of several. -/
theorem IsSteady.of_withWorkers (hone : one ≤ 1) (hmany : ¬ list.workers ≤ 1)
    (h : InOrder list.waiting) (hsteady : (list.withWorkers one).IsSteady flow) :
    list.IsSteady flow := by
  intro finished later hrounds
  induction hrounds with
  | refl => exact hsteady.keepsOthers_of_withWorkers hone hmany h
  | next hband hsettle _ ih =>
    have hkeeps := hsteady.keepsOthers_of_withWorkers hone hmany h
    have hfirst := rounds_withWorkers_of_settle hone hmany h hkeeps hband hsettle
    exact ih hmany ((Rounds.single hband hsettle).inOrder h) (hsteady.of_rounds hfirst)

theorem executions_ne_nil {band rest : List (Pending Task)}
    (hne : band ≠ []) (hsettle : settle (flow.executeAll band board).1 rest report =
      (none, waiting, report')) : flow.executions band board ≠ [] := by
  cases band with
  | nil => exact absurd rfl hne
  | cons first others =>
    rcases hexecute : flow.execute first board with ⟨error | outcome, after⟩
    · simp [Workflow.executeAll, hexecute, settle] at hsettle
    · simp [Workflow.executions, hexecute]

/-- Where the run of one worker comes to an end, so does a steady run of several. -/
theorem exists_isLast_of_withWorkers (hone : one ≤ 1) (hmany : ¬ list.workers ≤ 1)
    (h : InOrder list.waiting) (hsteady : list.IsSteady flow)
    (hrounds : Rounds flow (list.withWorkers one) finished final) (hlast : final.IsLast flow) :
    ∃ finished final, Rounds flow list finished final ∧ final.IsLast flow := by
  -- each band of several takes at least one of the tasks that one worker runs
  induction hlength : finished.length using Nat.strongRecOn generalizing list finished with
  | _ length ih =>
    by_cases hband : flow.band list.workers list.board list.waiting = []
    · exact ⟨[], list, .refl, .inl hband⟩
    · rcases hsettle : settle
          (flow.executeAll (flow.band list.workers list.board list.waiting) list.board).1
          (flow.behindBand list.workers list.board list.waiting) list.report with
        ⟨_ | error, waiting, report⟩
      · have hsingle := Rounds.single hband hsettle
        have hfirst := rounds_withWorkers_of_settle hone hmany h (hsteady _ _ .refl) hband hsettle
        obtain ⟨rest, rfl, hrest⟩ := hrounds.exists_rest hlast hfirst
        have hless : rest.length < length := by
          have := List.length_pos_iff.2 (executions_ne_nil hband hsettle)
          rw [List.length_append] at hlength
          omega
        obtain ⟨later, final, hlater, hfinal⟩ := @ih rest.length hless
          ⟨list.workers, waiting, _, report⟩ rest hmany (hsingle.inOrder h)
          (hsteady.of_rounds hsingle) hrest rfl
        exact ⟨_, final, hsingle.trans hlater, hfinal⟩
      · exact ⟨[], list, .refl, .inr ⟨error, hband, by rw [hsettle]⟩⟩

end Counts

/-! ## Verdicts -/

/-- How a run ends, if it does: with an error, or with a report, a board and the course it took. -/
def verdict? (flow : Workflow Task Key Ctx World Rank) (list : TaskList Task Ctx World) :
    Option (Except RunError (Report × Board Ctx World × Option (Course Task Ctx World))) :=
  (list.run? flow).map (fun (result, final) =>
    result.map (fun report => (report, final.board, list.course? flow)))

section Verdicts

variable {list final : TaskList Task Ctx World} {finished : List (Execution Task Ctx World)}

theorem verdict?_of_isIdle (hrounds : Rounds flow list finished final) (hidle : final.IsIdle flow) :
    list.verdict? flow = some (.ok ({ final.report with
      stalled := final.report.stalled ++ final.waiting.map flow.nameOf }, final.board,
      some ⟨finished, final.waiting⟩)) := by
  simp [verdict?, Except.map, hrounds.run?_eq, hidle.run?_eq, hrounds.course?_eq, hidle.course?_eq]

theorem verdict?_of_failsWith (hrounds : Rounds flow list finished final)
    (hfails : final.FailsWith flow error) : list.verdict? flow = some (.error error) := by
  obtain ⟨last, hrun⟩ := hfails.exists_run?_eq
  simp [verdict?, hrounds.run?_eq, hrun, Except.map]

/-- A run without an end has no verdict. -/
theorem verdict?_eq_none
    (h : ∀ finished final, Rounds flow list finished final → ¬ final.IsLast flow) :
    list.verdict? flow = none := by
  cases hrun : list.run? flow with
  | none => simp [verdict?, hrun]
  | some result =>
    obtain ⟨finished, final, hrounds, hlast⟩ := exists_rounds hrun
    exact absurd hlast (h finished final hrounds)

/-- One worker comes to the verdict of several whose run is steady. -/
theorem verdict?_withWorkers (list : TaskList Task Ctx World) (hone : one ≤ 1)
    (hmany : ¬ list.workers ≤ 1) (h : InOrder list.waiting) (hsteady : list.IsSteady flow) :
    (list.withWorkers one).verdict? flow = list.verdict? flow := by
  by_cases hend : ∃ finished final, Rounds flow list finished final ∧ final.IsLast flow
  · obtain ⟨finished, final, hrounds, hidle | ⟨error, hfails⟩⟩ := hend
    · rw [verdict?_of_isIdle hrounds hidle, verdict?_of_isIdle
        (hrounds.withWorkers hone hmany h hsteady) (isIdle_withWorkers.2 hidle)]
      rfl
    · have hmany' : ¬ final.workers ≤ 1 := hrounds.workers_eq ▸ hmany
      obtain ⟨later, last, hlater, hlast⟩ := hfails.exists_withWorkers hone hmany'
        (hrounds.inOrder h) (hsteady.of_rounds hrounds)
      rw [verdict?_of_failsWith hrounds hfails, verdict?_of_failsWith
        ((hrounds.withWorkers hone hmany h hsteady).trans hlater) hlast]
  · rw [verdict?_eq_none, verdict?_eq_none]
    · exact fun finished final hrounds hlast => hend ⟨finished, final, hrounds, hlast⟩
    · intro finished final hrounds hlast
      exact hend (exists_isLast_of_withWorkers hone hmany h hsteady hrounds hlast)

/-- It only matters whether there is more than one worker. -/
theorem Rounds.withWorkers_of_iff {workers : Nat} (hsame : list.workers ≤ 1 ↔ workers ≤ 1)
    (hrounds : Rounds flow list finished final) :
    Rounds flow (list.withWorkers workers) finished (final.withWorkers workers) := by
  induction hrounds with
  | refl => exact .refl
  | @next list _ waiting report finished hband hsettle _ ih =>
    have hbands := flow.band_congr hsame list.board list.waiting
    have hbehind := flow.behindBand_congr hsame list.board list.waiting
    rw [hbands] at hband ih ⊢
    rw [hbands, hbehind] at hsettle
    exact @Rounds.next _ _ _ _ _ _ flow (list.withWorkers workers) _ waiting report finished hband
      hsettle (ih hsame)

theorem IsSteady.withWorkers_of_iff {workers : Nat} (hsame : list.workers ≤ 1 ↔ workers ≤ 1)
    (hsteady : list.IsSteady flow) : (list.withWorkers workers).IsSteady flow := by
  intro finished later hrounds
  have hworkers : later.workers = workers := hrounds.workers_eq
  have hback := hrounds.withWorkers_of_iff hsame.symm
  have hkeeps := hsteady _ _ hback
  simp only [withWorkers, flow.band_congr hsame, flow.behindBand_congr hsame] at hkeeps
  rw [hworkers]
  exact hkeeps

/-- Every number of workers comes to the verdict of two whose run is steady. -/
theorem verdict?_eq_of_two (h : InOrder list.waiting) (hsteady : (list.withWorkers 2).IsSteady flow)
    (workers : Nat) :
    (list.withWorkers workers).verdict? flow = (list.withWorkers 2).verdict? flow := by
  have htwo : ¬ 2 ≤ 1 := by decide
  by_cases hone : workers ≤ 1
  · exact verdict?_withWorkers (list.withWorkers 2) hone htwo h hsteady
  · have hsteady' := hsteady.withWorkers_of_iff (iff_of_false htwo hone)
    have hmany := verdict?_withWorkers (list.withWorkers workers) (Nat.le_refl 1) hone h hsteady'
    have hfew := verdict?_withWorkers (list.withWorkers 2) (Nat.le_refl 1) htwo h hsteady
    exact hmany.symm.trans hfew

/-- Tasks that were pushed, run by any two numbers of workers: if one of the two runs is steady, both
come to the same end, with the same error or with the same report, board and course, or neither
comes to one. -/
theorem sameVerdict_of_isSteady (flow : Workflow Task Key Ctx World Rank) (few many : Nat)
    (pushed : List (Pending Task)) (board : Board Ctx World) (report : Report)
    (hsteady : IsSteady flow ⟨few, insertAll pushed [], board, report⟩) :
    verdict? flow ⟨few, insertAll pushed [], board, report⟩ =
      verdict? flow ⟨many, insertAll pushed [], board, report⟩ := by
  have htwo : ¬ 2 ≤ 1 := by decide
  have h : InOrder (insertAll pushed []) := InOrder.insertAll List.Pairwise.nil pushed
  have hsteady' : IsSteady flow ⟨2, insertAll pushed [], board, report⟩ := by
    by_cases hfew : few ≤ 1
    · exact IsSteady.of_withWorkers hfew htwo h hsteady
    · exact IsSteady.withWorkers_of_iff (iff_of_false hfew htwo) hsteady
  have hcount := @verdict?_eq_of_two _ _ _ _ _ _ flow ⟨2, insertAll pushed [], board, report⟩ h
    hsteady'
  exact (hcount few).trans (hcount many).symm

/-- Three tasks.  Task `2` spawns task `1` twice at its own priority; task `1` binds the key `0`, which
task `0` needs. -/
def unpack : Workflow Nat Nat (List Nat) Unit where
  rank task := task
  has keys key := keys.contains key
  keyText := Text.showNat
  job
    | 2 => ⟨"archive", [], [], fun group => do
        Act.spawn 1 1 group Nat.one_lt_two
        Act.spawn 1 1 group Nat.one_lt_two⟩
    | 1 => ⟨"entry", [], [0], fun group => Act.modifyContext group (fun keys => 0 :: keys)⟩
    | _ => ⟨"link", [0], [], fun _ => pure ()⟩

/-- Three workers take two archives, then all their entries and then the last task, and one worker
takes them in the same order. -/
theorem sameVerdict_unpack :
    IsSteady unpack ⟨3, insertAll [⟨0, 0, 0⟩, ⟨1, 2, 0⟩, ⟨1, 2, 0⟩] [], ⟨#[[]], ()⟩, .empty⟩ ∧
      verdict? unpack ⟨3, insertAll [⟨0, 0, 0⟩, ⟨1, 2, 0⟩, ⟨1, 2, 0⟩] [], ⟨#[[]], ()⟩, .empty⟩ =
        verdict? unpack ⟨1, insertAll [⟨0, 0, 0⟩, ⟨1, 2, 0⟩, ⟨1, 2, 0⟩] [], ⟨#[[]], ()⟩, .empty⟩ ∧
      ∃ final, run? unpack
        ⟨1, insertAll [⟨0, 0, 0⟩, ⟨1, 2, 0⟩, ⟨1, 2, 0⟩] [], ⟨#[[]], ()⟩, .empty⟩ =
          some (.ok ⟨7, 4, [], []⟩, final) := by
  have hsteady :
      IsSteady unpack ⟨3, insertAll [⟨0, 0, 0⟩, ⟨1, 2, 0⟩, ⟨1, 2, 0⟩] [], ⟨#[[]], ()⟩, .empty⟩ := by
    refine .of_keepsOthers (by decide) (fun _ _ _ hsettle => ?_)
    cases hsettle
    refine .of_keepsOthers (by decide) (fun _ _ _ hsettle => ?_)
    cases hsettle
    refine .of_keepsOthers (by decide) (fun _ _ _ hsettle => ?_)
    cases hsettle
    exact .of_keepsOthers (by decide) (fun hband => absurd rfl hband)
  exact ⟨hsteady, sameVerdict_of_isSteady unpack 3 1 _ _ _ hsteady,
    _, @run?_eq_of_runWithin _ _ _ _ _ _ unpack 8 _ _ rfl⟩

end Verdicts

end TaskList

end CodeAtlas.Tasks
