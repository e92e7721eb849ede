/-
# Invariants of a run

What holds of the waiting tasks and the board when a run begins holds when it ends, if every task
that runs keeps it.  The order of the waiting tasks does not matter here, so one statement serves
any number of workers: a run is a sequence of tasks, each of which is taken out of those that wait
and replaced by what it spawns.
-/
import CodeAtlas.Tasks.Run
import Mathlib.Data.List.Perm.Basic

namespace CodeAtlas.Tasks

variable {Task Key Ctx World Rank : Type} [LT Rank] {flow : Workflow Task Key Ctx World Rank}

/-! ## Waiting tasks -/

theorem insertPending_perm (pending : Pending Task) (waiting : List (Pending Task)) :
    (insertPending pending waiting).Perm (pending :: waiting) := by
  induction waiting with
  | nil => exact List.Perm.refl _
  | cons first rest ih =>
    rw [insertPending]
    split
    · exact List.Perm.refl _
    · exact (ih.cons first).trans (List.Perm.swap pending first rest)

theorem insertAll_perm (spawned waiting : List (Pending Task)) :
    (insertAll spawned waiting).Perm (spawned ++ waiting) := by
  induction spawned generalizing waiting with
  | nil => exact List.Perm.refl _
  | cons pending rest ih =>
    have hinsert : insertAll (pending :: rest) waiting =
        insertAll rest (insertPending pending waiting) := rfl
    rw [hinsert]
    refine (ih _).trans (((insertPending_perm pending waiting).append_left rest).trans ?_)
    exact List.perm_middle

/-- What a task spawned goes behind the tasks that wait with it. -/
theorem append_insertAll_perm (spawned others waiting : List (Pending Task)) :
    (spawned ++ (others ++ waiting)).Perm (others ++ insertAll spawned waiting) := by
  have hmove : (spawned ++ (others ++ waiting)).Perm (others ++ (spawned ++ waiting)) := by
    rw [← List.append_assoc, ← List.append_assoc]
    exact List.perm_append_comm.append_right waiting
  exact hmove.trans ((insertAll_perm spawned waiting).symm.append_left others)

namespace Workflow

/-- The tasks that run next and those that do not are the tasks that wait. -/
theorem band_append_behindBand (flow : Workflow Task Key Ctx World Rank) (workers : Nat)
    (board : Board Ctx World) (waiting : List (Pending Task)) :
    (flow.band workers board waiting ++ flow.behindBand workers board waiting).Perm waiting := by
  rw [band, behindBand]
  cases hfirst : waiting.find? (flow.isEligible board) with
  | none => exact List.Perm.refl _
  | some first =>
    by_cases hworkers : workers ≤ 1
    · simp only [hworkers, if_true]
      obtain ⟨heligible, before, after, hsplit, hbefore⟩ := List.find?_eq_some_iff_append.1 hfirst
      have herase : waiting.eraseP (flow.isEligible board) = before ++ after := by
        rw [hsplit, List.eraseP_append_right _ (by simpa using hbefore),
          List.eraseP_cons_of_pos heligible]
      rw [herase, hsplit, List.singleton_append]
      exact List.perm_middle.symm
    · simp only [hworkers, if_false]
      exact List.filter_append_perm _ waiting

theorem isEligible_of_mem_band {workers : Nat} {board : Board Ctx World}
    {waiting : List (Pending Task)} {pending : Pending Task}
    (h : pending ∈ flow.band workers board waiting) : flow.isEligible board pending := by
  rw [band] at h
  cases hfirst : waiting.find? (flow.isEligible board) with
  | none => simp [hfirst] at h
  | some first =>
    simp only [hfirst] at h
    split at h
    · rw [List.mem_singleton.1 h]
      exact List.find?_some hfirst
    · have hboth := (List.mem_filter.1 h).2
      rw [Bool.and_eq_true] at hboth
      exact hboth.2

/-- The tasks that run together have the same priority. -/
theorem priority_eq_of_mem_band {workers : Nat} {board : Board Ctx World}
    {waiting : List (Pending Task)} {a b : Pending Task} (ha : a ∈ flow.band workers board waiting)
    (hb : b ∈ flow.band workers board waiting) : a.priority = b.priority := by
  rw [band] at ha hb
  cases hfirst : waiting.find? (flow.isEligible board) with
  | none => simp [hfirst] at ha
  | some first =>
    simp only [hfirst] at ha hb
    split at ha
    · rename_i hworkers
      rw [if_pos hworkers] at hb
      rw [List.mem_singleton.1 ha, List.mem_singleton.1 hb]
    · rename_i hworkers
      rw [if_neg hworkers] at hb
      have hpa := (List.mem_filter.1 ha).2
      have hpb := (List.mem_filter.1 hb).2
      simp only [Bool.and_eq_true, beq_iff_eq] at hpa hpb
      rw [hpa.1, hpb.1]

/-- A run ends when nothing that waits is eligible. -/
theorem not_isEligible_of_band_eq_nil {workers : Nat} {board : Board Ctx World}
    {waiting : List (Pending Task)} (h : flow.band workers board waiting = []) :
    ∀ pending ∈ waiting, ¬ flow.isEligible board pending := by
  rw [band] at h
  cases hfirst : waiting.find? (flow.isEligible board) with
  | none => exact List.find?_eq_none.1 hfirst
  | some first =>
    simp only [hfirst] at h
    split at h
    · simp at h
    · have hmem : first ∈ waiting.filter
          (fun p => p.priority == first.priority && flow.isEligible board p) := by
        refine List.mem_filter.2 ⟨List.mem_of_find?_eq_some hfirst, ?_⟩
        rw [beq_self_eq_true, Bool.true_and]
        exact List.find?_some hfirst
      rw [h] at hmem
      simp at hmem

/-- A task that finished had its inputs. -/
theorem isEligible_of_execute {pending : Pending Task} {board : Board Ctx World}
    {outcome : Outcome Task} (h : (flow.execute pending board).1 = .ok outcome) :
    flow.isEligible board pending := by
  rw [execute] at h
  split at h
  · simp at h
  · rename_i hnone
    rw [isEligible, Job.allBound, List.all_eq_true]
    intro key hkey
    have := List.find?_eq_none.1 hnone key hkey
    simpa using this

theorem find?_inputs_eq_none {pending : Pending Task} {board : Board Ctx World}
    (h : flow.isEligible board pending) :
    (flow.job pending.task).inputs.find? (fun key =>
      !(board.groups[pending.group]?).any (fun context => flow.has context key)) = none := by
  rw [List.find?_eq_none]
  intro key hkey
  have := List.all_eq_true.1 h key hkey
  simpa using this

/-- A task that has its inputs finishes when its body does. -/
theorem execute_of_runBody_ok {pending : Pending Task} {board : Board Ctx World} {result : PUnit}
    {effect : Effect flow.rank (flow.rank pending.task) Ctx World}
    (h : flow.isEligible board pending) (hbody : flow.runBody pending board = (.ok result, effect)) :
    ∃ complete, flow.execute pending board = (.ok ⟨(flow.job pending.task).name, complete,
      effect.spawned.map Subtype.val⟩, effect.board) := by
  simp only [execute, find?_inputs_eq_none h, hbody]
  exact ⟨_, rfl⟩

/-- A task that has its inputs fails when its body does. -/
theorem execute_of_runBody_error {pending : Pending Task} {board : Board Ctx World}
    {message : String} {effect : Effect flow.rank (flow.rank pending.task) Ctx World}
    (h : flow.isEligible board pending)
    (hbody : flow.runBody pending board = (.error message, effect)) :
    flow.execute pending board =
      (.error (.taskFailed (flow.job pending.task).name message), effect.board) := by
  simp only [execute, find?_inputs_eq_none h, hbody]

/-- A task that lacks an input does nothing. -/
theorem execute_of_not_isEligible {pending : Pending Task} {board : Board Ctx World}
    (h : ¬ flow.isEligible board pending) : ∃ error,
      flow.execute pending board = (.error error, board) := by
  rw [execute]
  dsimp only
  split
  · exact ⟨_, rfl⟩
  · rename_i hnone
    refine absurd ?_ h
    rw [isEligible, Job.allBound, List.all_eq_true]
    intro key hkey
    have := List.find?_eq_none.1 hnone key hkey
    simpa using this

/-! ## One band -/

/-- A property of the waiting tasks, in whatever order, and the board that every task which
finishes keeps. -/
structure IsInvariant (flow : Workflow Task Key Ctx World Rank)
    (holds : List (Pending Task) → Board Ctx World → Prop) : Prop where
  perm : ∀ {waiting others : List (Pending Task)} {board : Board Ctx World},
    waiting.Perm others → holds waiting board → holds others board
  step : ∀ {first : Pending Task} {rest : List (Pending Task)} {board after : Board Ctx World}
    {outcome : Outcome Task}, holds (first :: rest) board →
    flow.execute first board = (.ok outcome, after) → holds (outcome.spawned ++ rest) after

variable {holds : List (Pending Task) → Board Ctx World → Prop}

/-- A band that runs without failure keeps an invariant. -/
theorem IsInvariant.settle (h : flow.IsInvariant holds) {band rest waiting : List (Pending Task)}
    {board : Board Ctx World} {before after : Report} (hstart : holds (band ++ rest) board)
    (hsettle : Tasks.settle (flow.executeAll band board).1 rest before = (none, waiting, after)) :
    holds waiting (flow.executeAll band board).2 := by
  induction band generalizing rest board before with
  | nil =>
    simp only [executeAll, Tasks.settle, Prod.mk.injEq] at hsettle
    rw [← hsettle.2.1]
    exact hstart
  | cons first others ih =>
    simp only [executeAll] at hsettle ⊢
    cases hfirst : (flow.execute first board).1 with
    | error e => simp [hfirst, Tasks.settle] at hsettle
    | ok outcome =>
      rw [hfirst] at hsettle
      simp only [Tasks.settle] at hsettle
      refine ih ?_ hsettle
      have hstep := h.step hstart (Prod.ext hfirst rfl)
      -- what was spawned goes behind the rest of the band
      exact h.perm (append_insertAll_perm outcome.spawned others rest) hstep

/-- What finishes while an invariant holds, finishes in the same way under another workflow. -/
def FinishesAlike (flow other : Workflow Task Key Ctx World Rank)
    (holds : List (Pending Task) → Board Ctx World → Prop) : Prop :=
  ∀ {first : Pending Task} {rest : List (Pending Task)} {board after : Board Ctx World}
    {outcome : Outcome Task}, holds (first :: rest) board →
    flow.execute first board = (.ok outcome, after) →
    other.execute first board = (.ok outcome, after)

/-- The tasks that run next depend only on what has its inputs. -/
theorem band_congr_of_isEligible {other : Workflow Task Key Ctx World Rank}
    (h : ∀ board, other.isEligible board = flow.isEligible board) (workers : Nat)
    (board : Board Ctx World) (waiting : List (Pending Task)) :
    other.band workers board waiting = flow.band workers board waiting ∧
      other.behindBand workers board waiting = flow.behindBand workers board waiting := by
  unfold band behindBand
  rw [h board]
  exact ⟨rfl, rfl⟩

/-- A relation between boards that every task respects, whether it finishes or fails. -/
structure IsProgress (flow : Workflow Task Key Ctx World Rank)
    (later : Board Ctx World → Board Ctx World → Prop) : Prop where
  refl : ∀ board, later board board
  trans : ∀ {a b c}, later a b → later b c → later a c
  step : ∀ pending board, later board (flow.execute pending board).2

variable {later : Board Ctx World → Board Ctx World → Prop}

theorem IsProgress.executeAll (h : flow.IsProgress later) (band : List (Pending Task))
    (board : Board Ctx World) : later board (flow.executeAll band board).2 := by
  induction band generalizing board with
  | nil => exact h.refl board
  | cons first others ih => exact h.trans (h.step first board) (ih _)

/-- The tasks of an invariant do not take each other's inputs away within a band. -/
def KeepsInputs (flow : Workflow Task Key Ctx World Rank)
    (holds : List (Pending Task) → Board Ctx World → Prop) : Prop :=
  ∀ {first other : Pending Task} {rest : List (Pending Task)} {board after : Board Ctx World}
    {outcome : Outcome Task}, holds (first :: rest) board →
    flow.execute first board = (.ok outcome, after) → other ∈ rest →
    other.priority = first.priority → flow.isEligible board other → flow.isEligible after other

/-- A band that fails contains a task that fails, on a board where the invariant holds and the task
has its inputs. -/
theorem IsInvariant.exists_failure (h : flow.IsInvariant holds) (hkeeps : flow.KeepsInputs holds)
    (hlater : flow.IsProgress later) {band rest waiting : List (Pending Task)}
    {board : Board Ctx World} {before after : Report} {error : RunError}
    (hpriority : ∀ a ∈ band, ∀ b ∈ band, a.priority = b.priority)
    (heligible : ∀ pending ∈ band, flow.isEligible board pending)
    (hstart : holds (band ++ rest) board)
    (hsettle : Tasks.settle (flow.executeAll band board).1 rest before =
      (some error, waiting, after)) :
    ∃ first others board', holds (first :: others) board' ∧ flow.isEligible board' first ∧
      (flow.execute first board').1 = .error error ∧
      later (flow.execute first board').2 (flow.executeAll band board).2 := by
  induction band generalizing rest board before with
  | nil => simp [Workflow.executeAll, Tasks.settle] at hsettle
  | cons first others ih =>
    simp only [Workflow.executeAll] at hsettle ⊢
    cases hfirst : (flow.execute first board).1 with
    | error e =>
      rw [hfirst] at hsettle
      simp only [Tasks.settle, Prod.mk.injEq, Option.some.injEq] at hsettle
      refine ⟨first, others ++ rest, board, hstart, heligible first List.mem_cons_self, ?_, ?_⟩
      · rw [hfirst, hsettle.1]
      · exact hlater.executeAll others _
    | ok outcome =>
      rw [hfirst] at hsettle
      simp only [Tasks.settle] at hsettle
      have hexecute : flow.execute first board = (.ok outcome, (flow.execute first board).2) :=
        Prod.ext hfirst rfl
      refine ih ?_ ?_ ?_ hsettle
      · exact fun a ha b hb =>
          hpriority a (List.mem_cons_of_mem _ ha) b (List.mem_cons_of_mem _ hb)
      · intro other hother
        refine hkeeps hstart hexecute (List.mem_append_left rest hother) ?_ ?_
        · exact hpriority other (List.mem_cons_of_mem _ hother) first List.mem_cons_self
        · exact heligible other (List.mem_cons_of_mem _ hother)
      · exact h.perm (append_insertAll_perm outcome.spawned others rest) (h.step hstart hexecute)

end Workflow

/-! ## Whole runs -/

/-- What a band does is not reported as stalled. -/
theorem stalled_settle {outcomes : List (Except RunError (Outcome Task))}
    {rest waiting : List (Pending Task)} {before after : Report} {error : Option RunError}
    (h : settle outcomes rest before = (error, waiting, after)) :
    after.stalled = before.stalled := by
  induction outcomes generalizing rest before with
  | nil =>
    simp only [settle, Prod.mk.injEq] at h
    rw [← h.2.2]
  | cons first others ih =>
    cases first with
    | error e =>
      simp only [settle, Prod.mk.injEq] at h
      rw [← h.2.2]
    | ok outcome =>
      have hothers := @ih (insertAll outcome.spawned rest) (before.add outcome) h
      exact hothers

namespace TaskList

/-- A run that nothing can begin ends at once. -/
theorem run?_of_band_eq_nil {list : TaskList Task Ctx World}
    (h : flow.band list.workers list.board list.waiting = []) :
    list.run? flow =
      some (.ok { list.report with
        stalled := list.report.stalled ++
          list.waiting.map (fun pending => (flow.job pending.task).name) },
        { list with waiting := [], report := .empty }) := by
  rw [run?, if_pos h]

/-- A run ends with the first band that fails. -/
theorem run?_of_settle_some {list : TaskList Task Ctx World} {error : RunError}
    {waiting : List (Pending Task)} {report : Report}
    (hne : flow.band list.workers list.board list.waiting ≠ [])
    (h : settle (flow.executeAll (flow.band list.workers list.board list.waiting) list.board).1
      (flow.behindBand list.workers list.board list.waiting) list.report =
        (some error, waiting, report)) :
    list.run? flow = some (.error error, ⟨list.workers, waiting,
      (flow.executeAll (flow.band list.workers list.board list.waiting) list.board).2, report⟩) := by
  rw [run?, if_neg hne]
  simp only [h]

/-- A run goes on with what a band leaves. -/
theorem run?_of_settle_none {list : TaskList Task Ctx World} {waiting : List (Pending Task)}
    {report : Report} (hne : flow.band list.workers list.board list.waiting ≠ [])
    (h : settle (flow.executeAll (flow.band list.workers list.board list.waiting) list.board).1
      (flow.behindBand list.workers list.board list.waiting) list.report = (none, waiting, report)) :
    list.run? flow = run? flow ⟨list.workers, waiting,
      (flow.executeAll (flow.band list.workers list.board list.waiting) list.board).2, report⟩ := by
  rw [run?, if_neg hne]
  simp only [h]

/-- Induction along a run that comes to an end: what holds at the end holds before the last band,
and so on up to the first. -/
@[elab_as_elim]
theorem run?_induction {list : TaskList Task Ctx World}
    {result : Except RunError Report × TaskList Task Ctx World}
    {motive : TaskList Task Ctx World → Except RunError Report × TaskList Task Ctx World → Prop}
    (stop : ∀ list : TaskList Task Ctx World,
      flow.band list.workers list.board list.waiting = [] →
      motive list (.ok { list.report with
        stalled := list.report.stalled ++
          list.waiting.map (fun pending => (flow.job pending.task).name) },
        { list with waiting := [], report := .empty }))
    (fail : ∀ (list : TaskList Task Ctx World) error waiting report,
      flow.band list.workers list.board list.waiting ≠ [] →
      settle (flow.executeAll (flow.band list.workers list.board list.waiting) list.board).1
        (flow.behindBand list.workers list.board list.waiting) list.report =
          (some error, waiting, report) →
      motive list (.error error, ⟨list.workers, waiting,
        (flow.executeAll (flow.band list.workers list.board list.waiting) list.board).2, report⟩))
    (next : ∀ (list : TaskList Task Ctx World) waiting report result,
      flow.band list.workers list.board list.waiting ≠ [] →
      settle (flow.executeAll (flow.band list.workers list.board list.waiting) list.board).1
        (flow.behindBand list.workers list.board list.waiting) list.report =
          (none, waiting, report) →
      motive ⟨list.workers, waiting,
        (flow.executeAll (flow.band list.workers list.board list.waiting) list.board).2, report⟩
        result → motive list result)
    (h : list.run? flow = some result) : motive list result := by
  refine run?.partial_correctness flow motive (fun run? ih list result h => ?_) list result h
  dsimp only at h
  split at h
  · rename_i hband
    rw [← Option.some.inj h]
    exact stop list hband
  · rename_i hband
    split at h
    · rename_i error waiting report hsettle
      rw [← Option.some.inj h]
      exact fail list error waiting report hband hsettle
    · rename_i waiting report hsettle
      exact next list waiting report result hband hsettle (ih _ _ h)

variable {flow : Workflow Task Key Ctx World} {holds : List (Pending Task) → Board Ctx World → Prop}
  {later : Board Ctx World → Board Ctx World → Prop}

/-- The end of a run in which nothing can run. -/
theorem run_of_band_eq_nil {list : TaskList Task Ctx World}
    (h : flow.band list.workers list.board list.waiting = []) :
    ∃ report, list.run flow = (.ok report, { list with waiting := [], report := .empty }) := by
  rw [run, dif_pos h]
  exact ⟨_, rfl⟩

/-- A run whose first band fails. -/
theorem run_of_settle_some {list : TaskList Task Ctx World} {error : RunError}
    {waiting : List (Pending Task)} {report : Report}
    (hne : flow.band list.workers list.board list.waiting ≠ [])
    (h : settle (flow.executeAll (flow.band list.workers list.board list.waiting) list.board).1
      (flow.behindBand list.workers list.board list.waiting) list.report =
        (some error, waiting, report)) :
    list.run flow = (.error error, ⟨list.workers, waiting,
      (flow.executeAll (flow.band list.workers list.board list.waiting) list.board).2, report⟩) := by
  rw [run, dif_neg hne]
  dsimp only
  split
  · rename_i heq
    rw [h] at heq
    simp only [Prod.mk.injEq, Option.some.injEq] at heq
    obtain ⟨rfl, rfl, rfl⟩ := heq
    rfl
  · rename_i heq
    rw [h] at heq
    simp at heq

/-- A run goes on after a band that does not fail. -/
theorem run_of_settle_none {list : TaskList Task Ctx World} {waiting : List (Pending Task)}
    {report : Report} (hne : flow.band list.workers list.board list.waiting ≠ [])
    (h : settle (flow.executeAll (flow.band list.workers list.board list.waiting) list.board).1
      (flow.behindBand list.workers list.board list.waiting) list.report = (none, waiting, report)) :
    list.run flow = run flow ⟨list.workers, waiting,
      (flow.executeAll (flow.band list.workers list.board list.waiting) list.board).2, report⟩ := by
  rw [run, dif_neg hne]
  dsimp only
  split
  · rename_i heq
    rw [h] at heq
    simp at heq
  · rename_i heq
    rw [h] at heq
    simp only [Prod.mk.injEq, true_and] at heq
    obtain ⟨rfl, rfl⟩ := heq
    rfl

/-- Induction along a run: every band that does not fail leaves less to do. -/
theorem run_induction (flow : Workflow Task Key Ctx World)
    {motive : TaskList Task Ctx World → Prop}
    (h : ∀ list : TaskList Task Ctx World, (∀ waiting board report,
      flow.band list.workers list.board list.waiting ≠ [] →
      settle (flow.executeAll (flow.band list.workers list.board list.waiting) list.board).1
        (flow.behindBand list.workers list.board list.waiting) list.report =
          (none, waiting, report) → motive ⟨list.workers, waiting, board, report⟩) → motive list)
    (list : TaskList Task Ctx World) : motive list := by
  have hwf : WellFounded (InvImage WellFoundedRelation.rel
      (fun list : TaskList Task Ctx World => profile flow.rank list.waiting)) :=
    InvImage.wf _ WellFoundedRelation.wf
  refine hwf.induction list (fun list ih => h list (fun waiting board report hne hsettle => ?_))
  exact ih _ (flow.profile_settle hne hsettle)

/-- Tasks that are ranked by numbers always come to an end. -/
theorem run?_eq_run (flow : Workflow Task Key Ctx World) (list : TaskList Task Ctx World) :
    list.run? flow = some (list.run flow) := by
  induction list using run_induction flow with
  | h list ih =>
    by_cases hband : flow.band list.workers list.board list.waiting = []
    · rw [run?_of_band_eq_nil hband, run, dif_pos hband]
    · rcases hsettle : settle
          (flow.executeAll (flow.band list.workers list.board list.waiting) list.board).1
          (flow.behindBand list.workers list.board list.waiting) list.report with
        ⟨_ | error, waiting, report⟩
      · rw [run?_of_settle_none hband hsettle, run_of_settle_none hband hsettle]
        exact ih waiting _ report hband hsettle
      · rw [run?_of_settle_some hband hsettle, run_of_settle_some hband hsettle]

/-- A run that ends well ends with the invariant, for some tasks of which none can run.  These are the
tasks that stalled. -/
theorem exists_stalled_of_run_ok (h : flow.IsInvariant holds) {list : TaskList Task Ctx World}
    {report : Report} (hstart : holds list.waiting list.board)
    (hok : (list.run flow).1 = .ok report) :
    ∃ left, holds left (list.run flow).2.board ∧
      (∀ pending ∈ left, ¬ flow.isEligible (list.run flow).2.board pending) ∧
      report.stalled =
        list.report.stalled ++ left.map (fun pending => (flow.job pending.task).name) := by
  induction list using run_induction flow with
  | h list ih =>
    by_cases hband : flow.band list.workers list.board list.waiting = []
    · rw [run, dif_pos hband] at hok ⊢
      obtain rfl := Except.ok.inj hok
      exact ⟨list.waiting, hstart, Workflow.not_isEligible_of_band_eq_nil hband, rfl⟩
    · have hall := h.perm (flow.band_append_behindBand list.workers list.board list.waiting).symm
        hstart
      rcases hsettle : settle
          (flow.executeAll (flow.band list.workers list.board list.waiting) list.board).1
          (flow.behindBand list.workers list.board list.waiting) list.report with
        ⟨_ | error, waiting, report'⟩
      · rw [run_of_settle_none hband hsettle] at hok ⊢
        rw [← stalled_settle hsettle]
        exact ih waiting _ report' hband hsettle (h.settle hall hsettle) hok
      · rw [run_of_settle_some hband hsettle] at hok
        simp at hok

/-- A run that ends well ends with the invariant, for some tasks of which none can run. -/
theorem exists_left_of_run_ok (h : flow.IsInvariant holds) {list : TaskList Task Ctx World}
    {report : Report} (hstart : holds list.waiting list.board)
    (hok : (list.run flow).1 = .ok report) :
    ∃ left, holds left (list.run flow).2.board ∧
      ∀ pending ∈ left, ¬ flow.isEligible (list.run flow).2.board pending := by
  obtain ⟨left, hleft, hend, _⟩ := exists_stalled_of_run_ok h hstart hok
  exact ⟨left, hleft, hend⟩

/-- A run leads from its first board to its last by the relation that every task respects. -/
theorem later_run (h : flow.IsProgress later) (list : TaskList Task Ctx World) :
    later list.board (list.run flow).2.board := by
  induction list using run_induction flow with
  | h list ih =>
    by_cases hband : flow.band list.workers list.board list.waiting = []
    · obtain ⟨report', hrun⟩ := run_of_band_eq_nil hband
      rw [hrun]
      exact h.refl _
    · have hexecute := h.executeAll (flow.band list.workers list.board list.waiting) list.board
      rcases hsettle : settle
          (flow.executeAll (flow.band list.workers list.board list.waiting) list.board).1
          (flow.behindBand list.workers list.board list.waiting) list.report with
        ⟨_ | error, waiting, report'⟩
      · rw [run_of_settle_none hband hsettle]
        exact h.trans hexecute (ih waiting _ report' hband hsettle)
      · rw [run_of_settle_some hband hsettle]
        exact hexecute

/-- A run that fails contains a task that fails, on a board where the invariant holds and the task
has its inputs. -/
theorem exists_failure_of_run_error (h : flow.IsInvariant holds) (hkeeps : flow.KeepsInputs holds)
    (hlater : flow.IsProgress later) {list : TaskList Task Ctx World} {error : RunError}
    (hstart : holds list.waiting list.board) (herror : (list.run flow).1 = .error error) :
    ∃ first others board, holds (first :: others) board ∧ flow.isEligible board first ∧
      (flow.execute first board).1 = .error error ∧
      later (flow.execute first board).2 (list.run flow).2.board := by
  induction list using run_induction flow with
  | h list ih =>
    by_cases hband : flow.band list.workers list.board list.waiting = []
    · obtain ⟨report', hrun⟩ := run_of_band_eq_nil hband
      rw [hrun] at herror
      simp at herror
    · have hall := h.perm (flow.band_append_behindBand list.workers list.board list.waiting).symm
        hstart
      rcases hsettle : settle
          (flow.executeAll (flow.band list.workers list.board list.waiting) list.board).1
          (flow.behindBand list.workers list.board list.waiting) list.report with
        ⟨_ | error', waiting, report'⟩
      · rw [run_of_settle_none hband hsettle] at herror ⊢
        exact ih waiting _ report' hband hsettle (h.settle hall hsettle) herror
      · rw [run_of_settle_some hband hsettle] at herror ⊢
        simp only [Except.error.injEq] at herror
        subst herror
        refine h.exists_failure hkeeps hlater ?_ ?_ hall hsettle
        · exact fun a ha b hb => Workflow.priority_eq_of_mem_band ha hb
        · exact fun pending hpending => Workflow.isEligible_of_mem_band hpending

end TaskList

end CodeAtlas.Tasks
