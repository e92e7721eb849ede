/-
# Running one priority after the other

Tasks of the highest priority that have their inputs and spawn only tasks of lower priorities run
to the last before anything else, in the order in which they wait.  This holds for any number of
workers, so the beginning of a run can be followed task by task.
-/
import CodeAtlas.Proofs.Tasks.Invariants

namespace CodeAtlas.Tasks

variable {Task Key Ctx World : Type}

/-! ## Waiting in order -/

section InOrder

variable {Rank : Type} [LT Rank] {flow : Workflow Task Key Ctx World Rank}

/-- Higher priorities come first. -/
def InOrder (waiting : List (Pending Task)) : Prop :=
  waiting.Pairwise (fun a b => b.priority ≤ a.priority)

theorem InOrder.insertPending {waiting : List (Pending Task)} (h : InOrder waiting)
    (pending : Pending Task) : InOrder (insertPending pending waiting) := by
  induction waiting with
  | nil => exact List.pairwise_singleton _ _
  | cons first rest ih =>
    obtain ⟨hfirst, hrest⟩ := List.pairwise_cons.1 h
    rw [Tasks.insertPending]
    split
    · rename_i hlower
      refine List.pairwise_cons.2 ⟨fun other hother => ?_, h⟩
      rcases List.mem_cons.1 hother with rfl | hother
      · omega
      · have := hfirst other hother
        omega
    · rename_i hlower
      refine List.pairwise_cons.2 ⟨fun other hother => ?_, ih hrest⟩
      rcases List.mem_cons.1 ((insertPending_perm pending rest).mem_iff.1 hother) with rfl | hother
      · omega
      · exact hfirst other hother

theorem InOrder.insertAll {waiting : List (Pending Task)} (h : InOrder waiting)
    (spawned : List (Pending Task)) : InOrder (insertAll spawned waiting) := by
  induction spawned generalizing waiting with
  | nil => exact h
  | cons pending rest ih => exact ih (h.insertPending pending)

theorem InOrder.settle {outcomes : List (Except RunError (Outcome Task))}
    {rest waiting : List (Pending Task)} {before after : Report} {failure : Option RunError}
    (h : InOrder rest) (hsettle : settle outcomes rest before = (failure, waiting, after)) :
    InOrder waiting := by
  induction outcomes generalizing rest before with
  | nil =>
    simp only [Tasks.settle, Prod.mk.injEq] at hsettle
    rw [← hsettle.2.1]
    exact h
  | cons outcome others ih =>
    cases outcome with
    | error error =>
      simp only [Tasks.settle, Prod.mk.injEq] at hsettle
      rw [← hsettle.2.1]
      exact h
    | ok outcome => exact ih (h.insertAll outcome.spawned) hsettle

theorem InOrder.behindBand {waiting : List (Pending Task)} (h : InOrder waiting) (workers : Nat)
    (board : Board Ctx World) : InOrder (flow.behindBand workers board waiting) := by
  rw [Workflow.behindBand]
  split
  · exact h
  · split
    · exact h.sublist List.eraseP_sublist
    · exact h.sublist List.filter_sublist

/-- No task of a higher priority than the first that has its inputs has its own. -/
theorem Workflow.priority_le_of_find? {waiting : List (Pending Task)} {board : Board Ctx World}
    {first : Pending Task} (h : InOrder waiting)
    (hfind : waiting.find? (flow.isEligible board) = some first) {pending : Pending Task}
    (hmem : pending ∈ waiting) (heligible : flow.isEligible board pending) :
    pending.priority ≤ first.priority := by
  obtain ⟨_, before, behind, rfl, hbefore⟩ := List.find?_eq_some_iff_append.1 hfind
  have hbehind := (List.pairwise_cons.1 (List.pairwise_append.1 h).2.1).1
  rcases List.mem_append.1 hmem with hmem | hmem
  · have hlacks := hbefore pending hmem
    simp [heligible] at hlacks
  · rcases List.mem_cons.1 hmem with rfl | hmem
    · exact Int.le_refl _
    · exact hbehind pending hmem

end InOrder

/-! ## Inserting behind higher priorities -/

theorem insertPending_append {pending : Pending Task} {high low : List (Pending Task)}
    (h : ∀ other ∈ high, pending.priority ≤ other.priority) :
    insertPending pending (high ++ low) = high ++ insertPending pending low := by
  induction high with
  | nil => rfl
  | cons first rest ih =>
    have hfirst : ¬ first.priority < pending.priority := by
      have := h first List.mem_cons_self
      omega
    rw [List.cons_append, insertPending, if_neg hfirst,
      ih (fun other hother => h other (List.mem_cons_of_mem _ hother)), List.cons_append]

theorem insertAll_cons (pending : Pending Task) (spawned waiting : List (Pending Task)) :
    insertAll (pending :: spawned) waiting = insertAll spawned (insertPending pending waiting) :=
  rfl

theorem insertAll_append {spawned high low : List (Pending Task)}
    (h : ∀ pending ∈ spawned, ∀ other ∈ high, pending.priority ≤ other.priority) :
    insertAll spawned (high ++ low) = high ++ insertAll spawned low := by
  induction spawned generalizing low with
  | nil => rfl
  | cons first rest ih =>
    rw [insertAll_cons, insertAll_cons, insertPending_append (h first List.mem_cons_self)]
    exact ih (fun pending hpending => h pending (List.mem_cons_of_mem _ hpending))

/-- Tasks of one priority go behind all that wait, if those have no lower priority. -/
theorem insertAll_eq_append {spawned waiting : List (Pending Task)}
    (h : ∀ pending ∈ spawned, ∀ other ∈ waiting ++ spawned, pending.priority ≤ other.priority) :
    insertAll spawned waiting = waiting ++ spawned := by
  induction spawned generalizing waiting with
  | nil => simp [insertAll]
  | cons first rest ih =>
    have hfirst : insertPending first waiting = waiting ++ [first] := by
      have happend : insertPending first (waiting ++ []) = waiting ++ insertPending first [] :=
        insertPending_append (fun other hother =>
          h first List.mem_cons_self other (List.mem_append_left _ hother))
      rwa [List.append_nil] at happend
    rw [insertAll_cons, hfirst, ih]
    · simp
    · intro pending hpending other hother
      refine h pending (List.mem_cons_of_mem _ hpending) other ?_
      simpa using hother

/-! ## Draining a level -/

/-- The tasks of a level run one after the other and spawn only tasks of lower priority.  The lists
are those of the tasks that wait behind the level, before and after. -/
inductive Workflow.Drains (flow : Workflow Task Key Ctx World) (priority : Int) :
    List (Pending Task) → List (Pending Task) → Board Ctx World → Report →
      List (Pending Task) → Board Ctx World → Report → Prop
  | nil {lower : List (Pending Task)} {board : Board Ctx World} {report : Report} :
      Drains flow priority [] lower board report lower board report
  | cons {first : Pending Task} {rest lower lower' : List (Pending Task)}
      {board after board' : Board Ctx World} {report report' : Report} {outcome : Outcome Task}
      (hexecute : flow.execute first board = (.ok outcome, after))
      (hspawned : ∀ pending ∈ outcome.spawned, pending.priority < priority)
      (hrest : Drains flow priority rest (insertAll outcome.spawned lower) after
        (report.add outcome) lower' board' report') :
      Drains flow priority (first :: rest) lower board report lower' board' report'

namespace Workflow

variable {flow : Workflow Task Key Ctx World} {priority : Int}
  {level lower lower' : List (Pending Task)} {board board' : Board Ctx World}
  {report report' : Report}

/-- Draining a level in one band. -/
theorem Drains.settle (h : flow.Drains priority level lower board report lower' board' report') :
    (flow.executeAll level board).2 = board' ∧
      Tasks.settle (flow.executeAll level board).1 lower report = (none, lower', report') := by
  induction h with
  | nil => exact ⟨rfl, rfl⟩
  | cons hexecute _ _ ih =>
    rw [executeAll, hexecute]
    exact ih

/-- Nothing is reported as stalled while a level is drained. -/
theorem Drains.stalled_eq
    (h : flow.Drains priority level lower board report lower' board' report') :
    report'.stalled = report.stalled := by
  induction h with
  | nil => rfl
  | cons _ _ _ ih => exact ih

/-- A level is drained in the same way by a workflow that executes its tasks in the same way. -/
theorem Drains.congr {other : Workflow Task Key Ctx World}
    (h : flow.Drains priority level lower board report lower' board' report')
    (hexecute : ∀ pending ∈ level, ∀ board,
      other.execute pending board = flow.execute pending board) :
    other.Drains priority level lower board report lower' board' report' := by
  induction h with
  | nil => exact .nil
  | cons hfirst hspawned _ ih =>
    have hrest := ih (fun pending hpending => hexecute pending (List.mem_cons_of_mem _ hpending))
    exact .cons ((hexecute _ List.mem_cons_self _).trans hfirst) hspawned hrest

end Workflow

namespace TaskList

variable {flow : Workflow Task Key Ctx World} {priority : Int}
  {level lower lower' : List (Pending Task)} {board board' : Board Ctx World}
  {report report' : Report}

/-- A run goes on after a given band that does not fail. -/
theorem run_next {list : TaskList Task Ctx World} {band behind waiting : List (Pending Task)}
    (hband : flow.band list.workers list.board list.waiting = band)
    (hbehind : flow.behindBand list.workers list.board list.waiting = behind) (hne : band ≠ [])
    (hsettle : settle (flow.executeAll band list.board).1 behind list.report =
      (none, waiting, report)) :
    list.run flow =
      run flow ⟨list.workers, waiting, (flow.executeAll band list.board).2, report⟩ := by
  subst hband hbehind
  exact run_of_settle_none hne hsettle

/-- With one worker, a level is drained task by task. -/
theorem run_level_of_one {workers : Nat} (hworkers : workers ≤ 1)
    (h : flow.Drains priority level lower board report lower' board' report')
    (hlevel : ∀ pending ∈ level, pending.priority = priority) :
    run flow ⟨workers, level ++ lower, board, report⟩ =
      run flow ⟨workers, lower', board', report'⟩ := by
  induction h with
  | nil => rfl
  | @cons first rest lower lower' board after board' report report' outcome hexecute hspawned _ ih =>
    have heligible : flow.isEligible board first :=
      Workflow.isEligible_of_execute (congrArg Prod.fst hexecute)
    have hfind : (first :: (rest ++ lower)).find? (flow.isEligible board) = some first :=
      List.find?_cons_of_pos heligible
    have hband : flow.band workers board (first :: (rest ++ lower)) = [first] := by
      simp only [Workflow.band, hfind, hworkers, if_true]
    have hbehind : flow.behindBand workers board (first :: (rest ++ lower)) = rest ++ lower := by
      simp only [Workflow.behindBand, hfind, hworkers, if_true]
      exact List.eraseP_cons_of_pos heligible
    have hinsert : insertAll outcome.spawned (rest ++ lower) =
        rest ++ insertAll outcome.spawned lower := by
      refine insertAll_append (fun pending hpending other hother => ?_)
      have hlow := hspawned pending hpending
      have hhigh := hlevel other (List.mem_cons_of_mem _ hother)
      omega
    have hsettle : settle (flow.executeAll [first] board).1 (rest ++ lower) report =
        (none, rest ++ insertAll outcome.spawned lower, report.add outcome) := by
      simp only [Workflow.executeAll, hexecute, Tasks.settle, hinsert]
    have hnext : run flow ⟨workers, first :: (rest ++ lower), board, report⟩ =
        run flow ⟨workers, rest ++ insertAll outcome.spawned lower,
          (flow.executeAll [first] board).2, report.add outcome⟩ :=
      run_next hband hbehind (List.cons_ne_nil _ _) hsettle
    rw [List.cons_append, hnext]
    simp only [Workflow.executeAll, hexecute]
    exact ih (fun pending hpending => hlevel pending (List.mem_cons_of_mem _ hpending))

/-- With several workers, a level is drained as one band. -/
theorem run_level_of_many {workers : Nat} (hworkers : ¬ workers ≤ 1)
    (h : flow.Drains priority level lower board report lower' board' report')
    (hlevel : ∀ pending ∈ level, pending.priority = priority)
    (hlower : ∀ pending ∈ lower, pending.priority < priority)
    (heligible : ∀ pending ∈ level, flow.isEligible board pending) :
    run flow ⟨workers, level ++ lower, board, report⟩ =
      run flow ⟨workers, lower', board', report'⟩ := by
  cases hne : level with
  | nil =>
    subst hne
    cases h with
    | nil => rfl
  | cons first rest =>
    have hfirst : first ∈ level := by rw [hne]; exact List.mem_cons_self
    have hfind : (level ++ lower).find? (flow.isEligible board) = some first := by
      rw [hne, List.cons_append, List.find?_cons_of_pos (heligible first hfirst)]
    have hin : ∀ pending ∈ level,
        (pending.priority == first.priority && flow.isEligible board pending) = true := by
      intro pending hpending
      rw [hlevel pending hpending, hlevel first hfirst, heligible pending hpending]
      simp
    have hout : ∀ pending ∈ lower,
        (pending.priority == first.priority && flow.isEligible board pending) = false := by
      intro pending hpending
      have hne : pending.priority ≠ first.priority := by
        have := hlower pending hpending
        have := hlevel first hfirst
        omega
      rw [beq_eq_false_iff_ne.2 hne, Bool.false_and]
    have hband : flow.band workers board (level ++ lower) = level := by
      simp only [Workflow.band, hfind, hworkers, if_false, List.filter_append]
      rw [List.filter_eq_self.2 hin, List.filter_eq_nil_iff.2 (fun p hp => by simp [hout p hp]),
        List.append_nil]
    have hbehind : flow.behindBand workers board (level ++ lower) = lower := by
      simp only [Workflow.behindBand, hfind, hworkers, if_false, List.filter_append]
      rw [List.filter_eq_nil_iff.2 (fun p hp => by simp [hin p hp]),
        List.filter_eq_self.2 (fun p hp => by simp [hout p hp]), List.nil_append]
    obtain ⟨hboard, hsettle⟩ := h.settle
    have hnext : run flow ⟨workers, level ++ lower, board, report⟩ =
        run flow ⟨workers, lower', (flow.executeAll level board).2, report'⟩ :=
      run_next hband hbehind (by rw [hne]; exact List.cons_ne_nil _ _) hsettle
    rw [← hne, hnext, hboard]

/-- A level is drained before anything else runs. -/
theorem run_level (workers : Nat)
    (h : flow.Drains priority level lower board report lower' board' report')
    (hlevel : ∀ pending ∈ level, pending.priority = priority)
    (hlower : ∀ pending ∈ lower, pending.priority < priority)
    (heligible : ∀ pending ∈ level, flow.isEligible board pending) :
    run flow ⟨workers, level ++ lower, board, report⟩ =
      run flow ⟨workers, lower', board', report'⟩ := by
  by_cases hworkers : workers ≤ 1
  · exact run_level_of_one hworkers h hlevel
  · exact run_level_of_many hworkers h hlevel hlower heligible

/-! ## Runs of a bounded number of bands -/

/-- A run of fewer bands than a bound; none when it takes more.  It can be evaluated. -/
def runWithin {Rank : Type} [LT Rank] (flow : Workflow Task Key Ctx World Rank) :
    Nat → TaskList Task Ctx World → Option (Except RunError Report × TaskList Task Ctx World)
  | 0, _ => none
  | bound + 1, list =>
    match flow.band list.workers list.board list.waiting with
    | [] =>
      let names := list.waiting.map (fun pending => (flow.job pending.task).name)
      some (.ok { list.report with stalled := list.report.stalled ++ names },
        { list with waiting := [], report := .empty })
    | first :: rest =>
      let executed := flow.executeAll (first :: rest) list.board
      match settle executed.1 (flow.behindBand list.workers list.board list.waiting) list.report with
      | (some error, waiting, report) =>
        some (.error error, ⟨list.workers, waiting, executed.2, report⟩)
      | (none, waiting, report) => runWithin flow bound ⟨list.workers, waiting, executed.2, report⟩

theorem run?_eq_of_runWithin {Rank : Type} [LT Rank] {flow : Workflow Task Key Ctx World Rank}
    {bound : Nat} {list : TaskList Task Ctx World}
    {result : Except RunError Report × TaskList Task Ctx World}
    (h : list.runWithin flow bound = some result) : list.run? flow = some result := by
  induction bound generalizing list with
  | zero => simp [runWithin] at h
  | succ bound ih =>
    rw [runWithin] at h
    split at h
    · rename_i hband
      rw [run?_of_band_eq_nil hband]
      exact h
    · rename_i first rest hband
      have hne : flow.band list.workers list.board list.waiting ≠ [] := by simp [hband]
      rw [← hband] at h
      dsimp only at h
      split at h
      · rename_i error waiting report hsettle
        rw [run?_of_settle_some hne hsettle]
        exact h
      · rename_i waiting report hsettle
        rw [run?_of_settle_none hne hsettle]
        exact ih h

theorem run_eq_of_runWithin {bound : Nat} {list : TaskList Task Ctx World}
    {result : Except RunError Report × TaskList Task Ctx World}
    (h : list.runWithin flow bound = some result) : list.run flow = result :=
  Option.some.inj ((run?_eq_run flow list).symm.trans (run?_eq_of_runWithin h))

end TaskList

end CodeAtlas.Tasks
