/-
# Levels in any order

Tasks of the highest priority that have their inputs and spawn only tasks of lower priorities are
executed before anything else, in whatever order the tasks of each band are.  So what they keep, in
whatever order they come, holds when the level is done, and a run of another workflow that executes them
in the same way can come to the same list.
-/
import CodeAtlas.Proofs.Tasks.Conservation

namespace CodeAtlas.Tasks

variable {Task Key Ctx World Rank : Type} [LT Rank] {flow other : Workflow Task Key Ctx World Rank}
  {taken : Pending Task → Prop} {holds : List (Pending Task) → Board Ctx World → Prop}

/-! ## One band -/

namespace Workflow

/-- A property of the waiting tasks, in whatever order, and the board that certain tasks keep when they
finish. -/
structure IsKeptBy (flow : Workflow Task Key Ctx World Rank) (taken : Pending Task → Prop)
    (holds : List (Pending Task) → Board Ctx World → Prop) : Prop where
  perm : ∀ {waiting others : List (Pending Task)} {board : Board Ctx World},
    waiting.Perm others → holds waiting board → holds others board
  step : ∀ {first : Pending Task} {rest : List (Pending Task)} {board after : Board Ctx World}
    {outcome : Outcome Task}, taken first → holds (first :: rest) board →
    flow.execute first board = (.ok outcome, after) → holds (outcome.spawned ++ rest) after

theorem IsInvariant.isKeptBy (h : flow.IsInvariant holds) (taken : Pending Task → Prop) :
    flow.IsKeptBy taken holds :=
  ⟨h.perm, fun _ => h.step⟩

/-- What each task of a band keeps, the band keeps, in whatever order it is executed. -/
theorem IsKeptBy.runsInAnyOrder (h : flow.IsKeptBy taken holds) {band behind : List (Pending Task)}
    {board after : Board Ctx World} {attempts : List (Attempt Task Ctx World)}
    (hrun : flow.RunsInAnyOrder band board attempts after)
    (hall : ∀ attempt ∈ attempts, attempt.Finished) (htaken : ∀ pending ∈ band, taken pending)
    (hstart : holds (band ++ behind) board) :
    holds (spawnedBy (attempts.filterMap Attempt.execution?) ++ behind) after ∧
      ∀ attempt ∈ attempts, ∃ rest, holds (attempt.pending :: rest) attempt.before := by
  induction hrun generalizing behind with
  | nil => exact ⟨hstart, by simp⟩
  | @pick front back pending board middle after outcome fronts backs _ hexecute _ ih =>
    let first : Attempt Task Ctx World := ⟨pending, board, middle, outcome⟩
    obtain ⟨result, hresult⟩ : first.Finished :=
      hall first (List.mem_append_right _ List.mem_cons_self)
    have hfirst : holds (pending :: (front ++ back ++ behind)) board :=
      h.perm (List.perm_middle.append_right behind) hstart
    have hstep : holds (result.spawned ++ (front ++ back ++ behind)) middle :=
      h.step (htaken pending (List.mem_append_right _ List.mem_cons_self)) hfirst
        (by rw [hexecute, ← hresult])
    -- what the first task spawned stands behind the rest of the band while that is executed
    obtain ⟨hend, hbefore⟩ := ih
      (fun attempt hattempt =>
        hall attempt (List.perm_middle.mem_iff.2 (List.mem_cons_of_mem _ hattempt)))
      (fun other hother =>
        htaken other (List.perm_middle.mem_iff.2 (List.mem_cons_of_mem _ hother)))
      (h.perm (List.perm_append_comm_assoc _ _ _) hstep)
    refine ⟨h.perm ?_ hend, fun attempt hattempt => ?_⟩
    · have hexecution : first.execution? = some ⟨pending, board, middle, result⟩ := by
        rw [Attempt.execution?, hresult]
      simp only [List.filterMap_append]
      rw [List.filterMap_cons_some hexecution]
      simp only [spawnedBy, List.flatMap_append, List.flatMap_cons, List.append_assoc]
      exact (List.perm_append_comm_assoc _ _ _).append_left _
    · rcases List.mem_cons.1 (List.perm_middle.mem_iff.1 hattempt) with rfl | hrest
      · exact ⟨_, hfirst⟩
      · exact hbefore attempt hrest

/-- A band is executed in the same way by a workflow that executes its tasks in the same way. -/
theorem RunsInAnyOrder.congr {band : List (Pending Task)} {board after : Board Ctx World}
    {attempts : List (Attempt Task Ctx World)} (h : flow.RunsInAnyOrder band board attempts after)
    (hsame : ∀ attempt ∈ attempts, other.execute attempt.pending attempt.before =
      flow.execute attempt.pending attempt.before) :
    other.RunsInAnyOrder band board attempts after := by
  induction h with
  | nil => exact .nil
  | @pick front back pending board middle after outcome fronts backs hplace hexecute _ ih =>
    have hfirst := hsame ⟨pending, board, middle, outcome⟩
      (List.mem_append_right _ List.mem_cons_self)
    exact .pick hplace (hfirst.trans hexecute) (ih (fun attempt hattempt =>
      hsame attempt (List.perm_middle.mem_iff.2 (List.mem_cons_of_mem _ hattempt))))

end Workflow

namespace Sweep

variable {sweep : Sweep flow} {waiting : List (Pending Task)} {report : Report}

/-- A band that does not fail keeps what its tasks keep. -/
theorem keeps (h : flow.IsKeptBy taken holds) (hsettle : sweep.settled = (none, waiting, report))
    (htaken : ∀ pending ∈ flow.band sweep.list.workers sweep.list.board sweep.list.waiting,
      taken pending)
    (hstart : holds sweep.list.waiting sweep.list.board) :
    holds waiting sweep.after ∧
      ∀ attempt ∈ sweep.attempts, ∃ rest, holds (attempt.pending :: rest) attempt.before := by
  obtain ⟨hend, hbefore⟩ := h.runsInAnyOrder sweep.inAnyOrder (finished_of_settle hsettle) htaken
    (h.perm (flow.band_append_behindBand _ _ _).symm hstart)
  exact ⟨h.perm (settle_executions hsettle).1.symm hend, hbefore⟩

/-- A band goes in the same way under a workflow that takes and executes its tasks in the same way. -/
theorem exists_congr (heligible : ∀ board, other.isEligible board = flow.isEligible board)
    (hsame : ∀ attempt ∈ sweep.attempts, other.execute attempt.pending attempt.before =
      flow.execute attempt.pending attempt.before) :
    ∃ same : Sweep other, same.list = sweep.list ∧ same.after = sweep.after ∧
      same.settled = sweep.settled := by
  obtain ⟨hband, hbehind⟩ := Workflow.band_congr_of_isEligible heligible sweep.list.workers
    sweep.list.board sweep.list.waiting
  refine ⟨⟨sweep.list, sweep.attempts, sweep.after, ?_⟩, rfl, rfl, ?_⟩
  · rw [hband]
    exact sweep.inAnyOrder.congr hsame
  · rw [settled, settled, hbehind]

theorem isIdle_congr {list : TaskList Task Ctx World}
    (heligible : ∀ board, other.isEligible board = flow.isEligible board) :
    list.IsIdle other ↔ list.IsIdle flow := by
  rw [TaskList.IsIdle, TaskList.IsIdle,
    (Workflow.band_congr_of_isEligible heligible list.workers list.board list.waiting).1]

end Sweep

/-! ## Whole runs -/

namespace TaskList.Sweeps

variable {list : TaskList Task Ctx World} {sweeps : List (Sweep flow)}
  {result : Except RunError Report × TaskList Task Ctx World} {report : Report}

/-- A run that ends well keeps an invariant, in whatever order its bands are executed, up to tasks of
which none can run and which the report says have stalled. -/
theorem exists_stalled (hinvariant : flow.IsInvariant holds) (h : Sweeps flow list sweeps result)
    (hok : result.1 = .ok report) (hstart : holds list.waiting list.board) :
    ∃ left, holds left result.2.board ∧
      (∀ pending ∈ left, ¬ flow.isEligible result.2.board pending) ∧
      report.stalled = list.report.stalled ++ left.map flow.nameOf := by
  induction h with
  | @stop list hidle =>
    obtain rfl := Except.ok.inj hok
    exact ⟨list.waiting, hstart, Workflow.not_isEligible_of_band_eq_nil hidle, rfl⟩
  | fail _ _ => simp at hok
  | @next sweep waiting report' _ _ _ hsettle _ ih =>
    obtain ⟨hnext, _⟩ := sweep.keeps (hinvariant.isKeptBy fun _ => True) hsettle
      (fun _ _ => trivial) hstart
    obtain ⟨left, hleft, hend, hstalled⟩ := ih hok hnext
    have hkept : report'.stalled = sweep.list.report.stalled := stalled_settle hsettle
    exact ⟨left, hleft, hend, by rw [hstalled, hkept]⟩

/-- A run that ends well can go in the same way under a workflow in which every task that finishes, while
an invariant holds, finishes in the same way. -/
theorem exists_congr (hinvariant : flow.IsInvariant holds)
    (hname : ∀ task, (other.job task).name = (flow.job task).name)
    (heligible : ∀ board, other.isEligible board = flow.isEligible board)
    (hexecute : flow.FinishesAlike other holds) (h : Sweeps flow list sweeps result)
    (hok : result.1 = .ok report) (hstart : holds list.waiting list.board) :
    ∃ same, Sweeps other list same result := by
  induction h with
  | @stop list hidle =>
    have hnames : other.nameOf = flow.nameOf := funext fun pending => hname pending.task
    refine ⟨[], ?_⟩
    rw [← hnames]
    exact .stop ((Sweep.isIdle_congr heligible).2 hidle)
  | fail _ _ => simp at hok
  | @next sweep waiting report' _ _ hband hsettle _ ih =>
    obtain ⟨hnext, hbefore⟩ := sweep.keeps (hinvariant.isKeptBy fun _ => True) hsettle
      (fun _ _ => trivial) hstart
    obtain ⟨later, hlater⟩ := ih hok hnext
    obtain ⟨same, hlist, hafter, hsettled⟩ := sweep.exists_congr heligible (fun attempt hattempt => by
      obtain ⟨rest, hholds⟩ := hbefore attempt hattempt
      obtain ⟨outcome, houtcome⟩ := finished_of_settle hsettle attempt hattempt
      have hrun := sweep.inAnyOrder.execute_eq attempt hattempt
      rw [houtcome] at hrun
      rw [hrun, hexecute hholds hrun])
    rw [← hlist, ← hafter] at hlater
    refine ⟨same :: later, ?_⟩
    rw [← hlist]
    exact .next (by rwa [Sweep.isIdle_congr heligible, hlist]) (hsettled.trans hsettle) hlater

end TaskList.Sweeps

/-! ## Levels -/

/-- A property of the waiting tasks, in whatever order, and the board that the tasks of the highest
priority keep.  They have their inputs, and what they spawn has a lower priority. -/
structure Workflow.IsBarrier (flow : Workflow Task Key Ctx World Rank) (priority : Int)
    (holds : List (Pending Task) → Board Ctx World → Prop) : Prop where
  le : ∀ {waiting : List (Pending Task)} {board : Board Ctx World}, holds waiting board →
    ∀ pending ∈ waiting, pending.priority ≤ priority
  isEligible : ∀ {waiting : List (Pending Task)} {board : Board Ctx World}, holds waiting board →
    ∀ pending ∈ waiting, pending.priority = priority → flow.isEligible board pending
  isKeptBy : flow.IsKeptBy (fun pending => pending.priority = priority) holds

namespace TaskList

/-- The tasks that a band takes have the highest priority of all that have their inputs. -/
theorem priority_le_of_mem_band {list : TaskList Task Ctx World} (horder : InOrder list.waiting)
    {pending taken : Pending Task} (hpending : pending ∈ list.waiting)
    (heligible : flow.isEligible list.board pending)
    (htaken : taken ∈ flow.band list.workers list.board list.waiting) :
    pending.priority ≤ taken.priority := by
  cases hfind : list.waiting.find? (flow.isEligible list.board) with
  | none =>
    rw [Workflow.band, hfind] at htaken
    simp at htaken
  | some first =>
    have hfirst : first ∈ flow.band list.workers list.board list.waiting := by
      rw [Workflow.band, hfind]
      dsimp only
      split
      · exact List.mem_singleton_self first
      · refine List.mem_filter.2 ⟨List.mem_of_find?_eq_some hfind, ?_⟩
        rw [beq_self_eq_true, Bool.true_and]
        exact List.find?_some hfind
    rw [Workflow.priority_eq_of_mem_band htaken hfirst]
    exact Workflow.priority_le_of_find? horder hfind hpending heligible

/-- A list with the same tasks as another up to those of a level, which a run comes to in whatever order
the bands before it are executed. -/
structure IsBelow (flow : Workflow Task Key Ctx World Rank) (priority : Int)
    (holds : List (Pending Task) → Board Ctx World → Prop) (list later : TaskList Task Ctx World) :
    Prop where
  workers_eq : later.workers = list.workers
  inOrder : InOrder later.waiting
  stalled_eq : later.report.stalled = list.report.stalled
  lt : ∀ pending ∈ later.waiting, pending.priority < priority
  kept : holds later.waiting later.board
  /-- A workflow that executes the level in the same way can come to the list as well. -/
  comes : ∀ other : Workflow Task Key Ctx World Rank,
    (∀ board, other.isEligible board = flow.isEligible board) →
    (∀ {first : Pending Task} {rest : List (Pending Task)} {board : Board Ctx World},
      first.priority = priority → holds (first :: rest) board →
      other.execute first board = flow.execute first board) →
    ∀ {sweeps : List (Sweep other)} {result : Except RunError Report × TaskList Task Ctx World},
      Sweeps other later sweeps result → ∃ all, Sweeps other list all result

/-- A run that ends well comes to a list without tasks of the level, and goes on from there. -/
theorem Sweeps.exists_below {priority : Int} (hbarrier : flow.IsBarrier priority holds)
    {list : TaskList Task Ctx World} {sweeps : List (Sweep flow)}
    {result : Except RunError Report × TaskList Task Ctx World} {report : Report}
    (h : Sweeps flow list sweeps result) (hok : result.1 = .ok report)
    (horder : InOrder list.waiting) (hstart : holds list.waiting list.board) :
    ∃ later rest, IsBelow flow priority holds list later ∧ Sweeps flow later rest result := by
  have hdone : ∀ {list : TaskList Task Ctx World}, InOrder list.waiting →
      holds list.waiting list.board → (∀ pending ∈ list.waiting, pending.priority ≠ priority) →
      IsBelow flow priority holds list list := by
    intro list horder hstart hnone
    refine ⟨rfl, horder, rfl, fun pending hpending => ?_, hstart, fun _ _ _ _ _ hrest => ⟨_, hrest⟩⟩
    have hle := hbarrier.le hstart pending hpending
    have hne := hnone pending hpending
    omega
  induction h with
  | @stop list hidle =>
    refine ⟨list, [], hdone horder hstart (fun pending hpending hpriority => ?_), .stop hidle⟩
    exact Workflow.not_isEligible_of_band_eq_nil hidle pending hpending
      (hbarrier.isEligible hstart pending hpending hpriority)
  | fail _ _ => simp at hok
  | @next sweep waiting report' sweeps result hband hsettle hrest ih =>
    by_cases hlevel : ∃ pending ∈ sweep.list.waiting, pending.priority = priority
    · obtain ⟨pending, hpending, hpriority⟩ := hlevel
      have hmem : ∀ taken ∈ flow.band sweep.list.workers sweep.list.board sweep.list.waiting,
          taken ∈ sweep.list.waiting := fun taken htaken =>
        (flow.band_append_behindBand _ _ _).subset (List.mem_append_left _ htaken)
      have htaken : ∀ taken ∈ flow.band sweep.list.workers sweep.list.board sweep.list.waiting,
          taken.priority = priority := by
        intro taken htaken
        refine Int.le_antisymm (hbarrier.le hstart taken (hmem taken htaken)) ?_
        rw [← hpriority]
        exact priority_le_of_mem_band horder hpending
          (hbarrier.isEligible hstart pending hpending hpriority) htaken
      obtain ⟨hnext, hbefore⟩ := sweep.keeps hbarrier.isKeptBy hsettle htaken hstart
      have horder' : InOrder waiting := (horder.behindBand _ _).settle hsettle
      obtain ⟨later, rest, hbelow, hlater⟩ := ih hok horder' hnext
      refine ⟨later, rest, ⟨hbelow.workers_eq, hbelow.inOrder, ?_, hbelow.lt, hbelow.kept, ?_⟩,
        hlater⟩
      · have hkept : report'.stalled = sweep.list.report.stalled := stalled_settle hsettle
        rw [hbelow.stalled_eq, hkept]
      · intro other heligible hexecute tail result' htail
        obtain ⟨all, hall⟩ := hbelow.comes other heligible hexecute htail
        obtain ⟨same, hlist, hafter, hsettled⟩ := sweep.exists_congr heligible (fun attempt hattempt => by
          obtain ⟨_, hholds⟩ := hbefore attempt hattempt
          refine hexecute (htaken _ ?_) hholds
          exact sweep.inAnyOrder.map_pending ▸ List.mem_map_of_mem hattempt)
        rw [← hlist, ← hafter] at hall
        refine ⟨same :: all, ?_⟩
        rw [← hlist]
        exact .next (by rwa [Sweep.isIdle_congr heligible, hlist]) (hsettled.trans hsettle) hall
    · exact ⟨sweep.list, sweep :: sweeps, hdone horder hstart (fun pending hpending hpriority =>
        hlevel ⟨pending, hpending, hpriority⟩), .next hband hsettle hrest⟩

end TaskList

end CodeAtlas.Tasks
