/-
# Bands in any order

With several workers the tasks of a band are executed in any order, and each of them is, whatever
becomes of the others.  Only afterwards it is looked, in the order of the band, how they ended: the
outcomes come back in that order, whichever task was executed first.  A run that executes every band in
its own order goes in one of the ways in which a run can go.
-/
import CodeAtlas.Proofs.Tasks.Levels

namespace CodeAtlas.Tasks

variable {Task Key Ctx World Rank : Type} [LT Rank] {flow : Workflow Task Key Ctx World Rank}

/-! ## The course of a run -/

/-- A task that finished, the boards before and after it and how it ended. -/
structure Execution (Task Ctx World : Type) where
  pending : Pending Task
  before : Board Ctx World
  after : Board Ctx World
  outcome : Outcome Task

/-- What became of the tasks of a run: those that finished, in order, and those that were left. -/
structure Course (Task Ctx World : Type) where
  finished : List (Execution Task Ctx World)
  stalled : List (Pending Task)

namespace Workflow

/-- Whether a key is bound in the context of a group. -/
def isBound (flow : Workflow Task Key Ctx World Rank) (board : Board Ctx World) (group : Nat)
    (key : Key) : Bool :=
  (board.groups[group]?).any (fun context => flow.has context key)

/-- The name of a task. -/
def nameOf (flow : Workflow Task Key Ctx World Rank) (pending : Pending Task) : String :=
  (flow.job pending.task).name

/-- The tasks of a band that finish, in band order. -/
def executions (flow : Workflow Task Key Ctx World Rank) :
    List (Pending Task) → Board Ctx World → List (Execution Task Ctx World)
  | [], _ => []
  | pending :: rest, board =>
    match flow.execute pending board with
    | (.ok outcome, after) => ⟨pending, board, after, outcome⟩ :: executions flow rest after
    | (.error _, after) => executions flow rest after

end Workflow

section Course

variable (flow : Workflow Task Key Ctx World Rank)

/-- The course of a run, if it comes to an end. -/
def TaskList.course? (list : TaskList Task Ctx World) : Option (Course Task Ctx World) :=
  let band := flow.band list.workers list.board list.waiting
  if band = [] then some ⟨[], list.waiting⟩
  else
    let executed := flow.executeAll band list.board
    let behind := flow.behindBand list.workers list.board list.waiting
    match settle executed.1 behind list.report with
    | (some _, waiting, _) => some ⟨flow.executions band list.board, waiting⟩
    | (none, waiting, report) => do
      let later : Course Task Ctx World ← by
        apply TaskList.course?
        exact ⟨list.workers, waiting, executed.2, report⟩
      return ⟨flow.executions band list.board ++ later.finished, later.stalled⟩
partial_fixpoint

end Course

/-! ## One band -/

/-- A task that was executed: the boards it found and left, and how it ended. -/
structure Attempt (Task Ctx World : Type) where
  pending : Pending Task
  before : Board Ctx World
  after : Board Ctx World
  outcome : Except RunError (Outcome Task)

namespace Attempt

/-- The task did not fail. -/
def Finished (attempt : Attempt Task Ctx World) : Prop :=
  ∃ outcome, attempt.outcome = .ok outcome

/-- The task as one that finished. -/
def execution? (attempt : Attempt Task Ctx World) : Option (Execution Task Ctx World) :=
  match attempt.outcome with
  | .ok outcome => some ⟨attempt.pending, attempt.before, attempt.after, outcome⟩
  | .error _ => none

end Attempt

namespace Workflow

/-- The tasks of a list are executed one after the other, in any order.  The attempts stand in the order
of the list. -/
inductive RunsInAnyOrder (flow : Workflow Task Key Ctx World Rank) : List (Pending Task) →
    Board Ctx World → List (Attempt Task Ctx World) → Board Ctx World → Prop
  | nil {board : Board Ctx World} : RunsInAnyOrder flow [] board [] board
  /-- Any task may come first. -/
  | pick {front back : List (Pending Task)} {pending : Pending Task}
      {board middle after : Board Ctx World} {outcome : Except RunError (Outcome Task)}
      {fronts backs : List (Attempt Task Ctx World)}
      (hplace : fronts.map Attempt.pending = front)
      (hexecute : flow.execute pending board = (outcome, middle))
      (hrest : RunsInAnyOrder flow (front ++ back) middle (fronts ++ backs) after) :
      RunsInAnyOrder flow (front ++ pending :: back) board
        (fronts ++ ⟨pending, board, middle, outcome⟩ :: backs) after

namespace RunsInAnyOrder

variable {band : List (Pending Task)} {board after : Board Ctx World}
  {attempts : List (Attempt Task Ctx World)} {pending : Pending Task}

/-- Every task of the list is executed once. -/
theorem map_pending (h : flow.RunsInAnyOrder band board attempts after) :
    attempts.map Attempt.pending = band := by
  induction h with
  | nil => rfl
  | pick hplace _ _ ih =>
    rw [List.map_append, hplace] at ih
    rw [List.map_append, List.map_cons, hplace, List.append_cancel_left ih]

theorem execute_eq (h : flow.RunsInAnyOrder band board attempts after) :
    ∀ attempt ∈ attempts,
      flow.execute attempt.pending attempt.before = (attempt.outcome, attempt.after) := by
  induction h with
  | nil => simp
  | pick _ hexecute _ ih =>
    intro attempt hattempt
    rcases List.mem_cons.1 (List.perm_middle.mem_iff.1 hattempt) with rfl | hrest
    · exact hexecute
    · exact ih attempt hrest

/-- Nothing is executed of a band without tasks. -/
theorem after_eq_of_nil (h : flow.RunsInAnyOrder [] board attempts after) : after = board := by
  generalize hband : ([] : List (Pending Task)) = band at h
  cases h with
  | nil => rfl
  | pick _ _ _ => simp at hband

/-- A band of at most one task can be executed in its own order only. -/
theorem eq_executeAll (h : flow.RunsInAnyOrder band board attempts after) (hlength : band.length ≤ 1) :
    attempts.map Attempt.outcome = (flow.executeAll band board).1 ∧
      after = (flow.executeAll band board).2 := by
  cases h with
  | nil => exact ⟨rfl, rfl⟩
  | @pick front back pending _ middle _ outcome fronts backs hplace hexecute hrest =>
    obtain ⟨rfl, rfl⟩ : front = [] ∧ back = [] := by
      rw [List.length_append, List.length_cons] at hlength
      exact ⟨List.length_eq_zero_iff.1 (by omega), List.length_eq_zero_iff.1 (by omega)⟩
    obtain ⟨rfl, rfl⟩ : fronts = [] ∧ backs = [] :=
      List.append_eq_nil_iff.1 (List.map_eq_nil_iff.1 hrest.map_pending)
    have hafter : after = middle := hrest.after_eq_of_nil
    have hband : flow.executeAll [pending] board = ([outcome], middle) := by
      rw [executeAll, hexecute]
      rfl
    rw [List.nil_append, List.nil_append, hband]
    exact ⟨rfl, hafter⟩

/-- What every task respects, a band respects. -/
theorem later {later : Board Ctx World → Board Ctx World → Prop} (hlater : flow.IsProgress later)
    (h : flow.RunsInAnyOrder band board attempts after) : later board after := by
  induction h with
  | nil => exact hlater.refl _
  | @pick _ _ pending board middle _ _ _ _ _ hexecute _ ih =>
    have hstep := hlater.step pending board
    rw [hexecute] at hstep
    exact hlater.trans hstep ih

/-- The order of the band is one of the orders. -/
theorem of_executeAll (flow : Workflow Task Key Ctx World Rank) (band : List (Pending Task))
    (board : Board Ctx World) : ∃ attempts,
      flow.RunsInAnyOrder band board attempts (flow.executeAll band board).2 ∧
      attempts.map Attempt.outcome = (flow.executeAll band board).1 ∧
      attempts.filterMap Attempt.execution? = flow.executions band board := by
  induction band generalizing board with
  | nil => exact ⟨[], .nil, rfl, rfl⟩
  | cons first rest ih =>
    rcases hfirst : flow.execute first board with ⟨outcome, middle⟩
    obtain ⟨attempts, hrest, houtcomes, hexecutions⟩ := ih middle
    have hpick : flow.RunsInAnyOrder ([] ++ first :: rest) board
        ([] ++ ⟨first, board, middle, outcome⟩ :: attempts) (flow.executeAll rest middle).2 :=
      .pick rfl hfirst hrest
    have hexecuteAll : flow.executeAll (first :: rest) board =
        (outcome :: (flow.executeAll rest middle).1, (flow.executeAll rest middle).2) := by
      rw [executeAll, hfirst]
    rw [hexecuteAll]
    refine ⟨_, hpick, ?_, ?_⟩
    · rw [List.nil_append, List.map_cons, houtcomes]
    · rw [executions, hfirst, List.nil_append, List.filterMap_cons, hexecutions]
      cases outcome <;> rfl

end RunsInAnyOrder

/-- One worker executes one task in a band. -/
theorem length_band_le_one {workers : Nat} (h : workers ≤ 1) (board : Board Ctx World)
    (waiting : List (Pending Task)) : (flow.band workers board waiting).length ≤ 1 := by
  rw [band]
  split
  · simp
  · simp [h]

end Workflow

/-- A band does not fail when all of its tasks finish. -/
theorem finished_of_settle {attempts : List (Attempt Task Ctx World)}
    {behind waiting : List (Pending Task)} {before after : Report}
    (h : settle (attempts.map Attempt.outcome) behind before = (none, waiting, after)) :
    ∀ attempt ∈ attempts, attempt.Finished := by
  induction attempts generalizing behind before with
  | nil => simp
  | cons first rest ih =>
    rw [List.map_cons] at h
    cases houtcome : first.outcome with
    | error refusal =>
      rw [houtcome] at h
      simp [settle] at h
    | ok outcome =>
      rw [houtcome] at h
      intro attempt hattempt
      rcases List.mem_cons.1 hattempt with rfl | hlater
      · exact ⟨outcome, houtcome⟩
      · exact ih h attempt hlater

/-! ## Runs -/

/-- No task of the list can run. -/
def TaskList.IsIdle (flow : Workflow Task Key Ctx World Rank) (list : TaskList Task Ctx World) :
    Prop :=
  flow.band list.workers list.board list.waiting = []

/-- A band that was executed, in whatever order: the list it was taken from, its tasks as they were
executed and the board they left. -/
structure Sweep (flow : Workflow Task Key Ctx World Rank) where
  list : TaskList Task Ctx World
  attempts : List (Attempt Task Ctx World)
  after : Board Ctx World
  inAnyOrder : flow.RunsInAnyOrder (flow.band list.workers list.board list.waiting) list.board
    attempts after

namespace Sweep

/-- What the band comes to: why it failed, if it did, the tasks that wait then and the report. -/
def settled (sweep : Sweep flow) : Option RunError × List (Pending Task) × Report :=
  settle (sweep.attempts.map Attempt.outcome)
    (flow.behindBand sweep.list.workers sweep.list.board sweep.list.waiting) sweep.list.report

/-- The tasks of the band that finished, in the order in which they come back. -/
def executions (sweep : Sweep flow) : List (Execution Task Ctx World) :=
  sweep.attempts.filterMap Attempt.execution?

/-- The band of a list, executed in its own order. -/
theorem exists_of_executeAll (flow : Workflow Task Key Ctx World Rank)
    (list : TaskList Task Ctx World) : ∃ sweep : Sweep flow, sweep.list = list ∧
      sweep.after =
        (flow.executeAll (flow.band list.workers list.board list.waiting) list.board).2 ∧
      sweep.settled = settle
        (flow.executeAll (flow.band list.workers list.board list.waiting) list.board).1
        (flow.behindBand list.workers list.board list.waiting) list.report ∧
      sweep.executions =
        flow.executions (flow.band list.workers list.board list.waiting) list.board := by
  obtain ⟨attempts, hrun, houtcomes, hexecutions⟩ := Workflow.RunsInAnyOrder.of_executeAll flow
    (flow.band list.workers list.board list.waiting) list.board
  refine ⟨⟨list, attempts, _, hrun⟩, rfl, rfl, ?_, hexecutions⟩
  rw [settled, houtcomes]

end Sweep

namespace TaskList

/-- A run in bands, each executed in whatever order, up to what it returns. -/
inductive Sweeps (flow : Workflow Task Key Ctx World Rank) : TaskList Task Ctx World →
    List (Sweep flow) → Except RunError Report × TaskList Task Ctx World → Prop
  /-- No task of the list can run. -/
  | stop {list : TaskList Task Ctx World} (hidle : list.IsIdle flow) :
      Sweeps flow list [] (.ok { list.report with
        stalled := list.report.stalled ++ list.waiting.map flow.nameOf },
        { list with waiting := [], report := .empty })
  /-- A band fails, and no other begins. -/
  | fail {sweep : Sweep flow} {error : RunError} {waiting : List (Pending Task)} {report : Report}
      (hband : ¬ sweep.list.IsIdle flow) (hsettle : sweep.settled = (some error, waiting, report)) :
      Sweeps flow sweep.list [sweep]
        (.error error, ⟨sweep.list.workers, waiting, sweep.after, report⟩)
  /-- A band does not fail, and the next one begins. -/
  | next {sweep : Sweep flow} {waiting : List (Pending Task)} {report : Report}
      {sweeps : List (Sweep flow)} {result : Except RunError Report × TaskList Task Ctx World}
      (hband : ¬ sweep.list.IsIdle flow) (hsettle : sweep.settled = (none, waiting, report))
      (hrest : Sweeps flow ⟨sweep.list.workers, waiting, sweep.after, report⟩ sweeps result) :
      Sweeps flow sweep.list (sweep :: sweeps) result

variable {list : TaskList Task Ctx World} {sweeps : List (Sweep flow)}
  {result : Except RunError Report × TaskList Task Ctx World}

/-- Executing each band in its own order is one way for a run to go, and the tasks that finish are those
of its course. -/
theorem exists_sweeps_of_run? (h : list.run? flow = some result) :
    ∃ sweeps stalled, Sweeps flow list sweeps result ∧
      list.course? flow = some ⟨sweeps.flatMap Sweep.executions, stalled⟩ := by
  refine run?_induction ?stop ?fail ?next h
  case stop =>
    intro list hband
    refine ⟨[], list.waiting, .stop hband, ?_⟩
    rw [course?, if_pos hband]
    rfl
  case fail =>
    intro list error waiting report hband hsettle
    obtain ⟨sweep, rfl, hafter, hsettled, hexecutions⟩ := Sweep.exists_of_executeAll flow list
    rw [← hafter]
    refine ⟨[sweep], waiting, .fail hband (hsettled.trans hsettle), ?_⟩
    rw [course?, if_neg hband]
    simp only [hsettle, List.flatMap_singleton, hexecutions]
  case next =>
    rintro list waiting report result hband hsettle ⟨sweeps, stalled, hrest, hcourse⟩
    obtain ⟨sweep, rfl, hafter, hsettled, hexecutions⟩ := Sweep.exists_of_executeAll flow list
    have hlater : course? flow ⟨sweep.list.workers, waiting, (flow.executeAll (flow.band
        sweep.list.workers sweep.list.board sweep.list.waiting) sweep.list.board).2, report⟩ =
        some ⟨sweeps.flatMap Sweep.executions, stalled⟩ := hcourse
    rw [← hafter] at hrest
    refine ⟨sweep :: sweeps, stalled, .next hband (hsettled.trans hsettle) hrest, ?_⟩
    rw [course?, if_neg hband]
    simp only [hsettle, hlater, List.flatMap_cons, hexecutions]
    rfl

theorem Sweeps.workers_eq (h : Sweeps flow list sweeps result) :
    ∀ sweep ∈ sweeps, sweep.list.workers = list.workers := by
  induction h with
  | stop _ => simp
  | fail _ _ => simp
  | next _ _ _ ih =>
    intro other hother
    rcases List.mem_cons.1 hother with rfl | hlater
    · rfl
    · exact ih other hlater

/-- A run leads from its first board to its last by the relation that every task respects. -/
theorem Sweeps.later {later : Board Ctx World → Board Ctx World → Prop} (hlater : flow.IsProgress later)
    (h : Sweeps flow list sweeps result) : later list.board result.2.board := by
  induction h with
  | stop _ => exact hlater.refl _
  | @fail sweep _ _ _ _ _ => exact sweep.inAnyOrder.later hlater
  | @next sweep _ _ _ _ _ _ _ ih => exact hlater.trans (sweep.inAnyOrder.later hlater) ih

/-- One worker leaves a run no choice. -/
theorem Sweeps.run?_eq (h : Sweeps flow list sweeps result) (hworkers : list.workers ≤ 1) :
    list.run? flow = some result := by
  induction h with
  | stop hidle => exact run?_of_band_eq_nil hidle
  | @fail sweep error waiting report hband hsettle =>
    obtain ⟨houtcomes, hafter⟩ :=
      sweep.inAnyOrder.eq_executeAll (Workflow.length_band_le_one hworkers _ _)
    rw [Sweep.settled, houtcomes] at hsettle
    rw [run?_of_settle_some hband hsettle, hafter]
  | @next sweep waiting report _ _ hband hsettle _ ih =>
    obtain ⟨houtcomes, hafter⟩ :=
      sweep.inAnyOrder.eq_executeAll (Workflow.length_band_le_one hworkers _ _)
    rw [Sweep.settled, houtcomes] at hsettle
    rw [run?_of_settle_none hband hsettle, ← hafter]
    exact ih hworkers

end TaskList

end CodeAtlas.Tasks
