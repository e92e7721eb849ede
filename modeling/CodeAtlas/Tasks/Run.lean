/-
# Running tasks

Waiting tasks stand in order of priority, equal priorities in order of insertion.  A run takes the
first task whose inputs are bound (with several workers, all such tasks of its priority), runs it
and inserts what it spawned, until no inputs of a waiting task are bound.  Tasks that are left then
have stalled.  The first task that fails ends the run; what waits stays waiting.  A run of tasks that
spawn what they like may go on for ever; a run of tasks that are ranked by numbers ends.
-/
import CodeAtlas.Tasks.Basic
import CodeAtlas.Tasks.Descent

namespace CodeAtlas.Tasks

/-- Why a run ends early. -/
inductive RunError where
  /-- An input of a task was unbound by a task of the same band. -/
  | missingInput (task key : String)
  | taskFailed (task message : String)
deriving DecidableEq, Repr

/-- The message of a run that ended early. -/
def RunError.message : RunError → String
  | missingInput task key => "task '" ++ task ++ "' started without input " ++ key
  | taskFailed task message => "task '" ++ task ++ "' failed: " ++ message

/-- What a run did. -/
structure Report where
  executed : Nat
  spawned : Nat
  /-- The tasks that finished without binding every output they promised. -/
  incomplete : List String
  /-- The tasks whose inputs were never bound. -/
  stalled : List String
deriving DecidableEq, Repr

/-- Nothing has been done. -/
def Report.empty : Report :=
  ⟨0, 0, [], []⟩

/-- Whether every task finished and kept its promises. -/
def Report.isClean (report : Report) : Bool :=
  report.incomplete.isEmpty && report.stalled.isEmpty

/-- Inserts a task behind all tasks of its priority or a higher one. -/
def insertPending {Task : Type} (pending : Pending Task) : List (Pending Task) → List (Pending Task)
  | [] => [pending]
  | first :: rest =>
    if first.priority < pending.priority then pending :: first :: rest
    else first :: insertPending pending rest

/-- How a task ended: its name, whether it bound what it promised, and what it spawned. -/
structure Outcome (Task : Type) where
  name : String
  complete : Bool
  spawned : List (Pending Task)

namespace Workflow

variable {Task Key Ctx World Rank : Type} [LT Rank] (flow : Workflow Task Key Ctx World Rank)

/-- Whether all inputs of a task are bound. -/
def isEligible (board : Board Ctx World) (pending : Pending Task) : Bool :=
  Job.allBound flow.has board.groups[pending.group]? (flow.job pending.task).inputs

/-- The tasks that run next. -/
def band (workers : Nat) (board : Board Ctx World) (waiting : List (Pending Task)) :
    List (Pending Task) :=
  match waiting.find? (flow.isEligible board) with
  | none => []
  | some first =>
    if workers ≤ 1 then [first]
    else waiting.filter (fun p => p.priority == first.priority && flow.isEligible board p)

/-- The tasks that do not run next. -/
def behindBand (workers : Nat) (board : Board Ctx World) (waiting : List (Pending Task)) :
    List (Pending Task) :=
  match waiting.find? (flow.isEligible board) with
  | none => waiting
  | some first =>
    if workers ≤ 1 then waiting.eraseP (flow.isEligible board)
    else waiting.filter (fun p => !(p.priority == first.priority && flow.isEligible board p))

/-- Runs the body of a task. -/
def runBody (pending : Pending Task) (board : Board Ctx World) :
    Except String PUnit × Effect flow.rank (flow.rank pending.task) Ctx World :=
  (((flow.job pending.task).body pending.group).run.run ⟨board, []⟩)

/-- Runs a task. -/
def execute (pending : Pending Task) (board : Board Ctx World) :
    Except RunError (Outcome Task) × Board Ctx World :=
  let job := flow.job pending.task
  let isBound := fun (board : Board Ctx World) key =>
    (board.groups[pending.group]?).any (fun context => flow.has context key)
  match job.inputs.find? (fun key => !isBound board key) with
  | some key => (.error (.missingInput job.name (flow.keyText key)), board)
  | none =>
    let (result, effect) := flow.runBody pending board
    match result with
    | .error message => (.error (.taskFailed job.name message), effect.board)
    | .ok _ =>
      (.ok ⟨job.name, job.outputs.all (isBound effect.board), effect.spawned.map Subtype.val⟩,
        effect.board)

/-- Runs the tasks of a band, in order.  Each runs whatever became of those before it. -/
def executeAll : List (Pending Task) → Board Ctx World →
    List (Except RunError (Outcome Task)) × Board Ctx World
  | [], board => ([], board)
  | pending :: rest, board =>
    let (outcome, board) := flow.execute pending board
    let (outcomes, board) := executeAll rest board
    (outcome :: outcomes, board)

end Workflow

/-- Enters a task that finished into a report. -/
def Report.add {Task : Type} (report : Report) (outcome : Outcome Task) : Report :=
  { report with
    executed := report.executed + 1
    spawned := report.spawned + outcome.spawned.length
    incomplete :=
      if outcome.complete then report.incomplete else report.incomplete ++ [outcome.name] }

/-- Inserts tasks one after the other. -/
def insertAll {Task : Type} (spawned waiting : List (Pending Task)) : List (Pending Task) :=
  spawned.foldl (fun waiting pending => insertPending pending waiting) waiting

/-- Takes the outcomes of a band into account, up to the first failure. -/
def settle {Task : Type} : List (Except RunError (Outcome Task)) → List (Pending Task) → Report →
    Option RunError × List (Pending Task) × Report
  | [], waiting, report => (none, waiting, report)
  | .error error :: _, waiting, report => (some error, waiting, report)
  | .ok outcome :: rest, waiting, report =>
    settle rest (insertAll outcome.spawned waiting) (report.add outcome)

/-! ## Every run ends -/

section Termination

variable {Task Key Ctx World : Type} (flow : Workflow Task Key Ctx World)

/-- The number of tasks of a rank. -/
def rankCount (rank : Task → Nat) (waiting : List (Pending Task)) (r : Nat) : Nat :=
  waiting.countP (fun p => rank p.task == r)

theorem rankCount_eq_zero {rank : Task → Nat} {waiting : List (Pending Task)} {r : Nat}
    (h : ∀ p ∈ waiting, rank p.task < r) : rankCount rank waiting r = 0 := by
  simp only [rankCount, List.countP_eq_zero, beq_iff_eq]
  exact fun p hp => Nat.ne_of_lt (h p hp)

theorem rankCount_append (rank : Task → Nat) (a b : List (Pending Task)) (r : Nat) :
    rankCount rank (a ++ b) r = rankCount rank a r + rankCount rank b r := by
  simp [rankCount]

theorem rankCount_insertPending (rank : Task → Nat) (pending : Pending Task)
    (waiting : List (Pending Task)) (r : Nat) :
    rankCount rank (insertPending pending waiting) r = rankCount rank (pending :: waiting) r := by
  induction waiting with
  | nil => rfl
  | cons first rest ih =>
    simp only [insertPending]
    split
    · rfl
    · simp only [rankCount, List.countP_cons] at ih ⊢
      omega

theorem rankCount_insertAll (rank : Task → Nat) (spawned waiting : List (Pending Task)) (r : Nat) :
    rankCount rank (insertAll spawned waiting) r =
      rankCount rank spawned r + rankCount rank waiting r := by
  induction spawned generalizing waiting with
  | nil => simp [insertAll, rankCount]
  | cons pending rest ih =>
    have h : insertAll (pending :: rest) waiting = insertAll rest (insertPending pending waiting) := rfl
    rw [h, ih, rankCount_insertPending]
    simp only [rankCount, List.countP_cons]
    omega

/-- The profile of the waiting tasks. -/
def profile (rank : Task → Nat) (waiting : List (Pending Task)) : Profile where
  count := rankCount rank waiting
  bounded := by
    induction waiting with
    | nil => exact ⟨0, fun _ _ => rfl⟩
    | cons first rest ih =>
      obtain ⟨n, hn⟩ := ih
      refine ⟨max n (rank first.task + 1), fun r hr => ?_⟩
      have hrest := hn r (by omega)
      simp only [rankCount, List.countP_cons] at hrest ⊢
      simp [hrest, show rank first.task ≠ r by omega]

/-- Some task of a band has the greatest rank. -/
theorem exists_greatest (rank : Task → Nat) {band : List (Pending Task)} (h : band ≠ []) :
    ∃ top ∈ band, ∀ p ∈ band, rank p.task ≤ rank top.task := by
  induction band with
  | nil => exact absurd rfl h
  | cons first rest ih =>
    by_cases hr : rest = []
    · subst hr
      exact ⟨first, by simp, by simp⟩
    · obtain ⟨top, hmem, htop⟩ := ih hr
      by_cases hle : rank top.task ≤ rank first.task
      · refine ⟨first, by simp, fun p hp => ?_⟩
        rcases List.mem_cons.1 hp with rfl | hp
        · exact Nat.le_refl _
        · exact Nat.le_trans (htop p hp) hle
      · refine ⟨top, by simp [hmem], fun p hp => ?_⟩
        rcases List.mem_cons.1 hp with rfl | hp
        · omega
        · exact htop p hp

/-- Everything a task spawns has a lower rank. -/
theorem Workflow.rank_spawned_lt {pending : Pending Task} {board : Board Ctx World}
    {outcome : Outcome Task} (h : (flow.execute pending board).1 = .ok outcome) :
    ∀ p ∈ outcome.spawned, flow.rank p.task < flow.rank pending.task := by
  simp only [Workflow.execute] at h
  split at h
  · simp at h
  · split at h
    · simp at h
    · simp only [Except.ok.injEq] at h
      subst h
      intro p hp
      obtain ⟨below, _, rfl⟩ := List.mem_map.1 hp
      exact below.2

/-- What a band spawns counts for nothing at or above a rank that bounds the band. -/
theorem Workflow.rankCount_settle {r : Nat} {rest waiting : List (Pending Task)}
    {board : Board Ctx World} {before after : Report} {band : List (Pending Task)}
    (hband : ∀ p ∈ band, flow.rank p.task ≤ r)
    (h : settle (flow.executeAll band board).1 rest before = (none, waiting, after)) :
    ∀ s, r ≤ s → rankCount flow.rank waiting s = rankCount flow.rank rest s := by
  induction band generalizing rest board before with
  | nil =>
    simp only [Workflow.executeAll, settle, Prod.mk.injEq] at h
    intro s _
    rw [h.2.1]
  | cons first others ih =>
    intro s hs
    simp only [Workflow.executeAll] at h
    cases hfirst : (flow.execute first board).1 with
    | error e => simp [hfirst, settle] at h
    | ok outcome =>
      rw [hfirst] at h
      simp only [settle] at h
      rw [ih (fun p hp => hband p (by simp [hp])) h s hs, rankCount_insertAll,
        rankCount_eq_zero, Nat.zero_add]
      intro p hp
      have hlow := flow.rank_spawned_lt hfirst p hp
      have hle := hband first (by simp)
      omega

/-- Taking out the first task that satisfies `p` takes one off the count of its rank. -/
theorem rankCount_eraseP (rank : Task → Nat) (p : Pending Task → Bool)
    {waiting : List (Pending Task)} {first : Pending Task} (h : waiting.find? p = some first)
    (r : Nat) :
    rankCount rank [first] r + rankCount rank (waiting.eraseP p) r = rankCount rank waiting r := by
  induction waiting with
  | nil => simp at h
  | cons head rest ih =>
    cases hp : p head with
    | true =>
      simp only [List.find?_cons, hp, Option.some.injEq] at h
      subst h
      rw [List.eraseP_cons_of_pos hp, ← rankCount_append]
      rfl
    | false =>
      simp only [List.find?_cons, hp] at h
      rw [List.eraseP_cons_of_neg (by simp [hp])]
      have := ih h
      simp only [rankCount, List.countP_cons] at this ⊢
      omega

/-- Every task either satisfies `p` or does not. -/
theorem rankCount_filter (rank : Task → Nat) (p : Pending Task → Bool)
    (waiting : List (Pending Task)) (r : Nat) :
    rankCount rank (waiting.filter p) r + rankCount rank (waiting.filter (fun t => !p t)) r =
      rankCount rank waiting r := by
  induction waiting with
  | nil => rfl
  | cons head rest ih =>
    simp only [rankCount, List.filter_cons] at ih ⊢
    cases p head <;> simp only [Bool.not_true, Bool.not_false, if_true, Bool.false_eq_true,
      if_false, List.countP_cons] <;> omega

/-- The band and what stands behind it make up the waiting tasks. -/
theorem Workflow.rankCount_band (workers : Nat) (board : Board Ctx World)
    (waiting : List (Pending Task)) (r : Nat) :
    rankCount flow.rank (flow.band workers board waiting) r +
      rankCount flow.rank (flow.behindBand workers board waiting) r =
    rankCount flow.rank waiting r := by
  simp only [Workflow.band, Workflow.behindBand]
  split
  · simp [rankCount]
  · rename_i first hfirst
    split
    · exact rankCount_eraseP flow.rank _ hfirst r
    · exact rankCount_filter flow.rank _ waiting r

/-- A band that ran without failure leaves less to do. -/
theorem Workflow.profile_settle {workers : Nat} {board : Board Ctx World}
    {start waiting : List (Pending Task)} {before after : Report}
    (hne : flow.band workers board start ≠ [])
    (h : settle (flow.executeAll (flow.band workers board start) board).1
      (flow.behindBand workers board start) before = (none, waiting, after)) :
    Profile.Descends (rankCount flow.rank waiting) (rankCount flow.rank start) := by
  obtain ⟨top, hmem, htop⟩ := exists_greatest flow.rank hne
  have hsettle := flow.rankCount_settle htop h
  have hsplit := flow.rankCount_band workers board start
  refine ⟨flow.rank top.task, ?_, fun s hs => ?_⟩
  · have hpos : 0 < rankCount flow.rank (flow.band workers board start) (flow.rank top.task) := by
      simp only [rankCount, List.countP_pos_iff, beq_iff_eq]
      exact ⟨top, hmem, rfl⟩
    have := hsplit (flow.rank top.task)
    have := hsettle _ (Nat.le_refl _)
    omega
  · have hzero : rankCount flow.rank (flow.band workers board start) s = 0 :=
      rankCount_eq_zero (fun p hp => Nat.lt_of_le_of_lt (htop p hp) hs)
    have := hsplit s
    have := hsettle s (Nat.le_of_lt hs)
    omega

end Termination

/-! ## The task list -/

/-- Waiting tasks, the board they work on and the report so far. -/
structure TaskList (Task Ctx World : Type) where
  workers : Nat
  waiting : List (Pending Task)
  board : Board Ctx World
  report : Report

namespace TaskList

variable {Task Key Ctx World : Type}

/-- A list without tasks or groups. -/
def empty (workers : Nat) (world : World) : TaskList Task Ctx World where
  workers := workers
  waiting := []
  board := ⟨#[], world⟩
  report := .empty

/-- Adds a task to a group. -/
def push (list : TaskList Task Ctx World) (priority : Int) (task : Task) (group : Nat) :
    TaskList Task Ctx World :=
  { list with waiting := insertPending ⟨priority, task, group⟩ list.waiting }

/-- Opens a group. -/
def newGroup (list : TaskList Task Ctx World) (context : Ctx) : Nat × TaskList Task Ctx World :=
  (list.board.groups.size, { list with board.groups := list.board.groups.push context })

section Unranked

variable {Rank : Type} [LT Rank] (flow : Workflow Task Key Ctx World Rank)

/-- Runs until the inputs of no waiting task are bound, or a task fails.  Nothing comes of it if
there is always another task to run. -/
def run? (list : TaskList Task Ctx World) :
    Option (Except RunError Report × TaskList Task Ctx World) :=
  let band := flow.band list.workers list.board list.waiting
  if band = [] then
    let names := list.waiting.map (fun pending => (flow.job pending.task).name)
    some (.ok { list.report with stalled := list.report.stalled ++ names },
      { list with waiting := [], report := .empty })
  else
    let executed := flow.executeAll band list.board
    let behind := flow.behindBand list.workers list.board list.waiting
    match settle executed.1 behind list.report with
    | (some error, waiting, report) =>
      some (.error error, ⟨list.workers, waiting, executed.2, report⟩)
    | (none, waiting, report) => by
      -- a call built by `apply` leaves no source position in the term
      apply run?
      exact ⟨list.workers, waiting, executed.2, report⟩
partial_fixpoint

end Unranked

/-- Runs tasks ranked by numbers until the inputs of none that waits are bound, or one fails. -/
def run (flow : Workflow Task Key Ctx World) (list : TaskList Task Ctx World) :
    Except RunError Report × TaskList Task Ctx World :=
  let band := flow.band list.workers list.board list.waiting
  if hne : band = [] then
    let names := list.waiting.map (fun pending => (flow.job pending.task).name)
    (.ok { list.report with stalled := list.report.stalled ++ names },
      { list with waiting := [], report := .empty })
  else
    let executed := flow.executeAll band list.board
    let behind := flow.behindBand list.workers list.board list.waiting
    match h : settle executed.1 behind list.report with
    | (some error, waiting, report) =>
      (.error error, ⟨list.workers, waiting, executed.2, report⟩)
    | (none, waiting, report) =>
      have : Profile.Descends (rankCount flow.rank waiting) (rankCount flow.rank list.waiting) :=
        flow.profile_settle hne h
      run flow ⟨list.workers, waiting, executed.2, report⟩
termination_by profile flow.rank list.waiting

end TaskList

end CodeAtlas.Tasks
