/-
# The rounds of a run

A run goes in rounds.  Each takes a band out of the waiting tasks, runs it and inserts what it
spawned, and the run ends at the first list with which no round begins or where the band fails.  So
what a run returns, and the course it takes, is settled by the rounds up to that list.
-/
import CodeAtlas.Proofs.Tasks.Conservation

namespace CodeAtlas.Tasks

variable {Task Key Ctx World Rank : Type} [LT Rank] {flow : Workflow Task Key Ctx World Rank}

namespace TaskList

/-- Rounds that do not fail lead from a list to another; the tasks of their bands finish in
order. -/
inductive Rounds (flow : Workflow Task Key Ctx World Rank) :
    TaskList Task Ctx World → List (Execution Task Ctx World) → TaskList Task Ctx World → Prop
  | refl {list : TaskList Task Ctx World} : Rounds flow list [] list
  | next {list final : TaskList Task Ctx World} {waiting : List (Pending Task)} {report : Report}
      {finished : List (Execution Task Ctx World)}
      (hband : flow.band list.workers list.board list.waiting ≠ [])
      (hsettle : settle
        (flow.executeAll (flow.band list.workers list.board list.waiting) list.board).1
        (flow.behindBand list.workers list.board list.waiting) list.report = (none, waiting, report))
      (hrest : Rounds flow ⟨list.workers, waiting,
        (flow.executeAll (flow.band list.workers list.board list.waiting) list.board).2, report⟩
        finished final) :
      Rounds flow list
        (flow.executions (flow.band list.workers list.board list.waiting) list.board ++ finished)
        final

/-- The next band fails. -/
def FailsWith (flow : Workflow Task Key Ctx World Rank) (list : TaskList Task Ctx World)
    (error : RunError) : Prop :=
  flow.band list.workers list.board list.waiting ≠ [] ∧
    (settle (flow.executeAll (flow.band list.workers list.board list.waiting) list.board).1
      (flow.behindBand list.workers list.board list.waiting) list.report).1 = some error

/-- A run ends at the list. -/
def IsLast (flow : Workflow Task Key Ctx World Rank) (list : TaskList Task Ctx World) : Prop :=
  list.IsIdle flow ∨ ∃ error, list.FailsWith flow error

namespace Rounds

variable {list middle final : TaskList Task Ctx World}
  {finished later : List (Execution Task Ctx World)}

theorem workers_eq (h : Rounds flow list finished final) : final.workers = list.workers := by
  induction h with
  | refl => rfl
  | next _ _ _ ih => exact ih

theorem trans (h : Rounds flow list finished middle) (hlater : Rounds flow middle later final) :
    Rounds flow list (finished ++ later) final := by
  induction h with
  | refl => exact hlater
  | next hband hsettle _ ih =>
    rw [List.append_assoc]
    exact .next hband hsettle (ih hlater)

/-- One round. -/
theorem single {waiting : List (Pending Task)} {report : Report}
    (hband : flow.band list.workers list.board list.waiting ≠ [])
    (hsettle : settle
      (flow.executeAll (flow.band list.workers list.board list.waiting) list.board).1
      (flow.behindBand list.workers list.board list.waiting) list.report = (none, waiting, report)) :
    Rounds flow list (flow.executions (flow.band list.workers list.board list.waiting) list.board)
      ⟨list.workers, waiting,
        (flow.executeAll (flow.band list.workers list.board list.waiting) list.board).2, report⟩ := by
  have hnext := Rounds.next hband hsettle .refl
  rwa [List.append_nil] at hnext

/-- A run that ends at the list `final` comes through every list that rounds lead to. -/
theorem exists_rest (h : Rounds flow list finished final) (hlast : final.IsLast flow)
    (hfirst : Rounds flow list later middle) :
    ∃ rest, finished = later ++ rest ∧ Rounds flow middle rest final := by
  induction hfirst generalizing finished with
  | refl => exact ⟨finished, rfl, h⟩
  | next hband hsettle _ ih =>
    cases h with
    | refl =>
      rcases hlast with hidle | ⟨error, _, herror⟩
      · exact absurd hidle hband
      · simp [hsettle] at herror
    | next _ hsettle' hrest =>
      rw [hsettle] at hsettle'
      simp only [Prod.mk.injEq, true_and] at hsettle'
      obtain ⟨rfl, rfl⟩ := hsettle'
      obtain ⟨rest, rfl, hmiddle⟩ := ih hrest
      exact ⟨rest, (List.append_assoc _ _ _).symm, hmiddle⟩

/-- A run returns what the run from any of its lists returns. -/
theorem run?_eq (h : Rounds flow list finished final) : list.run? flow = final.run? flow := by
  induction h with
  | refl => rfl
  | next hband hsettle _ ih => rw [run?_of_settle_none hband hsettle, ih]

/-- The course of a run goes on from any of its lists. -/
theorem course?_eq (h : Rounds flow list finished final) :
    list.course? flow = (final.course? flow).map
      (fun course => ⟨finished ++ course.finished, course.stalled⟩) := by
  induction h with
  | refl => simp
  | next hband hsettle _ ih =>
    rw [course?, if_neg hband]
    simp only [hsettle, ih, Option.bind_eq_bind, Option.pure_def, Option.bind_map,
      List.append_assoc]
    rw [Option.map_eq_bind]
    rfl

end Rounds

variable {list final : TaskList Task Ctx World} {error : RunError}

theorem IsIdle.run?_eq (h : list.IsIdle flow) :
    list.run? flow = some (.ok { list.report with
      stalled := list.report.stalled ++ list.waiting.map flow.nameOf },
      { list with waiting := [], report := .empty }) :=
  run?_of_band_eq_nil h

theorem IsIdle.course?_eq (h : list.IsIdle flow) :
    list.course? flow = some ⟨[], list.waiting⟩ := by
  rw [IsIdle] at h
  rw [course?, if_pos h]

theorem FailsWith.exists_run?_eq (h : list.FailsWith flow error) :
    ∃ final, list.run? flow = some (.error error, final) := by
  obtain ⟨hband, hfails⟩ := h
  rcases hsettle : settle
      (flow.executeAll (flow.band list.workers list.board list.waiting) list.board).1
      (flow.behindBand list.workers list.board list.waiting) list.report with
    ⟨outcome, waiting, report⟩
  rw [hsettle] at hfails
  subst hfails
  exact ⟨_, run?_of_settle_some hband hsettle⟩

/-- A run that returns something goes in rounds up to a last list. -/
theorem exists_rounds {result : Except RunError Report × TaskList Task Ctx World}
    (h : list.run? flow = some result) :
    ∃ finished final, Rounds flow list finished final ∧ final.IsLast flow := by
  refine run?_induction ?stop ?fail ?next h
  case stop =>
    intro list hband
    exact ⟨[], list, .refl, .inl hband⟩
  case fail =>
    intro list error waiting report hband hsettle
    exact ⟨[], list, .refl, .inr ⟨error, hband, by rw [hsettle]⟩⟩
  case next =>
    intro list waiting report result hband hsettle ⟨finished, final, hrounds, hlast⟩
    exact ⟨_, final, .next hband hsettle hrounds, hlast⟩

end TaskList

/-! ## One worker -/

namespace Workflow

variable {workers : Nat} {board : Board Ctx World} {waiting : List (Pending Task)}
  {taken : Pending Task}

/-- One worker takes the first task that has its inputs. -/
theorem band_of_find? (hworkers : workers ≤ 1)
    (h : waiting.find? (flow.isEligible board) = some taken) :
    flow.band workers board waiting = [taken] := by
  simp only [band, h, hworkers, if_true]

theorem behindBand_of_find? (hworkers : workers ≤ 1)
    (h : waiting.find? (flow.isEligible board) = some taken) :
    flow.behindBand workers board waiting = waiting.eraseP (flow.isEligible board) := by
  simp only [behindBand, h, hworkers, if_true]

/-- No round begins exactly if no waiting task has its inputs, whatever the number of workers. -/
theorem band_eq_nil_iff :
    flow.band workers board waiting = [] ↔ waiting.find? (flow.isEligible board) = none := by
  constructor
  · intro h
    exact List.find?_eq_none.2 (not_isEligible_of_band_eq_nil h)
  · intro h
    simp only [band, h]

end Workflow

namespace TaskList

variable {workers : Nat} {board after : Board Ctx World} {waiting : List (Pending Task)}
  {report : Report} {taken : Pending Task} {outcome : Outcome Task} {error : RunError}

/-- A round of one worker. -/
theorem rounds_of_execute_ok (hworkers : workers ≤ 1)
    (hfind : waiting.find? (flow.isEligible board) = some taken)
    (hexecute : flow.execute taken board = (.ok outcome, after)) :
    Rounds flow ⟨workers, waiting, board, report⟩ [⟨taken, board, after, outcome⟩]
      ⟨workers, insertAll outcome.spawned (waiting.eraseP (flow.isEligible board)), after,
        report.add outcome⟩ := by
  have hband := flow.band_of_find? hworkers hfind
  have hbehind := flow.behindBand_of_find? hworkers hfind
  have hrounds := @Rounds.single _ _ _ _ _ _ flow ⟨workers, waiting, board, report⟩
    (insertAll outcome.spawned (waiting.eraseP (flow.isEligible board))) (report.add outcome)
    (by simp [hband]) (by simp [hband, hbehind, Workflow.executeAll, hexecute, settle])
  simpa [hband, Workflow.executions, Workflow.executeAll, hexecute] using hrounds

/-- A round of one worker that fails. -/
theorem failsWith_of_execute_error (hworkers : workers ≤ 1)
    (hfind : waiting.find? (flow.isEligible board) = some taken)
    (hexecute : flow.execute taken board = (.error error, after)) :
    FailsWith flow ⟨workers, waiting, board, report⟩ error := by
  have hband := flow.band_of_find? hworkers hfind
  refine ⟨by simp [hband], ?_⟩
  simp [hband, Workflow.executeAll, hexecute, settle]

end TaskList

end CodeAtlas.Tasks
