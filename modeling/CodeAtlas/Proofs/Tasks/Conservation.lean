/-
# No task is lost and none runs twice

The course of a run records the tasks that finished, in the order in which they were executed, and the
tasks that were left when nothing could run any more.  A run that ends well, whatever the order in
which each of its bands was executed, takes one waiting task at a time and puts what it spawned in its
place, so the tasks that finished and the tasks that stalled are together the tasks that were pushed and
the tasks that were spawned.  The report counts and names them, band after band.
-/
import CodeAtlas.Proofs.Tasks.Sweeps
import CodeAtlas.Text.Decimal

namespace CodeAtlas.Tasks

variable {Task Key Ctx World Rank : Type} [LT Rank] {flow : Workflow Task Key Ctx World Rank}

/-! ## One task after the other -/

/-- The tasks that the tasks of a list spawned, in order. -/
def spawnedBy (finished : List (Execution Task Ctx World)) : List (Pending Task) :=
  finished.flatMap (fun execution => execution.outcome.spawned)

namespace Workflow

/-- The tasks of `finished` run one after the other: each is one of those that wait when its turn
comes, and what it spawns waits in its place.  The rest is what is left on the last board. -/
inductive RunsThrough (flow : Workflow Task Key Ctx World Rank) :
    List (Pending Task) → Board Ctx World → Course Task Ctx World → Board Ctx World → Prop
  | stop {waiting left : List (Pending Task)} {board : Board Ctx World} (hleft : waiting.Perm left) :
      RunsThrough flow waiting board ⟨[], left⟩ board
  | step {waiting others left : List (Pending Task)} {execution : Execution Task Ctx World}
      {finished : List (Execution Task Ctx World)} {last : Board Ctx World}
      (htaken : waiting.Perm (execution.pending :: others))
      (hruns : flow.execute execution.pending execution.before =
        (.ok execution.outcome, execution.after))
      (hrest : RunsThrough flow (execution.outcome.spawned ++ others) execution.after
        ⟨finished, left⟩ last) :
      RunsThrough flow waiting execution.before ⟨execution :: finished, left⟩ last

end Workflow

namespace Workflow.RunsThrough

variable {waiting others : List (Pending Task)} {board last : Board Ctx World}
  {course : Course Task Ctx World}

/-- The order in which tasks wait does not matter. -/
theorem perm (h : flow.RunsThrough waiting board course last) (hperm : others.Perm waiting) :
    flow.RunsThrough others board course last := by
  cases h with
  | stop hleft => exact .stop (hperm.trans hleft)
  | step htaken hruns hrest => exact .step (hperm.trans htaken) hruns hrest

end Workflow.RunsThrough

/-! ## One band -/

/-- What a report says after the tasks of a list finished. -/
def Report.afterAll (report : Report) (finished : List (Execution Task Ctx World)) : Report :=
  finished.foldl (fun report execution => report.add execution.outcome) report

/-- A band that does not fail: what it spawned waits with the tasks behind it, and the report enters its
tasks in the order in which they come back. -/
theorem settle_executions {attempts : List (Attempt Task Ctx World)}
    {behind waiting : List (Pending Task)} {before after : Report}
    (h : settle (attempts.map Attempt.outcome) behind before = (none, waiting, after)) :
    waiting.Perm (spawnedBy (attempts.filterMap Attempt.execution?) ++ behind) ∧
      after = before.afterAll (attempts.filterMap Attempt.execution?) := by
  induction attempts generalizing behind before with
  | nil =>
    simp only [List.map_nil, settle, Prod.mk.injEq, true_and] at h
    obtain ⟨rfl, rfl⟩ := h
    exact ⟨List.Perm.refl _, rfl⟩
  | cons first rest ih =>
    rcases first with ⟨pending, middle, after', error | outcome⟩
    · simp [settle] at h
    · obtain ⟨hwaiting, hreport⟩ := ih h
      rw [List.filterMap_cons]
      refine ⟨hwaiting.trans ?_, hreport⟩
      simp only [spawnedBy, Attempt.execution?, List.flatMap_cons, List.append_assoc]
      exact (append_insertAll_perm outcome.spawned _ behind).symm

namespace TaskList

/-- The tasks of the list finish band after band.  The tasks of one band finish in some order. -/
def InBands (sweeps : List (Sweep flow)) (finished : List (Execution Task Ctx World)) : Prop :=
  ∃ rounds : List (List (Execution Task Ctx World)), finished = rounds.flatten ∧
    List.Forall₂ List.Perm rounds (sweeps.map Sweep.executions)

namespace InBands

variable {sweeps : List (Sweep flow)} {finished : List (Execution Task Ctx World)}

theorem nil : InBands ([] : List (Sweep flow)) [] :=
  ⟨[], rfl, .nil⟩

theorem cons {sweep : Sweep flow} {first : List (Execution Task Ctx World)}
    (hfirst : first.Perm sweep.executions) (h : InBands sweeps finished) :
    InBands (sweep :: sweeps) (first ++ finished) := by
  obtain ⟨rounds, rfl, hrounds⟩ := h
  exact ⟨first :: rounds, rfl, .cons hfirst hrounds⟩

theorem perm (h : InBands sweeps finished) : finished.Perm (sweeps.flatMap Sweep.executions) := by
  obtain ⟨rounds, rfl, hrounds⟩ := h
  rw [List.flatMap_def]
  exact List.Perm.flatten_congr hrounds

end InBands

instance : LT AnyRank :=
  ⟨fun _ _ => True⟩

end TaskList

end CodeAtlas.Tasks
