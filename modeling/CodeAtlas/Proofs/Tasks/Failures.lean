/-
# How a run fails

How the tasks of a band ended is looked at in the order of the band, in whatever order they were
executed.  So a run that fails tells of the first task of the band that failed, whichever was executed
first, and begins no further band.

A task is taken when its inputs are bound, and they are looked up again when it is executed.  In
between only tasks of its band have been executed, and with one worker there are none.  So the second
look finds an input missing only if a task of the band unbound it.
-/
import CodeAtlas.Proofs.Tasks.Rounds

namespace CodeAtlas.Tasks

variable {Task Key Ctx World Rank : Type} [LT Rank] {flow : Workflow Task Key Ctx World Rank}

/-! ## A band in any order -/

/-- The task unbound no key, in whatever group. -/
def Attempt.KeepsKeys (flow : Workflow Task Key Ctx World Rank) (attempt : Attempt Task Ctx World) :
    Prop :=
  ∀ group key, flow.isBound attempt.before group key = true →
    flow.isBound attempt.after group key = true

namespace Workflow

variable {band : List (Pending Task)} {board after : Board Ctx World}
  {attempts : List (Attempt Task Ctx World)} {pending : Pending Task}

/-- A task that was taken with its inputs bound fails by its body only. -/
theorem exists_message_of_execute (h : flow.isEligible board pending) {error : RunError}
    (herror : (flow.execute pending board).1 = .error error) :
    ∃ message, error = .taskFailed (flow.nameOf pending) message := by
  rcases hbody : flow.runBody pending board with ⟨message | result, effect⟩
  · rw [execute_of_runBody_error h hbody] at herror
    exact ⟨message, (Except.error.inj herror).symm⟩
  · obtain ⟨complete, hexecute⟩ := execute_of_runBody_ok h hbody
    rw [hexecute] at herror
    cases herror

/-- Inputs that were bound are still bound after an attempt that unbinds no key. -/
theorem isEligible_of_keepsKeys {attempt : Attempt Task Ctx World} (hkeeps : attempt.KeepsKeys flow)
    (h : flow.isEligible attempt.before pending) : flow.isEligible attempt.after pending := by
  unfold isEligible Job.allBound at h ⊢
  rw [List.all_eq_true] at h ⊢
  intro key hkey
  exact hkeeps pending.group key (h key hkey)

namespace RunsInAnyOrder

/-- Where no task unbinds a key, tasks that had their inputs when they were taken have them when they
are executed. -/
theorem isEligible (h : flow.RunsInAnyOrder band board attempts after)
    (hband : ∀ pending ∈ band, flow.isEligible board pending)
    (hkeeps : ∀ attempt ∈ attempts, attempt.KeepsKeys flow) :
    ∀ attempt ∈ attempts, flow.isEligible attempt.before attempt.pending := by
  induction h with
  | nil => simp
  | @pick front back pending board middle after outcome fronts backs _ _ _ ih =>
    let first : Attempt Task Ctx World := ⟨pending, board, middle, outcome⟩
    have hfirst : first.KeepsKeys flow := hkeeps first (List.mem_append_right _ List.mem_cons_self)
    -- the others still have their inputs on the board that the first one left
    have hothers : ∀ other ∈ front ++ back, flow.isEligible middle other := by
      intro other hother
      apply isEligible_of_keepsKeys hfirst
      exact hband other (List.perm_middle.mem_iff.2 (List.mem_cons_of_mem _ hother))
    intro attempt hattempt
    rcases List.mem_cons.1 (List.perm_middle.mem_iff.1 hattempt) with rfl | hrest
    · exact hband pending (List.mem_append_right _ List.mem_cons_self)
    · refine ih hothers (fun other hother => ?_) attempt hrest
      exact hkeeps other (List.perm_middle.mem_iff.2 (List.mem_cons_of_mem _ hother))

theorem exists_before_eq (h : flow.RunsInAnyOrder band board attempts after) (hband : band ≠ []) :
    ∃ attempt ∈ attempts, attempt.before = board := by
  cases h with
  | nil => exact absurd rfl hband
  | pick _ _ _ => exact ⟨_, List.mem_append_right _ List.mem_cons_self, rfl⟩

/-- A task that is alone is executed on the board that it was taken from. -/
theorem before_eq_of_singleton (h : flow.RunsInAnyOrder [pending] board attempts after) :
    ∀ attempt ∈ attempts, attempt.before = board := by
  have hlength : attempts.length = 1 := by
    rw [← List.length_map Attempt.pending, h.map_pending]
    rfl
  obtain ⟨only, rfl⟩ := List.length_eq_one_iff.1 hlength
  obtain ⟨first, hfirst, hbefore⟩ := h.exists_before_eq (List.cons_ne_nil _ _)
  intro attempt hattempt
  rw [List.mem_singleton.1 hattempt, ← List.mem_singleton.1 hfirst, hbefore]

end RunsInAnyOrder

end Workflow

/-- A band fails by its first task that failed. -/
theorem exists_failed_of_settle {attempts : List (Attempt Task Ctx World)}
    {behind waiting : List (Pending Task)} {before after : Report} {error : RunError}
    (h : settle (attempts.map Attempt.outcome) behind before = (some error, waiting, after)) :
    ∃ front failed back, attempts = front ++ failed :: back ∧
      (∀ attempt ∈ front, attempt.Finished) ∧ failed.outcome = .error error := by
  induction attempts generalizing behind before with
  | nil => simp [settle] at h
  | cons first rest ih =>
    rw [List.map_cons] at h
    cases houtcome : first.outcome with
    | error refusal =>
      rw [houtcome] at h
      simp only [settle, Prod.mk.injEq, Option.some.injEq] at h
      exact ⟨[], first, rest, rfl, by simp, by rw [houtcome, h.1]⟩
    | ok outcome =>
      rw [houtcome] at h
      obtain ⟨front, failed, back, rfl, hfront, hfailed⟩ := ih h
      refine ⟨first :: front, failed, back, rfl, fun attempt hattempt => ?_, hfailed⟩
      rcases List.mem_cons.1 hattempt with rfl | hlater
      · exact ⟨outcome, houtcome⟩
      · exact hfront attempt hlater

/-! ## Runs -/

/-- The tasks of a band had their inputs when they were executed, if there is one worker or no task
unbinds a key. -/
theorem Sweep.isEligible (sweep : Sweep flow)
    (h : sweep.list.workers ≤ 1 ∨ ∀ attempt ∈ sweep.attempts, attempt.KeepsKeys flow) :
    ∀ attempt ∈ sweep.attempts, flow.isEligible attempt.before attempt.pending := by
  have hband : ∀ pending ∈ flow.band sweep.list.workers sweep.list.board sweep.list.waiting,
      flow.isEligible sweep.list.board pending :=
    fun _ hpending => Workflow.isEligible_of_mem_band hpending
  rcases h with hworkers | hkeeps
  · intro attempt hattempt
    have hmem : attempt.pending ∈ flow.band sweep.list.workers sweep.list.board sweep.list.waiting :=
      sweep.inAnyOrder.map_pending ▸ List.mem_map_of_mem hattempt
    have hbefore : attempt.before = sweep.list.board := by
      have hrun := sweep.inAnyOrder
      cases hfind : sweep.list.waiting.find? (flow.isEligible sweep.list.board) with
      | none =>
        rw [Workflow.band_eq_nil_iff.2 hfind] at hmem
        exact absurd hmem List.not_mem_nil
      | some taken =>
        rw [Workflow.band_of_find? hworkers hfind] at hrun
        exact hrun.before_eq_of_singleton attempt hattempt
    rw [hbefore]
    exact hband attempt.pending hmem
  · exact sweep.inAnyOrder.isEligible hband hkeeps

namespace TaskList

namespace Sweeps

variable {list final : TaskList Task Ctx World} {sweeps : List (Sweep flow)} {error : RunError}
  {result : Except RunError Report × TaskList Task Ctx World}

/-- The run ends with the band of a task that failed, the first one of the band to do so, on the board
that the band left.  All that came before it finished. -/
def EndsAt (sweeps : List (Sweep flow)) (failed : Attempt Task Ctx World)
    (final : TaskList Task Ctx World) : Prop :=
  ∃ earlier last front back, sweeps = earlier ++ [last] ∧ last.attempts = front ++ failed :: back ∧
    (∀ sweep ∈ earlier, ∀ attempt ∈ sweep.attempts, attempt.Finished) ∧
    (∀ attempt ∈ front, attempt.Finished) ∧ final.board = last.after

/-- A run that fails tells of the first failure in the order of the bands. -/
theorem exists_endsAt (h : Sweeps flow list sweeps result) :
    ∀ error, result.1 = .error error →
      ∃ failed, EndsAt sweeps failed result.2 ∧ failed.outcome = .error error := by
  induction h with
  | stop _ => simp
  | @fail sweep refusal waiting report _ hsettle =>
    intro error herror
    obtain rfl : refusal = error := Except.error.inj herror
    obtain ⟨front, failed, back, hattempts, hfront, hfailed⟩ := exists_failed_of_settle hsettle
    exact ⟨failed, ⟨[], sweep, front, back, rfl, hattempts, by simp, hfront, rfl⟩, hfailed⟩
  | @next sweep waiting report sweeps result _ hsettle _ ih =>
    intro error herror
    obtain ⟨failed, hends, hfailed⟩ := ih error herror
    obtain ⟨earlier, last, front, back, rfl, hattempts, hearlier, hfront, hboard⟩ := hends
    refine ⟨failed, ⟨sweep :: earlier, last, front, back, rfl, hattempts, ?_, hfront, hboard⟩,
      hfailed⟩
    intro other hother
    rcases List.mem_cons.1 hother with rfl | hlater
    · exact finished_of_settle hsettle
    · exact hearlier other hlater

theorem EndsAt.exists_mem {failed : Attempt Task Ctx World} (h : EndsAt sweeps failed final) :
    ∃ sweep ∈ sweeps, failed ∈ sweep.attempts := by
  obtain ⟨earlier, last, front, back, rfl, hattempts, _⟩ := h
  refine ⟨last, by simp, ?_⟩
  rw [hattempts]
  exact List.mem_append_right _ List.mem_cons_self

end Sweeps

/-- A run that fails, its bands executed in whatever order, tells of the first task of its last band that
failed.  If there is one worker, or no task unbinds a key, then the body of that task failed: a missing
input is never told of. -/
theorem error_of_first_failure (flow : Workflow Task Key Ctx World Rank)
    (list : TaskList Task Ctx World) :
    (∀ result, list.run? flow = some result → ∃ sweeps, Sweeps flow list sweeps result) ∧
    ∀ sweeps error final, Sweeps flow list sweeps (.error error, final) →
      ∃ failed, Sweeps.EndsAt sweeps failed final ∧ failed.outcome = .error error ∧
        ((list.workers ≤ 1 ∨ ∀ sweep ∈ sweeps, ∀ attempt ∈ sweep.attempts, attempt.KeepsKeys flow) →
          ∃ message, error = .taskFailed (flow.nameOf failed.pending) message) := by
  refine ⟨fun result hrun => ?_, fun sweeps error final hsweeps => ?_⟩
  · obtain ⟨sweeps, _, hsweeps, _⟩ := exists_sweeps_of_run? hrun
    exact ⟨sweeps, hsweeps⟩
  obtain ⟨failed, hends, hfailed⟩ := hsweeps.exists_endsAt error rfl
  refine ⟨failed, hends, hfailed, fun hcalm => ?_⟩
  obtain ⟨sweep, hsweep, hmem⟩ := hends.exists_mem
  have hcalm' : sweep.list.workers ≤ 1 ∨ ∀ attempt ∈ sweep.attempts, attempt.KeepsKeys flow := by
    rcases hcalm with hworkers | hkeeps
    · exact .inl (hsweeps.workers_eq sweep hsweep ▸ hworkers)
    · exact .inr (hkeeps sweep hsweep)
  have herror : (flow.execute failed.pending failed.before).1 = .error error := by
    rw [sweep.inAnyOrder.execute_eq failed hmem]
    exact hfailed
  exact Workflow.exists_message_of_execute (sweep.isEligible hcalm' failed hmem) herror

/-- Three tasks.  Tasks `1` and `2` tell all others that they ran and fail.  All three need the key `0`. -/
def spoiled : Workflow Nat Nat (List Nat) (List Nat) where
  rank task := task
  has keys key := keys.contains key
  keyText := Text.showNat
  job
    | 1 => ⟨"read", [0], [], fun _ => do
        Act.modifyWorld (fun ran => 1 :: ran)
        throw "no such entry"⟩
    | 2 => ⟨"unpack", [0], [], fun _ => do
        Act.modifyWorld (fun ran => 2 :: ran)
        throw "unexpected end"⟩
    | _ => ⟨"link", [0], [], fun _ => pure ()⟩

/-- The attempt of task `1`, after that of task `2`. -/
def spoiledRead : Attempt Nat (List Nat) (List Nat) where
  pending := ⟨1, 1, 0⟩
  before := ⟨#[[0]], [2]⟩
  after := ⟨#[[0]], [1, 2]⟩
  outcome := .error (.taskFailed "read" "no such entry")

/-- The attempt of task `2`. -/
def spoiledUnpack : Attempt Nat (List Nat) (List Nat) where
  pending := ⟨1, 2, 0⟩
  before := ⟨#[[0]], []⟩
  after := ⟨#[[0]], [2]⟩
  outcome := .error (.taskFailed "unpack" "unexpected end")

/-- Tasks `1` and `2` are a band of two workers, and task `2` is executed first. -/
def spoiledSweep : Sweep spoiled where
  list := ⟨2, [⟨1, 1, 0⟩, ⟨1, 2, 0⟩, ⟨0, 0, 0⟩], ⟨#[[0]], []⟩, .empty⟩
  attempts := [spoiledRead, spoiledUnpack]
  after := ⟨#[[0]], [1, 2]⟩
  inAnyOrder := by
    have hread : spoiled.RunsInAnyOrder ([] ++ [⟨1, 1, 0⟩]) ⟨#[[0]], [2]⟩ ([] ++ [spoiledRead])
        ⟨#[[0]], [1, 2]⟩ :=
      .pick rfl rfl .nil
    have hboth : spoiled.RunsInAnyOrder ([⟨1, 1, 0⟩] ++ [⟨1, 2, 0⟩]) ⟨#[[0]], []⟩
        ([spoiledRead] ++ [spoiledUnpack]) ⟨#[[0]], [1, 2]⟩ :=
      .pick rfl rfl hread
    exact hboth

/-- The run tells of task `1`, which stands first in the band. -/
theorem error_of_first_failure_spoiled : ∃ final,
    Sweeps spoiled spoiledSweep.list [spoiledSweep]
      (.error (.taskFailed "read" "no such entry"), final) ∧
    (∀ sweep ∈ [spoiledSweep], ∀ attempt ∈ sweep.attempts, attempt.KeepsKeys spoiled) ∧
    ∃ failed, Sweeps.EndsAt [spoiledSweep] failed final ∧
      failed.outcome = .error (.taskFailed "read" "no such entry") ∧
      ∃ message, RunError.taskFailed "read" "no such entry" =
        .taskFailed (spoiled.nameOf failed.pending) message := by
  have hsweeps : Sweeps spoiled spoiledSweep.list [spoiledSweep]
      (.error (.taskFailed "read" "no such entry"),
        ⟨2, [⟨0, 0, 0⟩], spoiledSweep.after, .empty⟩) :=
    .fail (fun hidle => absurd hidle (List.cons_ne_nil _ _)) rfl
  have hkeeps : ∀ sweep ∈ [spoiledSweep], ∀ attempt ∈ sweep.attempts,
      attempt.KeepsKeys spoiled := by
    simp only [forall_eq, spoiledSweep, List.mem_cons, List.not_mem_nil, or_false,
      forall_eq_or_imp]
    exact ⟨fun _ _ hbound => hbound, fun _ _ hbound => hbound⟩
  obtain ⟨failed, hends, hfailed, hmessage⟩ :=
    (error_of_first_failure spoiled spoiledSweep.list).2 _ _ _ hsweeps
  exact ⟨_, hsweeps, hkeeps, failed, hends, hfailed, hmessage (.inr hkeeps)⟩

end TaskList

end CodeAtlas.Tasks
