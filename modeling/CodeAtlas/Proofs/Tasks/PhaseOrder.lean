/-
# One worker keeps the phases apart

Every task gets a number when it is inserted, and the tasks that wait stand in the order of their
priorities, equal priorities in the order of their numbers.  A single worker takes the first of them
that has its inputs, so no task that precedes the one it takes can run.  From this follow the order
of the phases and the order within a phase, for as long as the run goes on.
-/
import CodeAtlas.Proofs.Tasks.Rounds
import Mathlib.Data.List.Sort

namespace CodeAtlas.Tasks

variable {Task Key Ctx World Rank : Type} [LT Rank]

/-! ## Numbered tasks -/

/-- A waiting task and its number in the order of insertion. -/
structure Ticket (Task : Type) where
  pending : Pending Task
  number : Nat

namespace Ticket

/-- A task precedes those of lower priority and those of its own that were inserted later. -/
def Precedes (a b : Ticket Task) : Prop :=
  b.pending.priority < a.pending.priority ∨
    (a.pending.priority = b.pending.priority ∧ a.number < b.number)

instance (a b : Ticket Task) : Decidable (a.Precedes b) :=
  inferInstanceAs (Decidable (_ ∨ _))

theorem Precedes.trans {a b c : Ticket Task} (hab : a.Precedes b) (hbc : b.Precedes c) :
    a.Precedes c := by
  simp only [Precedes] at *
  omega

theorem Precedes.asymm {a b : Ticket Task} (hab : a.Precedes b) : ¬ b.Precedes a := by
  simp only [Precedes] at *
  omega

/-- A ticket with a new number goes behind the tickets that it does not precede. -/
theorem pairwise_orderedInsert {ticket : Ticket Task} {tickets : List (Ticket Task)}
    (hordered : tickets.Pairwise Precedes) (hnew : ∀ other ∈ tickets, other.number < ticket.number) :
    (tickets.orderedInsert Precedes ticket).Pairwise Precedes := by
  induction tickets with
  | nil => exact List.pairwise_singleton _ _
  | cons first rest ih =>
    obtain ⟨hfirst, hrest⟩ := List.pairwise_cons.1 hordered
    have hlater := hnew first List.mem_cons_self
    rw [List.orderedInsert]
    split
    · rename_i hprecedes
      refine List.pairwise_cons.2 ⟨fun other hother => ?_, hordered⟩
      rcases List.mem_cons.1 hother with rfl | hother
      · exact hprecedes
      · exact hprecedes.trans (hfirst other hother)
    · rename_i hprecedes
      have hbefore : first.Precedes ticket := by
        simp only [Precedes] at *
        omega
      refine List.pairwise_cons.2 ⟨fun other hother => ?_, ih hrest ?_⟩
      · rcases (List.mem_orderedInsert _).1 hother with rfl | hother
        · exact hbefore
        · exact hfirst other hother
      · exact fun other hother => hnew other (List.mem_cons_of_mem _ hother)

/-- By priorities alone, a ticket with a new number goes where its task goes. -/
theorem map_pending_orderedInsert {ticket : Ticket Task} {tickets : List (Ticket Task)}
    (hnew : ∀ other ∈ tickets, other.number < ticket.number) :
    (tickets.orderedInsert Precedes ticket).map pending =
      insertPending ticket.pending (tickets.map pending) := by
  induction tickets with
  | nil => rfl
  | cons first rest ih =>
    have hlater := hnew first List.mem_cons_self
    have hprecedes : ticket.Precedes first ↔ first.pending.priority < ticket.pending.priority := by
      simp only [Precedes]
      omega
    rw [List.orderedInsert, List.map_cons, insertPending]
    by_cases hlower : first.pending.priority < ticket.pending.priority
    · rw [if_pos hlower, if_pos (hprecedes.2 hlower)]
      rfl
    · rw [if_neg hlower, if_neg (fun h => hlower (hprecedes.1 h)), List.map_cons]
      rw [ih (fun other hother => hnew other (List.mem_cons_of_mem _ hother))]

end Ticket

/-- Waiting tasks with their numbers, in order, and the next number. -/
structure Queue (Task : Type) where
  tickets : List (Ticket Task)
  next : Nat
  ordered : tickets.Pairwise Ticket.Precedes
  issued : ∀ ticket ∈ tickets, ticket.number < next

namespace Queue

/-- Nothing waits. -/
def empty : Queue Task where
  tickets := []
  next := 0
  ordered := List.Pairwise.nil
  issued := by simp

/-- The tasks that wait. -/
def waiting (queue : Queue Task) : List (Pending Task) :=
  queue.tickets.map Ticket.pending

/-- Gives a task the next number and inserts it. -/
def insert (queue : Queue Task) (pending : Pending Task) : Queue Task where
  tickets := queue.tickets.orderedInsert Ticket.Precedes ⟨pending, queue.next⟩
  next := queue.next + 1
  ordered := Ticket.pairwise_orderedInsert queue.ordered queue.issued
  issued := by
    intro ticket hticket
    rcases (List.mem_orderedInsert _).1 hticket with rfl | hticket
    · exact Nat.lt_succ_self _
    · exact Nat.lt_succ_of_lt (queue.issued ticket hticket)

/-- Inserts tasks one after the other. -/
def insertAll (queue : Queue Task) (spawned : List (Pending Task)) : Queue Task :=
  spawned.foldl insert queue

/-- Takes the first task out that has a property. -/
def remove (queue : Queue Task) (p : Pending Task → Bool) : Queue Task where
  tickets := queue.tickets.eraseP (fun ticket => p ticket.pending)
  next := queue.next
  ordered := queue.ordered.sublist List.eraseP_sublist
  issued := fun ticket hticket => queue.issued ticket (List.mem_of_mem_eraseP hticket)

theorem tickets_remove (queue : Queue Task) (p : Pending Task → Bool) :
    (queue.remove p).tickets = queue.tickets.eraseP (fun ticket => p ticket.pending) :=
  rfl

@[simp] theorem waiting_empty : (empty : Queue Task).waiting = [] :=
  rfl

@[simp] theorem waiting_insert (queue : Queue Task) (pending : Pending Task) :
    (queue.insert pending).waiting = insertPending pending queue.waiting :=
  Ticket.map_pending_orderedInsert queue.issued

@[simp] theorem waiting_insertAll (queue : Queue Task) (spawned : List (Pending Task)) :
    (queue.insertAll spawned).waiting = Tasks.insertAll spawned queue.waiting := by
  induction spawned generalizing queue with
  | nil => rfl
  | cons pending rest ih => rw [insertAll, List.foldl_cons, ← insertAll, ih, waiting_insert]; rfl

@[simp] theorem waiting_remove (queue : Queue Task) (p : Pending Task → Bool) :
    (queue.remove p).waiting = queue.waiting.eraseP p := by
  rw [waiting, waiting, List.eraseP_map]
  rfl

theorem find?_waiting (queue : Queue Task) (p : Pending Task → Bool) :
    queue.waiting.find? p =
      (queue.tickets.find? (fun ticket => p ticket.pending)).map Ticket.pending := by
  rw [waiting, List.find?_map]
  rfl

theorem next_le_insertAll (queue : Queue Task) (spawned : List (Pending Task)) :
    queue.next ≤ (queue.insertAll spawned).next := by
  induction spawned generalizing queue with
  | nil => exact Nat.le_refl _
  | cons pending rest ih => exact Nat.le_trans (Nat.le_succ _) (ih (queue.insert pending))

/-- What waits after tasks were inserted waited before or is one of them, with a new number. -/
theorem mem_insertAll {queue : Queue Task} {spawned : List (Pending Task)} {ticket : Ticket Task}
    (h : ticket ∈ (queue.insertAll spawned).tickets) :
    ticket ∈ queue.tickets ∨ (ticket.pending ∈ spawned ∧ queue.next ≤ ticket.number) := by
  induction spawned generalizing queue with
  | nil => exact .inl h
  | cons pending rest ih =>
    rcases @ih (queue.insert pending) h with hbefore | ⟨hspawned, hnumber⟩
    · rcases (List.mem_orderedInsert _).1 hbefore with rfl | hbefore
      · exact .inr ⟨List.mem_cons_self, Nat.le_refl _⟩
      · exact .inl hbefore
    · exact .inr ⟨List.mem_cons_of_mem _ hspawned, Nat.le_trans (Nat.le_succ _) hnumber⟩

theorem mem_insertAll_of_mem {queue : Queue Task} {spawned : List (Pending Task)}
    {ticket : Ticket Task} (h : ticket ∈ queue.tickets) :
    ticket ∈ (queue.insertAll spawned).tickets := by
  induction spawned generalizing queue with
  | nil => exact h
  | cons pending rest ih =>
    exact @ih (queue.insert pending) ((List.mem_orderedInsert _).2 (.inr h))

variable {queue : Queue Task} {p : Pending Task → Bool} {taken other : Ticket Task}

/-- Nothing that precedes the first task with a property has it. -/
theorem not_of_precedes (hfind : queue.tickets.find? (fun ticket => p ticket.pending) = some taken)
    (hother : other ∈ queue.tickets) (hprecedes : other.Precedes taken) : ¬ p other.pending := by
  obtain ⟨_, before, behind, hsplit, hbefore⟩ := List.find?_eq_some_iff_append.1 hfind
  have hordered := queue.ordered
  rw [hsplit] at hother hordered
  rcases List.mem_append.1 hother with hother | hother
  · simpa using hbefore other hother
  · have hbehind := (List.pairwise_cons.1 (List.pairwise_append.1 hordered).2.1).1
    rcases List.mem_cons.1 hother with rfl | hother
    · exact absurd hprecedes hprecedes.asymm
    · exact absurd hprecedes (hbehind other hother).asymm

theorem mem_remove (hfind : queue.tickets.find? (fun ticket => p ticket.pending) = some taken)
    (hother : other ∈ queue.tickets) (hne : other ≠ taken) : other ∈ (queue.remove p).tickets := by
  obtain ⟨hp, before, behind, hsplit, hbefore⟩ := List.find?_eq_some_iff_append.1 hfind
  have herase : (queue.remove p).tickets = before ++ behind := by
    have hnone : ∀ ticket ∈ before, ¬ p ticket.pending := by simpa using hbefore
    have hfirst : (taken :: behind).eraseP (fun ticket => p ticket.pending) = behind :=
      List.eraseP_cons_of_pos hp
    rw [tickets_remove, hsplit, List.eraseP_append_right _ hnone, hfirst]
  rw [herase]
  rw [hsplit] at hother
  simpa [hne] using hother

end Queue

/-! ## Turns -/

/-- Where a run stands: the tasks that wait, with their numbers, the board and the report. -/
structure Stage (Task Ctx World : Type) where
  queue : Queue Task
  board : Board Ctx World
  report : Report

/-- The task list at a stage. -/
def Stage.list (stage : Stage Task Ctx World) (workers : Nat) : TaskList Task Ctx World :=
  ⟨workers, stage.queue.waiting, stage.board, stage.report⟩

/-- The stage after a task that was taken out finished. -/
def Stage.next (flow : Workflow Task Key Ctx World Rank) (stage : Stage Task Ctx World)
    (outcome : Outcome Task) (after : Board Ctx World) : Stage Task Ctx World where
  queue := (stage.queue.remove (flow.isEligible stage.board)).insertAll outcome.spawned
  board := after
  report := stage.report.add outcome

/-- A task that runs, the stage at which it is taken, how it ends and the board it leaves. -/
structure Turn (Task Ctx World : Type) where
  stage : Stage Task Ctx World
  taken : Ticket Task
  result : Except RunError (Outcome Task)
  after : Board Ctx World

/-- The execution of a task that finishes. -/
def Turn.execution? (turn : Turn Task Ctx World) : Option (Execution Task Ctx World) :=
  turn.result.toOption.map
    (fun outcome => ⟨turn.taken.pending, turn.stage.board, turn.after, outcome⟩)

@[simp] theorem Turn.execution?_ok (stage : Stage Task Ctx World) (taken : Ticket Task)
    (outcome : Outcome Task) (after : Board Ctx World) :
    Turn.execution? ⟨stage, taken, .ok outcome, after⟩ =
      some ⟨taken.pending, stage.board, after, outcome⟩ :=
  rfl

/-- The turns from a stage on: as many as one likes, and none after one that fails. -/
inductive History (flow : Workflow Task Key Ctx World Rank) :
    Stage Task Ctx World → List (Turn Task Ctx World) → Prop
  | nil {stage : Stage Task Ctx World} : History flow stage []
  | fail {stage : Stage Task Ctx World} {taken : Ticket Task} {error : RunError}
      {after : Board Ctx World}
      (hfind : stage.queue.tickets.find?
        (fun ticket => flow.isEligible stage.board ticket.pending) = some taken)
      (hexecute : flow.execute taken.pending stage.board = (.error error, after)) :
      History flow stage [⟨stage, taken, .error error, after⟩]
  | next {stage : Stage Task Ctx World} {taken : Ticket Task} {outcome : Outcome Task}
      {after : Board Ctx World} {turns : List (Turn Task Ctx World)}
      (hfind : stage.queue.tickets.find?
        (fun ticket => flow.isEligible stage.board ticket.pending) = some taken)
      (hexecute : flow.execute taken.pending stage.board = (.ok outcome, after))
      (hrest : History flow (stage.next flow outcome after) turns) :
      History flow stage (⟨stage, taken, .ok outcome, after⟩ :: turns)

/-- The task of a turn, if it finishes, spawned nothing of a higher priority and gave no task of a
higher priority its inputs. -/
def Turn.StaysBelow (flow : Workflow Task Key Ctx World Rank) (turn : Turn Task Ctx World) : Prop :=
  ∀ outcome ∈ turn.result.toOption,
    (∀ spawned ∈ outcome.spawned, spawned.priority ≤ turn.taken.pending.priority) ∧
    ∀ other ∈ turn.stage.queue.tickets,
      turn.taken.pending.priority < other.pending.priority →
      flow.isEligible turn.after other.pending → flow.isEligible turn.stage.board other.pending

instance (flow : Workflow Task Key Ctx World Rank) (turn : Turn Task Ctx World) :
    Decidable (turn.StaysBelow flow) :=
  inferInstanceAs (Decidable (∀ outcome ∈ turn.result.toOption, _ ∧ _))

namespace History

variable {flow : Workflow Task Key Ctx World Rank} {stage : Stage Task Ctx World}
  {turns before later : List (Turn Task Ctx World)} {turn : Turn Task Ctx World}
  {ticket : Ticket Task}

/-- A turn takes the first task that has its inputs. -/
theorem find?_eq (h : History flow stage turns) : ∀ turn ∈ turns,
    turn.stage.queue.tickets.find?
      (fun ticket => flow.isEligible turn.stage.board ticket.pending) = some turn.taken := by
  induction h with
  | nil => simp
  | fail hfind _ => simpa using hfind
  | next hfind _ _ ih =>
    intro turn hturn
    rcases List.mem_cons.1 hturn with rfl | hturn
    · exact hfind
    · exact ih turn hturn

theorem isEligible_of_find? {taken : Ticket Task}
    (hfind : stage.queue.tickets.find?
      (fun ticket => flow.isEligible stage.board ticket.pending) = some taken) :
    flow.isEligible stage.board taken.pending := by
  have heligible := List.find?_some hfind
  exact heligible

/-! ### The order of the phases -/

/-- After a task that stays below, only tasks of its priority or a lower one have their inputs. -/
theorem priority_le_of_isEligible_next {taken : Ticket Task} {outcome : Outcome Task}
    {after : Board Ctx World}
    (hfind : stage.queue.tickets.find?
      (fun ticket => flow.isEligible stage.board ticket.pending) = some taken)
    (hbelow : Turn.StaysBelow flow ⟨stage, taken, .ok outcome, after⟩)
    (hmem : ticket ∈ (stage.next flow outcome after).queue.tickets)
    (heligible : flow.isEligible after ticket.pending) :
    ticket.pending.priority ≤ taken.pending.priority := by
  obtain ⟨hspawned, hothers⟩ := hbelow outcome rfl
  rcases Queue.mem_insertAll hmem with hwaited | ⟨hnew, _⟩
  · have hwaited := List.mem_of_mem_eraseP hwaited
    by_contra hlower
    have hhigher : taken.pending.priority < ticket.pending.priority := by omega
    exact Queue.not_of_precedes hfind hwaited (.inl hhigher)
      (hothers ticket hwaited hhigher heligible)
  · exact hspawned ticket.pending hnew

/-- If only tasks up to a priority have their inputs, only such tasks run. -/
theorem priority_le (h : History flow stage turns) (hbelow : ∀ turn ∈ turns, turn.StaysBelow flow)
    {bound : Int} (hbound : ∀ ticket ∈ stage.queue.tickets,
      flow.isEligible stage.board ticket.pending → ticket.pending.priority ≤ bound) :
    ∀ turn ∈ turns, turn.taken.pending.priority ≤ bound := by
  induction h with
  | nil => simp
  | fail hfind _ =>
    intro turn hturn
    rw [List.mem_singleton.1 hturn]
    exact hbound _ (List.mem_of_find?_eq_some hfind) (isEligible_of_find? hfind)
  | next hfind _ _ ih =>
    have hfirst := hbound _ (List.mem_of_find?_eq_some hfind) (isEligible_of_find? hfind)
    intro turn hturn
    rcases List.mem_cons.1 hturn with rfl | hturn
    · exact hfirst
    · refine ih (fun turn hturn => hbelow turn (List.mem_cons_of_mem _ hturn)) ?_ turn hturn
      intro ticket hticket heligible
      exact Int.le_trans (priority_le_of_isEligible_next hfind (hbelow _ List.mem_cons_self)
        hticket heligible) hfirst

/-- Tasks that stay below run in phases, from higher to lower priorities. -/
theorem pairwise_priority (h : History flow stage turns)
    (hbelow : ∀ turn ∈ turns, turn.StaysBelow flow) :
    (turns.map (fun turn => turn.taken.pending.priority)).Pairwise (· ≥ ·) := by
  induction h with
  | nil => exact List.Pairwise.nil
  | fail _ _ => exact List.pairwise_singleton _ _
  | next hfind _ hrest ih =>
    have hlater := fun turn hturn => hbelow turn (List.mem_cons_of_mem _ hturn)
    refine List.pairwise_cons.2 ⟨fun priority hpriority => ?_, ih hlater⟩
    obtain ⟨turn, hturn, rfl⟩ := List.mem_map.1 hpriority
    refine hrest.priority_le hlater (fun ticket hticket heligible => ?_) turn hturn
    exact priority_le_of_isEligible_next hfind (hbelow _ List.mem_cons_self) hticket heligible

/-! ### The order within a phase -/

/-- A task that waits at a later stage waits now, or gets a number that has not been given yet. -/
theorem mem_or_next_le (h : History flow stage turns) (hturn : turn ∈ turns)
    (hmem : ticket ∈ turn.stage.queue.tickets) :
    ticket ∈ stage.queue.tickets ∨ stage.queue.next ≤ ticket.number := by
  induction h with
  | nil => simp at hturn
  | fail _ _ =>
    rw [List.mem_singleton.1 hturn] at hmem
    exact .inl hmem
  | @next stage _ outcome _ _ _ _ _ ih =>
    rcases List.mem_cons.1 hturn with rfl | hturn
    · exact .inl hmem
    · rcases ih hturn with hnext | hnumber
      · rcases Queue.mem_insertAll hnext with hwaited | ⟨_, hnumber⟩
        · exact .inl (List.mem_of_mem_eraseP hwaited)
        · exact .inr hnumber
      · exact .inr (Nat.le_trans (Queue.next_le_insertAll (stage.queue.remove _) _) hnumber)

/-- The first of the turns is at the stage itself. -/
theorem stage_eq (h : History flow stage (turn :: turns)) : turn.stage = stage := by
  cases h with
  | fail _ _ => rfl
  | next _ _ _ => rfl

/-- A turn that is not the last finishes, and the others follow from there. -/
theorem exists_next (h : History flow stage (turn :: turns)) (hne : turns ≠ []) :
    ∃ outcome, History flow (stage.next flow outcome turn.after) turns := by
  cases h with
  | fail _ _ => exact absurd rfl hne
  | @next _ _ outcome _ _ _ _ hrest => exact ⟨outcome, hrest⟩

/-- A task that has its inputs as long as it waits runs before every later task of its priority. -/
theorem exists_earlier_turn (h : History flow stage (before ++ turn :: later))
    (hmem : ∃ other ∈ before ++ turn :: later, ticket ∈ other.stage.queue.tickets)
    (hpriority : ticket.pending.priority = turn.taken.pending.priority)
    (hnumber : ticket.number < turn.taken.number)
    (hsteady : ∀ other ∈ before ++ turn :: later, ticket ∈ other.stage.queue.tickets →
      flow.isEligible other.stage.board ticket.pending) :
    ∃ other ∈ before, other.taken = ticket := by
  induction before generalizing stage with
  | nil =>
    -- the ticket is waiting at the very turn that passes it over
    obtain ⟨other, hother, hticket⟩ := hmem
    have hfind := h.find?_eq turn List.mem_cons_self
    have hissued := turn.stage.queue.issued _ (List.mem_of_find?_eq_some hfind)
    have hwaits : ticket ∈ turn.stage.queue.tickets := by
      rw [h.stage_eq] at hissued ⊢
      rcases h.mem_or_next_le hother hticket with hwaits | hnew
      · exact hwaits
      · omega
    exact absurd (hsteady turn List.mem_cons_self hwaits)
      (Queue.not_of_precedes hfind hwaits (.inr ⟨hpriority, hnumber⟩))
  | cons first rest ih =>
    rw [List.cons_append] at h hmem hsteady
    by_cases htaken : first.taken = ticket
    · exact ⟨first, List.mem_cons_self, htaken⟩
    · obtain ⟨outcome, hrest⟩ := h.exists_next (by simp)
      -- the ticket was not taken in the first turn, so it still waits in the next
      have hwaits : ∃ other ∈ rest ++ turn :: later, ticket ∈ other.stage.queue.tickets := by
        obtain ⟨other, hother, hticket⟩ := hmem
        rcases List.mem_cons.1 hother with rfl | hother
        · have hfind := h.find?_eq other List.mem_cons_self
          have hkept := Queue.mem_remove hfind hticket (Ne.symm htaken)
          rw [h.stage_eq] at hkept
          cases hturns : rest ++ turn :: later with
          | nil => simp at hturns
          | cons second others =>
            rw [hturns] at hrest
            refine ⟨second, List.mem_cons_self, ?_⟩
            rw [hrest.stage_eq]
            exact Queue.mem_insertAll_of_mem hkept
        · exact ⟨other, hother, hticket⟩
      obtain ⟨other, hother, hearlier⟩ := ih hrest hwaits
        (fun other hother => hsteady other (List.mem_cons_of_mem _ hother))
      exact ⟨other, List.mem_cons_of_mem _ hother, hearlier⟩

end History

/-! ## Turns and rounds -/

namespace Stage

variable {flow : Workflow Task Key Ctx World Rank} {stage : Stage Task Ctx World} {workers : Nat}
  {taken : Ticket Task} {outcome : Outcome Task} {error : RunError} {after : Board Ctx World}

theorem find?_waiting
    (hfind : stage.queue.tickets.find?
      (fun ticket => flow.isEligible stage.board ticket.pending) = some taken) :
    stage.queue.waiting.find? (flow.isEligible stage.board) = some taken.pending := by
  rw [Queue.find?_waiting, hfind]
  rfl

/-- A turn is a round of one worker. -/
theorem rounds_next (hworkers : workers ≤ 1)
    (hfind : stage.queue.tickets.find?
      (fun ticket => flow.isEligible stage.board ticket.pending) = some taken)
    (hexecute : flow.execute taken.pending stage.board = (.ok outcome, after)) :
    TaskList.Rounds flow (stage.list workers) [⟨taken.pending, stage.board, after, outcome⟩]
      ((stage.next flow outcome after).list workers) := by
  have hlist : (stage.next flow outcome after).list workers =
      ⟨workers, insertAll outcome.spawned
        (stage.queue.waiting.eraseP (flow.isEligible stage.board)), after,
        stage.report.add outcome⟩ := by
    simp [list, next]
  rw [hlist]
  exact TaskList.rounds_of_execute_ok hworkers (find?_waiting hfind) hexecute

/-- Where a round begins there is a task to take. -/
theorem exists_find?_of_band
    (hband : flow.band workers stage.board stage.queue.waiting ≠ []) :
    ∃ taken, stage.queue.tickets.find?
      (fun ticket => flow.isEligible stage.board ticket.pending) = some taken := by
  rw [Ne, Workflow.band_eq_nil_iff, Queue.find?_waiting, Option.map_eq_none_iff] at hband
  exact Option.ne_none_iff_exists'.1 hband

end Stage

namespace History

variable {flow : Workflow Task Key Ctx World Rank} {stage : Stage Task Ctx World} {workers : Nat}
  {turns before later : List (Turn Task Ctx World)} {turn : Turn Task Ctx World}

/-- The turns are rounds of one worker, up to any of them. -/
theorem rounds (hworkers : workers ≤ 1) (h : History flow stage (before ++ turn :: later)) :
    TaskList.Rounds flow (stage.list workers) (before.filterMap Turn.execution?)
      (turn.stage.list workers) := by
  induction before generalizing stage with
  | nil =>
    rw [List.nil_append] at h
    rw [h.stage_eq]
    exact .refl
  | cons first rest ih =>
    rw [List.cons_append] at h
    generalize hturns : rest ++ turn :: later = turns at h
    cases h with
    | fail _ _ => simp at hturns
    | next hfind hexecute hrest =>
      subst hturns
      exact (Stage.rounds_next hworkers hfind hexecute).trans (ih hrest)

/-- At a stage where a round begins there is a turn. -/
theorem exists_turn (flow : Workflow Task Key Ctx World Rank) (stage : Stage Task Ctx World)
    (hband : flow.band workers stage.board stage.queue.waiting ≠ []) :
    ∃ turn : Turn Task Ctx World, turn.stage = stage ∧ History flow stage [turn] := by
  obtain ⟨taken, hfind⟩ := Stage.exists_find?_of_band hband
  rcases hexecute : flow.execute taken.pending stage.board with ⟨error | outcome, after⟩
  · exact ⟨⟨stage, taken, .error error, after⟩, rfl, .fail hfind hexecute⟩
  · exact ⟨⟨stage, taken, .ok outcome, after⟩, rfl, .next hfind hexecute .nil⟩

/-- The rounds of one worker are turns, and where another round begins there is another turn. -/
theorem exists_of_rounds (hworkers : workers ≤ 1) {list : TaskList Task Ctx World}
    {finished : List (Execution Task Ctx World)}
    (h : TaskList.Rounds flow (stage.list workers) finished list)
    (hband : flow.band list.workers list.board list.waiting ≠ []) :
    ∃ turns turn, History flow stage (turns ++ [turn]) ∧
      turns.filterMap Turn.execution? = finished ∧ turn.stage.list workers = list := by
  generalize hstart : stage.list workers = start at h
  induction h generalizing stage with
  | refl =>
    subst hstart
    obtain ⟨turn, rfl, hturn⟩ := exists_turn flow stage hband
    exact ⟨[], turn, hturn, rfl, rfl⟩
  | next hfirst hsettle _ ih =>
    subst hstart
    obtain ⟨taken, hfind⟩ := Stage.exists_find?_of_band hfirst
    have htaken := flow.band_of_find? hworkers (Stage.find?_waiting hfind)
    have hbehind := flow.behindBand_of_find? hworkers (Stage.find?_waiting hfind)
    simp only [Stage.list, htaken, hbehind] at hsettle ih ⊢
    rcases hexecute : flow.execute taken.pending stage.board with ⟨error | outcome, after⟩
    · simp [Workflow.executeAll, hexecute, settle] at hsettle
    · simp only [Workflow.executeAll, hexecute, settle, Prod.mk.injEq, true_and] at hsettle ih
      obtain ⟨rfl, rfl⟩ := hsettle
      obtain ⟨turns, turn, hturns, hfinished, hlist⟩ := @ih (stage.next flow outcome after) hband
        (by simp [Stage.next])
      refine ⟨⟨stage, taken, .ok outcome, after⟩ :: turns, turn, .next hfind hexecute hturns, ?_,
        hlist⟩
      simp [Workflow.executions, hexecute, hfinished]

end History

/-! ## Phase order -/

/-- How a run that stands at a stage goes on. -/
structure PhaseOrdered (flow : Workflow Task Key Ctx World Rank) (workers : Nat)
    (stage : Stage Task Ctx World) : Prop where
  /-- Every turn is a round of the run, which runs the task that the turn takes. -/
  reached : ∀ {before turn later}, History flow stage (before ++ turn :: later) →
    TaskList.Rounds flow (stage.list workers) (before.filterMap Turn.execution?)
      (turn.stage.list workers) ∧
    flow.band workers turn.stage.board turn.stage.queue.waiting = [turn.taken.pending]
  /-- Every round of the run is a turn. -/
  covered : ∀ {finished list}, TaskList.Rounds flow (stage.list workers) finished list →
    flow.band list.workers list.board list.waiting ≠ [] →
    ∃ turns turn, History flow stage (turns ++ [turn]) ∧
      turns.filterMap Turn.execution? = finished ∧ turn.stage.list workers = list
  /-- The task taken has its inputs and no waiting task that precedes it has. -/
  first : ∀ {turns}, History flow stage turns → ∀ turn ∈ turns,
    flow.isEligible turn.stage.board turn.taken.pending ∧
    ∀ other ∈ turn.stage.queue.tickets, other.Precedes turn.taken →
      ¬ flow.isEligible turn.stage.board other.pending
  /-- If all tasks stay below, priorities never rise. -/
  descending : ∀ {turns}, History flow stage turns → (∀ turn ∈ turns, turn.StaysBelow flow) →
    (turns.map (fun turn => turn.taken.pending.priority)).Pairwise (· ≥ ·)
  /-- A task that has its inputs from its insertion on runs before every task of its priority that
  was inserted later. -/
  inTurn : ∀ {before turn later ticket}, History flow stage (before ++ turn :: later) →
    (∃ other ∈ before ++ turn :: later, ticket ∈ other.stage.queue.tickets) →
    ticket.pending.priority = turn.taken.pending.priority → ticket.number < turn.taken.number →
    (∀ other ∈ before ++ turn :: later, ticket ∈ other.stage.queue.tickets →
      flow.isEligible other.stage.board ticket.pending) →
    ∃ other ∈ before, other.taken = ticket

/-- With at most one worker, a run keeps the phases apart, wherever it stands and however long it
goes on. -/
theorem phaseOrdered (flow : Workflow Task Key Ctx World Rank) {workers : Nat}
    (hworkers : workers ≤ 1) (stage : Stage Task Ctx World) : PhaseOrdered flow workers stage where
  reached := by
    intro before turn later h
    have hfind := h.find?_eq turn (by simp)
    exact ⟨h.rounds hworkers, flow.band_of_find? hworkers (Stage.find?_waiting hfind)⟩
  covered := History.exists_of_rounds hworkers
  first := by
    intro turns h turn hturn
    have hfind := h.find?_eq turn hturn
    refine ⟨History.isEligible_of_find? hfind, fun other hother hprecedes => ?_⟩
    exact Queue.not_of_precedes hfind hother hprecedes
  descending := History.pairwise_priority
  inTurn := History.exists_earlier_turn

/-- Three tasks.  Task `2` spawns task `1` twice, at a lower priority; task `1` binds the key `0`, which
task `0` needs. -/
def fanOut : Workflow Nat Nat (List Nat) Unit where
  rank task := task
  has keys key := keys.contains key
  keyText := Text.showNat
  job
    | 2 => ⟨"list", [], [], fun group => do
        Act.spawn 1 1 group Nat.one_lt_two
        Act.spawn 1 1 group Nat.one_lt_two⟩
    | 1 => ⟨"read", [], [0], fun group => Act.modifyContext group (fun keys => 0 :: keys)⟩
    | _ => ⟨"link", [0], [], fun _ => pure ()⟩

/-- Task `0` is pushed first, at the lowest priority, and task `2` after it. -/
def fanOutStart : Stage Nat (List Nat) Unit :=
  ⟨Queue.empty.insertAll [⟨0, 0, 0⟩, ⟨2, 2, 0⟩], ⟨#[[]], ()⟩, .empty⟩

/-- The task pushed last runs first, then the two it spawns in their order, and then the first. -/
theorem phaseOrdered_fanOut : ∃ turns, History fanOut fanOutStart turns ∧
    turns.map (fun turn => turn.taken.number) = [1, 2, 3, 0] ∧
    (∀ turn ∈ turns, turn.StaysBelow fanOut) ∧
    (turns.map (fun turn => turn.taken.pending.priority)).Pairwise (· ≥ ·) ∧
    PhaseOrdered fanOut 1 fanOutStart := by
  have hordered := phaseOrdered fanOut (Nat.le_refl 1) fanOutStart
  have hhistory := @History.next _ _ _ _ _ _ fanOut fanOutStart _ _ _ _ rfl rfl
    (.next rfl rfl (.next rfl rfl (.next rfl rfl .nil)))
  refine ⟨_, hhistory, rfl, ?_, ?_, hordered⟩
  · decide
  · exact hordered.descending hhistory (by decide)

end CodeAtlas.Tasks
