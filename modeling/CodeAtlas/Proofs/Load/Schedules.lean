/-
# The beginning of a load in any order

Several workers enter what was found in any order, and then link the projects in any order.  Either way
all finds were entered before the first project is linked, and all projects were linked before the first
archive is gone through.
-/
import CodeAtlas.Proofs.Load.Gates
import CodeAtlas.Proofs.Tasks.Barriers

namespace CodeAtlas.Load

open Tasks Index

variable {setting : LoadSetting}

/-! ## Levels of a load -/

/-- The first of some tasks in whatever order, if it is none of the lower ones, is one of the level. -/
theorem exists_first_of_perm {α β : Type} {task : α → β} {coming : List α} {first : β}
    {rest low : List β} (h : (first :: rest).Perm (coming.map task ++ low)) (hlow : first ∉ low) :
    ∃ next others, coming.Perm (next :: others) ∧ task next = first ∧
      rest.Perm (others.map task ++ low) := by
  obtain ⟨next, hnext, rfl⟩ : ∃ next ∈ coming, task next = first := by
    rcases List.mem_append.1 (h.mem_iff.1 List.mem_cons_self) with hmem | hmem
    · exact List.mem_map.1 hmem
    · exact absurd hmem hlow
  obtain ⟨before, after, rfl⟩ := List.append_of_mem hnext
  refine ⟨next, before ++ after, List.perm_middle, rfl, (List.perm_cons (task next)).1 (h.trans ?_)⟩
  exact (List.perm_middle.map task).append_right low

/-- Nothing was found yet, or everything was and nothing was entered. -/
def Finding (setting : LoadSetting) (index : Index) (root : String)
    (waiting : List (Pending LoadTask)) (board : Board LoadContext LoadState) : Prop :=
  (waiting = [⟨1000, .discovery, 0⟩] ∧ board = ⟨#[{ workspace := some root }], ⟨index, {}⟩⟩) ∨
    (waiting.Perm (findTasks (numbered 1 (finds setting root))) ∧
      Enlisted setting index.standing? [] (numbered 1 (finds setting root)) [] board)

theorem Finding.priority_task {index : Index} {root : String} {waiting : List (Pending LoadTask)}
    {board : Board LoadContext LoadState} (h : Finding setting index root waiting board) :
    ∀ pending ∈ waiting, pending.task.priority = pending.priority := by
  intro pending hpending
  rcases h with ⟨rfl, _⟩ | ⟨hwaiting, _⟩
  · rw [List.mem_singleton.1 hpending]
    rfl
  · obtain ⟨entry, _, rfl⟩ := mem_findTasks_iff.1 (hwaiting.mem_iff.1 hpending)
    exact entry.2.priority_task

/-- When no task of priority 1000 waits, everything was found. -/
theorem Finding.enlisted {index : Index} {root : String} {waiting : List (Pending LoadTask)}
    {board : Board LoadContext LoadState} (h : Finding setting index root waiting board)
    (hlt : ∀ pending ∈ waiting, pending.priority < 1000) :
    waiting.Perm (findTasks (numbered 1 (finds setting root))) ∧
      Enlisted setting index.standing? [] (numbered 1 (finds setting root)) [] board := by
  obtain ⟨rfl, _⟩ | hstart := h
  · have := hlt _ List.mem_cons_self
    simp at this
  · exact hstart

theorem isBarrier_finding {index : Index} (hlive : index.Live) (root : String) :
    setting.workflow.IsBarrier 1000 (Finding setting index root) where
  le := by
    rintro waiting board (⟨rfl, _⟩ | ⟨hwaiting, _⟩) pending hpending
    · rw [List.mem_singleton.1 hpending]
    · obtain ⟨entry, _, rfl⟩ := mem_findTasks_iff.1 (hwaiting.mem_iff.1 hpending)
      exact show (900 : Int) ≤ 1000 by decide
  isEligible := by
    rintro waiting board (⟨rfl, rfl⟩ | ⟨hwaiting, _⟩) pending hpending hpriority
    · rw [List.mem_singleton.1 hpending]
      exact (exists_execute_discovery hlive root).1
    · obtain ⟨entry, _, rfl⟩ := mem_findTasks_iff.1 (hwaiting.mem_iff.1 hpending)
      simp at hpriority
  isKeptBy.perm := by
    rintro waiting others board hperm (⟨rfl, hboard⟩ | ⟨hwaiting, hstart⟩)
    · exact Or.inl ⟨List.perm_singleton.1 hperm.symm, hboard⟩
    · exact Or.inr ⟨hperm.symm.trans hwaiting, hstart⟩
  isKeptBy.step := by
    rintro first rest board after outcome hpriority (⟨hwaiting, rfl⟩ | ⟨hwaiting, _⟩) hexecute
    · obtain ⟨rfl, rfl⟩ := List.cons.inj hwaiting
      obtain ⟨_, outcome', after', hexecute', hspawned, hstart⟩ :=
        @exists_execute_discovery setting index hlive root
      obtain ⟨hsame, rfl⟩ := Prod.mk.inj (hexecute.symm.trans hexecute')
      obtain rfl := Except.ok.inj hsame
      rw [hspawned, List.append_nil]
      exact Or.inr ⟨List.Perm.refl _, hstart⟩
    · obtain ⟨entry, _, rfl⟩ := mem_findTasks_iff.1 (hwaiting.mem_iff.1 List.mem_cons_self)
      simp at hpriority

/-- Some finds were entered, in whatever order, and others are to come. -/
def Entering (setting : LoadSetting) (standings : String → Option Standing)
    (found : List (Nat × Find)) (waiting : List (Pending LoadTask))
    (board : Board LoadContext LoadState) : Prop :=
  ∃ past coming low, (past ++ coming).Perm found ∧
    waiting.Perm (findTasks coming ++ (linkTasks (enlist setting past) ++ low)) ∧
    Enlisted setting standings past coming low board

theorem Entering.priority_task {standings : String → Option Standing} {found : List (Nat × Find)}
    {waiting : List (Pending LoadTask)} {board : Board LoadContext LoadState}
    (h : Entering setting standings found waiting board) :
    ∀ pending ∈ waiting, pending.task.priority = pending.priority := by
  intro pending hpending
  obtain ⟨past, coming, low, _, hwaiting, henlisted⟩ := h
  rcases List.mem_append.1 (hwaiting.mem_iff.1 hpending) with hfind | hlower
  · obtain ⟨entry, _, rfl⟩ := mem_findTasks_iff.1 hfind
    exact entry.2.priority_task
  · rcases List.mem_append.1 hlower with hlink | hlow
    · obtain ⟨entry, _, rfl⟩ := List.mem_map.1 hlink
      rfl
    · exact (henlisted.low pending hlow).1.symm

/-- When no task of priority 900 waits, all finds were entered. -/
theorem Entering.exists_enlisted {standings : String → Option Standing} {found : List (Nat × Find)}
    {waiting : List (Pending LoadTask)} {board : Board LoadContext LoadState}
    (h : Entering setting standings found waiting board)
    (hlt : ∀ pending ∈ waiting, pending.priority < 900) :
    ∃ past low, past.Perm found ∧ waiting.Perm (linkTasks (enlist setting past) ++ low) ∧
      Enlisted setting standings past [] low board := by
  obtain ⟨past, coming, low, hfound, hwaiting, henlisted⟩ := h
  obtain rfl : coming = [] := by
    rw [List.eq_nil_iff_forall_not_mem]
    intro entry hentry
    have := hlt ⟨900, entry.2.task, entry.1⟩
      (hwaiting.mem_iff.2 (List.mem_append_left _ (mem_findTasks_iff.2 ⟨entry, hentry, rfl⟩)))
    simp at this
  rw [List.append_nil] at hfound
  exact ⟨past, low, hfound, hwaiting, henlisted⟩

/-- What waits while finds are entered: finds, links and tasks of priority 700. -/
theorem priority_of_mem_entering {standings : String → Option Standing}
    {past coming : List (Nat × Find)} {low : List (Pending LoadTask)}
    {board : Board LoadContext LoadState} (h : Enlisted setting standings past coming low board)
    {pending : Pending LoadTask} (hpending : pending ∈ linkTasks (enlist setting past) ++ low) :
    pending.priority ≤ 800 := by
  rcases List.mem_append.1 hpending with hlink | hlow
  · exact (priority_of_mem_linkTasks hlink).le
  · rw [h.priority_eq hlow]
    decide

theorem isBarrier_entering (standings : String → Option Standing) (found : List (Nat × Find)) :
    setting.workflow.IsBarrier 900 (Entering setting standings found) where
  le := by
    rintro waiting board ⟨past, coming, low, _, hwaiting, henlisted⟩ pending hpending
    rcases List.mem_append.1 (hwaiting.mem_iff.1 hpending) with hfind | hlower
    · obtain ⟨entry, _, rfl⟩ := mem_findTasks_iff.1 hfind
      exact le_refl _
    · exact (priority_of_mem_entering henlisted hlower).trans (by decide)
  isEligible := by
    rintro waiting board ⟨past, coming, low, _, hwaiting, henlisted⟩ pending hpending hpriority
    rcases List.mem_append.1 (hwaiting.mem_iff.1 hpending) with hfind | hlower
    · obtain ⟨entry, hentry, rfl⟩ := mem_findTasks_iff.1 hfind
      exact henlisted.isEligible_find hentry
    · have := priority_of_mem_entering henlisted hlower
      omega
  isKeptBy.perm := by
    rintro waiting others board hperm ⟨past, coming, low, hfound, hwaiting, henlisted⟩
    exact ⟨past, coming, low, hfound, hperm.symm.trans hwaiting, henlisted⟩
  isKeptBy.step := by
    rintro first rest board after outcome hpriority ⟨past, coming, low, hfound, hwaiting, henlisted⟩
      hexecute
    obtain ⟨⟨group, find⟩, others, hcoming, rfl, hrest⟩ := exists_first_of_perm hwaiting
      (fun hlower => by
        have := priority_of_mem_entering henlisted hlower
        omega)
    obtain ⟨outcome', after', new, hexecute', hspawned, _, hnext⟩ :=
      (henlisted.perm hcoming).exists_execute
    obtain ⟨hsame, rfl⟩ := Prod.mk.inj (hexecute.symm.trans hexecute')
    obtain rfl := Except.ok.inj hsame
    refine ⟨past ++ [(group, find)], others, low ++ new, ?_, ?_, hnext⟩
    · rw [← List.append_cons]
      exact (hcoming.append_left past).symm.trans hfound
    · -- links and other tasks go where those of the finds before went
      rw [hspawned, enlist_append, linkTasks_append]
      refine (hrest.append_left _).trans ?_
      refine (List.perm_append_comm_assoc _ _ _).trans (List.Perm.append_left _ ?_)
      refine List.perm_append_comm.trans ?_
      rw [List.append_assoc, List.append_assoc]
      exact (List.perm_append_comm_assoc low _ new).append_left _

/-- Some projects of a roster were linked, in whatever order, and others are to come. -/
def Linking (setting : LoadSetting) (roster : List (Nat × Entrant)) (low : List (Pending LoadTask))
    (start : Board LoadContext LoadState) (waiting : List (Pending LoadTask))
    (board : Board LoadContext LoadState) : Prop :=
  ∃ linked coming, (linked ++ coming).Perm roster ∧ waiting.Perm (linkTasks coming ++ low) ∧
    Linked setting linked start board ∧ ∀ entry ∈ coming, ∃ project,
      board.groups[entry.1]? = some (entry.2.context setting project false)

theorem Linking.priority_task {roster : List (Nat × Entrant)} {low waiting : List (Pending LoadTask)}
    {start board : Board LoadContext LoadState} (h : Linking setting roster low start waiting board)
    (hlow : ∀ pending ∈ low, pending.task.priority = pending.priority) :
    ∀ pending ∈ waiting, pending.task.priority = pending.priority := by
  intro pending hpending
  obtain ⟨linked, coming, _, hwaiting, _⟩ := h
  rcases List.mem_append.1 (hwaiting.mem_iff.1 hpending) with hlink | hlower
  · obtain ⟨entry, _, rfl⟩ := List.mem_map.1 hlink
    rfl
  · exact hlow pending hlower

/-- When no task of priority 800 waits, all projects were linked. -/
theorem Linking.exists_linked {roster : List (Nat × Entrant)} {low waiting : List (Pending LoadTask)}
    {start board : Board LoadContext LoadState} (h : Linking setting roster low start waiting board)
    (hlt : ∀ pending ∈ waiting, pending.priority < 800) :
    ∃ linked, linked.Perm roster ∧ waiting.Perm low ∧ Linked setting linked start board := by
  obtain ⟨linked, coming, hroster, hwaiting, hlinked, _⟩ := h
  obtain rfl : coming = [] := by
    rw [List.eq_nil_iff_forall_not_mem]
    intro entry hentry
    have := hlt ⟨800, .projectDependencies, entry.1⟩
      (hwaiting.mem_iff.2 (List.mem_append_left _ (List.mem_map.2 ⟨entry, hentry, rfl⟩)))
    simp at this
  rw [List.append_nil] at hroster
  exact ⟨linked, hroster, hwaiting, hlinked⟩

theorem isBarrier_linking {roster : List (Nat × Entrant)} {low : List (Pending LoadTask)}
    (hfresh : roster.Pairwise (fun a b => a.1 ≠ b.1)) (hlow : ∀ pending ∈ low, pending.priority = 700)
    (start : Board LoadContext LoadState) :
    setting.workflow.IsBarrier 800 (Linking setting roster low start) where
  le := by
    rintro waiting board ⟨linked, coming, _, hwaiting, _⟩ pending hpending
    rcases List.mem_append.1 (hwaiting.mem_iff.1 hpending) with hlink | hlower
    · exact (priority_of_mem_linkTasks hlink).le
    · rw [hlow pending hlower]
      decide
  isEligible := by
    rintro waiting board ⟨linked, coming, _, hwaiting, _, hentered⟩ pending hpending hpriority
    rcases List.mem_append.1 (hwaiting.mem_iff.1 hpending) with hlink | hlower
    · obtain ⟨entry, hentry, rfl⟩ := List.mem_map.1 hlink
      obtain ⟨project, hcontext⟩ := hentered entry hentry
      exact (exists_execute_link hcontext).1
    · rw [hlow pending hlower] at hpriority
      simp at hpriority
  isKeptBy.perm := by
    rintro waiting others board hperm ⟨linked, coming, hroster, hwaiting, hlinked⟩
    exact ⟨linked, coming, hroster, hperm.symm.trans hwaiting, hlinked⟩
  isKeptBy.step := by
    rintro first rest board after outcome hpriority
      ⟨linked, coming, hroster, hwaiting, hlinked, hentered⟩ hexecute
    obtain ⟨⟨group, entrant⟩, others, hcoming, rfl, hrest⟩ := exists_first_of_perm hwaiting
      (fun hlower => by
        rw [hlow _ hlower] at hpriority
        simp at hpriority)
    obtain ⟨project, hcontext⟩ := hentered _ (hcoming.mem_iff.2 List.mem_cons_self)
    obtain ⟨_, outcome', stats, hexecute', hspawned⟩ := exists_execute_link hcontext
    obtain ⟨hsame, rfl⟩ := Prod.mk.inj (hexecute.symm.trans hexecute')
    obtain rfl := Except.ok.inj hsame
    have hall : (linked ++ (group, entrant) :: others).Perm roster :=
      (hcoming.append_left linked).symm.trans hroster
    have hdistinct := List.pairwise_append.1 (hall.symm.pairwise hfresh (fun hne => hne.symm))
    refine ⟨linked ++ [(group, entrant)], others, ?_, ?_, ?_, fun entry hentry => ?_⟩
    · rwa [← List.append_cons]
    · rw [hspawned]
      exact hrest
    · refine hlinked.trans (linked_single hcontext) (fun entry hentry other hother => ?_)
      rw [List.mem_singleton.1 hother]
      exact hdistinct.2.2 entry hentry _ List.mem_cons_self
    · obtain ⟨known, hknown⟩ := hentered entry (hcoming.mem_iff.2 (List.mem_cons_of_mem _ hentry))
      have hne := (List.pairwise_cons.1 hdistinct.2.1).1 entry hentry
      exact ⟨known, getElem?_linkBoard_of_ne hne.symm hknown⟩

/-! ## Runs of loads -/

/-- A setting that enters the same executes the tasks of a level that finds, enters or links in the same
way. -/
theorem LoadSetting.EntersAlike.execute_eq {other : LoadSetting} (h : setting.EntersAlike other)
    {pending : Pending LoadTask} (hpriority : 700 < pending.task.priority)
    (board : Board LoadContext LoadState) :
    other.workflow.execute pending board = setting.workflow.execute pending board :=
  execute_congr (by rw [h pending.task hpriority])

/-- A list of a load that comes after everything was entered in some order and linked in a given one. -/
structure HasEnrolled (setting : LoadSetting) (index : Index) (workers : Nat) (root : String)
    (order : List Entrant) (later : TaskList LoadTask LoadContext LoadState) : Prop where
  perm : order.Perm (entrants setting root)
  stalled_eq : later.report.stalled = []
  enrolled : ∃ entered : List Entrant, entered.Perm (entrants setting root) ∧
    Enrolled setting (enrolAll setting index.standing? entered) order later.waiting later.board
  /-- A load under a setting that enters the same can come to the list as well. -/
  comes : ∀ other : LoadSetting, setting.EntersAlike other →
    ∀ {sweeps : List (Sweep other.workflow)}
      {result : Except RunError Report × TaskList LoadTask LoadContext LoadState},
      TaskList.Sweeps other.workflow later sweeps result →
        ∃ all, TaskList.Sweeps other.workflow (initialTasks workers index root) all result

section Runs

variable {index : Index} {workers : Nat} {root : String} {sweeps : List (Sweep setting.workflow)}
  {result : Except RunError Report × TaskList LoadTask LoadContext LoadState} {report : Report}

/-- A run that ends well enters all projects before it links the first of them, and links all of them
before it goes on. -/
theorem exists_hasEnrolled (hlive : index.Live)
    (h : TaskList.Sweeps setting.workflow (initialTasks workers index root) sweeps result)
    (hok : result.1 = .ok report) (hroom : result.2.board.world.index.HasRoom) :
    ∃ order later rest, HasEnrolled setting index workers root order later ∧
      TaskList.Sweeps setting.workflow later rest result := by
  -- discovery
  obtain ⟨started, rest, hstarted, hrest⟩ := h.exists_below (isBarrier_finding hlive root) hok
    (List.pairwise_singleton _ _) (Or.inl ⟨rfl, rfl⟩)
  obtain ⟨hwaiting, hstart⟩ := hstarted.kept.enlisted hstarted.lt
  -- entering
  obtain ⟨entered, rest, hentered, hrest⟩ := hrest.exists_below
    (isBarrier_entering index.standing? (numbered 1 (finds setting root))) hok hstarted.inOrder
    ⟨[], _, [], List.Perm.refl _, by simpa [linkTasks, enlist] using hwaiting, hstart⟩
  obtain ⟨past, low, hfound, hwaiting, henlisted⟩ := hentered.kept.exists_enlisted hentered.lt
  -- linking
  have hfresh : (enlist setting past).Pairwise (fun a b => a.1 ≠ b.1) :=
    pairwise_enlist (by simpa using henlisted.distinct)
  obtain ⟨later, rest, hlater, hrest⟩ := hrest.exists_below
    (@isBarrier_linking setting _ low hfresh (fun _ hlow => henlisted.priority_eq hlow) entered.board)
    hok hentered.inOrder
    ⟨[], enlist setting past, List.Perm.refl _, hwaiting, linked_nil _, henlisted.entered⟩
  obtain ⟨roster, hroster, hwaiting', hlinked⟩ := hlater.kept.exists_linked hlater.lt
  have hentrants : ((enlist setting past).map Prod.snd).Perm (entrants setting root) := by
    rw [map_snd_enlist]
    refine ((hfound.map Prod.snd).filterMap _).trans ?_
    rw [map_snd_numbered]
    exact List.Perm.refl _
  refine ⟨roster.map Prod.snd, later, rest, ⟨(hroster.map _).trans hentrants, ?_,
    ⟨_, hentrants, henlisted.enrolled hlinked hroster hwaiting' ?_⟩, ?_⟩, hrest⟩
  · rw [hlater.stalled_eq, hentered.stalled_eq, hstarted.stalled_eq]
    rfl
  · exact (hrest.later (isProgress_grown setting)).hasRoom hroom
  · intro other halike sweeps result hsweeps
    have heligible := congrFun (isEligible_congr setting other)
    obtain ⟨_, hsweeps⟩ := hlater.comes other.workflow heligible (fun hpriority hholds => by
      refine halike.execute_eq ?_ _
      rw [hholds.priority_task (fun pending hlow => (henlisted.low pending hlow).1.symm) _
        List.mem_cons_self, hpriority]
      decide) hsweeps
    obtain ⟨_, hsweeps⟩ := hentered.comes other.workflow heligible (fun hpriority hholds => by
      refine halike.execute_eq ?_ _
      rw [hholds.priority_task _ List.mem_cons_self, hpriority]
      decide) hsweeps
    exact hstarted.comes other.workflow heligible (fun hpriority hholds => by
      refine halike.execute_eq ?_ _
      rw [hholds.priority_task _ List.mem_cons_self, hpriority]
      decide) hsweeps

/-- With one worker the projects are linked in the order in which they were found. -/
theorem exists_hasEnrolled_of_one (hlive : index.Live) (hworkers : workers ≤ 1)
    (h : TaskList.Sweeps setting.workflow (initialTasks workers index root) sweeps result)
    (hroom : result.2.board.world.index.HasRoom) :
    ∃ later rest, HasEnrolled setting index workers root (entrants setting root) later ∧
      TaskList.Sweeps setting.workflow later rest result := by
  have hone : max workers 1 ≤ 1 := by omega
  have hrun : (initialTasks workers index root).run setting.workflow = result := by
    have hrun := h.run?_eq hone
    rw [TaskList.run?_eq_run] at hrun
    exact Option.some.inj hrun
  obtain ⟨waiting, board, report, hempty, hsame, henrolled⟩ :=
    exists_enrolled_alike hlive workers root (by rw [hrun]; exact hroom)
  have hlater : TaskList.run? setting.workflow ⟨max workers 1, waiting, board, report⟩ =
      some result := by
    rw [TaskList.run?_eq_run, ← hsame setting (fun _ _ => rfl), hrun]
  obtain ⟨rest, _, hrest, _⟩ := TaskList.exists_sweeps_of_run? hlater
  refine ⟨⟨max workers 1, waiting, board, report⟩, rest, ⟨List.Perm.refl _, hempty,
    ⟨_, List.Perm.refl _, henrolled⟩, ?_⟩, hrest⟩
  intro other halike sweeps result hsweeps
  have hother := hsweeps.run?_eq hone
  rw [TaskList.run?_eq_run, ← hsame other halike, ← TaskList.run?_eq_run] at hother
  obtain ⟨all, _, hall, _⟩ := TaskList.exists_sweeps_of_run? hother
  exact ⟨all, hall⟩

end Runs

end CodeAtlas.Load
