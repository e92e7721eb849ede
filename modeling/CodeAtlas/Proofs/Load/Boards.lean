/-
# Boards of a load

What running a task does to the groups and the index: the context of its own group changes, groups are
added behind the others, and the index grows.
-/
import CodeAtlas.Proofs.Load.Deeds
import CodeAtlas.Proofs.Load.Projects

namespace CodeAtlas.Load

open Tasks Index

variable {setting : LoadSetting}

/-! ## Groups after a deed -/

section Groups

variable {done : Deed} {group : Nat} {groups : Array LoadContext} {context : LoadContext}

theorem size_groups (done : Deed) (group : Nat) (groups : Array LoadContext) :
    (done.groups group groups).size = groups.size + done.opened.length := by
  simp [Deed.groups]

theorem getElem?_groups_self (hcontext : groups[group]? = some context) :
    (done.groups group groups)[group]? = some (done.change context) := by
  have hlt : group < groups.size := (Array.getElem?_eq_some_iff.1 hcontext).1
  rw [Deed.groups, Array.getElem?_append_left (by simpa using hlt)]
  exact getElem?_modify_self hcontext done.change

theorem getElem?_groups_of_ne {other : Nat} (hne : other ≠ group)
    (hcontext : groups[other]? = some context) :
    (done.groups group groups)[other]? = some context := by
  have hlt : other < groups.size := (Array.getElem?_eq_some_iff.1 hcontext).1
  rw [Deed.groups, Array.getElem?_append_left (by simpa using hlt), Array.getElem?_modify,
    if_neg (Ne.symm hne), hcontext]

theorem getElem?_groups_opened {k : Nat} {task : LoadTask}
    (hopened : done.opened[k]? = some (context, task)) :
    (done.groups group groups)[groups.size + k]? = some context := by
  rw [Deed.groups, Array.getElem?_append_right (by simp)]
  simp [hopened]

/-- A group after a deed is one of those before, the own one changed, or was opened. -/
theorem getElem?_groups_cases {other : Nat}
    (h : (done.groups group groups)[other]? = some context) :
    (other ≠ group ∧ groups[other]? = some context) ∨
      (other = group ∧ ∃ before, groups[group]? = some before ∧ context = done.change before) ∨
      ∃ k task, other = groups.size + k ∧ done.opened[k]? = some (context, task) := by
  by_cases hlt : other < groups.size
  · rw [Deed.groups, Array.getElem?_append_left (by simpa using hlt), Array.getElem?_modify] at h
    split at h
    · rename_i heq
      subst heq
      obtain ⟨before, hbefore, rfl⟩ := Option.map_eq_some_iff.1 h
      exact Or.inr (Or.inl ⟨rfl, before, hbefore, rfl⟩)
    · rename_i hne
      exact Or.inl ⟨Ne.symm hne, h⟩
  · rw [Deed.groups, Array.getElem?_append_right (by simpa using hlt), Array.size_modify,
      List.getElem?_toArray, List.getElem?_map] at h
    obtain ⟨⟨found, task⟩, hfound, rfl⟩ := Option.map_eq_some_iff.1 h
    exact Or.inr (Or.inr ⟨other - groups.size, task, by omega, hfound⟩)

theorem mem_openedTasks_iff {first : Nat} {opened : List (LoadContext × LoadTask)}
    {pending : Pending LoadTask} :
    pending ∈ openedTasks first opened ↔ ∃ k context task, opened[k]? = some (context, task) ∧
      pending = ⟨task.priority, task, first + k⟩ := by
  induction opened generalizing first with
  | nil => simp [openedTasks]
  | cons head rest ih =>
    obtain ⟨context, task⟩ := head
    rw [openedTasks, List.mem_cons, ih]
    constructor
    · rintro (rfl | ⟨k, context', task', hk, rfl⟩)
      · exact ⟨0, context, task, rfl, rfl⟩
      · refine ⟨k + 1, context', task', hk, ?_⟩
        rw [Nat.add_assoc, Nat.add_comm 1 k]
    · rintro ⟨k, context', task', hk, rfl⟩
      cases k with
      | zero =>
        obtain ⟨rfl, rfl⟩ : context = context' ∧ task = task' := by simpa using hk
        exact Or.inl rfl
      | succ k =>
        refine Or.inr ⟨k, context', task', by simpa using hk, ?_⟩
        rw [Nat.add_assoc, Nat.add_comm 1 k]

/-- The groups that are opened are different ones. -/
theorem pairwise_openedTasks (first : Nat) (opened : List (LoadContext × LoadTask)) :
    (openedTasks first opened).Pairwise (fun a b => a.group ≠ b.group) := by
  induction opened generalizing first with
  | nil => exact List.Pairwise.nil
  | cons head rest ih =>
    rw [openedTasks, List.pairwise_cons]
    refine ⟨fun other hother => ?_, ih (first + 1)⟩
    obtain ⟨k, context, task, _, rfl⟩ := mem_openedTasks_iff.1 hother
    dsimp only
    omega

/-- What a deed spawns has the priority of its task. -/
theorem mem_spawned_iff {size : Nat} {pending : Pending LoadTask} :
    pending ∈ done.spawned group size ↔
      (∃ task ∈ done.own, pending = ⟨task.priority, task, group⟩) ∨
      ∃ k context task, done.opened[k]? = some (context, task) ∧
        pending = ⟨task.priority, task, size + k⟩ := by
  rw [Deed.spawned, List.mem_append, mem_openedTasks_iff, List.mem_map]
  constructor
  · rintro (⟨task, htask, rfl⟩ | hopened)
    · exact Or.inl ⟨task, htask, rfl⟩
    · exact Or.inr hopened
  · rintro (⟨task, htask, rfl⟩ | hopened)
    · exact Or.inl ⟨task, htask, rfl⟩
    · exact Or.inr hopened

end Groups

/-! ## The index grows -/

theorem grown_bind {α β : Type} {change : Edit α} {next : α → Edit β}
    (h : ∀ index, Grown index (change.run.run index).2)
    (hnext : ∀ value index, Grown index ((next value).run.run index).2) (index : Index) :
    Grown index ((change >>= next).run.run index).2 := by
  have hfirst := h index
  rcases hchange : change.run.run index with ⟨error | value, after⟩
  · rw [hchange] at hfirst
    rw [Edit.run_bind_of_error hchange]
    exact hfirst
  · rw [hchange] at hfirst
    rw [Edit.run_bind_of_ok hchange]
    exact hfirst.trans (hnext value after)

theorem grown_pure {α : Type} (value : α) (index : Index) :
    Grown index ((pure value : Edit α).run.run index).2 :=
  Grown.refl index

theorem grown_get_bind {β : Type} {next : Index → Edit β}
    (h : ∀ seen index, Grown index ((next seen).run.run index).2) (index : Index) :
    Grown index ((get >>= next).run.run index).2 :=
  h index index

theorem grown_lift {α : Type} {change : StateM Index α}
    (h : ∀ index, Grown index (change.run index).2) (index : Index) :
    Grown index ((ExceptT.lift change : Edit α).run.run index).2 :=
  h index

theorem grown_linkDependencies (project : ItemId) (dependencies : List Manifest.Dependency)
    (index : Index) : Grown index ((linkDependencies project dependencies).run index).2 := by
  rw [linkDependencies_eq]
  exact grown_linkFrom project 0 dependencies index

/-- No deed takes items out of the index. -/
theorem grown_deed (setting : LoadSetting) (context : LoadContext) (task : LoadTask)
    (index : Index) : Grown index ((deed setting context task).run.run index).2 := by
  have hdone : ∀ (result : Deed) (index : Index),
      Grown index ((pure result : Edit Deed).run.run index).2 := fun result => grown_pure result
  cases task <;> rw [deed]
  case discovery => split <;> exact hdone _ _
  case project =>
    split
    · exact hdone _ _
    · exact grown_bind (grown_lift (grown_registerProject _ _)) (fun _ => hdone _) index
  case projectDependencies =>
    split
    · exact hdone _ _
    · exact grown_bind (grown_lift (grown_linkDependencies _ _)) (fun _ => hdone _) index
  case archive =>
    split
    · exact hdone _ _
    · split
      · exact hdone _ _
      · exact grown_bind (grown_lift (grown_registerProject _ _)) (fun _ => hdone _) index
  case archiveEntries gated =>
    split
    · split <;> exact hdone _ _
    · exact hdone _ _
  case sourceFile =>
    split
    · exact hdone _ _
    · split
      · exact grown_bind (safe_registerPackage _ _).grown (fun _ => hdone _) index
      · exact hdone _ _
  case classes =>
    split
    · exact grown_bind (safe_registerClasses _ _).grown (fun _ => hdone _) index
    · exact hdone _ _
  case classDependencies =>
    split
    · exact grown_bind (safe_linkClasses _ _).grown (fun _ => hdone _) index
    · exact hdone _ _
  case members =>
    split
    · exact grown_bind (safe_registerMembers _ _).grown (fun _ => hdone _) index
    · exact hdone _ _
  case pseudoMethods =>
    split
    · refine grown_get_bind (fun seen => ?_) index
      exact grown_bind (safe_settleCalls _ _).grown (fun _ => hdone _)
    · exact hdone _ _
  case methodDependencies =>
    split
    · exact grown_bind (safe_linkCalls _ _ _ _).grown (fun _ => hdone _) index
    · exact hdone _ _
  case binaryPackage =>
    split
    · exact grown_bind (safe_registerPackage _ _).grown (fun _ => hdone _) index
    · exact hdone _ _
  case binaryClass =>
    split
    · exact grown_bind (safe_registerBinaryClass _ _).grown (fun _ => hdone _) index
    · exact hdone _ _
  case binaryClassDependencies =>
    split
    · exact grown_bind (safe_linkBinaryClass _ _ _).grown (fun _ => hdone _) index
    · exact hdone _ _
  case binaryMembers =>
    split
    · exact grown_bind (safe_registerBinaryMembers _ _ _).grown (fun _ => hdone _) index
    · exact hdone _ _

/-! ## Steps of a run -/

theorem inputs_ne_nil (task : LoadTask) : task.inputs ≠ [] := by
  cases task with
  | archiveEntries gated => cases gated <;> simp [LoadTask.inputs]
  | _ => simp [LoadTask.inputs]

/-- A task that has its inputs has a group. -/
theorem exists_context {pending : Pending LoadTask} {board : Board LoadContext LoadState}
    (h : setting.workflow.isEligible board pending = true) :
    ∃ context, board.groups[pending.group]? = some context ∧
      ∀ key ∈ pending.task.inputs, context.has key = true := by
  cases hcontext : board.groups[pending.group]? with
  | some context => exact ⟨context, rfl, (isEligible_iff hcontext).1 h⟩
  | none =>
    obtain ⟨key, rest, hkeys⟩ := List.exists_cons_of_ne_nil (inputs_ne_nil pending.task)
    rw [Workflow.isEligible, hcontext, Job.allBound] at h
    have hkey : key ∈ (setting.workflow.job pending.task).inputs := by
      show key ∈ (setting.job pending.task).inputs
      rw [job_inputs, hkeys]
      exact List.mem_cons_self
    have := List.all_eq_true.1 h key hkey
    simp at this

/-- Everything that a task which finished has done. -/
theorem exists_deed_of_execute {pending : Pending LoadTask} {board after : Board LoadContext LoadState}
    {outcome : Outcome LoadTask}
    (h : setting.workflow.execute pending board = (.ok outcome, after)) :
    ∃ context done, board.groups[pending.group]? = some context ∧
      (∀ key ∈ pending.task.inputs, context.has key = true) ∧
      (deed setting context pending.task).run.run board.world.index = (.ok done, after.world.index) ∧
      outcome.spawned = done.spawned pending.group board.groups.size ∧
      after.groups = done.groups pending.group board.groups := by
  have heligible : setting.workflow.isEligible board pending = true :=
    Workflow.isEligible_of_execute (congrArg Prod.fst h)
  obtain ⟨context, hcontext, hinputs⟩ := exists_context heligible
  rcases hdeed : (deed setting context pending.task).run.run board.world.index with
    ⟨error | done, index⟩
  · obtain ⟨_, hexecute, _⟩ := execute_of_deed_error hcontext heligible hdeed
    rw [hexecute] at h
    simp at h
  · obtain ⟨_, _, hexecute⟩ := execute_of_deed_ok hcontext heligible hdeed
    rw [hexecute, Prod.mk.injEq, Except.ok.injEq] at h
    obtain ⟨rfl, rfl⟩ := h
    exact ⟨context, done, hcontext, hinputs, hdeed, rfl, rfl⟩

/-- A task that has its inputs and fails has a deed that is refused. -/
theorem exists_refusal_of_execute {pending : Pending LoadTask}
    {board : Board LoadContext LoadState} {error : RunError}
    (heligible : setting.workflow.isEligible board pending = true)
    (h : (setting.workflow.execute pending board).1 = .error error) :
    ∃ context refusal, board.groups[pending.group]? = some context ∧
      (∀ key ∈ pending.task.inputs, context.has key = true) ∧
      (deed setting context pending.task).run.run board.world.index =
        (.error refusal, (setting.workflow.execute pending board).2.world.index) := by
  obtain ⟨context, hcontext, hinputs⟩ := exists_context heligible
  rcases hdeed : (deed setting context pending.task).run.run board.world.index with
    ⟨refusal | done, index⟩
  · obtain ⟨after, hexecute, hindex⟩ := execute_of_deed_error hcontext heligible hdeed
    refine ⟨context, refusal, hcontext, hinputs, ?_⟩
    rw [hexecute, hindex]
    exact hdeed
  · obtain ⟨_, _, hexecute⟩ := execute_of_deed_ok hcontext heligible hdeed
    rw [hexecute] at h
    simp at h

/-- Executing a task changes the index by its deed, or not at all. -/
theorem index_execute (setting : LoadSetting) (pending : Pending LoadTask)
    (board : Board LoadContext LoadState) :
    (setting.workflow.execute pending board).2.world.index = board.world.index ∨
      ∃ context, (setting.workflow.execute pending board).2.world.index =
        ((deed setting context pending.task).run.run board.world.index).2 := by
  by_cases heligible : setting.workflow.isEligible board pending = true
  · obtain ⟨context, hcontext, _⟩ := exists_context heligible
    refine Or.inr ⟨context, ?_⟩
    rcases hdeed : (deed setting context pending.task).run.run board.world.index with
      ⟨error | done, index⟩
    · obtain ⟨after, hexecute, hindex⟩ := execute_of_deed_error hcontext heligible hdeed
      rw [hexecute, hindex]
    · obtain ⟨_, _, hexecute⟩ := execute_of_deed_ok hcontext heligible hdeed
      rw [hexecute]
  · obtain ⟨error, hexecute⟩ := Workflow.execute_of_not_isEligible heligible
    exact Or.inl (by rw [hexecute])

/-- A run of loading tasks only lets the index grow. -/
theorem isProgress_grown (setting : LoadSetting) : setting.workflow.IsProgress
    (fun a b => Grown a.world.index b.world.index) where
  refl board := Grown.refl _
  trans hab hbc := hab.trans hbc
  step pending board := by
    rcases index_execute setting pending board with heq | ⟨context, heq⟩
    · rw [heq]
      exact Grown.refl _
    · rw [heq]
      exact grown_deed setting context pending.task board.world.index

/-! ## Contexts that fit the index -/

/-- The items that a context holds are of the right kinds, and its unit can be entered. -/
structure FitsIndex (index : Index) (context : LoadContext) : Prop where
  project : ∀ id, context.project = some id → index.IsKind id .project
  package : ∀ id, context.package = some id → index.IsKind id .package
  unit : ∀ unit, context.unit = some unit → IsRegular unit
  classes : ∀ classes, context.classes = some classes →
    ∀ entry ∈ classes, index.IsKind entry.2 .class
  binaryItem : ∀ id, context.binaryItem = some id → index.IsKind id .class

theorem FitsIndex.widen {a b : Index} {context : LoadContext} (h : FitsIndex a context)
    (hwidens : a.Widens b) : FitsIndex b context where
  project id hid := hwidens.isKind (h.project id hid)
  package id hid := hwidens.isKind (h.package id hid)
  unit := h.unit
  classes classes hclasses entry hentry := hwidens.isKind (h.classes classes hclasses entry hentry)
  binaryItem id hid := hwidens.isKind (h.binaryItem id hid)

/-- A live index and contexts that fit it. -/
structure Fits (board : Board LoadContext LoadState) : Prop where
  live : board.world.index.Live
  contexts : ∀ {group : Nat} {context : LoadContext}, board.groups[group]? = some context →
    FitsIndex board.world.index context

/-- A deed keeps the contexts fitting when it changes the own one well and opens groups well. -/
theorem Fits.step {board after : Board LoadContext LoadState} (h : Fits board)
    {group : Nat} {context : LoadContext} {done : Deed}
    (hcontext : board.groups[group]? = some context)
    (hgroups : after.groups = done.groups group board.groups) (hlive : after.world.index.Live)
    (hwidens : board.world.index.Widens after.world.index)
    (hchange : FitsIndex after.world.index (done.change context))
    (hopened : ∀ opened ∈ done.opened, FitsIndex after.world.index opened.1) : Fits after := by
  refine ⟨hlive, ?_⟩
  intro other found hfound
  rw [hgroups] at hfound
  rcases getElem?_groups_cases hfound with ⟨_, hold⟩ | ⟨rfl, before, hbefore, rfl⟩ | ⟨k, task, _, hk⟩
  · exact (h.contexts hold).widen hwidens
  · obtain rfl := Option.some.inj (hcontext.symm.trans hbefore)
    exact hchange
  · exact hopened _ (List.mem_of_getElem? hk)

end CodeAtlas.Load
