/-
# Tasks whose inputs are on their way

After all projects were linked, every input of a task that waits is bound, or another task of the group
stands before it and will bind it.  The one exception is an archive whose dependencies are not all known:
nothing that runs later opens its gate.  So what is left at the end of a run is the tasks of such archives,
and all of them.
-/
import CodeAtlas.Proofs.Load.Completion
import CodeAtlas.Proofs.Tasks.Barriers

namespace CodeAtlas.Load

open Tasks Index

variable {setting : LoadSetting} {waiting : List (Pending LoadTask)}
  {board : Board LoadContext LoadState}

/-! ## Contexts in which tasks wait -/

/-- A context of a source file that was parsed. -/
structure IsParsed (context : LoadContext) : Prop where
  unit : context.unit.isSome
  binary : context.binary = none
  binaryItem : context.binaryItem = none
  linked : context.classDependencies = true → context.classes.isSome

/-- The tasks that are not for source files leave the context of one parsed. -/
theorem IsParsed.keeps {task : LoadTask} {before after : LoadContext} (h : IsParsed before)
    (htask : task ≠ .sourceFile) (hinputs : ∀ key ∈ task.inputs, before.has key = true)
    (hkeeps : Keeps task before after) : IsParsed after := by
  have hclass : task ≠ .binaryClass := by
    rintro rfl
    have := hinputs .binary (List.mem_cons_of_mem _ List.mem_cons_self)
    rw [LoadContext.has, h.binary] at this
    simp at this
  have hitem : after.binaryItem = none := (hkeeps.binaryItem_eq hclass).trans h.binaryItem
  refine ⟨by rw [hkeeps.unit htask]; exact h.unit, hkeeps.binary.trans h.binary, hitem,
    fun hlinked => ?_⟩
  have hclasses : before.classes.isSome := by
    rcases hkeeps.classDependencies hlinked with hbefore | hbefore | ⟨_, hclasses⟩
    · exact h.linked hbefore
    · rw [h.binaryItem] at hbefore
      simp at hbefore
    · exact hclasses
  have hbound : before.has .classes = true := by
    rw [LoadContext.has, hclasses, Bool.true_or]
  have hafter := hkeeps.has .classes hbound (fun heq => absurd heq htask)
  rw [LoadContext.has, hitem, Option.isSome_none, Bool.or_false] at hafter
  exact hafter

/-- What a context is like in which a task waits, beside what the task waits for. -/
def Suits (context : LoadContext) : LoadTask → Prop
  | .archiveEntries _ => True
  | .sourceFile =>
    context.binary = none ∧ context.binaryItem = none ∧ context.classDependencies = false
  | .classes | .classDependencies | .members | .pseudoMethods | .methodDependencies =>
    IsParsed context
  | .binaryPackage | .binaryClass | .binaryClassDependencies | .binaryMembers =>
    ∃ cls, IsCompiled cls context
  | .discovery | .project | .projectDependencies | .archive => False

theorem Suits.late {context : LoadContext} {task : LoadTask} (h : Suits context task) :
    task.priority ≤ 700 := by
  cases task with
  | discovery => exact h.elim
  | project => exact h.elim
  | projectDependencies => exact h.elim
  | archive => exact h.elim
  | _ => simp [LoadTask.priority]

/-- The later stages of a group leave its context suitable for those that come after them. -/
theorem Suits.keeps {task other : LoadTask} {before after : LoadContext} (h : Suits before other)
    (hother : other.priority < 700) (htask : task ≠ .sourceFile)
    (hinputs : ∀ key ∈ task.inputs, before.has key = true) (hkeeps : Keeps task before after) :
    Suits after other := by
  have hparsed : IsParsed before → IsParsed after := fun h => h.keeps htask hinputs hkeeps
  have hcompiled : (∃ cls, IsCompiled cls before) → ∃ cls, IsCompiled cls after :=
    fun ⟨cls, hcls⟩ => ⟨cls, hcls.keeps hinputs hkeeps⟩
  cases other with
  | classes => exact hparsed h
  | classDependencies => exact hparsed h
  | members => exact hparsed h
  | pseudoMethods => exact hparsed h
  | methodDependencies => exact hparsed h
  | binaryClass => exact hcompiled h
  | binaryClassDependencies => exact hcompiled h
  | binaryMembers => exact hcompiled h
  | _ => exact absurd hother (by simp [LoadTask.priority])

/-! ## What tasks leave behind -/

/-- The tasks that follow a source file. -/
def sourceStages : List LoadTask :=
  [.classes, .classDependencies, .members, .pseudoMethods, .methodDependencies]

/-- The tasks that follow the package of a class file. -/
def binaryStages : List LoadTask :=
  [.binaryClass, .binaryClassDependencies, .binaryMembers]

/-- Whether a key is promised by a task of a list that runs before another. -/
def IsPromised (tasks : List LoadTask) (task : LoadTask) (key : LoadKey) : Prop :=
  ∃ earlier ∈ tasks, task.priority < earlier.priority ∧ key ∈ earlier.outputs

instance (tasks : List LoadTask) (task : LoadTask) (key : LoadKey) :
    Decidable (IsPromised tasks task key) :=
  inferInstanceAs (Decidable (∃ earlier ∈ tasks, _))

theorem isPromised_sourceStages : ∀ task ∈ sourceStages, ∀ key ∈ task.inputs,
    key = .package ∨ key = .unit ∨ IsPromised sourceStages task key := by
  decide

theorem isPromised_binaryStages : ∀ task ∈ binaryStages, ∀ key ∈ task.inputs,
    key = .package ∨ key = .binary ∨ IsPromised binaryStages task key := by
  decide

/-- What a task leaves behind for others: a stage binds what it promised and is followed by nothing;
what is spawned waits in a context that suits it, and its inputs are bound or promised. -/
structure Leaves (task : LoadTask) (context : LoadContext) (done : Deed) : Prop where
  stage : task.priority < 700 → done.own = [] ∧
    ∀ key ∈ task.outputs, (done.change context).has key = true
  own : ∀ other ∈ done.own, Suits (done.change context) other ∧ ∀ key ∈ other.inputs,
    (done.change context).has key = true ∨ IsPromised done.own other key
  opened : ∀ other ∈ done.opened, Suits other.1 other.2 ∧
    ∀ key ∈ other.2.inputs, other.1.has key = true

/-- A stage that binds its output. -/
theorem yields_stage {α : Type} {task : LoadTask} {context : LoadContext} (edit : Edit α)
    {change : α → LoadContext → LoadContext}
    (h : ∀ value, ∀ key ∈ task.outputs, (change value context).has key = true) :
    (edit >>= fun value => (pure { change := change value } : Edit Deed)).Yields
      (Leaves task context) :=
  Edit.yields_bind edit (fun value =>
    Edit.yields_pure ⟨fun _ => ⟨rfl, h value⟩, by simp, by simp⟩)

/-- A task of an archive or a source file that is followed by nothing in its own group. -/
theorem leaves_opened {task : LoadTask} (htask : ¬ task.priority < 700) {context : LoadContext}
    {change : LoadContext → LoadContext} {opened : List (LoadContext × LoadTask)}
    (h : ∀ other ∈ opened, Suits other.1 other.2 ∧ ∀ key ∈ other.2.inputs, other.1.has key = true) :
    Leaves task context { change := change, opened := opened } :=
  ⟨fun hstage => absurd hstage htask, by simp, h⟩

theorem leaves_sourceStages {context : LoadContext} {change : LoadContext → LoadContext}
    (hparsed : IsParsed (change context)) (hpackage : (change context).has .package = true) :
    Leaves .sourceFile context { change := change, own := sourceStages } := by
  refine ⟨fun hstage => absurd hstage (by decide), fun other hother => ⟨?_, fun key hkey => ?_⟩,
    by simp⟩
  · simp only [sourceStages, List.mem_cons, List.not_mem_nil, or_false] at hother
    rcases hother with rfl | rfl | rfl | rfl | rfl <;> exact hparsed
  · rcases isPromised_sourceStages other hother key hkey with rfl | rfl | hpromised
    · exact Or.inl hpackage
    · exact Or.inl hparsed.unit
    · exact Or.inr hpromised

theorem leaves_binaryStages {cls : BinaryClass} {context : LoadContext}
    {change : LoadContext → LoadContext} (hcompiled : IsCompiled cls (change context))
    (hpackage : (change context).has .package = true) :
    Leaves .binaryPackage context { change := change, own := binaryStages } := by
  refine ⟨fun hstage => absurd hstage (by decide), fun other hother => ⟨?_, fun key hkey => ?_⟩,
    by simp⟩
  · simp only [binaryStages, List.mem_cons, List.not_mem_nil, or_false] at hother
    rcases hother with rfl | rfl | rfl <;> exact ⟨cls, hcompiled⟩
  · rcases isPromised_binaryStages other hother key hkey with rfl | rfl | hpromised
    · exact Or.inl hpackage
    · refine Or.inl ?_
      rw [LoadContext.has, hcompiled.binary]
      rfl
    · exact Or.inr hpromised

/-- A file that was read and has no errors is parsed. -/
theorem isParsed_parsed {context : LoadContext} {path : String} {unit : Source.CompilationUnit}
    (h : Suits context .sourceFile) (hunit : sourceUnit? setting context path = some unit)
    (package : ItemId) :
    IsParsed { parsed setting context path context with package := some package } := by
  have htext : (sourceText? setting context path).isSome := by
    obtain ⟨hmap, _⟩ := Option.filter_eq_some_iff.1 hunit
    obtain ⟨text, htext, _⟩ := Option.map_eq_some_iff.1 hmap
    rw [htext]
    rfl
  obtain ⟨hbinary, hitem, hlinked⟩ := h
  rw [parsed, if_pos htext]
  refine ⟨?_, hbinary, hitem, fun hafter => ?_⟩
  · show (sourceUnit? setting context path).isSome
    rw [hunit]
    rfl
  · rw [show context.classDependencies = true from hafter] at hlinked
    simp at hlinked

theorem yields_leaves_archiveEntries (setting : LoadSetting) (context : LoadContext) (gated : Bool) :
    (deed setting context (.archiveEntries gated)).Yields
      (Leaves (.archiveEntries gated) context) := by
  rw [deed]
  split
  · split
    · exact Edit.yields_pure (leaves_opened (by simp [LoadTask.priority]) (by simp))
    · refine Edit.yields_pure (leaves_opened (by simp [LoadTask.priority]) ?_)
      intro other hother
      obtain ⟨entry, _, hentry⟩ := List.mem_flatMap.1 hother
      rcases entryGroups_cases hentry with ⟨cls, _, rfl⟩ | ⟨text, rfl⟩
      · exact ⟨⟨cls, rfl, rfl, rfl, rfl, by simp⟩, by simp [LoadTask.inputs, LoadContext.has]⟩
      · exact ⟨⟨rfl, rfl, rfl⟩, by simp [LoadTask.inputs, LoadContext.has]⟩
  · exact Edit.yields_pure (leaves_opened (by simp [LoadTask.priority]) (by simp))

theorem yields_leaves_sourceFile {context : LoadContext} (hsuits : Suits context .sourceFile) :
    (deed setting context .sourceFile).Yields (Leaves .sourceFile context) := by
  rw [deed]
  split
  · exact Edit.yields_pure (leaves_opened (by decide) (by simp))
  · split
    · rename_i hunit
      exact Edit.yields_bind _ (fun package =>
        Edit.yields_pure (leaves_sourceStages (isParsed_parsed hsuits hunit _) rfl))
    · exact Edit.yields_pure (leaves_opened (by decide) (by simp))

/-- What every later task leaves behind. -/
theorem yields_leaves (setting : LoadSetting) {context : LoadContext} {task : LoadTask}
    (hsuits : Suits context task) (hinputs : ∀ key ∈ task.inputs, context.has key = true) :
    (deed setting context task).Yields (Leaves task context) := by
  cases task with
  | discovery => exact hsuits.elim
  | project => exact hsuits.elim
  | projectDependencies => exact hsuits.elim
  | archive => exact hsuits.elim
  | archiveEntries gated => exact yields_leaves_archiveEntries setting context gated
  | sourceFile => exact yields_leaves_sourceFile hsuits
  | binaryPackage =>
    obtain ⟨cls, hcompiled⟩ := hsuits
    obtain ⟨project, hproject⟩ := Option.isSome_iff_exists.1 (hinputs .project List.mem_cons_self)
    simp only [deed, hproject, hcompiled.binary]
    exact Edit.yields_bind _ (fun package => Edit.yields_pure (leaves_binaryStages
      ⟨hcompiled.binary, hcompiled.source, hcompiled.unit, hcompiled.classes, hcompiled.item⟩ rfl))
  | classes =>
    obtain ⟨package, hpackage⟩ := Option.isSome_iff_exists.1 (hinputs .package List.mem_cons_self)
    obtain ⟨unit, hunit⟩ := Option.isSome_iff_exists.1 hsuits.unit
    simp only [deed, hpackage, hunit]
    exact yields_stage _ (by simp [LoadTask.outputs, LoadContext.has])
  | classDependencies =>
    have hclasses := hinputs .classes List.mem_cons_self
    rw [LoadContext.has, hsuits.binaryItem, Option.isSome_none, Bool.or_false] at hclasses
    obtain ⟨classes, hclasses⟩ := Option.isSome_iff_exists.1 hclasses
    obtain ⟨unit, hunit⟩ := Option.isSome_iff_exists.1 hsuits.unit
    simp only [deed, hclasses, hunit]
    exact yields_stage _ (by simp [LoadTask.outputs, LoadContext.has])
  | members =>
    obtain ⟨classes, hclasses⟩ := Option.isSome_iff_exists.1
      (hsuits.linked (hinputs .classDependencies List.mem_cons_self))
    obtain ⟨unit, hunit⟩ := Option.isSome_iff_exists.1 hsuits.unit
    simp only [deed, hclasses, hunit]
    exact yields_stage _ (by simp [LoadTask.outputs, LoadContext.has])
  | pseudoMethods =>
    obtain ⟨unit, hunit⟩ := Option.isSome_iff_exists.1 hsuits.unit
    simp only [deed, hunit]
    exact Edit.yields_bind _ (fun _ => yields_stage _ (by simp [LoadTask.outputs, LoadContext.has]))
  | methodDependencies =>
    obtain ⟨calls, hcalls⟩ := Option.isSome_iff_exists.1 (hinputs .pseudoMethods List.mem_cons_self)
    obtain ⟨unit, hunit⟩ := Option.isSome_iff_exists.1 hsuits.unit
    simp only [deed, hcalls, hunit]
    exact yields_stage _ (by simp [LoadTask.outputs, LoadContext.has])
  | binaryClass =>
    obtain ⟨cls, hcompiled⟩ := hsuits
    obtain ⟨package, hpackage⟩ := Option.isSome_iff_exists.1 (hinputs .package List.mem_cons_self)
    simp only [deed, hpackage, hcompiled.binary]
    exact yields_stage _ (by simp [LoadTask.outputs, LoadContext.has])
  | binaryClassDependencies =>
    obtain ⟨cls, hcompiled⟩ := hsuits
    have hitem := hinputs .classes List.mem_cons_self
    rw [LoadContext.has, hcompiled.classes, Option.isSome_none, Bool.false_or] at hitem
    obtain ⟨item, hitem⟩ := Option.isSome_iff_exists.1 hitem
    simp only [deed, hitem, hcompiled.binary]
    exact yields_stage _ (by simp [LoadTask.outputs, LoadContext.has])
  | binaryMembers =>
    obtain ⟨cls, hcompiled⟩ := hsuits
    obtain ⟨item, hitem⟩ := Option.isSome_iff_exists.1
      (hcompiled.item (hinputs .classDependencies List.mem_cons_self))
    simp only [deed, hitem, hcompiled.binary]
    exact yields_stage _ (by simp [LoadTask.outputs, LoadContext.has])

/-! ## Supply -/

/-- Every input of a task that waits is bound, or promised by a task of its group that runs before it,
or is the gate of an archive.  Tasks share a group only when they are stages of it. -/
structure Supplied (waiting : List (Pending LoadTask)) (board : Board LoadContext LoadState) :
    Prop where
  priority : ∀ pending ∈ waiting, pending.priority = pending.task.priority
  apart : waiting.Pairwise (fun a b => a.group = b.group →
    a.task.priority < 700 ∧ b.task.priority < 700)
  inputs : ∀ pending ∈ waiting, ∃ context, board.groups[pending.group]? = some context ∧
    Suits context pending.task ∧ ∀ key ∈ pending.task.inputs, context.has key = true ∨
      key = .dependenciesLoaded ∨ ∃ other ∈ waiting, other.group = pending.group ∧
        pending.priority < other.priority ∧ key ∈ other.task.outputs

theorem Supplied.late (h : Supplied waiting board) :
    ∀ pending ∈ waiting, pending.task.priority ≤ 700 := by
  intro pending hpending
  obtain ⟨_, _, hsuits, _⟩ := h.inputs pending hpending
  exact hsuits.late

theorem Supplied.perm {others : List (Pending LoadTask)} (h : Supplied waiting board)
    (hperm : waiting.Perm others) : Supplied others board := by
  refine ⟨fun pending hpending => h.priority pending (hperm.mem_iff.2 hpending), ?_, ?_⟩
  · exact hperm.pairwise h.apart (fun hab heq => (hab heq.symm).symm)
  · intro pending hpending
    obtain ⟨context, hcontext, hsuits, hkeys⟩ := h.inputs pending (hperm.mem_iff.2 hpending)
    refine ⟨context, hcontext, hsuits, fun key hkey => (hkeys key hkey).imp_right
      (Or.imp_right ?_)⟩
    rintro ⟨other, hother, hpromise⟩
    exact ⟨other, hperm.mem_iff.1 hother, hpromise⟩

/-- A task waits for dependencies of its archive that are not known. -/
def isStuck (board : Board LoadContext LoadState) (pending : Pending LoadTask) : Bool :=
  pending.task == .archiveEntries true &&
    (board.groups[pending.group]?).any (fun context => !context.dependenciesLoaded)

/-- Only the tasks of archives need open gates. -/
theorem eq_archiveEntries_of_mem_inputs {task : LoadTask}
    (h : .dependenciesLoaded ∈ task.inputs) : task = .archiveEntries true := by
  cases task with
  | archiveEntries gated =>
    cases gated with
    | false => simp [LoadTask.inputs] at h
    | true => rfl
  | _ => simp [LoadTask.inputs] at h

section Steps

variable {first : Pending LoadTask} {rest : List (Pending LoadTask)}
  {after : Board LoadContext LoadState} {outcome : Outcome LoadTask}

/-- What a deed spawns shares no group, but for the stages of the own one. -/
theorem pairwise_spawned {done : Deed} {group size : Nat}
    (hown : ∀ other ∈ done.own, other.priority ≤ 600) (hgroup : group < size) :
    (done.spawned group size).Pairwise (fun a b => a.group = b.group →
      a.task.priority < 700 ∧ b.task.priority < 700) := by
  have hlow : ∀ pending ∈ done.own.map (fun task => (⟨task.priority, task, group⟩ :
      Pending LoadTask)), pending.task.priority < 700 ∧ pending.group = group := by
    intro pending hpending
    obtain ⟨task, htask, rfl⟩ := List.mem_map.1 hpending
    have := hown task htask
    dsimp only
    omega
  rw [Deed.spawned, List.pairwise_append]
  refine ⟨?_, ?_, ?_⟩
  · exact List.pairwise_of_forall_mem_list (fun a ha b hb _ => ⟨(hlow a ha).1, (hlow b hb).1⟩)
  · exact (pairwise_openedTasks size done.opened).imp (fun hne heq => absurd heq hne)
  · intro a ha b hb heq
    obtain ⟨k, context, task, _, rfl⟩ := mem_openedTasks_iff.1 hb
    have := (hlow a ha).2
    dsimp only at heq
    omega

/-- What still waits stays supplied. -/
theorem Supplied.old_after {pending : Pending LoadTask} (h : Supplied (first :: rest) board)
    {context : LoadContext} {done : Deed} (spawned : List (Pending LoadTask))
    (hcontext : board.groups[first.group]? = some context)
    (hinputs : ∀ key ∈ first.task.inputs, context.has key = true)
    (hkeeps : Keeps first.task context (done.change context))
    (hleaves : Leaves first.task context done) (hold : pending ∈ rest) :
    ∃ later, (done.groups first.group board.groups)[pending.group]? = some later ∧
      Suits later pending.task ∧ ∀ key ∈ pending.task.inputs, later.has key = true ∨
        key = .dependenciesLoaded ∨ ∃ other ∈ spawned ++ rest, other.group = pending.group ∧
          pending.priority < other.priority ∧ key ∈ other.task.outputs := by
  obtain ⟨known, hknown, hsuits, hkeys⟩ := h.inputs pending (List.mem_cons_of_mem _ hold)
  rcases context_after done hcontext hknown with ⟨hne, hsame⟩ | ⟨heq, rfl, hchanged⟩
  · -- what it waits for is promised by tasks of its own group, and `first` is of another
    refine ⟨known, hsame, hsuits, fun key hkey => (hkeys key hkey).imp_right (Or.imp_right ?_)⟩
    rintro ⟨other, hother, hgroup, hpromise⟩
    rcases List.mem_cons.1 hother with rfl | hother
    · exact absurd hgroup.symm hne
    · exact ⟨other, List.mem_append_right _ hother, hgroup, hpromise⟩
  · obtain ⟨hstage, hlow⟩ := (List.pairwise_cons.1 h.apart).1 pending hold heq.symm
    have htask : first.task ≠ .sourceFile := by
      intro hfile
      rw [hfile] at hstage
      simp [LoadTask.priority] at hstage
    refine ⟨_, hchanged, hsuits.keeps hlow htask hinputs hkeeps, fun key hkey => ?_⟩
    rcases hkeys key hkey with hbound | hgate | ⟨other, hother, hgroup, hlt, hpromise⟩
    · exact Or.inl (hkeeps.has key hbound (fun hfile => absurd hfile htask))
    · exact Or.inr (Or.inl hgate)
    · rcases List.mem_cons.1 hother with rfl | hother
      · -- it was `first` that promised the input, and has bound it
        exact Or.inl ((hleaves.stage hstage).2 key hpromise)
      · exact Or.inr (Or.inr ⟨other, List.mem_append_right _ hother, hgroup, hlt, hpromise⟩)

/-- What a task leaves behind is supplied. -/
theorem Leaves.new_after {pending : Pending LoadTask} {context : LoadContext} {done : Deed}
    {task : LoadTask} (hleaves : Leaves task context done) (rest : List (Pending LoadTask))
    {group : Nat} {groups : Array LoadContext} (hcontext : groups[group]? = some context)
    (hnew : pending ∈ done.spawned group groups.size) :
    ∃ later, (done.groups group groups)[pending.group]? = some later ∧
      Suits later pending.task ∧ ∀ key ∈ pending.task.inputs, later.has key = true ∨
        key = .dependenciesLoaded ∨ ∃ other ∈ done.spawned group groups.size ++ rest,
          other.group = pending.group ∧ pending.priority < other.priority ∧
            key ∈ other.task.outputs := by
  rcases mem_spawned_iff.1 hnew with ⟨task, htask, rfl⟩ | ⟨k, opened, task, hk, rfl⟩
  · obtain ⟨hsuits, hkeys⟩ := hleaves.own task htask
    refine ⟨_, getElem?_groups_self hcontext, hsuits, fun key hkey =>
      (hkeys key hkey).imp_right (fun hpromised => ?_)⟩
    obtain ⟨earlier, hearlier, hlt, hkey⟩ := hpromised
    exact Or.inr ⟨⟨earlier.priority, earlier, group⟩,
      List.mem_append_left _ (mem_spawned_own hearlier _ _), rfl, hlt, hkey⟩
  · obtain ⟨hsuits, hkeys⟩ := hleaves.opened _ (List.mem_of_getElem? hk)
    exact ⟨opened, getElem?_groups_opened hk, hsuits, fun key hkey => Or.inl (hkeys key hkey)⟩

/-- A task that finishes keeps everything supplied. -/
theorem Supplied.step (h : Supplied (first :: rest) board)
    (hexecute : setting.workflow.execute first board = (.ok outcome, after)) :
    Supplied (outcome.spawned ++ rest) after := by
  have hlate := h.late first List.mem_cons_self
  obtain ⟨context, done, hcontext, hinputs, hdeed, hspawned, hgroups, hconducts⟩ :=
    exists_conduct_of_execute hlate hexecute
  obtain ⟨found, hfound, hsuits, _⟩ := h.inputs first List.mem_cons_self
  obtain rfl := Option.some.inj (hfound.symm.trans hcontext)
  have hleaves := yields_leaves setting hsuits hinputs _ _ (congrArg Prod.fst hdeed)
  have hgroup : first.group < board.groups.size := (Array.getElem?_eq_some_iff.1 hcontext).1
  have hapart := List.pairwise_cons.1 h.apart
  refine ⟨priority_after hlate h.priority hexecute, ?_, ?_⟩
  · rw [hspawned, List.pairwise_append]
    refine ⟨pairwise_spawned hconducts.own hgroup, hapart.2, ?_⟩
    intro new hnew old hold heq
    obtain ⟨_, hplace, _⟩ := h.inputs old (List.mem_cons_of_mem _ hold)
    have hlt := (Array.getElem?_eq_some_iff.1 hplace).1
    rcases mem_spawned_iff.1 hnew with ⟨task, htask, rfl⟩ | ⟨k, opened, task, _, rfl⟩
    · -- only what is no stage is followed by tasks of its group, and it has the group for itself
      have hstage := (hapart.1 old hold heq).1
      rw [(hleaves.stage hstage).1] at htask
      simp at htask
    · dsimp only at heq
      omega
  · intro pending hpending
    rw [hgroups]
    rcases List.mem_append.1 hpending with hnew | hold
    · rw [hspawned] at hnew ⊢
      exact hleaves.new_after rest hcontext hnew
    · exact h.old_after outcome.spawned hcontext hinputs hconducts.keeps hleaves hold

/-- Nothing that runs opens or closes the gate of an archive. -/
theorem Supplied.countP_isStuck_step (h : Supplied (first :: rest) board)
    (hexecute : setting.workflow.execute first board = (.ok outcome, after)) :
    (outcome.spawned ++ rest).countP (isStuck after) = (first :: rest).countP (isStuck board) := by
  have hlate := h.late first List.mem_cons_self
  obtain ⟨context, done, hcontext, hinputs, _, hspawned, _, hconducts⟩ :=
    exists_conduct_of_execute hlate hexecute
  have hnew : outcome.spawned.countP (isStuck after) = 0 := by
    rw [List.countP_eq_zero]
    intro pending hpending
    rw [hspawned] at hpending
    have hne := (hconducts.spawned hpending).2.2 true
    simp [isStuck, hne]
  have hfirst : ¬ isStuck board first = true := by
    intro hstuck
    rw [isStuck, Bool.and_eq_true, beq_iff_eq, hcontext] at hstuck
    have hloaded := hinputs .dependenciesLoaded (by rw [hstuck.1]; simp [LoadTask.inputs])
    have hclosed := hstuck.2
    rw [LoadContext.has] at hloaded
    simp [hloaded] at hclosed
  rw [List.countP_append, hnew, Nat.zero_add, List.countP_cons_of_neg hfirst]
  refine List.countP_congr (fun pending hpending => ?_)
  obtain ⟨known, hknown, _⟩ := h.inputs pending (List.mem_cons_of_mem _ hpending)
  obtain ⟨later, hlater, hsame⟩ := exists_kept hlate hexecute hknown
  have hloaded : later.dependenciesLoaded = known.dependenciesLoaded := by
    rcases hsame with rfl | ⟨_, hkeeps⟩
    · rfl
    · exact hkeeps.dependenciesLoaded
  rw [isStuck, isStuck, hknown, hlater, Option.any_some, Option.any_some, hloaded]

end Steps

theorem isInvariant_supplied (setting : LoadSetting) (n : Nat) :
    setting.workflow.IsInvariant (fun waiting board =>
      Supplied waiting board ∧ waiting.countP (isStuck board) = n) where
  perm hperm h := ⟨h.1.perm hperm, (hperm.countP_eq _).symm.trans h.2⟩
  step h hexecute := ⟨h.1.step hexecute, (h.1.countP_isStuck_step hexecute).trans h.2⟩

/-- Where nothing can run, everything that waits does so for dependencies of its archive. -/
theorem Supplied.isStuck_of_end (h : Supplied waiting board)
    (hend : ∀ pending ∈ waiting, ¬ setting.workflow.isEligible board pending = true)
    {pending : Pending LoadTask} (hpending : pending ∈ waiting) : isStuck board pending = true := by
  -- a task waits for none that is stuck, since those promise nothing
  induction hrank : (700 - pending.priority).toNat using Nat.strongRecOn generalizing pending with
  | _ rank ih =>
    obtain ⟨context, hcontext, hsuits, hkeys⟩ := h.inputs pending hpending
    have hsupply : ∀ key ∈ pending.task.inputs,
        context.has key = true ∨ key = .dependenciesLoaded := by
      intro key hkey
      rcases hkeys key hkey with hbound | hgate | ⟨other, hother, _, hlt, hpromise⟩
      · exact Or.inl hbound
      · exact Or.inr hgate
      · have hlate := h.late other hother
        rw [← h.priority other hother] at hlate
        have hstuck := ih _ (by omega) hother rfl
        rw [isStuck, Bool.and_eq_true, beq_iff_eq] at hstuck
        rw [hstuck.1] at hpromise
        simp [LoadTask.outputs] at hpromise
    by_cases hopen : context.dependenciesLoaded = true
    · refine absurd ((isEligible_iff hcontext).2 (fun key hkey => ?_)) (hend pending hpending)
      rcases hsupply key hkey with hbound | rfl
      · exact hbound
      · exact hopen
    · have hgate : .dependenciesLoaded ∈ pending.task.inputs := by
        by_contra hnone
        refine hend pending hpending ((isEligible_iff hcontext).2 (fun key hkey => ?_))
        rcases hsupply key hkey with hbound | rfl
        · exact hbound
        · exact absurd hkey hnone
      rw [isStuck, hcontext, Option.any_some, Bool.and_eq_true, beq_iff_eq, Bool.not_eq_true']
      exact ⟨eq_archiveEntries_of_mem_inputs hgate, Bool.eq_false_iff.2 hopen⟩

/-- A run in which everything is supplied ends with the tasks that were stuck in the beginning, in
whatever order its bands are executed. -/
theorem Supplied.stalled_eq {list final : TaskList LoadTask LoadContext LoadState}
    {sweeps : List (Sweep setting.workflow)} {report : Report}
    (h : Supplied list.waiting list.board)
    (hsweeps : TaskList.Sweeps setting.workflow list sweeps (.ok report, final)) :
    report.stalled = list.report.stalled ++
      List.replicate (list.waiting.countP (isStuck list.board)) "load archive entries" := by
  obtain ⟨left, ⟨hsupplied, hcount⟩, hend, hstalled⟩ := hsweeps.exists_stalled
    (isInvariant_supplied setting (list.waiting.countP (isStuck list.board))) rfl ⟨h, rfl⟩
  have hstuck := fun pending hpending => @Supplied.isStuck_of_end setting _ _ hsupplied hend pending hpending
  rw [hstalled, ← hcount, List.countP_eq_length.2 hstuck]
  congr 1
  refine List.eq_replicate_iff.2 ⟨List.length_map _, fun name hname => ?_⟩
  obtain ⟨pending, hpending, rfl⟩ := List.mem_map.1 hname
  have htask := hstuck pending hpending
  rw [isStuck, Bool.and_eq_true, beq_iff_eq] at htask
  rw [Workflow.nameOf, htask.1]
  rfl

end CodeAtlas.Load
