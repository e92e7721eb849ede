/-
# How later tasks behave

The tasks that run after all projects were linked have priorities of 700 and less.  They leave the
parts of a context alone that say where the group came from, and open groups only for the entries of
archives.  They are refused only for names in class files.
-/
import CodeAtlas.Proofs.Load.Gates

namespace CodeAtlas.Load

open Tasks Index Source

variable {setting : LoadSetting}

/-! ## Class files -/

/-- The class files of an archive. -/
def classFiles (content : Archive) : List BinaryClass :=
  (entriesByName content).filterMap fun entry =>
    match entryContent? content entry with
    | some (.binary cls) => some cls
    | _ => none

theorem mem_classFiles_iff {content : Archive} {cls : BinaryClass} :
    cls ∈ classFiles content ↔ ∃ entry ∈ entriesByName content,
      entryContent? content entry = some (.binary cls) := by
  rw [classFiles, List.mem_filterMap]
  refine exists_congr (fun entry => and_congr_right (fun _ => ?_))
  constructor
  · intro h
    split at h
    · rename_i hcontent
      rw [hcontent, Option.some.inj h]
    · simp at h
  · intro h
    rw [h]

/-- The groups of an archive are for its class files and sources. -/
theorem entryGroups_cases {path : String} {project : ItemId} {content : Archive}
    {entry : ArchiveEntry} {opened : LoadContext × LoadTask}
    (h : opened ∈ entryGroups path project content entry) :
    (∃ cls, entryContent? content entry = some (.binary cls) ∧
        opened = ({ project := some project, binary := some cls }, .binaryPackage)) ∨
      ∃ text, opened = ({ project := some project
                          source := some (path ++ "!/" ++ entry.name)
                          sourceText := some text }, .sourceFile) := by
  rw [entryGroups] at h
  split at h
  · rename_i cls hcontent
    exact Or.inl ⟨cls, hcontent, List.mem_singleton.1 h⟩
  · rename_i text _
    exact Or.inr ⟨text, List.mem_singleton.1 h⟩
  · simp at h

/-! ## What stays in a context -/

/-- What a later task leaves alone in the context of its group, and what it may add. -/
structure Keeps (task : LoadTask) (before after : LoadContext) : Prop where
  archive : after.archive = before.archive
  project : after.project = before.project
  dependenciesLoaded : after.dependenciesLoaded = before.dependenciesLoaded
  source : after.source = before.source
  binary : after.binary = before.binary
  sourceText : before.sourceText = none → after.sourceText = none
  unit : task ≠ .sourceFile → after.unit = before.unit
  package : task ≠ .sourceFile → task ≠ .binaryPackage → after.package = before.package
  classes : task ≠ .classes → after.classes = before.classes
  binaryItem_eq : task ≠ .binaryClass → after.binaryItem = before.binaryItem
  binaryItem : before.binaryItem.isSome → after.binaryItem.isSome
  classDependencies : after.classDependencies = true → before.classDependencies = true ∨
    before.binaryItem.isSome ∨ (before.unit.isSome ∧ before.classes.isSome)
  has : ∀ key, before.has key = true → (task = .sourceFile → key ≠ .sourceText ∧ key ≠ .unit) →
    after.has key = true

theorem Keeps.refl (task : LoadTask) (context : LoadContext) : Keeps task context context where
  archive := rfl
  project := rfl
  dependenciesLoaded := rfl
  source := rfl
  binary := rfl
  sourceText h := h
  unit _ := rfl
  package _ _ := rfl
  classes _ := rfl
  binaryItem_eq _ := rfl
  binaryItem h := h
  classDependencies h := Or.inl h
  has _ h _ := h

/-- What a later task does beside changing the index. -/
structure Conducts (setting : LoadSetting) (task : LoadTask) (context : LoadContext)
    (done : Deed) : Prop where
  keeps : Keeps task context (done.change context)
  own : ∀ other ∈ done.own, other.priority ≤ 600
  opened : ∀ other ∈ done.opened, other.2 = .sourceFile ∨ other.2 = .binaryPackage
  archive : ∀ other ∈ done.opened, other.1.archive = none
  binary : ∀ other ∈ done.opened, ∀ cls, other.1.binary = some cls → ∃ gated path content,
    task = .archiveEntries gated ∧ context.archive = some path ∧
      setting.disk.archive? path = some content ∧ cls ∈ classFiles content

theorem conducts_default (task : LoadTask) (context : LoadContext) :
    Conducts setting task context {} :=
  ⟨Keeps.refl task context, by simp, by simp, by simp, by simp⟩

theorem yields_idle (task : LoadTask) (context : LoadContext) :
    (pure {} : Edit Deed).Yields (Conducts setting task context) :=
  Edit.yields_pure (conducts_default task context)

/-- A task that opens no groups. -/
theorem conducts_change {task : LoadTask} {context : LoadContext}
    {change : LoadContext → LoadContext} (h : Keeps task context (change context)) :
    Conducts setting task context { change := change } :=
  ⟨h, by simp, by simp, by simp, by simp⟩

/-- A task that edits the index and notes in its context what came of it. -/
theorem yields_change {α : Type} (act : Edit α) {task : LoadTask} {context : LoadContext}
    {change : α → LoadContext → LoadContext}
    (h : ∀ value, Keeps task context (change value context)) :
    (do let value ← act; return { change := change value } : Edit Deed).Yields
      (Conducts setting task context) :=
  Edit.yields_bind act (fun value => Edit.yields_pure (conducts_change (h value)))

/-- What a task leaves behind for others of the same unit or class file, without taking anything
back. -/
theorem keeps_results (task : LoadTask) (context : LoadContext) {linked settled : Bool}
    {methods : Option (List (Nat × ItemId))} {calls : Option (List CallSite)}
    (hfresh : linked = true → context.classDependencies = true ∨
      context.binaryItem.isSome ∨ (context.unit.isSome ∧ context.classes.isSome))
    (hlinked : context.classDependencies = true → linked = true)
    (hmethods : context.methods.isSome → methods.isSome)
    (hcalls : context.calls.isSome → calls.isSome)
    (hsettled : context.methodDependencies = true → settled = true) :
    Keeps task context { context with
      classDependencies := linked, methods := methods, calls := calls,
      methodDependencies := settled } := by
  refine ⟨rfl, rfl, rfl, rfl, rfl, id, fun _ => rfl, fun _ _ => rfl, fun _ => rfl, fun _ => rfl, id,
    hfresh, ?_⟩
  intro key hkey _
  cases key with
  | classDependencies => exact hlinked hkey
  | methods => exact hmethods hkey
  | pseudoMethods => exact hcalls hkey
  | methodDependencies => exact hsettled hkey
  | _ => exact hkey

/-! ## Archives -/

theorem conducts_entries {context : LoadContext} {gated : Bool} {path : String}
    {project : ItemId} {content : Archive} (harchive : context.archive = some path)
    (hcontent : setting.disk.archive? path = some content) :
    Conducts setting (.archiveEntries gated) context
      { opened := (entriesByName content).flatMap (entryGroups path project content) } := by
  refine ⟨Keeps.refl _ _, by simp, ?_, ?_, ?_⟩
  · intro other hother
    obtain ⟨entry, _, hentry⟩ := List.mem_flatMap.1 hother
    rcases entryGroups_cases hentry with ⟨_, _, rfl⟩ | ⟨_, rfl⟩
    · exact Or.inr rfl
    · exact Or.inl rfl
  · intro other hother
    obtain ⟨entry, _, hentry⟩ := List.mem_flatMap.1 hother
    rcases entryGroups_cases hentry with ⟨_, _, rfl⟩ | ⟨_, rfl⟩ <;> rfl
  · intro other hother cls hcls
    obtain ⟨entry, hmem, hentry⟩ := List.mem_flatMap.1 hother
    rcases entryGroups_cases hentry with ⟨found, hfound, rfl⟩ | ⟨_, rfl⟩
    · obtain rfl := Option.some.inj hcls
      exact ⟨gated, path, content, rfl, harchive, hcontent,
        mem_classFiles_iff.2 ⟨entry, hmem, hfound⟩⟩
    · simp at hcls

theorem conducts_archiveEntries (context : LoadContext) (gated : Bool) :
    (deed setting context (.archiveEntries gated)).Yields
      (Conducts setting (.archiveEntries gated) context) := by
  rw [deed]
  split
  · rename_i path project harchive _
    split
    · exact yields_idle _ _
    · rename_i content hcontent
      exact Edit.yields_pure (conducts_entries harchive hcontent)
  · exact yields_idle _ _

/-! ## Source files -/

theorem keeps_parsed (setting : LoadSetting) (context : LoadContext) (path : String) :
    Keeps .sourceFile context (parsed setting context path context) := by
  rw [parsed]
  split
  · refine ⟨rfl, rfl, rfl, rfl, rfl, fun _ => rfl, by simp, by simp, by simp, by simp, id, Or.inl,
      ?_⟩
    intro key hkey hne
    cases key <;> simp_all [LoadContext.has]
  · exact Keeps.refl _ _

/-- The task of a source file may enter the package, too. -/
theorem Keeps.enter {context after : LoadContext} (h : Keeps .sourceFile context after)
    (package : ItemId) : Keeps .sourceFile context { after with package := some package } := by
  refine ⟨h.archive, h.project, h.dependenciesLoaded, h.source, h.binary, h.sourceText,
    fun hne => absurd rfl hne, fun hne => absurd rfl hne, h.classes, h.binaryItem_eq, h.binaryItem,
    h.classDependencies, ?_⟩
  intro key hkey hne
  have hafter := h.has key hkey hne
  cases key <;> first | rfl | exact hafter

theorem conducts_sourceFile (context : LoadContext) :
    (deed setting context .sourceFile).Yields (Conducts setting .sourceFile context) := by
  rw [deed]
  split
  · exact yields_idle _ _
  · rename_i path _
    have hparsed := keeps_parsed setting context path
    split
    · refine Edit.yields_bind _ (fun package => Edit.yields_pure
        ⟨hparsed.enter package.1, ?_, by simp, by simp, by simp⟩)
      simp [LoadTask.priority]
    · exact Edit.yields_pure (conducts_change hparsed)

theorem conducts_classes (context : LoadContext) :
    (deed setting context .classes).Yields (Conducts setting .classes context) := by
  rw [deed]
  split
  · refine yields_change _ (fun classes => ?_)
    refine ⟨rfl, rfl, rfl, rfl, rfl, id, fun _ => rfl, fun _ _ => rfl, fun hne => absurd rfl hne,
      fun _ => rfl, id, Or.inl, ?_⟩
    intro key hkey _
    cases key <;> first | rfl | exact hkey
  · exact yields_idle _ _

theorem conducts_classDependencies (context : LoadContext) :
    (deed setting context .classDependencies).Yields
      (Conducts setting .classDependencies context) := by
  rw [deed]
  split
  · rename_i unit classes hunit hclasses
    refine yields_change _ (fun _ => keeps_results _ _ (fun _ => ?_) (fun _ => rfl) id id id)
    rw [hunit, hclasses]
    exact Or.inr (Or.inr ⟨rfl, rfl⟩)
  · exact yields_idle _ _

theorem conducts_members (context : LoadContext) :
    (deed setting context .members).Yields (Conducts setting .members context) := by
  rw [deed]
  split
  · exact yields_change _ (fun _ => keeps_results _ _ Or.inl id (fun _ => rfl) id id)
  · exact yields_idle _ _

theorem conducts_pseudoMethods (context : LoadContext) :
    (deed setting context .pseudoMethods).Yields (Conducts setting .pseudoMethods context) := by
  rw [deed]
  split
  · exact Edit.yields_bind _ (fun _ =>
      yields_change _ (fun _ => keeps_results _ _ Or.inl id id (fun _ => rfl) id))
  · exact yields_idle _ _

theorem conducts_methodDependencies (context : LoadContext) :
    (deed setting context .methodDependencies).Yields
      (Conducts setting .methodDependencies context) := by
  rw [deed]
  split
  · exact yields_change _ (fun _ => keeps_results _ _ Or.inl id id id (fun _ => rfl))
  · exact yields_idle _ _

/-! ## Tasks of class files -/

theorem conducts_binaryPackage (context : LoadContext) :
    (deed setting context .binaryPackage).Yields (Conducts setting .binaryPackage context) := by
  rw [deed]
  split
  · refine Edit.yields_bind _ (fun package => Edit.yields_pure ⟨?_, ?_, by simp, by simp, by simp⟩)
    · refine ⟨rfl, rfl, rfl, rfl, rfl, id, fun _ => rfl, fun _ hne => absurd rfl hne, fun _ => rfl,
        fun _ => rfl, id, Or.inl, ?_⟩
      intro key hkey _
      cases key <;> first | rfl | exact hkey
    · simp [LoadTask.priority]
  · exact yields_idle _ _

theorem conducts_binaryClass (context : LoadContext) :
    (deed setting context .binaryClass).Yields (Conducts setting .binaryClass context) := by
  rw [deed]
  split
  · refine yields_change _ (fun cls => ?_)
    refine ⟨rfl, rfl, rfl, rfl, rfl, id, fun _ => rfl, fun _ _ => rfl, fun _ => rfl,
      fun hne => absurd rfl hne, fun _ => rfl, Or.inl, ?_⟩
    intro key hkey _
    cases key <;> first | exact hkey | simp [LoadContext.has]
  · exact yields_idle _ _

theorem conducts_binaryClassDependencies (context : LoadContext) :
    (deed setting context .binaryClassDependencies).Yields
      (Conducts setting .binaryClassDependencies context) := by
  rw [deed]
  split
  · rename_i binary cls hbinary hcls
    refine yields_change _ (fun _ => keeps_results _ _ (fun _ => ?_) (fun _ => rfl) id id id)
    rw [hcls]
    exact Or.inr (Or.inl rfl)
  · exact yields_idle _ _

theorem conducts_binaryMembers (context : LoadContext) :
    (deed setting context .binaryMembers).Yields (Conducts setting .binaryMembers context) := by
  rw [deed]
  split
  · exact yields_change _ (fun _ => keeps_results _ _ Or.inl id (fun _ => rfl) id id)
  · exact yields_idle _ _

/-! ## All later tasks -/

/-- Every later task conducts itself so. -/
theorem yields_conducts (setting : LoadSetting) (context : LoadContext) {task : LoadTask}
    (hlate : task.priority ≤ 700) :
    (deed setting context task).Yields (Conducts setting task context) := by
  cases task with
  | discovery => exact absurd hlate (by decide)
  | project => exact absurd hlate (by decide)
  | projectDependencies => exact absurd hlate (by decide)
  | archive => exact absurd hlate (by decide)
  | archiveEntries gated => exact conducts_archiveEntries context gated
  | sourceFile => exact conducts_sourceFile context
  | classes => exact conducts_classes context
  | classDependencies => exact conducts_classDependencies context
  | members => exact conducts_members context
  | pseudoMethods => exact conducts_pseudoMethods context
  | methodDependencies => exact conducts_methodDependencies context
  | binaryPackage => exact conducts_binaryPackage context
  | binaryClass => exact conducts_binaryClass context
  | binaryClassDependencies => exact conducts_binaryClassDependencies context
  | binaryMembers => exact conducts_binaryMembers context

/-- Everything that a later task which finished has done. -/
theorem exists_conduct_of_execute {pending : Pending LoadTask}
    {board after : Board LoadContext LoadState} {outcome : Outcome LoadTask}
    (hlate : pending.task.priority ≤ 700)
    (h : setting.workflow.execute pending board = (.ok outcome, after)) :
    ∃ context done, board.groups[pending.group]? = some context ∧
      (∀ key ∈ pending.task.inputs, context.has key = true) ∧
      (deed setting context pending.task).run.run board.world.index = (.ok done, after.world.index) ∧
      outcome.spawned = done.spawned pending.group board.groups.size ∧
      after.groups = done.groups pending.group board.groups ∧
      Conducts setting pending.task context done := by
  obtain ⟨context, done, hcontext, hinputs, hdeed, hspawned, hgroups⟩ := exists_deed_of_execute h
  exact ⟨context, done, hcontext, hinputs, hdeed, hspawned, hgroups,
    yields_conducts setting context hlate _ _ (congrArg Prod.fst hdeed)⟩

/-- A context after a later task is one of those before, or was kept, or is new. -/
theorem Conducts.context_cases {task : LoadTask} {context found : LoadContext} {done : Deed}
    (h : Conducts setting task context done) {group other : Nat} {groups : Array LoadContext}
    (hcontext : groups[group]? = some context)
    (hfound : (done.groups group groups)[other]? = some found) :
    (other ≠ group ∧ groups[other]? = some found) ∨ (other = group ∧ Keeps task context found) ∨
      ∃ next, (found, next) ∈ done.opened := by
  rcases getElem?_groups_cases hfound with hold | ⟨rfl, before, hbefore, rfl⟩ | ⟨k, next, _, hk⟩
  · exact Or.inl hold
  · obtain rfl := Option.some.inj (hcontext.symm.trans hbefore)
    exact Or.inr (Or.inl ⟨rfl, h.keeps⟩)
  · exact Or.inr (Or.inr ⟨next, List.mem_of_getElem? hk⟩)

/-- What becomes of a context. -/
theorem context_after {context found : LoadContext} (done : Deed) {group other : Nat}
    {groups : Array LoadContext} (hcontext : groups[group]? = some context)
    (hfound : groups[other]? = some found) :
    (other ≠ group ∧ (done.groups group groups)[other]? = some found) ∨
      (other = group ∧ found = context ∧
        (done.groups group groups)[other]? = some (done.change context)) := by
  by_cases hother : other = group
  · subst hother
    exact Or.inr ⟨rfl, Option.some.inj (hfound.symm.trans hcontext), getElem?_groups_self hcontext⟩
  · exact Or.inl ⟨hother, getElem?_groups_of_ne hother hfound⟩

/-- A later task that finishes leaves a context as it was, or it was its own and was kept. -/
theorem exists_kept {first : Pending LoadTask} {board after : Board LoadContext LoadState}
    {outcome : Outcome LoadTask} (hlate : first.task.priority ≤ 700)
    (hexecute : setting.workflow.execute first board = (.ok outcome, after)) {group : Nat}
    {found : LoadContext} (hfound : board.groups[group]? = some found) :
    ∃ later, after.groups[group]? = some later ∧ (later = found ∨
      ((∀ key ∈ first.task.inputs, found.has key = true) ∧ Keeps first.task found later)) := by
  obtain ⟨context, done, hcontext, hinputs, _, _, hgroups, hconducts⟩ :=
    exists_conduct_of_execute hlate hexecute
  rw [hgroups]
  rcases context_after done hcontext hfound with ⟨_, hsame⟩ | ⟨_, rfl, hchanged⟩
  · exact ⟨found, hsame, Or.inl rfl⟩
  · exact ⟨_, hchanged, Or.inr ⟨hinputs, hconducts.keeps⟩⟩

/-- A later task that finishes leaves the contexts of other groups as they were. -/
theorem getElem?_groups_after {first : Pending LoadTask} {board after : Board LoadContext LoadState}
    {outcome : Outcome LoadTask} (hlate : first.task.priority ≤ 700)
    (hexecute : setting.workflow.execute first board = (.ok outcome, after)) {group : Nat}
    (hne : group ≠ first.group) {found : LoadContext} (hfound : board.groups[group]? = some found) :
    after.groups[group]? = some found := by
  obtain ⟨_, _, _, _, _, _, hgroups, _⟩ := exists_conduct_of_execute hlate hexecute
  rw [hgroups]
  exact getElem?_groups_of_ne hne hfound

/-- A later task that finishes in a given group. -/
theorem exists_own {task : LoadTask} {priority : Int} {group : Nat}
    {board after : Board LoadContext LoadState} {outcome : Outcome LoadTask}
    (hlate : task.priority ≤ 700)
    (hexecute : setting.workflow.execute ⟨priority, task, group⟩ board = (.ok outcome, after))
    {context : LoadContext} (hcontext : board.groups[group]? = some context) :
    ∃ done, (∀ key ∈ task.inputs, context.has key = true) ∧
      (deed setting context task).run.run board.world.index = (.ok done, after.world.index) ∧
      outcome.spawned = done.spawned group board.groups.size ∧
      after.groups = done.groups group board.groups ∧
      after.groups[group]? = some (done.change context) ∧
      Keeps task context (done.change context) := by
  obtain ⟨found, done, hfound, hinputs, hdeed, hspawned, hgroups, hconducts⟩ :=
    @exists_conduct_of_execute setting ⟨priority, task, group⟩ _ _ _ hlate hexecute
  obtain rfl := Option.some.inj (hfound.symm.trans hcontext)
  refine ⟨done, hinputs, hdeed, hspawned, hgroups, ?_, hconducts.keeps⟩
  rw [hgroups]
  exact getElem?_groups_self hcontext

/-- What a later task spawns is later too, and does not go through an archive. -/
theorem Conducts.spawned {task : LoadTask} {context : LoadContext} {done : Deed}
    (h : Conducts setting task context done) {group size : Nat} {pending : Pending LoadTask}
    (hpending : pending ∈ done.spawned group size) :
    pending.priority = pending.task.priority ∧ pending.task.priority ≤ 700 ∧
      ∀ gated, pending.task ≠ .archiveEntries gated := by
  rcases mem_spawned_iff.1 hpending with ⟨other, hother, rfl⟩ | ⟨k, found, other, hk, rfl⟩
  · have hlow := h.own other hother
    refine ⟨rfl, by dsimp only; omega, ?_⟩
    rintro gated rfl
    simp [LoadTask.priority] at hlow
  · refine ⟨rfl, ?_⟩
    rcases h.opened _ (List.mem_of_getElem? hk) with htask | htask
    · obtain rfl : other = .sourceFile := htask
      exact ⟨by simp [LoadTask.priority], by simp⟩
    · obtain rfl : other = .binaryPackage := htask
      exact ⟨by simp [LoadTask.priority], by simp⟩

/-- Whatever waits keeps the priority of its task. -/
theorem priority_after {first : Pending LoadTask} {rest : List (Pending LoadTask)}
    {board after : Board LoadContext LoadState} {outcome : Outcome LoadTask}
    (hlate : first.task.priority ≤ 700)
    (hpriority : ∀ pending ∈ first :: rest, pending.priority = pending.task.priority)
    (hexecute : setting.workflow.execute first board = (.ok outcome, after)) :
    ∀ pending ∈ outcome.spawned ++ rest, pending.priority = pending.task.priority := by
  obtain ⟨context, done, _, _, _, hspawned, _, hconducts⟩ :=
    exists_conduct_of_execute hlate hexecute
  intro pending hpending
  rcases List.mem_append.1 hpending with hnew | hold
  · rw [hspawned] at hnew
    exact (hconducts.spawned hnew).1
  · exact hpriority pending (List.mem_cons_of_mem _ hold)

/-- Only later tasks come after later tasks. -/
theorem late_after {first : Pending LoadTask} {rest : List (Pending LoadTask)}
    {board after : Board LoadContext LoadState} {outcome : Outcome LoadTask}
    (hlate : ∀ pending ∈ first :: rest, pending.task.priority ≤ 700)
    (hexecute : setting.workflow.execute first board = (.ok outcome, after)) :
    ∀ pending ∈ outcome.spawned ++ rest, pending.task.priority ≤ 700 := by
  obtain ⟨context, done, _, _, _, hspawned, _, hconducts⟩ :=
    exists_conduct_of_execute (hlate first List.mem_cons_self) hexecute
  intro pending hpending
  rcases List.mem_append.1 hpending with hnew | hold
  · rw [hspawned] at hnew
    exact (hconducts.spawned hnew).2.1
  · exact hlate pending (List.mem_cons_of_mem _ hold)

/-! ## Later tasks are not refused -/

theorem isRegular_of_sourceUnit? (hgrammar : setting.grammar.SpellsNodes) {context : LoadContext}
    {path : String} {unit : CompilationUnit}
    (h : sourceUnit? setting context path = some unit) : IsRegular unit := by
  obtain ⟨hunit, herrors⟩ := Option.filter_eq_some_iff.1 h
  obtain ⟨text, _, rfl⟩ := Option.map_eq_some_iff.1 hunit
  refine ⟨Ast.isOrdered_lower text (setting.grammar text).root, fun hname => ?_⟩
  have hnone : (setting.grammar text).hasErrors = false := by
    simpa [CompilationUnit.parse, CompilationUnit.ofAst] using herrors
  exact CompilationUnit.name_ne_empty hgrammar hnone hname

/-- The items that a context held and a new one of it are of the right kinds. -/
theorem FitsIndex.parsed {index : Index} {context : LoadContext} (h : FitsIndex index context)
    (hgrammar : setting.grammar.SpellsNodes) (path : String) :
    FitsIndex index (parsed setting context path context) := by
  rw [Load.parsed]
  split
  · exact ⟨h.project, h.package, fun unit hunit => isRegular_of_sourceUnit? hgrammar hunit,
      h.classes, h.binaryItem⟩
  · exact h

theorem stable_fitsIndex (context : LoadContext) : Stable (fun index => FitsIndex index context) :=
  fun _ _ hext h => h.widen hext.widens

/-- What a deed leaves behind fits the index. -/
def FitsAfter (context : LoadContext) (done : Deed) (index : Index) : Prop :=
  FitsIndex index (done.change context) ∧ ∀ opened ∈ done.opened, FitsIndex index opened.1

theorem fitsAfter_change {context : LoadContext} {change : LoadContext → LoadContext}
    {index : Index} (h : FitsIndex index (change context)) :
    FitsAfter context { change := change } index :=
  ⟨h, by simp⟩

/-- The parts of a context that hold no items may change. -/
theorem FitsIndex.results {index : Index} {context : LoadContext} (h : FitsIndex index context)
    {linked settled : Bool} {methods : Option (List (Nat × ItemId))} {calls : Option (List CallSite)} :
    FitsIndex index { context with
      classDependencies := linked, methods := methods, calls := calls,
      methodDependencies := settled } :=
  ⟨h.project, h.package, h.unit, h.classes, h.binaryItem⟩

theorem FitsIndex.enter {index : Index} {context : LoadContext} (h : FitsIndex index context)
    {package : ItemId} (hpackage : index.IsKind package .package) :
    FitsIndex index { context with package := some package } := by
  refine ⟨h.project, fun id hid => ?_, h.unit, h.classes, h.binaryItem⟩
  obtain rfl := Option.some.inj hid
  exact hpackage

theorem safe_idle (context : LoadContext) :
    Safe (fun index => FitsIndex index context) (pure {} : Edit Deed) (FitsAfter context) :=
  Safe.pure _ (fun _ h => ⟨h, by simp⟩)

/-- A task that edits the index and notes in its context what came of it. -/
theorem safe_change {α : Type} {act : Edit α} {context : LoadContext}
    {change : α → LoadContext → LoadContext} {post : α → Index → Prop}
    (hact : Safe (fun index => FitsIndex index context) act post)
    (hchange : ∀ value index, FitsIndex index context → post value index →
      FitsIndex index (change value context)) :
    Safe (fun index => FitsIndex index context)
      (do let value ← act; return { change := change value }) (FitsAfter context) :=
  hact.bind (stable_fitsIndex context) (fun value => Safe.pure _ (fun _ h =>
    fitsAfter_change (hchange value _ h.1 h.2)))

section Deeds

variable {context : LoadContext}

theorem fits_archiveEntries (gated : Bool) :
    Safe (fun index => FitsIndex index context) (deed setting context (.archiveEntries gated))
      (FitsAfter context) := by
  rw [deed]
  split
  · rename_i path project _ hproject
    split
    · exact safe_idle context
    · refine Safe.pure _ (fun _ h => ⟨h, fun opened hopened => ?_⟩)
      obtain ⟨entry, _, hentry⟩ := List.mem_flatMap.1 hopened
      have hkind : ∀ id, some project = some id → _ := fun id hid =>
        h.project id (hproject.trans hid)
      rcases entryGroups_cases hentry with ⟨_, _, rfl⟩ | ⟨_, rfl⟩
      · exact ⟨hkind, by simp, by simp, by simp, by simp⟩
      · exact ⟨hkind, by simp, by simp, by simp, by simp⟩
  · exact safe_idle context

theorem fits_sourceFile (hgrammar : setting.grammar.SpellsNodes) :
    Safe (fun index => FitsIndex index context) (deed setting context .sourceFile)
      (FitsAfter context) := by
  rw [deed]
  split
  · exact safe_idle context
  · rename_i path _
    split
    · rename_i project unit hproject hunit
      exact ((safe_registerPackage project unit.package).weaken
        (fun _ h => h.project project hproject) (fun _ h => h)).bind (stable_fitsIndex context)
        (fun package => Safe.pure _ (fun _ h =>
          ⟨(h.1.parsed hgrammar path).enter h.2.isKind, by simp⟩))
    · exact Safe.pure _ (fun _ h => fitsAfter_change (h.parsed hgrammar path))

theorem fits_classes :
    Safe (fun index => FitsIndex index context) (deed setting context .classes)
      (FitsAfter context) := by
  rw [deed]
  split
  · rename_i package unit hpackage hunit
    refine safe_change ((safe_registerClasses unit package).weaken
      (fun _ h => ⟨h.unit unit hunit, h.package package hpackage⟩) (fun _ h => h.classes))
      (fun classes index h hclasses => ?_)
    refine ⟨h.project, h.package, h.unit, fun known hknown => ?_, h.binaryItem⟩
    obtain rfl := Option.some.inj hknown
    exact hclasses
  · exact safe_idle context

theorem fits_classDependencies :
    Safe (fun index => FitsIndex index context) (deed setting context .classDependencies)
      (FitsAfter context) := by
  rw [deed]
  split
  · rename_i unit classes _ hclasses
    exact safe_change ((safe_linkClasses ⟨unit, context.project⟩ classes).weaken
      (fun _ h => h.classes classes hclasses) (fun _ h => h)) (fun _ _ h _ => h.results)
  · exact safe_idle context

theorem fits_members :
    Safe (fun index => FitsIndex index context) (deed setting context .members)
      (FitsAfter context) := by
  rw [deed]
  split
  · rename_i unit classes hunit hclasses
    exact safe_change ((safe_registerMembers ⟨unit, context.project⟩ classes).weaken
      (fun _ h => ⟨h.unit unit hunit, h.classes classes hclasses⟩) (fun _ h => h))
      (fun _ _ h _ => h.results)
  · exact safe_idle context

/-- Settling the calls of a unit. -/
theorem fits_calls {unit : CompilationUnit} (hunit : context.unit = some unit) :
    Safe (fun index => FitsIndex index context)
      (do
        let calls := CallContext.calls ⟨← get, ⟨unit, context.project⟩⟩
        let _ ← settleCalls calls setting.config.createPseudoMethods
        return { change := fun context => { context with calls := some calls } })
      (FitsAfter context) := by
  have hsettle : ∀ calls : List CallSite,
      Safe (fun index => FitsIndex index context ∧ ∀ site ∈ calls, site.Sound index)
        (do
          let _ ← settleCalls calls setting.config.createPseudoMethods
          return { change := fun context => { context with calls := some calls } })
        (FitsAfter context) := by
    intro calls
    refine ((safe_settleCalls calls _).weaken (fun _ h => h.2) (fun _ h => h)).bind
      ((stable_fitsIndex context).and (Stable.forall_mem stable_callSound _))
      (fun _ => Safe.pure _ (fun _ h => fitsAfter_change h.1.1.results))
  refine Safe.get_bind (fun current => ?_)
  refine (hsettle (CallContext.calls ⟨current, ⟨unit, context.project⟩⟩)).weaken
    (fun hlive h => ?_) (fun _ h => h)
  obtain ⟨heq, hfits⟩ := h
  rw [heq] at hlive hfits ⊢
  refine ⟨hfits, fun site hsite => ?_⟩
  have hsound : CallContext.Sound ⟨current, ⟨unit, context.project⟩⟩ :=
    ⟨hlive.sound, (hfits.unit unit hunit).named⟩
  exact CallContext.sound_of_mem_calls hsound hsite

theorem fits_pseudoMethods :
    Safe (fun index => FitsIndex index context) (deed setting context .pseudoMethods)
      (FitsAfter context) := by
  rw [deed]
  split
  · rename_i unit hunit
    exact fits_calls hunit
  · exact safe_idle context

theorem fits_methodDependencies :
    Safe (fun index => FitsIndex index context) (deed setting context .methodDependencies)
      (FitsAfter context) := by
  rw [deed]
  split
  · rename_i unit calls _ _
    exact safe_change ((safe_linkCalls unit.ast _ _ calls).weaken (fun _ _ => trivial)
      (fun _ h => h)) (fun _ _ h _ => h.results)
  · exact safe_idle context

theorem fits_binaryPackage :
    Safe (fun index => FitsIndex index context) (deed setting context .binaryPackage)
      (FitsAfter context) := by
  rw [deed]
  split
  · rename_i project binary hproject _
    exact ((safe_registerPackage project binary.package).weaken
      (fun _ h => h.project project hproject) (fun _ h => h)).bind (stable_fitsIndex context)
      (fun package => Safe.pure _ (fun _ h => ⟨h.1.enter h.2.isKind, by simp⟩))
  · exact safe_idle context

theorem fits_binaryClass (hnameable : ∀ cls, context.binary = some cls → cls.IsNameable) :
    Safe (fun index => FitsIndex index context) (deed setting context .binaryClass)
      (FitsAfter context) := by
  rw [deed]
  split
  · rename_i package binary hpackage hbinary
    refine safe_change ((safe_registerBinaryClass package binary).weaken
      (fun _ h => ⟨(hnameable binary hbinary).1, h.package package hpackage⟩) (fun _ h => h))
      (fun cls index h hcls => ?_)
    refine ⟨h.project, h.package, h.unit, h.classes, fun id hid => ?_⟩
    obtain rfl := Option.some.inj hid
    exact hcls
  · exact safe_idle context

theorem fits_binaryClassDependencies :
    Safe (fun index => FitsIndex index context) (deed setting context .binaryClassDependencies)
      (FitsAfter context) := by
  rw [deed]
  split
  · rename_i binary cls _ hcls
    exact safe_change ((safe_linkBinaryClass context.project cls binary).weaken
      (fun _ h => h.binaryItem cls hcls) (fun _ h => h)) (fun _ _ h _ => h.results)
  · exact safe_idle context

theorem fits_binaryMembers (hnameable : ∀ cls, context.binary = some cls → cls.IsNameable) :
    Safe (fun index => FitsIndex index context) (deed setting context .binaryMembers)
      (FitsAfter context) := by
  rw [deed]
  split
  · rename_i binary cls hbinary hcls
    exact safe_change ((safe_registerBinaryMembers context.project cls binary).weaken
      (fun _ h => ⟨(hnameable binary hbinary).2, h.binaryItem cls hcls⟩) (fun _ h => h))
      (fun _ _ h _ => h.results)
  · exact safe_idle context

end Deeds

/-- A later task in a context that fits the index is not refused, if the names of its class file are
not. -/
theorem safe_deed (hgrammar : setting.grammar.SpellsNodes) {context : LoadContext}
    (hnameable : ∀ cls, context.binary = some cls → cls.IsNameable) {task : LoadTask}
    (hlate : task.priority ≤ 700) :
    Safe (fun index => FitsIndex index context) (deed setting context task)
      (FitsAfter context) := by
  cases task with
  | discovery => exact absurd hlate (by decide)
  | project => exact absurd hlate (by decide)
  | projectDependencies => exact absurd hlate (by decide)
  | archive => exact absurd hlate (by decide)
  | archiveEntries gated => exact fits_archiveEntries gated
  | sourceFile => exact fits_sourceFile hgrammar
  | classes => exact fits_classes
  | classDependencies => exact fits_classDependencies
  | members => exact fits_members
  | pseudoMethods => exact fits_pseudoMethods
  | methodDependencies => exact fits_methodDependencies
  | binaryPackage => exact fits_binaryPackage
  | binaryClass => exact fits_binaryClass hnameable
  | binaryClassDependencies => exact fits_binaryClassDependencies
  | binaryMembers => exact fits_binaryMembers hnameable

end CodeAtlas.Load
