/-
# Loads that run to their end

Once everything was enrolled, a run fails exactly when it comes to a class file without the names that
it needs.  One direction is an invariant: while all class files at hand have their names, no task that
runs is refused.  For the other, the way of a class file is followed through the run: from its archive
to its package, its class and its members, each of which waits to be entered or was entered under a name.
-/
import CodeAtlas.Proofs.Load.Conduct

namespace CodeAtlas.Load

open Tasks Index

variable {setting : LoadSetting} {waiting : List (Pending LoadTask)}
  {board : Board LoadContext LoadState}

/-! ## Archives whose entries can be gone through -/

/-- Something holds of the path of every archive whose task waits and has its inputs. -/
def OpenArchives (holds : String → Prop) (waiting : List (Pending LoadTask))
    (board : Board LoadContext LoadState) : Prop :=
  ∀ pending ∈ waiting, ∀ gated, pending.task = .archiveEntries gated →
    ∀ context, board.groups[pending.group]? = some context →
    (∀ key ∈ pending.task.inputs, context.has key = true) →
    ∀ path, context.archive = some path → holds path

theorem Keeps.has_inputs_archiveEntries {task : LoadTask} {before after : LoadContext}
    (h : Keeps task before after) {gated : Bool}
    (hafter : ∀ key ∈ (LoadTask.archiveEntries gated).inputs, after.has key = true) :
    ∀ key ∈ (LoadTask.archiveEntries gated).inputs, before.has key = true := by
  intro key hkey
  have hkey' := hafter key hkey
  have hcases : key = .project ∨ key = .dependenciesLoaded := by
    cases gated <;> simp [LoadTask.inputs] at hkey
    · exact Or.inl hkey
    · exact hkey
  rcases hcases with rfl | rfl
  · rw [LoadContext.has, ← h.project]
    exact hkey'
  · rw [LoadContext.has, ← h.dependenciesLoaded]
    exact hkey'

/-- Later tasks neither spawn tasks for archives nor give them their inputs. -/
theorem OpenArchives.step {holds : String → Prop} {first : Pending LoadTask}
    {rest : List (Pending LoadTask)} {after : Board LoadContext LoadState}
    {outcome : Outcome LoadTask} (h : OpenArchives holds (first :: rest) board)
    (hlate : first.task.priority ≤ 700)
    (hexecute : setting.workflow.execute first board = (.ok outcome, after)) :
    OpenArchives holds (outcome.spawned ++ rest) after := by
  obtain ⟨context, done, hcontext, _, _, hspawned, hgroups, hconducts⟩ :=
    exists_conduct_of_execute hlate hexecute
  intro pending hpending gated htask found hfound hbound path hpath
  rcases List.mem_append.1 hpending with hnew | hold
  · rw [hspawned] at hnew
    exact absurd htask ((hconducts.spawned hnew).2.2 gated)
  · rw [hgroups] at hfound
    have hopen := h pending (List.mem_cons_of_mem _ hold) gated htask
    rcases hconducts.context_cases hcontext hfound with ⟨_, hsame⟩ | ⟨hgroup, hkeeps⟩ | ⟨_, hnext⟩
    · exact hopen found hsame hbound path hpath
    · rw [← hgroup] at hcontext
      rw [htask] at hbound hopen
      exact hopen context hcontext (hkeeps.has_inputs_archiveEntries hbound) path
        (by rw [← hkeeps.archive]; exact hpath)
    · -- a group that was just opened is not that of an archive
      rw [hconducts.archive _ hnext] at hpath
      simp at hpath

/-! ## Runs without failure -/

/-- All class files that tasks have come to, or can come to, have their names.  What is said about the
index holds while it has room. -/
structure Sustained (setting : LoadSetting) (waiting : List (Pending LoadTask))
    (board : Board LoadContext LoadState) : Prop where
  priority : ∀ pending ∈ waiting, pending.priority = pending.task.priority
  late : ∀ pending ∈ waiting, pending.task.priority ≤ 700
  nameable : ∀ {group : Nat} {context : LoadContext}, board.groups[group]? = some context →
    ∀ cls, context.binary = some cls → cls.IsNameable
  entries : OpenArchives (fun path => ∀ content, setting.disk.archive? path = some content →
    ∀ cls ∈ classFiles content, cls.IsNameable) waiting board
  fits : board.world.index.HasRoom → Fits board

/-- A task that finishes extends the index, if there is room, and keeps the contexts fitting it. -/
theorem Sustained.extends_after (hgrammar : setting.grammar.SpellsNodes) {first : Pending LoadTask}
    {rest : List (Pending LoadTask)} {after : Board LoadContext LoadState}
    {outcome : Outcome LoadTask} (h : Sustained setting (first :: rest) board)
    (hexecute : setting.workflow.execute first board = (.ok outcome, after))
    (hroom : after.world.index.HasRoom) :
    Fits board ∧ Fits after ∧ board.world.index.Extends after.world.index := by
  obtain ⟨context, done, hcontext, _, hdeed, _, hgroups, _⟩ :=
    exists_conduct_of_execute (h.late first List.mem_cons_self) hexecute
  have hgrown := grown_deed setting context first.task board.world.index
  rw [hdeed] at hgrown
  have hfits := h.fits (hgrown.hasRoom hroom)
  have hsafe := (safe_deed hgrammar (h.nameable hcontext)
    (h.late first List.mem_cons_self)).works hfits.live (hfits.contexts hcontext)
  rw [hdeed] at hsafe
  obtain ⟨hlive, hext, result, hresult, hchange, hopened⟩ := hsafe hroom
  obtain rfl : done = result := Except.ok.inj hresult
  exact ⟨hfits, hfits.step hcontext hgroups hlive hext.widens hchange hopened, hext⟩

/-- A task that finishes keeps everything sustained. -/
theorem Sustained.step (hgrammar : setting.grammar.SpellsNodes) {first : Pending LoadTask}
    {rest : List (Pending LoadTask)} {after : Board LoadContext LoadState}
    {outcome : Outcome LoadTask} (h : Sustained setting (first :: rest) board)
    (hexecute : setting.workflow.execute first board = (.ok outcome, after)) :
    Sustained setting (outcome.spawned ++ rest) after := by
  obtain ⟨context, done, hcontext, hinputs, hdeed, hspawned, hgroups, hconducts⟩ :=
    exists_conduct_of_execute (h.late first List.mem_cons_self) hexecute
  refine ⟨?_, ?_, ?_, ?_, ?_⟩
  · exact priority_after (h.late first List.mem_cons_self) h.priority hexecute
  · exact late_after h.late hexecute
  · intro group found hfound cls hcls
    rw [hgroups] at hfound
    rcases hconducts.context_cases hcontext hfound with ⟨_, hold⟩ | ⟨_, hkeeps⟩ | ⟨next, hnext⟩
    · exact h.nameable hold cls hcls
    · rw [hkeeps.binary] at hcls
      exact h.nameable hcontext cls hcls
    · obtain ⟨gated, path, content, htask, hpath, hcontent, hmem⟩ :=
        hconducts.binary _ hnext cls hcls
      exact h.entries first List.mem_cons_self gated htask context hcontext hinputs path hpath
        content hcontent cls hmem
  · exact h.entries.step (h.late first List.mem_cons_self) hexecute
  · exact fun hroom => (h.extends_after hgrammar hexecute hroom).2.1

theorem isInvariant_sustained (hgrammar : setting.grammar.SpellsNodes) :
    setting.workflow.IsInvariant (Sustained setting) where
  perm hperm h :=
    ⟨fun pending hpending => h.priority pending (hperm.mem_iff.2 hpending),
      fun pending hpending => h.late pending (hperm.mem_iff.2 hpending), h.nameable,
      fun pending hpending => h.entries pending (hperm.mem_iff.2 hpending), h.fits⟩
  step h hexecute := h.step hgrammar hexecute

/-- While the index has room, it extends that of the beginning. -/
theorem isInvariant_extends (hgrammar : setting.grammar.SpellsNodes) (start : Index) :
    setting.workflow.IsInvariant (fun waiting board => Sustained setting waiting board ∧
      (board.world.index.HasRoom → start.Extends board.world.index)) where
  perm hperm h := ⟨(isInvariant_sustained hgrammar).perm hperm h.1, h.2⟩
  step {first rest board after outcome} h hexecute := by
    refine ⟨h.1.step hgrammar hexecute, fun hroom => ?_⟩
    have hgrown := (isProgress_grown setting).step first board
    rw [hexecute] at hgrown
    obtain ⟨_, _, hext⟩ := h.1.extends_after hgrammar hexecute hroom
    exact (h.2 (hgrown.hasRoom hroom)).trans hext

/-- The tasks beside those of source files do not need what these take away. -/
theorem ne_of_mem_inputs {task : LoadTask} (hpriority : task.priority = 700) {key : LoadKey}
    (hkey : key ∈ task.inputs) : key ≠ .sourceText ∧ key ≠ .unit := by
  cases task with
  | archiveEntries gated =>
    cases gated <;> simp [LoadTask.inputs] at hkey
    · subst hkey
      exact ⟨by decide, by decide⟩
    · rcases hkey with rfl | rfl <;> exact ⟨by decide, by decide⟩
  | sourceFile =>
    obtain rfl := List.mem_singleton.1 hkey
    exact ⟨by decide, by decide⟩
  | binaryPackage =>
    simp [LoadTask.inputs] at hkey
    rcases hkey with rfl | rfl <;> exact ⟨by decide, by decide⟩
  | _ => exact absurd hpriority (by decide)

theorem keepsInputs_sustained (setting : LoadSetting) :
    setting.workflow.KeepsInputs (Sustained setting) := by
  intro first other rest board after outcome h hexecute hother hpriority heligible
  obtain ⟨context, done, hcontext, hinputs, hdeed, hspawned, hgroups, hconducts⟩ :=
    exists_conduct_of_execute (h.late first List.mem_cons_self) hexecute
  obtain ⟨found, hfound, hbound⟩ := exists_context heligible
  rcases context_after done hcontext hfound with ⟨_, hsame⟩ | ⟨_, rfl, hchanged⟩
  · rw [← hgroups] at hsame
    exact (isEligible_iff hsame).2 hbound
  · rw [← hgroups] at hchanged
    refine (isEligible_iff hchanged).2 (fun key hkey => ?_)
    refine hconducts.keeps.has key (hbound key hkey) (fun htask => ?_)
    refine ne_of_mem_inputs ?_ hkey
    rw [← h.priority other (List.mem_cons_of_mem _ hother), hpriority,
      h.priority first List.mem_cons_self, htask]
    rfl

/-- A run in which everything is sustained ends well, if there is room. -/
theorem Sustained.exists_report (hgrammar : setting.grammar.SpellsNodes)
    {list : TaskList LoadTask LoadContext LoadState}
    (h : Sustained setting list.waiting list.board)
    (hroom : (list.run setting.workflow).2.board.world.index.HasRoom) :
    ∃ report, (list.run setting.workflow).1 = .ok report := by
  cases hresult : (list.run setting.workflow).1 with
  | ok report => exact ⟨report, rfl⟩
  | error error =>
    obtain ⟨first, others, board, hholds, heligible, herror, hlater⟩ :=
      TaskList.exists_failure_of_run_error (isInvariant_sustained hgrammar)
        (keepsInputs_sustained setting) (isProgress_grown setting) h hresult
    obtain ⟨context, refusal, hcontext, _, hdeed⟩ := exists_refusal_of_execute heligible herror
    have hroomAfter := hlater.hasRoom hroom
    have hgrown := grown_deed setting context first.task board.world.index
    rw [hdeed] at hgrown
    have hfits := hholds.fits (hgrown.hasRoom hroomAfter)
    have hsafe := (safe_deed hgrammar (hholds.nameable hcontext)
      (hholds.late first List.mem_cons_self)).works hfits.live (hfits.contexts hcontext)
    rw [hdeed] at hsafe
    obtain ⟨_, _, result, hok, _⟩ := hsafe hroomAfter
    simp at hok

/-! ## The way of a class file -/

/-- A context that was opened for a class file. -/
structure IsCompiled (cls : BinaryClass) (context : LoadContext) : Prop where
  binary : context.binary = some cls
  source : context.source = none
  unit : context.unit = none
  classes : context.classes = none
  item : context.classDependencies = true → context.binaryItem.isSome

/-- The tasks of a class file leave a context that was opened for it one. -/
theorem IsCompiled.keeps {cls : BinaryClass} {task : LoadTask} {before after : LoadContext}
    (h : IsCompiled cls before) (hinputs : ∀ key ∈ task.inputs, before.has key = true)
    (hkeeps : Keeps task before after) : IsCompiled cls after := by
  have htask : task ≠ .sourceFile := by
    rintro rfl
    have := hinputs .source List.mem_cons_self
    rw [LoadContext.has, h.source] at this
    simp at this
  have htask' : task ≠ .classes := by
    rintro rfl
    have := hinputs .unit (List.mem_cons_of_mem _ List.mem_cons_self)
    rw [LoadContext.has, h.unit] at this
    simp at this
  refine ⟨hkeeps.binary.trans h.binary, hkeeps.source.trans h.source,
    (hkeeps.unit htask).trans h.unit, (hkeeps.classes htask').trans h.classes,
    fun hdependencies => hkeeps.binaryItem ?_⟩
  rcases hkeeps.classDependencies hdependencies with hbefore | hitem | ⟨hunit, _⟩
  · exact h.item hbefore
  · exact hitem
  · rw [h.unit] at hunit
    simp at hunit

/-- How far a class file has come: its archive waits, or its package, or its class and members, each
of which waits or was entered under a name. -/
inductive Trail (setting : LoadSetting) (cls : BinaryClass) (waiting : List (Pending LoadTask))
    (board : Board LoadContext LoadState) : Prop
  | archive {group : Nat} {context : LoadContext} {gated : Bool} {path : String}
      {content : Archive} (hwaits : ⟨700, .archiveEntries gated, group⟩ ∈ waiting)
      (hcontext : board.groups[group]? = some context)
      (hinputs : ∀ key ∈ (LoadTask.archiveEntries gated).inputs, context.has key = true)
      (hpath : context.archive = some path) (hcontent : setting.disk.archive? path = some content)
      (hcls : cls ∈ classFiles content)
  | package {group : Nat} {context : LoadContext} (hwaits : ⟨700, .binaryPackage, group⟩ ∈ waiting)
      (hcontext : board.groups[group]? = some context) (hcompiled : IsCompiled cls context)
      (hproject : context.has .project = true)
  | members {group : Nat} {context : LoadContext}
      (hcontext : board.groups[group]? = some context) (hcompiled : IsCompiled cls context)
      (hpackage : context.has .package = true)
      (hclass : ⟨600, .binaryClass, group⟩ ∈ waiting ∨
        (cls.outerName ≠ "" ∧ context.binaryItem.isSome))
      (hlinks : ⟨500, .binaryClassDependencies, group⟩ ∈ waiting ∨
        context.has .classDependencies = true)
      (hmembers : ⟨400, .binaryMembers, group⟩ ∈ waiting ∨ cls.HasNamedMembers)

theorem Trail.perm {cls : BinaryClass} {others : List (Pending LoadTask)}
    (h : Trail setting cls waiting board) (hperm : waiting.Perm others) :
    Trail setting cls others board := by
  cases h with
  | archive hwaits hcontext hinputs hpath hcontent hcls =>
    exact .archive (hperm.mem_iff.1 hwaits) hcontext hinputs hpath hcontent hcls
  | package hwaits hcontext hcompiled hproject =>
    exact .package (hperm.mem_iff.1 hwaits) hcontext hcompiled hproject
  | members hcontext hcompiled hpackage hclass hlinks hmembers =>
    exact .members hcontext hcompiled hpackage (hclass.imp_left hperm.mem_iff.1)
      (hlinks.imp_left hperm.mem_iff.1) (hmembers.imp_left hperm.mem_iff.1)

/-- The package of a class file is entered, and its class and members are next. -/
theorem yields_binaryPackage {context : LoadContext} {project : ItemId} {cls : BinaryClass}
    (hproject : context.project = some project) (hbinary : context.binary = some cls) :
    (deed setting context .binaryPackage).Yields (fun done =>
      (done.change context).has .package = true ∧
        done.own = [.binaryClass, .binaryClassDependencies, .binaryMembers]) := by
  simp only [deed, hproject, hbinary]
  exact Edit.yields_bind _ (fun package => Edit.yields_pure ⟨rfl, rfl⟩)

theorem yields_binaryClass {context : LoadContext} {package : ItemId} {cls : BinaryClass}
    (hpackage : context.package = some package) (hbinary : context.binary = some cls) :
    (deed setting context .binaryClass).Yields (fun done =>
      cls.outerName ≠ "" ∧ (done.change context).binaryItem.isSome) := by
  simp only [deed, hpackage, hbinary]
  intro index done hok
  have hitem : (registerBinaryClass package cls >>= fun item =>
      (pure { change := fun context => { context with binaryItem := some item } } : Edit Deed)).Yields
        (fun done => (done.change context).binaryItem.isSome) :=
    Edit.yields_bind _ (fun item => Edit.yields_pure rfl)
  exact ⟨(needs_registerBinaryClass package cls).bind _ index done hok, hitem index done hok⟩

theorem yields_binaryClassDependencies {context : LoadContext} {item : ItemId} {cls : BinaryClass}
    (hbinary : context.binary = some cls) (hitem : context.binaryItem = some item) :
    (deed setting context .binaryClassDependencies).Yields (fun done =>
      (done.change context).has .classDependencies = true) := by
  simp only [deed, hbinary, hitem]
  exact Edit.yields_bind _ (fun _ => Edit.yields_pure rfl)

theorem yields_binaryMembers {context : LoadContext} {item : ItemId} {cls : BinaryClass}
    (hbinary : context.binary = some cls) (hitem : context.binaryItem = some item) :
    (deed setting context .binaryMembers).Yields (fun _ => cls.HasNamedMembers) := by
  simp only [deed, hbinary, hitem]
  exact (needs_registerBinaryMembers context.project item cls).bind _

/-- At the end of a run, a class file was entered. -/
theorem Trail.isNameable {cls : BinaryClass} (h : Trail setting cls waiting board)
    (hend : ∀ pending ∈ waiting, ¬ setting.workflow.isEligible board pending = true) :
    cls.IsNameable := by
  cases h with
  | archive hwaits hcontext hinputs _ _ _ =>
    exact absurd ((isEligible_iff hcontext).2 hinputs) (hend _ hwaits)
  | package hwaits hcontext hcompiled hproject =>
    refine absurd ((isEligible_iff hcontext).2 (fun key hkey => ?_)) (hend _ hwaits)
    rcases List.mem_cons.1 hkey with rfl | hkey
    · exact hproject
    · obtain rfl := List.mem_singleton.1 hkey
      rw [LoadContext.has, hcompiled.binary]
      rfl
  | members hcontext hcompiled hpackage hclass hlinks hmembers =>
    have hbinary : ∀ {context : LoadContext}, IsCompiled cls context →
        context.has .binary = true := by
      intro context hcompiled
      rw [LoadContext.has, hcompiled.binary]
      rfl
    -- the class has everything it needs, so it does not wait
    have hentered := hclass.resolve_left (fun hwaits =>
      hend _ hwaits ((isEligible_iff hcontext).2 (by
        rintro key hkey
        rcases List.mem_cons.1 hkey with rfl | hkey
        · exact hpackage
        · obtain rfl := List.mem_singleton.1 hkey
          exact hbinary hcompiled)))
    have hlinked := hlinks.resolve_left (fun hwaits =>
      hend _ hwaits ((isEligible_iff hcontext).2 (by
        rintro key hkey
        rcases List.mem_cons.1 hkey with rfl | hkey
        · rw [LoadContext.has, hentered.2, Bool.or_true]
        · obtain rfl := List.mem_singleton.1 hkey
          exact hbinary hcompiled)))
    have hnamed := hmembers.resolve_left (fun hwaits =>
      hend _ hwaits ((isEligible_iff hcontext).2 (by
        rintro key hkey
        rcases List.mem_cons.1 hkey with rfl | hkey
        · exact hlinked
        · obtain rfl := List.mem_singleton.1 hkey
          exact hbinary hcompiled)))
    exact ⟨hentered.1, hnamed⟩

/-- What was waiting still waits, unless it was its turn. -/
theorem mem_after {first pending : Pending LoadTask} {rest : List (Pending LoadTask)}
    (spawned : List (Pending LoadTask)) (h : pending ∈ first :: rest) :
    pending = first ∨ pending ∈ spawned ++ rest :=
  (List.mem_cons.1 h).imp_right (List.mem_append_right spawned)

theorem mem_spawned_own {done : Deed} {task : LoadTask} (h : task ∈ done.own) (group size : Nat) :
    ⟨task.priority, task, group⟩ ∈ done.spawned group size :=
  mem_spawned_iff.2 (Or.inl ⟨task, h, rfl⟩)

theorem project_mem_inputs (gated : Bool) :
    LoadKey.project ∈ (LoadTask.archiveEntries gated).inputs := by
  cases gated <;> exact List.mem_cons_self

/-- What an entry contributes is opened when its archive is gone through. -/
theorem exists_opened_of_archive {context : LoadContext} {gated : Bool} {path : String}
    {project : ItemId} {content : Archive} {entry : ArchiveEntry} {opened : LoadContext × LoadTask}
    {index after : Index} {done : Deed} (hpath : context.archive = some path)
    (hproject : context.project = some project) (hcontent : setting.disk.archive? path = some content)
    (hentry : entry ∈ entriesByName content)
    (hopened : opened ∈ entryGroups path project content entry)
    (hdeed : (deed setting context (.archiveEntries gated)).run.run index = (.ok done, after)) :
    ∃ k : Nat, done.opened[k]? = some opened := by
  simp only [deed, hpath, hproject, hcontent] at hdeed
  obtain rfl := Except.ok.inj (congrArg Prod.fst hdeed)
  exact List.getElem?_of_mem (List.mem_flatMap.2 ⟨entry, hentry, hopened⟩)

section Steps

variable {cls : BinaryClass} {first : Pending LoadTask} {rest : List (Pending LoadTask)}
  {after : Board LoadContext LoadState} {outcome : Outcome LoadTask} {group : Nat}
  {context : LoadContext}

theorem IsCompiled.exists_later (h : IsCompiled cls context) (hlate : first.task.priority ≤ 700)
    (hexecute : setting.workflow.execute first board = (.ok outcome, after))
    (hcontext : board.groups[group]? = some context) :
    ∃ later, after.groups[group]? = some later ∧ IsCompiled cls later ∧
      (∀ key, key ≠ .sourceText → key ≠ .unit → context.has key = true → later.has key = true) ∧
      (context.binaryItem.isSome → later.binaryItem.isSome) := by
  obtain ⟨later, hlater, rfl | ⟨hinputs, hkeeps⟩⟩ := exists_kept hlate hexecute hcontext
  · exact ⟨later, hlater, h, fun _ _ _ hkey => hkey, fun hitem => hitem⟩
  · exact ⟨later, hlater, h.keeps hinputs hkeeps,
      fun key hne hne' hkey => hkeeps.has key hkey (fun _ => ⟨hne, hne'⟩), hkeeps.binaryItem⟩

/-- When an archive is gone through, a group is there for what an entry contributes, and its task
waits. -/
theorem exists_group_of_archive {priority : Int} {gated : Bool} {path : String} {content : Archive}
    {entry : ArchiveEntry}
    (hexecute : setting.workflow.execute ⟨priority, .archiveEntries gated, group⟩ board =
      (.ok outcome, after)) (hcontext : board.groups[group]? = some context)
    (hpath : context.archive = some path) (hcontent : setting.disk.archive? path = some content)
    (hentry : entry ∈ entriesByName content) :
    ∃ project, ∀ opened ∈ entryGroups path project content entry, ∃ place,
      after.groups[place]? = some opened.1 ∧
        ⟨opened.2.priority, opened.2, place⟩ ∈ outcome.spawned := by
  obtain ⟨done, hinputs, hdeed, hspawned, hgroups, _⟩ :=
    exists_own (by simp [LoadTask.priority]) hexecute hcontext
  obtain ⟨project, hproject⟩ : ∃ project, context.project = some project :=
    Option.isSome_iff_exists.1 (hinputs .project (project_mem_inputs gated))
  refine ⟨project, fun opened hopened => ?_⟩
  obtain ⟨k, hk⟩ := exists_opened_of_archive hpath hproject hcontent hentry hopened hdeed
  refine ⟨board.groups.size + k, ?_, ?_⟩
  · rw [hgroups]
    exact getElem?_groups_opened hk
  · rw [hspawned]
    exact mem_spawned_iff.2 (Or.inr ⟨k, _, _, hk, rfl⟩)

/-- Until an archive is gone through, it keeps its path and its inputs. -/
theorem exists_kept_archive {gated : Bool} {path : String} (hlate : first.task.priority ≤ 700)
    (hexecute : setting.workflow.execute first board = (.ok outcome, after))
    (hcontext : board.groups[group]? = some context)
    (hinputs : ∀ key ∈ (LoadTask.archiveEntries gated).inputs, context.has key = true)
    (hpath : context.archive = some path) :
    ∃ later, after.groups[group]? = some later ∧
      (∀ key ∈ (LoadTask.archiveEntries gated).inputs, later.has key = true) ∧
      later.archive = some path := by
  obtain ⟨later, hlater, rfl | ⟨_, hkeeps⟩⟩ := exists_kept hlate hexecute hcontext
  · exact ⟨later, hlater, hinputs, hpath⟩
  · refine ⟨later, hlater, fun key hkey => ?_, hkeeps.archive.trans hpath⟩
    exact hkeeps.has key (hinputs key hkey) (fun _ => ne_of_mem_inputs rfl hkey)

/-- When its archive is gone through, the package of a class file waits. -/
theorem trail_of_archive {gated : Bool} {path : String} {content : Archive}
    (hlate : first.task.priority ≤ 700)
    (hexecute : setting.workflow.execute first board = (.ok outcome, after))
    (hwaits : ⟨700, .archiveEntries gated, group⟩ ∈ first :: rest)
    (hcontext : board.groups[group]? = some context)
    (hinputs : ∀ key ∈ (LoadTask.archiveEntries gated).inputs, context.has key = true)
    (hpath : context.archive = some path) (hcontent : setting.disk.archive? path = some content)
    (hcls : cls ∈ classFiles content) :
    Trail setting cls (outcome.spawned ++ rest) after := by
  rcases mem_after outcome.spawned hwaits with rfl | hwaits
  · obtain ⟨entry, hentry, hbinary⟩ := mem_classFiles_iff.1 hcls
    obtain ⟨project, hopens⟩ := exists_group_of_archive hexecute hcontext hpath hcontent hentry
    obtain ⟨place, hopened, hspawned⟩ :=
      hopens ({ project := some project, binary := some cls }, .binaryPackage) (by
        rw [entryGroups, hbinary]
        exact List.mem_cons_self)
    exact .package (List.mem_append_left _ hspawned) hopened ⟨rfl, rfl, rfl, rfl, by simp⟩ rfl
  · obtain ⟨later, hlater, hinputs', hpath'⟩ :=
      exists_kept_archive hlate hexecute hcontext hinputs hpath
    exact .archive hwaits hlater hinputs' hpath' hcontent hcls

/-- When its package was entered, the class and the members of a class file wait. -/
theorem trail_of_package (hlate : first.task.priority ≤ 700)
    (hexecute : setting.workflow.execute first board = (.ok outcome, after))
    (hwaits : ⟨700, .binaryPackage, group⟩ ∈ first :: rest)
    (hcontext : board.groups[group]? = some context) (hcompiled : IsCompiled cls context)
    (hproject : context.has .project = true) :
    Trail setting cls (outcome.spawned ++ rest) after := by
  rcases mem_after outcome.spawned hwaits with rfl | hwaits
  · obtain ⟨done, hinputs, hdeed, hspawned, _, hown, hkeeps⟩ := exists_own hlate hexecute hcontext
    obtain ⟨project, hproject⟩ := Option.isSome_iff_exists.1 hproject
    obtain ⟨hpackage, htasks⟩ :=
      yields_binaryPackage hproject hcompiled.binary _ _ (congrArg Prod.fst hdeed)
    have hspawns : ∀ task ∈ done.own,
        ⟨task.priority, task, group⟩ ∈ outcome.spawned ++ rest := by
      intro task htask
      rw [hspawned]
      exact List.mem_append_left _ (mem_spawned_own htask _ _)
    rw [htasks] at hspawns
    exact .members hown (hcompiled.keeps hinputs hkeeps) hpackage
      (Or.inl (hspawns .binaryClass (by simp)))
      (Or.inl (hspawns .binaryClassDependencies (by simp)))
      (Or.inl (hspawns .binaryMembers (by simp)))
  · obtain ⟨later, hlater, hcompiled', hhas, _⟩ := hcompiled.exists_later hlate hexecute hcontext
    exact .package hwaits hlater hcompiled' (hhas _ (by decide) (by decide) hproject)

/-- When the class of a class file is entered, it has a name. -/
theorem class_after (hlate : first.task.priority ≤ 700)
    (hexecute : setting.workflow.execute first board = (.ok outcome, after))
    (hcontext : board.groups[group]? = some context) (hcompiled : IsCompiled cls context)
    (hpackage : context.has .package = true) {later : LoadContext}
    (hlater : after.groups[group]? = some later)
    (hitem : context.binaryItem.isSome → later.binaryItem.isSome)
    (h : ⟨600, .binaryClass, group⟩ ∈ first :: rest ∨
      (cls.outerName ≠ "" ∧ context.binaryItem.isSome)) :
    ⟨600, .binaryClass, group⟩ ∈ outcome.spawned ++ rest ∨
      (cls.outerName ≠ "" ∧ later.binaryItem.isSome) := by
  rcases h with hwaits | ⟨hname, hbound⟩
  · rcases mem_after outcome.spawned hwaits with rfl | hwaits
    · obtain ⟨done, _, hdeed, _, _, hown, _⟩ := exists_own hlate hexecute hcontext
      obtain ⟨package, hpackage⟩ := Option.isSome_iff_exists.1 hpackage
      obtain rfl := Option.some.inj (hown.symm.trans hlater)
      exact Or.inr (yields_binaryClass hpackage hcompiled.binary _ _ (congrArg Prod.fst hdeed))
    · exact Or.inl hwaits
  · exact Or.inr ⟨hname, hitem hbound⟩

/-- The class of a class file was entered before it is linked. -/
theorem links_after (hlate : first.task.priority ≤ 700)
    (hexecute : setting.workflow.execute first board = (.ok outcome, after))
    (hcontext : board.groups[group]? = some context) (hcompiled : IsCompiled cls context)
    {later : LoadContext} (hlater : after.groups[group]? = some later)
    (hbound : context.has .classDependencies = true → later.has .classDependencies = true)
    (h : ⟨500, .binaryClassDependencies, group⟩ ∈ first :: rest ∨
      context.has .classDependencies = true) :
    ⟨500, .binaryClassDependencies, group⟩ ∈ outcome.spawned ++ rest ∨
      later.has .classDependencies = true := by
  rcases h with hwaits | hlinked
  · rcases mem_after outcome.spawned hwaits with rfl | hwaits
    · obtain ⟨done, hinputs, hdeed, _, _, hown, _⟩ := exists_own hlate hexecute hcontext
      have hclasses := hinputs .classes List.mem_cons_self
      rw [LoadContext.has, hcompiled.classes, Option.isSome_none, Bool.false_or] at hclasses
      obtain ⟨item, hitem⟩ := Option.isSome_iff_exists.1 hclasses
      obtain rfl := Option.some.inj (hown.symm.trans hlater)
      exact Or.inr (yields_binaryClassDependencies hcompiled.binary hitem _ _
        (congrArg Prod.fst hdeed))
    · exact Or.inl hwaits
  · exact Or.inr (hbound hlinked)

/-- When the members of a class file are entered, they have names. -/
theorem members_after (hlate : first.task.priority ≤ 700)
    (hexecute : setting.workflow.execute first board = (.ok outcome, after))
    (hcontext : board.groups[group]? = some context) (hcompiled : IsCompiled cls context)
    (h : ⟨400, .binaryMembers, group⟩ ∈ first :: rest ∨ cls.HasNamedMembers) :
    ⟨400, .binaryMembers, group⟩ ∈ outcome.spawned ++ rest ∨ cls.HasNamedMembers := by
  rcases h with hwaits | hnamed
  · rcases mem_after outcome.spawned hwaits with rfl | hwaits
    · obtain ⟨done, hinputs, hdeed, _⟩ := exists_own hlate hexecute hcontext
      obtain ⟨item, hitem⟩ := Option.isSome_iff_exists.1
        (hcompiled.item (hinputs .classDependencies List.mem_cons_self))
      exact Or.inr (yields_binaryMembers hcompiled.binary hitem _ _ (congrArg Prod.fst hdeed))
    · exact Or.inl hwaits
  · exact Or.inr hnamed

/-- A task that finishes takes no class file off its way. -/
theorem Trail.step (h : Trail setting cls (first :: rest) board)
    (hlate : first.task.priority ≤ 700)
    (hexecute : setting.workflow.execute first board = (.ok outcome, after)) :
    Trail setting cls (outcome.spawned ++ rest) after := by
  cases h with
  | archive hwaits hcontext hinputs hpath hcontent hcls =>
    exact trail_of_archive hlate hexecute hwaits hcontext hinputs hpath hcontent hcls
  | package hwaits hcontext hcompiled hproject =>
    exact trail_of_package hlate hexecute hwaits hcontext hcompiled hproject
  | members hcontext hcompiled hpackage hclass hlinks hmembers =>
    obtain ⟨later, hlater, hcompiled', hhas, hitem⟩ := hcompiled.exists_later hlate hexecute hcontext
    exact .members hlater hcompiled' (hhas _ (by decide) (by decide) hpackage)
      (class_after hlate hexecute hcontext hcompiled hpackage hlater hitem hclass)
      (links_after hlate hexecute hcontext hcompiled hlater (hhas _ (by decide) (by decide)) hlinks)
      (members_after hlate hexecute hcontext hcompiled hmembers)

end Steps

/-- Later tasks wait, and a class file is on its way. -/
theorem isInvariant_trail (setting : LoadSetting) (cls : BinaryClass) :
    setting.workflow.IsInvariant (fun waiting board =>
      (∀ pending ∈ waiting, pending.task.priority ≤ 700) ∧ Trail setting cls waiting board) where
  perm hperm h :=
    ⟨fun pending hpending => h.1 pending (hperm.mem_iff.2 hpending), h.2.perm hperm⟩
  step h hexecute := ⟨late_after h.1 hexecute, h.2.step (h.1 _ List.mem_cons_self) hexecute⟩

end CodeAtlas.Load
