/-
# Sources in archives

A source in an archive is loaded when no entry of the archive has the name of its class file.  Its text
comes with the group that is opened for it, and no other task shares that group until the unit is there.
When some entry has the name of the class file, whatever that entry holds, the load does not depend on
what the source holds.
-/
import CodeAtlas.Proofs.Load.FirstParty
import CodeAtlas.Proofs.Load.Stalls
import CodeAtlas.Proofs.Prune.Search
import CodeAtlas.Proofs.Text.Cuts

namespace CodeAtlas

open Tasks

/-! ## Sources beside class files -/

namespace Archive

/-- Whether an entry is a source and some entry has the name of its class file. -/
def shadows (archive : Archive) (entry : ArchiveEntry) : Bool :=
  (Text.stripTail? ".java" entry.name).any fun stem => archive.names.contains (stem ++ ".class")

/-- An entry that holds something else if it is a source with a class file beside it. -/
def recastEntry (data : ArchiveEntry → FileData) (archive : Archive) (entry : ArchiveEntry) :
    ArchiveEntry :=
  if archive.shadows entry then { entry with data := data entry } else entry

/-- An archive whose sources beside class files hold something else. -/
def recast (data : ArchiveEntry → FileData) (archive : Archive) : Archive :=
  archive.map (recastEntry data archive)

variable (data : ArchiveEntry → FileData) (archive : Archive)

@[simp] theorem name_recastEntry (entry : ArchiveEntry) :
    (recastEntry data archive entry).name = entry.name := by
  unfold recastEntry
  split <;> rfl

@[simp] theorem names_recast : (recast data archive).names = archive.names := by
  unfold recast names
  rw [List.map_map]
  apply List.map_congr_left
  intro entry _
  exact name_recastEntry data archive entry

/-- The manifest is no source. -/
theorem manifestEntry_recast :
    Archive.entry? (recast data archive) Disk.manifestPath =
      Archive.entry? archive Disk.manifestPath := by
  unfold recast Archive.entry?
  rw [List.find?_map]
  have hname : (fun entry : ArchiveEntry => entry.name == Disk.manifestPath) ∘
      recastEntry data archive = fun entry => entry.name == Disk.manifestPath := by
    funext entry
    show ((recastEntry data archive entry).name == Disk.manifestPath) = _
    rw [name_recastEntry]
  rw [hname]
  cases hfound : archive.find? (fun entry => entry.name == Disk.manifestPath) with
  | none => rfl
  | some entry =>
    have hmanifest : entry.name = Disk.manifestPath := by simpa using List.find?_some hfound
    have hplain : archive.shadows entry = false := by
      rw [shadows, hmanifest, show Text.stripTail? ".java" Disk.manifestPath = none by decide]
      rfl
    rw [Option.map_some, recastEntry, hplain]
    rfl

end Archive

namespace Load

open Index
open Source (CompilationUnit)

/-- A name that ends like a source does not end like a class file. -/
theorem stripTail?_class_eq_none {name stem : String} (h : Text.stripTail? ".java" name = some stem) :
    Text.stripTail? ".class" name = none := by
  cases hclass : Text.stripTail? ".class" name with
  | none => rfl
  | some front =>
    have hlast := congrArg List.getLast?
      ((Text.toList_of_stripTail? h).symm.trans (Text.toList_of_stripTail? hclass))
    simp at hlast

/-- A source contributes its text, unless some entry has the name of its class file. -/
theorem entryContent?_source {archive : Archive} {entry : ArchiveEntry} {stem text : String}
    (hname : entry.name = stem ++ ".java") (hclass : stem ++ ".class" ∉ archive.names)
    (htext : entry.data.text? = some text) :
    entryContent? archive entry = some (.source text) := by
  have hstem : Text.stripTail? ".java" entry.name = some stem := by
    rw [hname]
    exact Text.stripTail?_concat ".java" stem
  unfold entryContent?
  simp [stripTail?_class_eq_none hstem, hstem, hclass, htext]

section Recast

variable (data : ArchiveEntry → FileData) (archive : Archive)

/-- What a source beside a class file holds does not count. -/
theorem entryContent?_recast (entry : ArchiveEntry) :
    entryContent? (archive.recast data) (archive.recastEntry data entry) =
      entryContent? archive entry := by
  by_cases hshadows : archive.shadows entry = true
  · obtain ⟨stem, hstem, hclass⟩ := (Option.any_eq_true _ _).1 hshadows
    unfold entryContent?
    simp only [Archive.name_recastEntry, Archive.names_recast, stripTail?_class_eq_none hstem, hstem,
      hclass, if_true]
  · rw [Archive.recastEntry, if_neg hshadows]
    unfold entryContent?
    rw [Archive.names_recast]

theorem entriesByName_recast :
    entriesByName (archive.recast data) = (entriesByName archive).map (archive.recastEntry data) := by
  unfold entriesByName Archive.recast
  rw [List.map_mergeSort]
  intro a _ b _
  rw [Archive.name_recastEntry, Archive.name_recastEntry]

theorem archiveDependencies_recast :
    archiveDependencies (archive.recast data) = archiveDependencies archive := by
  unfold archiveDependencies
  rw [Archive.manifestEntry_recast]

end Recast

section Loads

variable (setting : LoadSetting) (data : Place → ArchiveEntry → FileData)

/-- A setting in which the sources beside class files hold something else. -/
abbrev LoadSetting.recast : LoadSetting :=
  setting.withArchives fun place => Archive.recast (data place)

theorem archiveEntriesBody_recast (gated : Bool) :
    archiveEntriesBody (setting.recast data) gated = archiveEntriesBody setting gated := by
  funext group
  unfold archiveEntriesBody
  refine bind_congr (fun context => ?_)
  cases context.archive with
  | none => rfl
  | some path =>
    cases context.project with
    | none => rfl
    | some project =>
      obtain ⟨place, _, harchive⟩ := setting.disk.exists_archive?_withArchives
        (fun place => Archive.recast (data place)) path
      have hdisk : (setting.recast data).disk.archive? path =
          (setting.disk.archive? path).map (Archive.recast (data place)) := harchive
      simp only [hdisk]
      cases setting.disk.archive? path with
      | none => rfl
      | some archive =>
        simp only [Option.map_some, entriesByName_recast, List.forIn_map, entryContent?_recast,
          Archive.name_recastEntry]

/-- All tasks do the same. -/
theorem workflow_recast : (setting.recast data).workflow = setting.workflow := by
  have hjob : (setting.recast data).job = setting.job := by
    funext task
    cases task with
    | archiveEntries gated =>
      exact congrArg (LoadTask.jobOf _) (archiveEntriesBody_recast setting data gated)
    | _ =>
      exact job_withArchives setting (fun place => archiveDependencies_recast (data place)) rfl
  unfold LoadSetting.workflow
  rw [hjob]

theorem loadRun_recast (base : Option Index) (generation : Nat) (root : String) :
    loadRun (setting.recast data) base generation root = loadRun setting base generation root := by
  unfold loadRun
  rw [workflow_recast]
  rfl

end Loads

/-! ## The way of a source -/

variable {setting : LoadSetting} {path text : String} {entry : ArchiveEntry}
  {waiting : List (Pending LoadTask)} {board : Board LoadContext LoadState}

/-- The path of an entry in an archive. -/
def entryPath (path : String) (entry : ArchiveEntry) : String :=
  path ++ "!/" ++ entry.name

/-- The unit of the text of an entry. -/
def entryUnit (setting : LoadSetting) (path : String) (entry : ArchiveEntry) (text : String) :
    CompilationUnit :=
  CompilationUnit.parse (entryPath path entry) text (setting.grammar text)

/-- An entry of an archive that contributes its text, which has no errors. -/
structure IsEntrySource (setting : LoadSetting) (path : String) (entry : ArchiveEntry)
    (text : String) : Prop where
  content : ∃ content, setting.disk.archive? path = some content ∧ entry ∈ content ∧
    entryContent? content entry = some (.source text)
  noErrors : (entryUnit setting path entry text).hasErrors = false

/-- The context of the group that is opened for the text of an entry. -/
def entryContext (project : ItemId) (path : String) (entry : ArchiveEntry) (text : String) :
    LoadContext :=
  { project := some project, source := some (entryPath path entry), sourceText := some text }

theorem IsEntrySource.sourceUnit?_eq (h : IsEntrySource setting path entry text) (project : ItemId) :
    sourceUnit? setting (entryContext project path entry text) (entryPath path entry) =
      some (entryUnit setting path entry text) := by
  rw [sourceUnit?, Option.filter_eq_some_iff]
  refine ⟨rfl, ?_⟩
  rw [h.noErrors]
  rfl

/-- How far a source in an archive has come: its archive waits, or its text waits to be parsed, or its
package was entered and its classes wait, or its classes were entered. -/
inductive EntryTrail (setting : LoadSetting) (path : String) (entry : ArchiveEntry) (text : String)
    (waiting : List (Pending LoadTask)) (board : Board LoadContext LoadState) : Prop
  | archive {group : Nat} {context : LoadContext} {gated : Bool}
      (hwaits : ⟨700, .archiveEntries gated, group⟩ ∈ waiting)
      (hcontext : board.groups[group]? = some context)
      (hinputs : ∀ key ∈ (LoadTask.archiveEntries gated).inputs, context.has key = true)
      (hpath : context.archive = some path)
  | file {group : Nat} {project : ItemId} (hwaits : ⟨700, .sourceFile, group⟩ ∈ waiting)
      (hcontext : board.groups[group]? = some (entryContext project path entry text))
  | classes {group : Nat} {context : LoadContext} {project package : ItemId}
      (hwaits : ⟨600, .classes, group⟩ ∈ waiting) (hcontext : board.groups[group]? = some context)
      (hunit : context.unit = some (entryUnit setting path entry text))
      (hpackage : context.package = some package)
      (hhas : board.world.index.Has package (some project) .package
        (entryUnit setting path entry text).package)
  | entered {project : ItemId}
      (hholds : HoldsUnit board.world.index project (entryUnit setting path entry text))

theorem EntryTrail.perm {others : List (Pending LoadTask)}
    (h : EntryTrail setting path entry text waiting board) (hperm : waiting.Perm others) :
    EntryTrail setting path entry text others board := by
  cases h with
  | archive hwaits hcontext hinputs hpath =>
    exact .archive (hperm.mem_iff.1 hwaits) hcontext hinputs hpath
  | file hwaits hcontext => exact .file (hperm.mem_iff.1 hwaits) hcontext
  | classes hwaits hcontext hunit hpackage hhas =>
    exact .classes (hperm.mem_iff.1 hwaits) hcontext hunit hpackage hhas
  | entered hholds => exact .entered hholds

/-- At the end of a run, the classes of a source in an archive were entered. -/
theorem EntryTrail.exists_holdsUnit (h : EntryTrail setting path entry text waiting board)
    (hend : ∀ pending ∈ waiting, ¬ setting.workflow.isEligible board pending = true) :
    ∃ project, HoldsUnit board.world.index project (entryUnit setting path entry text) := by
  cases h with
  | archive hwaits hcontext hinputs _ =>
    exact absurd ((isEligible_iff hcontext).2 hinputs) (hend _ hwaits)
  | file hwaits hcontext =>
    refine absurd ((isEligible_iff hcontext).2 (fun key hkey => ?_)) (hend _ hwaits)
    obtain rfl := List.mem_singleton.1 hkey
    rfl
  | classes hwaits hcontext hunit hpackage _ =>
    exact absurd (isEligible_classes hcontext hunit hpackage) (hend _ hwaits)
  | entered hholds => exact ⟨_, hholds⟩

section Steps

variable {first : Pending LoadTask} {rest : List (Pending LoadTask)}
  {after : Board LoadContext LoadState} {outcome : Outcome LoadTask}

/-- Only stages share a group. -/
theorem Supplied.priority_lt (h : Supplied (first :: rest) board) {pending : Pending LoadTask}
    (hpending : pending ∈ rest) (hgroup : first.group = pending.group) :
    first.task.priority < 700 ∧ pending.task.priority < 700 :=
  (List.pairwise_cons.1 h.apart).1 pending hpending hgroup

/-- A stage of a group keeps the unit and the package of the group. -/
theorem exists_kept_unit (hlow : first.task.priority < 700)
    (hexecute : setting.workflow.execute first board = (.ok outcome, after))
    {context : LoadContext} (hcontext : board.groups[first.group]? = some context) :
    ∃ later, after.groups[first.group]? = some later ∧ later.unit = context.unit ∧
      later.package = context.package := by
  obtain ⟨priority, task, group⟩ := first
  obtain ⟨done, _, _, _, _, hown, hkeeps⟩ := exists_own hlow.le hexecute hcontext
  have hfile : task ≠ .sourceFile := by
    rintro rfl
    simp [LoadTask.priority] at hlow
  have hbinary : task ≠ .binaryPackage := by
    rintro rfl
    simp [LoadTask.priority] at hlow
  exact ⟨_, hown, hkeeps.unit hfile, hkeeps.package hfile hbinary⟩

/-- A task that finishes takes no source in an archive off its way. -/
theorem EntryTrail.step (hgrammar : setting.grammar.SpellsNodes)
    (hentry : IsEntrySource setting path entry text) (hsustained : Sustained setting (first :: rest) board)
    (hsupplied : Supplied (first :: rest) board)
    (hexecute : setting.workflow.execute first board = (.ok outcome, after))
    (hroom : after.world.index.HasRoom)
    (h : EntryTrail setting path entry text (first :: rest) board) :
    EntryTrail setting path entry text (outcome.spawned ++ rest) after := by
  obtain ⟨hfits, _, hext⟩ := hsustained.extends_after hgrammar hexecute hroom
  have hlate := hsustained.late first List.mem_cons_self
  cases h with
  | archive hwaits hcontext hinputs hpath =>
    rcases mem_after outcome.spawned hwaits with rfl | hstill
    · obtain ⟨content, hcontent, hmem, hsource⟩ := hentry.content
      obtain ⟨project, hopens⟩ := exists_group_of_archive hexecute hcontext hpath hcontent
        (List.mem_mergeSort.2 hmem)
      obtain ⟨place, hopened, hspawned⟩ :=
        hopens (entryContext project path entry text, .sourceFile) (by
          rw [entryGroups, hsource]
          exact List.mem_cons_self)
      exact .file (List.mem_append_left _ hspawned) hopened
    · obtain ⟨later, hlater, hinputs', hpath'⟩ :=
        exists_kept_archive hlate hexecute hcontext hinputs hpath
      exact .archive hstill hlater hinputs' hpath'
  | @file group project hwaits hcontext =>
    rcases List.mem_cons.1 hwaits with rfl | hstill
    · obtain ⟨later, package, hlater, _, hunit, hpackage, hhas, hspawned⟩ :=
        source_after hfits.live (hfits.contexts hcontext) hexecute hroom hcontext rfl rfl
          (hentry.sourceUnit?_eq project)
      exact .classes (List.mem_append_left _ hspawned) hlater hunit hpackage hhas
    · -- a text that was not parsed yet is alone in its group
      have hne : group ≠ first.group := by
        intro hgroup
        have hlow : (700 : Int) < 700 := (hsupplied.priority_lt hstill hgroup.symm).2
        simp at hlow
      exact .file (List.mem_append_right _ hstill) (getElem?_groups_after hlate hexecute hne hcontext)
  | @classes group context project package hwaits hcontext hunit hpackage hhas =>
    rcases List.mem_cons.1 hwaits with rfl | hstill
    · exact .entered (holdsUnit_after hfits hexecute hroom hext hcontext hunit hpackage hhas)
    · have hhas' := stable_has _ _ _ _ _ _ hext hhas
      by_cases hgroup : first.group = group
      · subst hgroup
        obtain ⟨later, hlater, hunit', hpackage'⟩ :=
          exists_kept_unit (hsupplied.priority_lt hstill rfl).1 hexecute hcontext
        exact .classes (List.mem_append_right _ hstill) hlater (hunit'.trans hunit)
          (hpackage'.trans hpackage) hhas'
      · exact .classes (List.mem_append_right _ hstill)
          (getElem?_groups_after hlate hexecute (Ne.symm hgroup) hcontext) hunit hpackage hhas'
  | entered hholds => exact .entered (stable_holdsUnit _ _ _ _ hext hholds)

end Steps

/-! ## Whole runs -/

/-- While the index has room, a source in an archive is on its way. -/
theorem isInvariant_entrySources (hgrammar : setting.grammar.SpellsNodes)
    (hentry : IsEntrySource setting path entry text) :
    setting.workflow.IsInvariant (fun waiting board => (Sustained setting waiting board ∧
      Supplied waiting board) ∧ (board.world.index.HasRoom →
        EntryTrail setting path entry text waiting board)) where
  perm hperm h :=
    ⟨⟨(isInvariant_sustained hgrammar).perm hperm h.1.1, h.1.2.perm hperm⟩,
      fun hroom => (h.2 hroom).perm hperm⟩
  step {first rest board after outcome} h hexecute := by
    refine ⟨⟨h.1.1.step hgrammar hexecute, h.1.2.step hexecute⟩, fun hroom => ?_⟩
    have hgrown := (isProgress_grown setting).step first board
    rw [hexecute] at hgrown
    exact (h.2 (hgrown.hasRoom hroom)).step hgrammar hentry h.1.1 h.1.2 hexecute hroom

/-- The entries of an archive that are to be gone through are on their way. -/
theorem Enrolled.entryTrail {standings : String → Option Standing} {root : String}
    (h : Enrolled setting (enrolAll setting standings (entrants setting root)) (entrants setting root)
      waiting board)
    (hgate : (path, true) ∈ archiveGates setting standings root) :
    EntryTrail setting path entry text waiting board := by
  obtain ⟨⟨entrant, isMet⟩, hentry, hsome⟩ := List.mem_filterMap.1 hgate
  cases entrant with
  | directory dir => simp [Entrant.gate?] at hsome
  | archive other content =>
    obtain ⟨rfl, hopen⟩ := Prod.mk.inj (Option.some.inj hsome)
    obtain ⟨gated, group, context, hwaits, hcontext, hinputs, hpath⟩ := h.exists_open hentry hopen
    exact .archive hwaits hcontext hinputs hpath

/-- When the tasks of a load end well, the sources of archives that are gone through have their
classes in the index. -/
theorem exists_holdsUnit_of_run_ok (hgrammar : setting.grammar.SpellsNodes) {index : Index}
    (hlive : index.Live) (workers : Nat) {root : String} {report : Report}
    (hroom : ((initialTasks workers index root).run setting.workflow).2.board.world.index.HasRoom)
    (hok : ((initialTasks workers index root).run setting.workflow).1 = .ok report)
    (hgate : (path, true) ∈ archiveGates setting index.standing? root)
    (hentry : IsEntrySource setting path entry text) :
    ((initialTasks workers index root).run setting.workflow).2.board.world.index.Sound ∧
      ∃ project, HoldsUnit
        ((initialTasks workers index root).run setting.workflow).2.board.world.index project
        (entryUnit setting path entry text) := by
  have hnames := (run_ok_iff hgrammar hlive workers root hroom).1 ⟨report, hok⟩
  obtain ⟨waiting, board, early, hrun, henrolled⟩ := exists_enrolled hlive workers root hroom
  rw [hrun] at hroom hok ⊢
  obtain ⟨left, ⟨⟨hsustained, _⟩, htrail⟩, hend⟩ := TaskList.exists_left_of_run_ok
    (isInvariant_entrySources hgrammar hentry)
    ⟨⟨henrolled.sustained hnames, henrolled.supplied⟩, fun _ => henrolled.entryTrail hgate⟩ hok
  exact ⟨(hsustained.fits hroom).live.sound, (htrail hroom).exists_holdsUnit hend⟩

end Load

/-! ## Loading a workspace -/

open Load Index

section Workspaces

variable {disk : Disk} {grammar : Source.Grammar} {config : LoadConfig} {base : Option Index}
  {generation : Nat} {root : String} {thirdParty : List Regex.Matcher} {outcome : LoadOutcome}

/-- A load comes to the same, well or not, when the sources beside class files hold something else. -/
theorem loadWorkspace_recast (disk : Disk) (grammar : Source.Grammar) (config : LoadConfig)
    (base : Option Index) (generation : Nat) (root : String)
    (data : Place → ArchiveEntry → FileData) :
    loadWorkspace (disk.withArchives fun place => Archive.recast (data place)) grammar config base
      generation root = loadWorkspace disk grammar config base generation root := by
  have hroot := disk.isDirectory_withArchives (fun place => Archive.recast (data place)) root
  cases hdirectory : disk.isDirectory root with
  | false =>
    rw [loadWorkspace_of_not_isDirectory hdirectory,
      loadWorkspace_of_not_isDirectory (hroot.trans hdirectory)]
  | true =>
    cases hpatterns : config.thirdPartyMatchers? with
    | none =>
      unfold loadWorkspace
      simp only [hroot, hdirectory, hpatterns, Bool.not_true, Bool.false_eq_true, if_false]
    | some thirdParty =>
      rw [loadWorkspace_eq (hroot.trans hdirectory) hpatterns,
        loadWorkspace_eq hdirectory hpatterns]
      have hrun := loadRun_recast ⟨disk, grammar, config, thirdParty⟩ data base generation root
      rw [← hrun]
      rfl

/-- A load that keeps third-party items has the classes of every source in an archive that it goes
through and whose text is there and has no errors, unless some entry has the name of the class file.
Then it comes to the same whatever the source holds, be the class file readable or not. -/
theorem loadWorkspace_archiveSources (hpatterns : config.thirdPartyMatchers? = some thirdParty)
    (hgrammar : grammar.SpellsNodes) (hbase : IsBase base generation)
    (hroom : (loadRun ⟨disk, grammar, config, thirdParty⟩ base generation
      root).2.board.world.index.HasRoom)
    (hload : loadWorkspace disk grammar config base generation root = .ok outcome)
    (hwhole : config.pruneThirdParty = false) :
    let setting : LoadSetting := ⟨disk, grammar, config, thirdParty⟩
    (∀ path content, (path, true) ∈ archiveGates setting (baseStandings base) root →
      disk.archive? path = some content → ∀ entry ∈ content, ∀ stem text,
      entry.name = stem ++ ".java" → stem ++ ".class" ∉ content.names →
      entry.data.text? = some text → (entryUnit setting path entry text).hasErrors = false →
      ∃ project, HoldsUnit outcome.index project (entryUnit setting path entry text)) ∧
    ∀ data : Place → ArchiveEntry → FileData,
      loadWorkspace (disk.withArchives fun place => Archive.recast (data place)) grammar config base
        generation root = .ok outcome := by
  obtain ⟨report, hok, hindex⟩ := run_of_loadWorkspace_ok hpatterns hload
  constructor
  · intro path content hgate hcontent entry hmem stem text hname hclass htext herrors
    rw [← hbase.standing?_startIndex] at hgate
    have hentry : IsEntrySource ⟨disk, grammar, config, thirdParty⟩ path entry text :=
      ⟨⟨content, hcontent, hmem, entryContent?_source hname hclass htext⟩, herrors⟩
    obtain ⟨hsound, project, hholds⟩ := @exists_holdsUnit_of_run_ok
      ⟨disk, grammar, config, thirdParty⟩ path text entry hgrammar _ hbase.live_startIndex
      config.workers root report hroom hok hgate hentry
    refine ⟨project, ?_⟩
    rw [hindex, LoadConfig.pruned, hwhole]
    exact HoldsUnit.propagate hsound.stacked hholds
  · intro data
    rw [loadWorkspace_recast]
    exact hload

end Workspaces

/-- A workspace with an archive that holds a source with a class `A`. -/
def sourceDisk : Disk :=
  ⟨[(["ws"], .directory),
    (["ws", "lib.jar"], .archive [⟨"A.java", .text "class A \x7b\x7d"⟩])]⟩

/-- A workspace with an archive that holds a class file that cannot be read, and its source. -/
def damagedDisk (source : FileData) : Disk :=
  ⟨[(["ws"], .directory),
    (["ws", "lib.jar"], .archive [⟨"x/A.class", .damaged⟩, ⟨"x/A.java", source⟩])]⟩

/-- The source is loaded when it stands alone; beside a class file that cannot be read, it does not
matter. -/
theorem loadWorkspace_sourceDisk :
    (∃ outcome, loadWorkspace sourceDisk oneClass { pruneThirdParty := false } none 0 "ws" =
      .ok outcome ∧ ∃ project, outcome.index.HoldsClass project "" "A") ∧
    ∀ source,
      loadWorkspace (damagedDisk source) oneClass { pruneThirdParty := false } none 0 "ws" =
        loadWorkspace (damagedDisk .damaged) oneClass { pruneThirdParty := false } none 0 "ws" := by
  constructor
  · have hroom : (loadRun ⟨sourceDisk, oneClass, { pruneThirdParty := false }, []⟩ none 0
        "ws").2.board.world.index.HasRoom :=
      @hasRoom_of_runWithin ⟨sourceDisk, oneClass, { pruneThirdParty := false }, []⟩ none 0 30 3 "ws"
        (by decide +kernel) (by decide)
    have hbase : IsBase none 0 := by
      intro lower hlower
      simp at hlower
    have hok := @run_ok_iff ⟨sourceDisk, oneClass, { pruneThirdParty := false }, []⟩
      spellsNodes_oneClass _ hbase.live_startIndex 1 "ws" hroom
    obtain ⟨outcome, hload⟩ := (exists_loadWorkspace_ok_iff (by decide +kernel) rfl).2
      (hok.2 (by rw [hbase.standing?_startIndex]; decide +kernel))
    refine ⟨outcome, hload, ?_⟩
    obtain ⟨hsources, _⟩ := @loadWorkspace_archiveSources sourceDisk oneClass
      { pruneThirdParty := false } none 0 "ws" [] outcome rfl spellsNodes_oneClass hbase hroom hload
      rfl
    obtain ⟨project, hholds⟩ := hsources "ws/lib.jar" _ (by decide +kernel) rfl _ List.mem_cons_self
      "A" "class A \x7b\x7d" rfl (by decide +kernel) rfl (by decide +kernel)
    exact ⟨project, hholds 1 (by decide +kernel) "A" (by decide +kernel)⟩
  · intro source
    have hdisk : damagedDisk source = (damagedDisk .damaged).withArchives fun _ =>
        Archive.recast fun _ => source := by
      rfl
    rw [hdisk, loadWorkspace_recast]

end CodeAtlas
