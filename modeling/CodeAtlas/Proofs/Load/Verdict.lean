/-
# Workspaces that can be loaded

A workspace directory can be loaded exactly when all class files that the load comes to have the names
that items need.  Nothing else in source files, manifests, project files or archives makes it fail.
-/
import CodeAtlas.Proofs.Index.Start
import CodeAtlas.Proofs.Load.Completion

namespace CodeAtlas

open Tasks

namespace Load

open Index

variable {setting : LoadSetting}

/-! ## The class files of a load -/

/-- The class files that a load comes to in an entrant whose dependencies are known or not.  The
entries of an archive are passed over when its dependencies are required and not all known. -/
def Entrant.loadedClasses (setting : LoadSetting) : Entrant × Bool → List BinaryClass
  | (.directory _, _) => []
  | (.archive _ content, isMet) =>
    if isMet || !setting.config.requireArchiveDependencies then classFiles content else []

/-- The class files that a load comes to, when the base has projects of given standings. -/
def loadedClasses (setting : LoadSetting) (standings : String → Option Standing) (root : String) :
    List BinaryClass :=
  (gates setting (enrolAll setting standings (entrants setting root))
    (entrants setting root)).flatMap (Entrant.loadedClasses setting)

theorem archive?_of_mem_entrants {root path : String} {content : Archive}
    (h : .archive path content ∈ entrants setting root) :
    setting.disk.archive? path = some content := by
  obtain ⟨find, _, hfind⟩ := List.mem_filterMap.1 h
  cases find with
  | directory other => simp [Find.entrant?] at hfind
  | archive other =>
    obtain ⟨found, hfound, heq⟩ := Option.map_eq_some_iff.1 hfind
    obtain ⟨rfl, rfl⟩ := Entrant.archive.inj heq
    exact hfound

theorem mem_of_mem_gates {standings : String → Option Standing} {entrants : List Entrant}
    {entry : Entrant × Bool} (h : entry ∈ gates setting standings entrants) :
    entry.1 ∈ entrants := by
  have hmem : entry.1 ∈ (gates setting standings entrants).map Prod.fst :=
    List.mem_map.2 ⟨entry, h, rfl⟩
  rwa [map_fst_gates] at hmem

section Enrolled

variable {standings : String → Option Standing} {root : String}
  {waiting : List (Pending LoadTask)} {board : Board LoadContext LoadState}

/-- An archive whose task has its inputs has its gate open, or no gate. -/
theorem Enrolled.openArchives {table : String → Option Standing} {order : List Entrant}
    (h : Enrolled setting table order waiting board) {holds : String → Prop}
    (hopen : ∀ path content isMet, (Entrant.archive path content, isMet) ∈ gates setting table order →
      (isMet || !setting.config.requireArchiveDependencies) = true → holds path) :
    OpenArchives holds waiting board := by
  intro pending hpending gated htask context hcontext hinputs path hpath
  rcases (h.origin pending hpending).2 with ⟨entry, hentry, project, hmem, hfound⟩ | ⟨hother, _⟩
  · obtain rfl := Option.some.inj (hfound.symm.trans hcontext)
    obtain ⟨entrant, isMet⟩ := entry
    cases entrant with
    | directory dir => simp [Entrant.entryTasks] at hmem
    | archive known found =>
      obtain rfl : known = path := Option.some.inj hpath
      have hgated : pending.task = .archiveEntries setting.config.requireArchiveDependencies :=
        List.mem_singleton.1 hmem
      refine hopen known found isMet hentry ?_
      cases hrequired : setting.config.requireArchiveDependencies with
      | false => simp
      | true =>
        rw [hgated, hrequired] at hinputs
        have hloaded : isMet = true := hinputs .dependenciesLoaded (by simp [LoadTask.inputs])
        simp [hloaded]
  · rw [hother] at htask
    simp at htask

/-- With names in all class files, everything is sustained. -/
theorem Enrolled.sustained
    (h : Enrolled setting (enrolAll setting standings (entrants setting root)) (entrants setting root)
      waiting board)
    (hnames : ∀ cls ∈ loadedClasses setting standings root, cls.IsNameable) :
    Sustained setting waiting board := by
  refine ⟨fun pending hpending => (h.origin pending hpending).1, fun pending hpending =>
    (h.priority_eq pending hpending).le, ?_, ?_, fun _ => h.fits⟩
  · intro group context hcontext cls hcls
    rw [(h.bare hcontext).binary] at hcls
    simp at hcls
  · refine h.openArchives (fun path known isMet hentry hopen content hcontent cls hcls => ?_)
    have hknown := archive?_of_mem_entrants (mem_of_mem_gates hentry)
    obtain rfl := Option.some.inj (hknown.symm.trans hcontent)
    refine hnames cls (List.mem_flatMap.2 ⟨_, hentry, ?_⟩)
    rw [Entrant.loadedClasses, if_pos hopen]
    exact hcls

/-- An archive with its gate open, or with no gate, has a task that waits with its inputs. -/
theorem Enrolled.exists_open {table : String → Option Standing} {order : List Entrant}
    (h : Enrolled setting table order waiting board) {path : String} {content : Archive} {isMet : Bool}
    (hentry : (Entrant.archive path content, isMet) ∈ gates setting table order)
    (hopen : (isMet || !setting.config.requireArchiveDependencies) = true) :
    ∃ gated group context, ⟨700, .archiveEntries gated, group⟩ ∈ waiting ∧
      board.groups[group]? = some context ∧
      (∀ key ∈ (LoadTask.archiveEntries gated).inputs, context.has key = true) ∧
      context.archive = some path := by
  obtain ⟨group, project, hcontext, hwaits⟩ := h.entries _ hentry
  refine ⟨_, group, _, hwaits _ List.mem_cons_self, hcontext, fun key hkey => ?_, rfl⟩
  cases hrequired : setting.config.requireArchiveDependencies with
  | false =>
    rw [hrequired] at hkey
    obtain rfl := List.mem_singleton.1 hkey
    rfl
  | true =>
    rw [hrequired, Bool.not_true, Bool.or_false] at hopen
    rw [hrequired] at hkey
    rcases List.mem_cons.1 hkey with rfl | hkey
    · rfl
    · obtain rfl := List.mem_singleton.1 hkey
      exact hopen

/-- Every class file that a load comes to is on its way. -/
theorem Enrolled.trail
    (h : Enrolled setting (enrolAll setting standings (entrants setting root)) (entrants setting root)
      waiting board)
    {cls : BinaryClass} (hcls : cls ∈ loadedClasses setting standings root) :
    Trail setting cls waiting board := by
  obtain ⟨⟨entrant, isMet⟩, hentry, hmem⟩ := List.mem_flatMap.1 hcls
  cases entrant with
  | directory dir => simp [Entrant.loadedClasses] at hmem
  | archive path content =>
    rw [Entrant.loadedClasses] at hmem
    split at hmem
    · rename_i hopen
      obtain ⟨gated, group, context, hwaits, hcontext, hinputs, hpath⟩ := h.exists_open hentry hopen
      exact .archive hwaits hcontext hinputs hpath
        (archive?_of_mem_entrants (mem_of_mem_gates hentry)) hmem
    · simp at hmem

end Enrolled

/-- The tasks of a load end well exactly when all class files they come to have names. -/
theorem run_ok_iff (hgrammar : setting.grammar.SpellsNodes) {index : Index} (hlive : index.Live)
    (workers : Nat) (root : String)
    (hroom : ((initialTasks workers index root).run setting.workflow).2.board.world.index.HasRoom) :
    (∃ report, ((initialTasks workers index root).run setting.workflow).1 = .ok report) ↔
      ∀ cls ∈ loadedClasses setting index.standing? root, cls.IsNameable := by
  obtain ⟨waiting, board, report, hrun, henrolled⟩ := exists_enrolled hlive workers root hroom
  rw [hrun] at hroom ⊢
  constructor
  · rintro ⟨report, hok⟩ cls hcls
    obtain ⟨left, ⟨_, htrail⟩, hend⟩ := TaskList.exists_left_of_run_ok
      (isInvariant_trail setting cls) ⟨fun pending hpending =>
        (henrolled.priority_eq pending hpending).le, henrolled.trail hcls⟩ hok
    exact htrail.isNameable hend
  · intro hnames
    exact Sustained.exists_report hgrammar (henrolled.sustained hnames) hroom

end Load

/-! ## Loading a workspace -/

open Load

/-- The index a load begins with. -/
def startIndex (base : Option Index) (generation : Nat) : Index :=
  match base with
  | some base => .onBase generation base
  | none => .empty generation

/-- The standings of the projects of a base, if there is one. -/
def baseStandings (base : Option Index) (name : String) : Option Standing :=
  base.bind (fun base => base.standing? name)

/-- A base for a load of a given generation: its items are in order and none of them has the
generation. -/
def IsBase (base : Option Index) (generation : Nat) : Prop :=
  ∀ lower, base = some lower → lower.Sound ∧ ∀ id ∈ lower.ids, id.generation ≠ generation

theorem IsBase.live_startIndex {base : Option Index} {generation : Nat}
    (h : IsBase base generation) : (startIndex base generation).Live := by
  cases base with
  | none => exact Index.live_empty generation
  | some lower => exact Index.live_onBase (h lower rfl).1 (h lower rfl).2

theorem IsBase.standing?_startIndex {base : Option Index} {generation : Nat}
    (h : IsBase base generation) : (startIndex base generation).standing? = baseStandings base := by
  funext name
  cases base with
  | none =>
    show (Index.empty generation).standing? name = none
    rw [Index.standing?]
    cases (Index.empty generation).findItem none name .project with
    | none => rfl
    | some id => rw [Option.bind_some, Index.get?_empty]; rfl
  | some lower =>
    obtain ⟨hsound, hnew⟩ := h lower rfl
    show (Index.onBase generation lower).standing? name = lower.standing? name
    rw [Index.standing?, Index.standing?, Index.findItem_onBase,
      funext (Index.get?_onBase hsound.stacked hnew)]

/-- The run of the tasks of a load. -/
def loadRun (setting : LoadSetting) (base : Option Index) (generation : Nat) (root : String) :
    Except RunError Report × TaskList LoadTask LoadContext LoadState :=
  (initialTasks setting.config.workers (startIndex base generation) root).run setting.workflow

/-- Loading with a root that is a directory and patterns that can be read is a run, followed by
pruning. -/
theorem loadWorkspace_eq_loadRun {disk : Disk} {grammar : Source.Grammar} {config : LoadConfig}
    {base : Option Index} {generation : Nat} {root : String} {thirdParty : List Regex.Matcher}
    (hroot : disk.isDirectory root = true) (hpatterns : config.thirdPartyMatchers? = some thirdParty) :
    loadWorkspace disk grammar config base generation root =
      match loadRun ⟨disk, grammar, config, thirdParty⟩ base generation root with
      | (result, tasks) =>
        match result with
        | .error error => throw (.run error)
        | .ok report =>
          let (index, pruned) := config.pruned tasks.board.world.index (generation + 1)
          return ⟨index.propagateThirdParty.2, tasks.board.world.stats, report, pruned⟩ := by
  unfold loadWorkspace
  simp only [hroot, hpatterns, Bool.not_true, Bool.false_eq_true, if_false]
  rfl

/-- On a directory and with patterns that compile, a load fails only by its tasks. -/
theorem loadWorkspace_eq {disk : Disk} {grammar : Source.Grammar} {config : LoadConfig}
    {base : Option Index} {generation : Nat} {root : String} {thirdParty : List Regex.Matcher}
    (hroot : disk.isDirectory root = true) (hpatterns : config.thirdPartyMatchers? = some thirdParty) :
    loadWorkspace disk grammar config base generation root =
      match loadRun ⟨disk, grammar, config, thirdParty⟩ base generation root with
      | (.error error, _) => .error (.run error)
      | (.ok report, tasks) =>
        .ok ⟨(config.pruned tasks.board.world.index (generation + 1)).1.propagateThirdParty.2,
          tasks.board.world.stats, report,
          (config.pruned tasks.board.world.index (generation + 1)).2⟩ := by
  rw [loadWorkspace_eq_loadRun hroot hpatterns]
  rcases loadRun ⟨disk, grammar, config, thirdParty⟩ base generation root with
    ⟨error | report, tasks⟩
  · rfl
  · rfl

/-- A load succeeds when its tasks end well. -/
theorem exists_loadWorkspace_ok_iff {disk : Disk} {grammar : Source.Grammar} {config : LoadConfig}
    {base : Option Index} {generation : Nat} {root : String} {thirdParty : List Regex.Matcher}
    (hroot : disk.isDirectory root = true)
    (hpatterns : config.thirdPartyMatchers? = some thirdParty) :
    (∃ outcome, loadWorkspace disk grammar config base generation root = .ok outcome) ↔
      ∃ report, (loadRun ⟨disk, grammar, config, thirdParty⟩ base generation root).1 =
        .ok report := by
  rw [loadWorkspace_eq hroot hpatterns]
  rcases loadRun ⟨disk, grammar, config, thirdParty⟩ base generation root with
    ⟨error | report, tasks⟩
  · simp
  · exact ⟨fun _ => ⟨report, rfl⟩, fun _ => ⟨_, rfl⟩⟩

/-- What is not a directory is refused. -/
theorem loadWorkspace_of_not_isDirectory {disk : Disk} {root : String}
    (hroot : disk.isDirectory root = false) (grammar : Source.Grammar) (config : LoadConfig)
    (base : Option Index) (generation : Nat) :
    loadWorkspace disk grammar config base generation root = .error (.notDirectory root) := by
  unfold loadWorkspace
  simp only [hroot, Bool.not_false, if_true]
  rfl

/-- Only a directory can be loaded. -/
theorem isDirectory_of_loadWorkspace_ok {disk : Disk} {grammar : Source.Grammar}
    {config : LoadConfig} {base : Option Index} {generation : Nat} {root : String}
    {outcome : LoadOutcome}
    (hload : loadWorkspace disk grammar config base generation root = .ok outcome) :
    disk.isDirectory root = true := by
  cases hfile : disk.isDirectory root with
  | true => rfl
  | false =>
    rw [loadWorkspace_of_not_isDirectory hfile] at hload
    cases hload

/-- When a load succeeds, its tasks ended well and its index comes from theirs. -/
theorem run_of_loadWorkspace_ok {disk : Disk} {grammar : Source.Grammar} {config : LoadConfig}
    {base : Option Index} {generation : Nat} {root : String} {thirdParty : List Regex.Matcher}
    {outcome : LoadOutcome} (hpatterns : config.thirdPartyMatchers? = some thirdParty)
    (hload : loadWorkspace disk grammar config base generation root = .ok outcome) :
    ∃ report, (loadRun ⟨disk, grammar, config, thirdParty⟩ base generation root).1 = .ok report ∧
      outcome.index = (config.pruned (loadRun ⟨disk, grammar, config, thirdParty⟩ base generation
        root).2.board.world.index (generation + 1)).1.propagateThirdParty.2 := by
  rw [loadWorkspace_eq (isDirectory_of_loadWorkspace_ok hload) hpatterns] at hload
  rcases hrun : loadRun ⟨disk, grammar, config, thirdParty⟩ base generation root with
    ⟨error | report, tasks⟩
  · rw [hrun] at hload
    cases hload
  · rw [hrun] at hload
    cases hload
    exact ⟨report, rfl, rfl⟩

/-- A load of an existing directory with patterns that compile succeeds exactly when all class files
it comes to have a class name that does not begin with an empty part, and members with names. -/
theorem loadWorkspace_ok_iff {disk : Disk} {grammar : Source.Grammar} {config : LoadConfig}
    {base : Option Index} {generation : Nat} {root : String} {thirdParty : List Regex.Matcher}
    (hroot : disk.isDirectory root = true) (hpatterns : config.thirdPartyMatchers? = some thirdParty)
    (hgrammar : grammar.SpellsNodes) (hbase : IsBase base generation)
    (hroom : (loadRun ⟨disk, grammar, config, thirdParty⟩ base generation
      root).2.board.world.index.HasRoom) :
    (∃ outcome, loadWorkspace disk grammar config base generation root = .ok outcome) ↔
      ∀ cls ∈ loadedClasses ⟨disk, grammar, config, thirdParty⟩ (baseStandings base) root,
        cls.IsNameable := by
  have hrun := @run_ok_iff ⟨disk, grammar, config, thirdParty⟩ hgrammar _ hbase.live_startIndex
    config.workers root hroom
  rw [hbase.standing?_startIndex] at hrun
  rw [exists_loadWorkspace_ok_iff hroot hpatterns]
  exact hrun

/-- There is room in the end when a bounded run shows it. -/
theorem hasRoom_of_runWithin {setting : LoadSetting} {base : Option Index} {generation bound n : Nat}
    {root : String}
    (h : ((initialTasks setting.config.workers (startIndex base generation) root).runWithin
      setting.workflow bound).map (fun result => result.2.board.world.index.top.firstRaw.toNat +
        result.2.board.world.index.top.items.size) = some n) (hn : n < 2 ^ 32) :
    (loadRun setting base generation root).2.board.world.index.HasRoom := by
  obtain ⟨result, hresult, rfl⟩ := Option.map_eq_some_iff.1 h
  rw [loadRun, TaskList.run_eq_of_runWithin hresult]
  exact hn

/-- A class file whose class is called `a/`. -/
def namelessClass : ByteArray :=
  ⟨#[0xCA, 0xFE, 0xBA, 0xBE, 0, 0, 0, 0x34, 0, 5, 1, 0, 2, 0x61, 0x2F, 7, 0, 1, 1, 0, 0x10,
    0x6A, 0x61, 0x76, 0x61, 0x2F, 0x6C, 0x61, 0x6E, 0x67, 0x2F, 0x4F, 0x62, 0x6A, 0x65, 0x63,
    0x74, 7, 0, 3, 0, 0x21, 0, 2, 0, 4, 0, 0, 0, 0, 0, 0, 0, 0]⟩

/-- A workspace with an archive that holds a class without a name of its own. -/
def namelessDisk : Disk :=
  ⟨[(["ws"], .directory), (["ws", "j.jar"], .archive [⟨"a/A.class", .bytes namelessClass⟩])]⟩

/-- A grammar of which only the empty text is a program. -/
def emptyTexts : Source.Grammar := fun source =>
  ⟨.node "program" none 0 source.utf8ByteSize [], !source.isEmpty⟩

theorem spellsNodes_emptyTexts : emptyTexts.SpellsNodes := by
  intro source _ node hbelow
  simp [emptyTexts] at hbelow

/-- One class file without a name keeps its workspace from being loaded. -/
theorem loadWorkspace_nameless :
    ¬ ∃ outcome, loadWorkspace namelessDisk emptyTexts {} none 0 "ws" = .ok outcome := by
  have hroom : (loadRun ⟨namelessDisk, emptyTexts, {}, []⟩ none 0
      "ws").2.board.world.index.HasRoom :=
    @hasRoom_of_runWithin ⟨namelessDisk, emptyTexts, {}, []⟩ none 0 10 2 "ws" (by decide +kernel)
      (by decide)
  have hbase : IsBase none 0 := by
    intro lower hlower
    simp at hlower
  rw [loadWorkspace_ok_iff (by decide +kernel) rfl spellsNodes_emptyTexts hbase hroom]
  decide +kernel

end CodeAtlas
