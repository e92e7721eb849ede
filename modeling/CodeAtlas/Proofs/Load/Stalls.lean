/-
# Archives that stall

An archive whose manifest names an archive that is no known project keeps its entries to itself, when
the dependencies of archives are required.  These are the only tasks that stall in a load, one for each
such archive, and nothing that the load comes to depends on what their entries hold.  Several workers may
link the projects in any order, and a directory that one manifest names is a known project only to those
that are linked later.

Only the task that goes through an archive sees what its entries hold; to all others an archive is what
its manifest names.  So a load in which the tasks of some archives never run comes to the same when those
archives hold other entries beside the manifest.
-/
import Mathlib.Data.List.Permutation
import CodeAtlas.Proofs.Disk.Archives
import CodeAtlas.Proofs.Load.Completion
import CodeAtlas.Proofs.Load.Loaded
import CodeAtlas.Proofs.Load.Schedules
import CodeAtlas.Proofs.Load.Supplied

namespace CodeAtlas.Load

open Tasks

variable {setting : LoadSetting} {change : Place → Archive → Archive}

/-- A setting in which the archives of the disk hold other entries. -/
def LoadSetting.withArchives (setting : LoadSetting) (change : Place → Archive → Archive) :
    LoadSetting :=
  { setting with disk := setting.disk.withArchives change }

/-- Other entries leave the manifests naming what they name. -/
def KeepsManifests (change : Place → Archive → Archive) : Prop :=
  ∀ place entries, archiveDependencies (change place entries) = archiveDependencies entries

/-! ## Tasks that do not see the entries -/

theorem discoveryBody_withArchives (setting : LoadSetting) (change : Place → Archive → Archive) :
    discoveryBody (setting.withArchives change) = discoveryBody setting := by
  funext group
  unfold discoveryBody LoadSetting.withArchives
  simp only [Disk.discover_withArchives]

theorem projectBody_withArchives (setting : LoadSetting) (change : Place → Archive → Archive) :
    projectBody (setting.withArchives change) = projectBody setting := by
  funext group
  unfold projectBody LoadSetting.withArchives LoadSetting.isThirdParty
  simp only [Disk.projectName_withArchives, Disk.sourceFolders_withArchives,
    Disk.projectDependencies_withArchives, Disk.filesWithExtension_withArchives]

theorem readSource_withArchives (setting : LoadSetting) (change : Place → Archive → Archive) :
    readSource (setting.withArchives change) = readSource setting := by
  unfold readSource LoadSetting.withArchives
  simp only [Disk.readText_withArchives]

/-- An archive is entered by its path and its manifest. -/
theorem archiveBody_withArchives (setting : LoadSetting) (hchange : KeepsManifests change) :
    archiveBody (setting.withArchives change) = archiveBody setting := by
  funext group
  unfold archiveBody
  refine bind_congr (fun context => ?_)
  cases context.archive with
  | none => rfl
  | some path =>
    obtain ⟨place, _, harchive⟩ := setting.disk.exists_archive?_withArchives change path
    have hdisk : (setting.withArchives change).disk.archive? path =
        (setting.disk.archive? path).map (change place) := harchive
    simp only [hdisk]
    cases setting.disk.archive? path with
    | none => rfl
    | some entries =>
      simp only [Option.map_some, hchange place entries]
      rfl

/-- All tasks but those of archives do the same. -/
theorem job_withArchives (setting : LoadSetting) (hchange : KeepsManifests change) {task : LoadTask}
    (htask : task.isArchiveEntries = false) :
    (setting.withArchives change).job task = setting.job task := by
  cases task with
  | discovery => exact congrArg (LoadTask.jobOf _) (discoveryBody_withArchives setting change)
  | project => exact congrArg (LoadTask.jobOf _) (projectBody_withArchives setting change)
  | archive => exact congrArg (LoadTask.jobOf _) (archiveBody_withArchives setting hchange)
  | archiveEntries gated => simp [LoadTask.isArchiveEntries] at htask
  | sourceFile =>
    show Job.chain _ _ [readSource (setting.withArchives change), parseSource setting,
      enterSourcePackage] = _
    rw [readSource_withArchives]
    rfl
  | _ => rfl

/-- The task of an archive whose entries are the same does the same. -/
theorem run_archiveEntriesBody_withArchives {gated : Bool} {group : Nat}
    {board : Board LoadContext LoadState} {context : LoadContext}
    (hcontext : board.groups[group]? = some context)
    (hsame : ∀ path, context.archive = some path →
      (setting.disk.withArchives change).archive? path = setting.disk.archive? path) :
    (archiveEntriesBody (setting.withArchives change) gated group).run.run ⟨board, []⟩ =
      (archiveEntriesBody setting gated group).run.run ⟨board, []⟩ := by
  unfold archiveEntriesBody
  rw [run_contextOf_bind, run_contextOf_bind, hcontext, Option.getD_some]
  cases hpath : context.archive with
  | none => rfl
  | some path =>
    have hdisk : (setting.withArchives change).disk.archive? path = setting.disk.archive? path :=
      hsame path hpath
    cases hproject : context.project with
    | none => rfl
    | some project =>
      dsimp only
      rw [hdisk]

/-! ## Runs that do not come to the entries -/

theorem entersAlike_withArchives (setting : LoadSetting) (hchange : KeepsManifests change) :
    setting.EntersAlike (setting.withArchives change) := by
  intro task hearly
  refine job_withArchives setting hchange ?_
  cases task with
  | archiveEntries gated => exact absurd hearly (by simp [LoadTask.priority])
  | _ => rfl

/-- Later tasks wait, and something holds of the archives among them whose gates are open. -/
theorem isInvariant_openArchives (setting : LoadSetting) (holds : String → Prop) :
    setting.workflow.IsInvariant (fun waiting board =>
      (∀ pending ∈ waiting, pending.task.priority ≤ 700) ∧ OpenArchives holds waiting board) where
  perm hperm h :=
    ⟨fun pending hpending => h.1 pending (hperm.mem_iff.2 hpending),
      fun pending hpending => h.2 pending (hperm.mem_iff.2 hpending)⟩
  step h hexecute := ⟨late_after h.1 hexecute, h.2.step (h.1 _ List.mem_cons_self) hexecute⟩

/-- While the archives whose gates are open have the same entries, every task that finishes does the
same. -/
theorem finishesAlike_withArchives (setting : LoadSetting) (hchange : KeepsManifests change) :
    setting.workflow.FinishesAlike (setting.withArchives change).workflow (fun waiting board =>
      (∀ pending ∈ waiting, pending.task.priority ≤ 700) ∧ OpenArchives (fun path =>
        (setting.disk.withArchives change).archive? path = setting.disk.archive? path)
          waiting board) := by
  intro first rest board after outcome h hexecute
  rw [← hexecute]
  refine execute_congr ?_
  cases htask : first.task with
  | archiveEntries gated =>
    obtain ⟨context, hcontext, hinputs⟩ :=
      exists_context (Workflow.isEligible_of_execute (congrArg Prod.fst hexecute))
    exact run_archiveEntriesBody_withArchives hcontext
      (h.2 first List.mem_cons_self gated htask context hcontext hinputs)
  | _ => rw [job_withArchives setting hchange rfl]

end CodeAtlas.Load

namespace CodeAtlas

open Tasks

namespace Load

open Index

variable {setting : LoadSetting}

/-! ## Archives and their gates -/

/-- An entrant that is an archive, with whether its entries are gone through: its dependencies are all
known, or they are not required. -/
def Entrant.gate? (setting : LoadSetting) : Entrant × Bool → Option (String × Bool)
  | (.archive path _, isMet) => some (path, isMet || !setting.config.requireArchiveDependencies)
  | (.directory _, _) => none

/-- The archives among entrants that are linked in a given order, each with whether its entries are gone
through when the projects of a table are known before. -/
def gatesAlong (setting : LoadSetting) (table : String → Option Standing) (order : List Entrant) :
    List (String × Bool) :=
  (gates setting table order).filterMap (Entrant.gate? setting)

/-- The archives below a root that can be read, in the order in which they are found, each with whether
its entries are gone through when the base has projects of given standings. -/
def archiveGates (setting : LoadSetting) (standings : String → Option Standing) (root : String) :
    List (String × Bool) :=
  (gates setting (enrolAll setting standings (entrants setting root))
    (entrants setting root)).filterMap (Entrant.gate? setting)

/-- The gate of an entrant is as it stands when those before it have been linked. -/
theorem mem_gates_iff {standings : String → Option Standing} {entrants : List Entrant}
    {entry : Entrant × Bool} : entry ∈ gates setting standings entrants ↔ ∃ before after,
      entrants = before ++ entry.1 :: after ∧
        entry.2 = entry.1.isMet setting (followAll setting standings before) := by
  induction entrants generalizing standings with
  | nil => simp [gates]
  | cons first rest ih =>
    rw [gates, List.mem_cons, ih]
    constructor
    · rintro (rfl | ⟨before, after, rfl, hmet⟩)
      · exact ⟨[], rest, rfl, rfl⟩
      · exact ⟨first :: before, after, rfl, hmet⟩
    · rintro ⟨before, after, hsplit, hmet⟩
      cases before with
      | nil =>
        obtain ⟨rfl, rfl⟩ := List.cons.inj hsplit
        exact Or.inl (Prod.ext rfl hmet)
      | cons head before =>
        obtain ⟨rfl, rfl⟩ := List.cons.inj hsplit
        exact Or.inr ⟨before, after, rfl, hmet⟩

/-- Whether a name is that of a known project when a project is linked: the base has it, something below
the root has it, or it is that of a directory among the dependencies of what was linked before. -/
def IsKnown (setting : LoadSetting) (base : Option Index) (root : String) (linked : List Entrant)
    (name : String) : Prop :=
  (baseStandings base name).isSome ∨ (∃ entrant ∈ entrants setting root, entrant.name setting = name) ∨
    ∃ entrant ∈ linked, .directory name ∈ entrant.dependencies setting

theorem isSome_followAll_enrolAll_iff {base : Option Index} {root name : String}
    {linked : List Entrant} :
    (followAll setting (enrolAll setting (baseStandings base) (entrants setting root)) linked
      name).isSome ↔ IsKnown setting base root linked name := by
  rw [isSome_followAll_iff, isSome_enrolAll_iff, or_assoc]
  exact Iff.rfl

/-- The entries of an archive are passed over when dependencies are required and its manifest names an
archive that is no known project by then. -/
theorem mem_gatesAlong_false_iff {base : Option Index} {root path : String} {order : List Entrant} :
    (path, false) ∈ gatesAlong setting
        (enrolAll setting (baseStandings base) (entrants setting root)) order ↔
      setting.config.requireArchiveDependencies = true ∧
        ∃ before content after, order = before ++ .archive path content :: after ∧
          ∃ earlier name later, archiveDependencies content = earlier ++ .archive name :: later ∧
            .directory name ∉ earlier ∧ ¬ IsKnown setting base root before name := by
  have hgate : ∀ entry : Entrant × Bool, Entrant.gate? setting entry = some (path, false) ↔
      setting.config.requireArchiveDependencies = true ∧ entry.2 = false ∧
        ∃ content, entry.1 = .archive path content := by
    rintro ⟨entrant, isMet⟩
    cases entrant with
    | directory dir => simp [Entrant.gate?]
    | archive other content =>
      rw [Entrant.gate?]
      cases isMet <;> cases setting.config.requireArchiveDependencies <;> simp
  rw [gatesAlong, List.mem_filterMap]
  constructor
  · rintro ⟨⟨entrant, isMet⟩, hentry, hsome⟩
    obtain ⟨hrequired, rfl, content, rfl⟩ := (hgate _).1 hsome
    obtain ⟨before, after, hsplit, hmet⟩ := mem_gates_iff.1 hentry
    obtain ⟨earlier, name, later, hnames, hdirectory, hunknown⟩ :=
      allFound_eq_false_iff.1 hmet.symm
    refine ⟨hrequired, before, content, after, hsplit, earlier, name, later, hnames, hdirectory, ?_⟩
    rw [← isSome_followAll_enrolAll_iff, hunknown]
    exact Bool.false_ne_true
  · rintro ⟨hrequired, before, content, after, hsplit, earlier, name, later, hnames, hdirectory,
      hunknown⟩
    rw [← isSome_followAll_enrolAll_iff, Bool.not_eq_true] at hunknown
    refine ⟨(.archive path content, false), mem_gates_iff.2 ⟨before, after, hsplit, ?_⟩,
      (hgate _).2 ⟨hrequired, rfl, content, rfl⟩⟩
    exact (allFound_eq_false_iff.2 ⟨earlier, name, later, hnames, hdirectory, hunknown⟩).symm

section Enrolled

variable {table : String → Option Standing} {order : List Entrant}
  {waiting : List (Pending LoadTask)} {board : Board LoadContext LoadState}

/-- In the beginning, everything but the gates of archives is supplied. -/
theorem Enrolled.supplied (h : Enrolled setting table order waiting board) :
    Supplied waiting board := by
  refine ⟨fun pending hpending => (h.origin pending hpending).1, ?_, ?_⟩
  · exact h.apart.imp (fun hne heq => absurd heq hne)
  · intro pending hpending
    rcases (h.origin pending hpending).2 with
      ⟨entry, _, project, htask, hcontext⟩ | ⟨htask, project, path, hcontext⟩
    · obtain ⟨entrant, isMet⟩ := entry
      cases entrant with
      | directory dir => simp [Entrant.entryTasks] at htask
      | archive path content =>
        rw [Entrant.entryTasks, List.mem_singleton] at htask
        rw [htask]
        refine ⟨_, hcontext, trivial, fun key hkey => ?_⟩
        cases hgated : setting.config.requireArchiveDependencies with
        | false =>
          rw [hgated] at hkey
          obtain rfl := List.mem_singleton.1 hkey
          exact Or.inl rfl
        | true =>
          rw [hgated] at hkey
          rcases List.mem_cons.1 hkey with rfl | hkey
          · exact Or.inl rfl
          · exact Or.inr (Or.inl (List.mem_singleton.1 hkey))
    · rw [htask]
      refine ⟨_, hcontext, ⟨rfl, rfl, rfl⟩, fun key hkey => ?_⟩
      obtain rfl := List.mem_singleton.1 hkey
      exact Or.inl rfl

/-- The task of an entrant is stuck when its gate stays closed. -/
theorem countP_isStuck_entryTasks {entrant : Entrant} {isMet : Bool} {group : Nat}
    {project : ItemId}
    (hcontext : board.groups[group]? = some (entrant.context setting project isMet)) :
    ((entrant.entryTasks setting).map (fun task => ⟨task.priority, task, group⟩)).countP
      (isStuck board) =
        (Entrant.gate? setting (entrant, isMet)).toList.countP (fun gate => !gate.2) := by
  cases entrant with
  | directory path => rfl
  | archive path content =>
    have hstuck : isStuck board ⟨700, .archiveEntries setting.config.requireArchiveDependencies,
        group⟩ = (setting.config.requireArchiveDependencies && !isMet) := by
      rw [isStuck, hcontext]
      cases setting.config.requireArchiveDependencies <;> rfl
    rw [Entrant.entryTasks, List.map_singleton, List.countP_singleton]
    show (if isStuck board ⟨700, _, group⟩ = true then 1 else 0) = _
    rw [hstuck, Entrant.gate?.eq_def]
    cases isMet <;> cases setting.config.requireArchiveDependencies <;> rfl

/-- The tasks of a ledger that are stuck are those of its closed gates. -/
theorem countP_isStuck_archiveTasks (ledger : Ledger)
    (hgroup : ∀ entry ∈ ledger, ∃ project,
      board.groups[entry.1]? = some (entry.2.1.context setting project entry.2.2)) :
    (archiveTasks setting ledger.roster).countP (isStuck board) =
      ((ledger.map Prod.snd).filterMap (Entrant.gate? setting)).countP (fun gate => !gate.2) := by
  induction ledger with
  | nil => rfl
  | cons first rest ih =>
    obtain ⟨group, entry⟩ := first
    obtain ⟨project, hcontext⟩ := hgroup _ List.mem_cons_self
    have hsplit : archiveTasks setting (Ledger.roster ((group, entry) :: rest)) =
        (entry.1.entryTasks setting).map (fun task => ⟨task.priority, task, group⟩) ++
          archiveTasks setting (Ledger.roster rest) := rfl
    rw [hsplit, List.countP_append, countP_isStuck_entryTasks hcontext, List.map_cons,
      ih (fun entry hentry => hgroup entry (List.mem_cons_of_mem _ hentry))]
    cases hgate : Entrant.gate? setting entry with
    | none =>
      rw [List.filterMap_cons_none hgate]
      exact Nat.zero_add _
    | some gate =>
      rw [List.filterMap_cons_some hgate, Option.toList_some, ← List.countP_append,
        List.singleton_append]

theorem Enrolled.countP_isStuck (h : Enrolled setting table order waiting board) :
    waiting.countP (isStuck board) =
      (gatesAlong setting table order).countP (fun gate => !gate.2) := by
  obtain ⟨ledger, horder, hstands, hwaiting⟩ := h.ledger
  have hstuck : waiting.countP (isStuck board) =
      (waiting.filter (fun pending => pending.task.isArchiveEntries)).countP (isStuck board) := by
    rw [List.countP_filter]
    refine List.countP_congr (fun pending _ => ?_)
    rw [Bool.and_eq_true, iff_self_and, isStuck, Bool.and_eq_true, beq_iff_eq]
    rintro ⟨htask, _⟩
    rw [htask]
    rfl
  rw [hstuck, hwaiting.countP_eq, countP_isStuck_archiveTasks ledger hstands.group, hstands.gates,
    horder]
  rfl

/-- The entries of an archive wait with their inputs only when they are to be gone through. -/
theorem Enrolled.openArchives_gates (h : Enrolled setting table order waiting board)
    {holds : String → Prop} (hopen : ∀ path, (path, true) ∈ gatesAlong setting table order → holds path) :
    OpenArchives holds waiting board := by
  refine h.openArchives (fun path content isMet hentry hgate => hopen path ?_)
  exact List.mem_filterMap.2 ⟨_, hentry, by rw [Entrant.gate?, hgate]⟩

end Enrolled

/-! ## Loads in any order -/

/-- A load that succeeds, with each of its bands executed in whatever order: what the tasks leave is
pruned if the settings say so, and the third-party flags are spread. -/
structure LoadsInAnyOrder (setting : LoadSetting) (base : Option Index) (generation : Nat)
    (root : String) (tasks : TaskList LoadTask LoadContext LoadState) (outcome : LoadOutcome) :
    Prop where
  isDirectory : setting.disk.isDirectory root = true
  exists_sweeps : ∃ sweeps, TaskList.Sweeps setting.workflow
    (initialTasks setting.config.workers (startIndex base generation) root) sweeps
      (.ok outcome.report, tasks)
  index_eq : outcome.index =
    (setting.config.pruned tasks.board.world.index (generation + 1)).1.propagateThirdParty.2
  stats_eq : outcome.stats = tasks.board.world.stats
  pruned_eq : outcome.pruned =
    (setting.config.pruned tasks.board.world.index (generation + 1)).2

section Runs

variable {base : Option Index} {generation : Nat} {root : String}
  {tasks : TaskList LoadTask LoadContext LoadState} {outcome : LoadOutcome}

/-- A load comes to a list where everything is enrolled, after which its tasks end well. -/
theorem LoadsInAnyOrder.exists_hasEnrolled (hbase : IsBase base generation)
    (h : LoadsInAnyOrder setting base generation root tasks outcome)
    (hroom : tasks.board.world.index.HasRoom) :
    ∃ order later rest,
      HasEnrolled setting (startIndex base generation) setting.config.workers root order later ∧
      TaskList.Sweeps setting.workflow later rest (.ok outcome.report, tasks) ∧
      (setting.config.workers ≤ 1 → order = entrants setting root) := by
  obtain ⟨sweeps, hsweeps⟩ := h.exists_sweeps
  by_cases hworkers : setting.config.workers ≤ 1
  · obtain ⟨later, rest, hlater, hrest⟩ :=
      exists_hasEnrolled_of_one hbase.live_startIndex hworkers hsweeps hroom
    exact ⟨_, later, rest, hlater, hrest, fun _ => rfl⟩
  · obtain ⟨order, later, rest, hlater, hrest⟩ :=
      Load.exists_hasEnrolled hbase.live_startIndex hsweeps rfl hroom
    exact ⟨order, later, rest, hlater, hrest, fun hone => absurd hone hworkers⟩

/-- The gates that a load comes to are those of the order in which it linked the projects. -/
theorem HasEnrolled.exists_gates_eq {order : List Entrant}
    {later : TaskList LoadTask LoadContext LoadState} (hbase : IsBase base generation)
    (h : HasEnrolled setting (startIndex base generation) setting.config.workers root order later) :
    ∃ table, Enrolled setting table order later.waiting later.board ∧
      gatesAlong setting table order = gatesAlong setting
        (enrolAll setting (baseStandings base) (entrants setting root)) order := by
  obtain ⟨entered, hperm, henrolled⟩ := h.enrolled
  rw [hbase.standing?_startIndex] at henrolled
  refine ⟨_, henrolled, ?_⟩
  rw [gatesAlong, gatesAlong, gates_congr (fun name => isSome_enrolAll_perm hperm)]

/-- The tasks of a load that ends well stall for the archives whose entries are not gone through. -/
theorem HasEnrolled.stalled_eq_gates {order : List Entrant}
    {later : TaskList LoadTask LoadContext LoadState} (hbase : IsBase base generation)
    (h : HasEnrolled setting (startIndex base generation) setting.config.workers root order later)
    {rest : List (Sweep setting.workflow)} {report : Report}
    (hrest : TaskList.Sweeps setting.workflow later rest (.ok report, tasks)) :
    report.stalled = ((gatesAlong setting
      (enrolAll setting (baseStandings base) (entrants setting root)) order).filter
        (fun gate => !gate.2)).map (fun _ => "load archive entries") := by
  obtain ⟨table, henrolled, hgates⟩ := h.exists_gates_eq hbase
  rw [henrolled.supplied.stalled_eq hrest, h.stalled_eq, henrolled.countP_isStuck, hgates,
    List.nil_append, List.map_const', List.countP_eq_length_filter]

/-- A load can end in the same way when the archives whose entries are not gone through hold others. -/
theorem HasEnrolled.exists_sweeps_withArchives {order : List Entrant}
    {later : TaskList LoadTask LoadContext LoadState} (hbase : IsBase base generation)
    (h : HasEnrolled setting (startIndex base generation) setting.config.workers root order later)
    {rest : List (Sweep setting.workflow)} {report : Report}
    (hrest : TaskList.Sweeps setting.workflow later rest (.ok report, tasks))
    {change : Place → Archive → Archive} (hchange : KeepsManifests change)
    (hsame : ∀ path, (path, true) ∈ gatesAlong setting
        (enrolAll setting (baseStandings base) (entrants setting root)) order →
      (setting.disk.withArchives change).archive? path = setting.disk.archive? path) :
    ∃ sweeps, TaskList.Sweeps (setting.withArchives change).workflow
      (initialTasks setting.config.workers (startIndex base generation) root) sweeps
        (.ok report, tasks) := by
  obtain ⟨table, henrolled, hgates⟩ := h.exists_gates_eq hbase
  rw [← hgates] at hsame
  obtain ⟨same, hsweeps⟩ := hrest.exists_congr (isInvariant_openArchives setting _)
    (fun task => by
      show ((setting.withArchives change).job task).name = (setting.job task).name
      rw [job_name, job_name])
    (congrFun (isEligible_congr setting _)) (finishesAlike_withArchives setting hchange) rfl
    ⟨fun pending hpending => (henrolled.priority_eq pending hpending).le,
      henrolled.openArchives_gates hsame⟩
  exact h.comes _ (entersAlike_withArchives setting hchange) hsweeps

end Runs

end Load

open Load

section Workspaces

variable {disk : Disk} {grammar : Source.Grammar} {config : LoadConfig} {base : Option Index}
  {generation : Nat} {root : String} {thirdParty : List Regex.Matcher} {outcome : LoadOutcome}

/-- A load that executes each band in its own order is one of those in any order. -/
theorem loadsInAnyOrder_of_loadWorkspace (hpatterns : config.thirdPartyMatchers? = some thirdParty)
    (hload : loadWorkspace disk grammar config base generation root = .ok outcome) :
    LoadsInAnyOrder ⟨disk, grammar, config, thirdParty⟩ base generation root
      (loadRun ⟨disk, grammar, config, thirdParty⟩ base generation root).2 outcome := by
  have hdirectory := isDirectory_of_loadWorkspace_ok hload
  rw [loadWorkspace_eq hdirectory hpatterns] at hload
  rcases hrun : loadRun ⟨disk, grammar, config, thirdParty⟩ base generation root with
    ⟨error | report, tasks⟩
  · rw [hrun] at hload
    cases hload
  · rw [hrun] at hload
    cases hload
    have hsome := TaskList.run?_eq_run (LoadSetting.workflow ⟨disk, grammar, config, thirdParty⟩)
      (initialTasks config.workers (startIndex base generation) root)
    obtain ⟨sweeps, _, hsweeps, _⟩ := TaskList.exists_sweeps_of_run? hsome
    have hresult : TaskList.run (LoadSetting.workflow ⟨disk, grammar, config, thirdParty⟩)
        (initialTasks config.workers (startIndex base generation) root) = (.ok report, tasks) := hrun
    rw [hresult] at hsweeps
    exact ⟨hdirectory, ⟨sweeps, hsweeps⟩, rfl, rfl, rfl⟩

/-- Loads that succeed, by any number of workers and in whatever order each band is executed, report one
stalled task for each archive that can be read and whose manifest names an archive that is no known
project when it is linked, if dependencies are required, and no other.  What the entries of these
archives hold beside the manifest plays no part in what the load comes to.  One worker links the
projects in the order in which they were found. -/
theorem loads_stalled (hpatterns : config.thirdPartyMatchers? = some thirdParty)
    (hbase : IsBase base generation) :
    let setting : LoadSetting := ⟨disk, grammar, config, thirdParty⟩
    (∀ outcome, loadWorkspace disk grammar config base generation root = .ok outcome →
      ∃ tasks, LoadsInAnyOrder setting base generation root tasks outcome) ∧
    ∀ tasks outcome, LoadsInAnyOrder setting base generation root tasks outcome →
      tasks.board.world.index.HasRoom →
      ∃ order : List Entrant, order.Perm (entrants setting root) ∧
        (config.workers ≤ 1 → order = entrants setting root) ∧
        let gates := gatesAlong setting
          (enrolAll setting (baseStandings base) (entrants setting root)) order
        outcome.report.stalled =
            (gates.filter (fun gate => !gate.2)).map (fun _ => "load archive entries") ∧
          (∀ path, (path, false) ∈ gates ↔ config.requireArchiveDependencies = true ∧
            ∃ before content after, order = before ++ .archive path content :: after ∧
              ∃ earlier name later, archiveDependencies content = earlier ++ .archive name :: later ∧
                .directory name ∉ earlier ∧ ¬ IsKnown setting base root before name) ∧
          ∀ change, KeepsManifests change →
            (∀ path, (path, true) ∈ gates →
              (disk.withArchives change).archive? path = disk.archive? path) →
            LoadsInAnyOrder (setting.withArchives change) base generation root tasks outcome := by
  refine ⟨fun outcome hload => ⟨_, loadsInAnyOrder_of_loadWorkspace hpatterns hload⟩,
    fun tasks outcome hloads hroom => ?_⟩
  obtain ⟨order, later, rest, hlater, hrest, hone⟩ := hloads.exists_hasEnrolled hbase hroom
  refine ⟨order, hlater.perm, hone, hlater.stalled_eq_gates hbase hrest,
    fun path => mem_gatesAlong_false_iff, fun change hchange hsame => ?_⟩
  exact ⟨(disk.isDirectory_withArchives change root).trans hloads.isDirectory,
    hlater.exists_sweeps_withArchives hbase hrest hchange hsame,
    hloads.index_eq, hloads.stats_eq, hloads.pruned_eq⟩

end Workspaces

/-- A workspace with an archive that names another, and one that names an archive which is not there. -/
def stallingDisk : Disk :=
  ⟨[(["ws"], .directory),
    (["ws", "a.jar"], .archive [⟨"META-INF/MANIFEST.MF", .text "Class-Path: b.jar\n"⟩]),
    (["ws", "b.jar"], .archive [⟨"B.java", .text ""⟩]),
    (["ws", "broken.jar"], .archive
      [⟨"META-INF/MANIFEST.MF", .text "Class-Path: lib/missing.jar\n"⟩, ⟨"C.java", .text ""⟩])]⟩

/-- Leaves nothing in `broken.jar` but its manifest. -/
def manifestOnly (place : Place) (entries : Archive) : Archive :=
  if place = ["ws", "broken.jar"] then
    entries.filter (fun entry => entry.name == Disk.manifestPath)
  else entries

theorem keepsManifests_manifestOnly : KeepsManifests manifestOnly := by
  intro place entries
  have hentry : Archive.entry? (manifestOnly place entries) Disk.manifestPath =
      Archive.entry? entries Disk.manifestPath := by
    unfold manifestOnly Archive.entry?
    split
    · rw [List.find?_filter]
      congr 1
      funext entry
      exact Bool.eq_iff_iff.2 (by simp)
    · rfl
  unfold archiveDependencies
  rw [hentry]

/-- Two workers load the workspace: whatever the order of the links, the archive with the unknown
dependency stalls, and the load can come to the same without its source file. -/
theorem loads_stalled_two_workers : ∃ tasks outcome,
    loadWorkspace stallingDisk emptyTexts { workers := 2 } none 0 "ws" = .ok outcome ∧
      LoadsInAnyOrder ⟨stallingDisk, emptyTexts, { workers := 2 }, []⟩ none 0 "ws" tasks outcome ∧
      outcome.report.stalled = ["load archive entries"] ∧
      LoadsInAnyOrder ⟨stallingDisk.withArchives manifestOnly, emptyTexts, { workers := 2 }, []⟩ none 0
        "ws" tasks outcome := by
  let setting : LoadSetting := ⟨stallingDisk, emptyTexts, { workers := 2 }, []⟩
  have hroom : (loadRun setting none 0 "ws").2.board.world.index.HasRoom :=
    @hasRoom_of_runWithin setting none 0 22 4 "ws" (by decide +kernel) (by decide)
  obtain ⟨_, outcome, hload⟩ := @exists_loadWorkspace_of_runWithin stallingDisk emptyTexts
    { workers := 2 } none 0 22 "ws" [] (fun _ => true) (by decide +kernel) rfl (by decide +kernel)
  have hbase : IsBase none 0 := by
    intro lower hlower
    simp at hlower
  have hloads := @loadsInAnyOrder_of_loadWorkspace _ _ _ _ _ _ [] _ rfl hload
  obtain ⟨order, hperm, _, hstalled, _, hother⟩ :=
    (@loads_stalled stallingDisk emptyTexts { workers := 2 } none 0 "ws" [] rfl hbase).2 _ _ hloads hroom
  have hgates : ∀ order ∈ (entrants setting "ws").permutations',
      (gatesAlong setting (enrolAll setting (baseStandings none) (entrants setting "ws"))
          order).filter (fun gate => !gate.2) = [("ws/broken.jar", false)] ∧
        ∀ gate ∈ gatesAlong setting (enrolAll setting (baseStandings none) (entrants setting "ws"))
          order, gate.2 = true → gate.1 = "ws/a.jar" ∨ gate.1 = "ws/b.jar" := by
    decide +kernel
  obtain ⟨hclosed, hopen⟩ := hgates order (List.mem_permutations'.2 hperm)
  refine ⟨_, outcome, hload, hloads, hstalled.trans (congrArg (List.map _) hclosed),
    hother _ keepsManifests_manifestOnly (fun path hpath => ?_)⟩
  obtain ⟨name, rfl, hplace⟩ : ∃ name, path = "ws/" ++ name ∧
      stallingDisk.locate path = .ok ["ws", name] ∧ name ≠ "broken.jar" := by
    rcases hopen _ hpath rfl with rfl | rfl
    · exact ⟨"a.jar", rfl, by decide +kernel, by decide⟩
    · exact ⟨"b.jar", rfl, by decide +kernel, by decide⟩
  obtain ⟨place, hfound, harchive⟩ := stallingDisk.exists_archive?_withArchives manifestOnly _
  obtain rfl := hfound _ hplace.1
  have hsame : manifestOnly ["ws", name] = id := by
    funext entries
    exact if_neg (by simp [hplace.2])
  rw [harchive, hsame, Option.map_id]
  rfl

-- the gate of the first archive is closed, unless the second is linked before it
example :
    let first : Entrant := .archive "a.jar" [⟨"META-INF/MANIFEST.MF", .text "Class-Path: x.jar\n"⟩]
    let second : Entrant := .archive "b.jar" [⟨"META-INF/MANIFEST.MF", .text "Class-Path: x/\n"⟩]
    let setting : LoadSetting := ⟨⟨[]⟩, emptyTexts, {}, []⟩
    gatesAlong setting (fun _ => none) [first, second] = [("a.jar", false), ("b.jar", true)] ∧
      gatesAlong setting (fun _ => none) [second, first] = [("b.jar", true), ("a.jar", true)] := by
  decide +kernel

end CodeAtlas
