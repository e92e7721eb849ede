/-
# The roster of a load

A load begins by finding project directories and archives and entering a project for each of them that
can be read.  Every directory and every archive has a group of its own, so the order in which they are
entered matters only to the table of projects.
-/
import CodeAtlas.Proofs.Load.Boards

namespace CodeAtlas.Load

open Tasks Index

variable {setting : LoadSetting}

/-- Whether a task goes through the entries of an archive. -/
def LoadTask.isArchiveEntries : LoadTask → Bool
  | archiveEntries _ => true
  | _ => false

/-! ## What is found -/

/-- What discovery finds. -/
inductive Find where
  | directory (path : String)
  | archive (path : String)
deriving DecidableEq, Repr

namespace Find

/-- The context of the group that is opened for a find. -/
def context : Find → LoadContext
  | directory path => { projectDir := some path }
  | archive path => { archive := some path }

/-- The task that a find gets. -/
def task : Find → LoadTask
  | directory _ => .project
  | archive _ => .archive

theorem priority_task (find : Find) : find.task.priority = 900 := by
  cases find <;> rfl

end Find

/-- The project directories below a root and then the archives, in the order of the traversal. -/
def finds (setting : LoadSetting) (root : String) : List Find :=
  (Discovery.run setting.disk setting.config root).1.map .directory ++
    (Discovery.run setting.disk setting.config root).2.map .archive

/-! ## What is entered -/

/-- A find that can be read. -/
inductive Entrant where
  | directory (path : String)
  | archive (path : String) (content : Archive)

/-- The entrant that a find leads to; an archive may be unreadable. -/
def Find.entrant? (setting : LoadSetting) : Find → Option Entrant
  | directory path => some (.directory path)
  | archive path => (setting.disk.archive? path).map (.archive path)

/-- All entrants below a root. -/
def entrants (setting : LoadSetting) (root : String) : List Entrant :=
  (finds setting root).filterMap (Find.entrant? setting)

namespace Entrant

/-- The name of the project. -/
def name (setting : LoadSetting) : Entrant → String
  | directory path => setting.disk.projectName path
  | archive path _ => (Path.stem? path).getD path

/-- Whether the project gets flagged as third-party. -/
def isThirdParty (setting : LoadSetting) (entrant : Entrant) : Bool :=
  match entrant with
  | directory _ => setting.isThirdParty (entrant.name setting)
  | archive _ _ => setting.config.archivesAreThirdParty || setting.isThirdParty (entrant.name setting)

/-- What the project depends on. -/
def dependencies (setting : LoadSetting) : Entrant → List Manifest.Dependency
  | directory path =>
    setting.disk.projectDependencies path (setting.disk.sourceFolders setting.config path)
  | archive _ content => archiveDependencies content

/-- The source files of the project. -/
def sources (setting : LoadSetting) : Entrant → List String
  | directory path => sourcePaths setting path
  | archive _ _ => []

/-- The task that goes through the entries of an archive. -/
def entryTasks (setting : LoadSetting) : Entrant → List LoadTask
  | directory _ => []
  | archive _ _ => [.archiveEntries setting.config.requireArchiveDependencies]

/-- The find of an entrant. -/
def find : Entrant → Find
  | directory path => .directory path
  | archive path _ => .archive path

/-- The context of the group of an entrant once its project was entered. -/
def context (setting : LoadSetting) (entrant : Entrant) (project : ItemId) (loaded : Bool) :
    LoadContext :=
  { entrant.find.context with
    project := some project
    dependencies := entrant.dependencies setting
    dependenciesLoaded := loaded }

/-- The groups that are opened for the source files of the project. -/
def sourceGroups (setting : LoadSetting) (entrant : Entrant) (project : ItemId) :
    List (LoadContext × LoadTask) :=
  (entrant.sources setting).map fun path =>
    ({ project := some project, source := some path }, .sourceFile)

/-- What entering the project does beside changing the index. -/
def deed (setting : LoadSetting) (entrant : Entrant) (project : ItemId) : Deed where
  change context :=
    { context with project := some project, dependencies := entrant.dependencies setting }
  own := .projectDependencies :: entrant.entryTasks setting
  opened := entrant.sourceGroups setting project

theorem mem_sourceGroups_iff {entrant : Entrant} {project : ItemId}
    {opened : LoadContext × LoadTask} :
    opened ∈ entrant.sourceGroups setting project ↔ ∃ path ∈ entrant.sources setting,
      opened = ({ project := some project, source := some path }, .sourceFile) := by
  rw [sourceGroups, List.mem_map]
  constructor
  · rintro ⟨path, hpath, rfl⟩
    exact ⟨path, hpath, rfl⟩
  · rintro ⟨path, hpath, rfl⟩
    exact ⟨path, hpath, rfl⟩

theorem getElem?_sourceGroups {entrant : Entrant} {k : Nat} {path : String}
    (h : (entrant.sources setting)[k]? = some path) (project : ItemId) :
    (entrant.sourceGroups setting project)[k]? =
      some ({ project := some project, source := some path }, .sourceFile) := by
  rw [sourceGroups, List.getElem?_map, h]
  rfl

theorem priority_of_mem_entryTasks {entrant : Entrant} {task : LoadTask}
    (h : task ∈ entrant.entryTasks setting) : task.priority = 700 := by
  cases entrant with
  | directory path => simp [entryTasks] at h
  | archive path content =>
    rw [entryTasks, List.mem_singleton] at h
    rw [h]
    rfl

end Entrant

theorem Find.find_of_entrant? {find : Find} {entrant : Entrant}
    (h : find.entrant? setting = some entrant) : entrant.find = find := by
  cases find with
  | directory path =>
    obtain rfl := Option.some.inj h
    rfl
  | archive path =>
    obtain ⟨content, _, rfl⟩ := Option.map_eq_some_iff.1 h
    rfl

/-- The deed of the task of a find that cannot be read. -/
theorem run_deed_of_entrant?_none {find : Find} (h : find.entrant? setting = none)
    (index : Index) :
    (deed setting find.context find.task).run.run index = (.ok {}, index) := by
  cases find with
  | directory path => simp [Find.entrant?] at h
  | archive path =>
    rw [Find.entrant?, Option.map_eq_none_iff] at h
    simp only [deed, Find.context, Find.task, h]
    rfl

/-- The deed of the task of a find that can be read. -/
theorem run_deed_of_entrant?_some {find : Find} {entrant : Entrant}
    (h : find.entrant? setting = some entrant) (index : Index) :
    (deed setting find.context find.task).run.run index =
      (.ok (entrant.deed setting ((registerProject (entrant.name setting)
          (entrant.isThirdParty setting)).run index).1),
        ((registerProject (entrant.name setting) (entrant.isThirdParty setting)).run index).2) := by
  cases find with
  | directory path =>
    obtain rfl := Option.some.inj h
    rfl
  | archive path =>
    obtain ⟨content, hcontent, rfl⟩ := Option.map_eq_some_iff.1 h
    simp only [deed, Find.context, Find.task, hcontent]
    rfl

/-! ## Groups of finds -/

/-- Finds with the numbers of their groups, the first of which is given. -/
def numbered : Nat → List Find → List (Nat × Find)
  | _, [] => []
  | group, find :: rest => (group, find) :: numbered (group + 1) rest

theorem mem_numbered_iff {group : Nat} {finds : List Find} {entry : Nat × Find} :
    entry ∈ numbered group finds ↔
      ∃ k find, finds[k]? = some find ∧ entry = (group + k, find) := by
  induction finds generalizing group with
  | nil => simp [numbered]
  | cons first rest ih =>
    rw [numbered, List.mem_cons, ih]
    constructor
    · rintro (rfl | ⟨k, find, hfind, rfl⟩)
      · exact ⟨0, first, rfl, rfl⟩
      · exact ⟨k + 1, find, hfind, by rw [Nat.add_assoc, Nat.add_comm 1 k]⟩
    · rintro ⟨k, find, hfind, rfl⟩
      cases k with
      | zero =>
        obtain rfl : first = find := by simpa using hfind
        exact Or.inl rfl
      | succ k => exact Or.inr ⟨k, find, hfind, by rw [Nat.add_assoc, Nat.add_comm 1 k]⟩

theorem map_snd_numbered (group : Nat) (finds : List Find) :
    (numbered group finds).map Prod.snd = finds := by
  induction finds generalizing group with
  | nil => rfl
  | cons first rest ih => rw [numbered, List.map_cons, ih]

theorem pairwise_numbered (group : Nat) (finds : List Find) :
    (numbered group finds).Pairwise (fun a b => a.1 ≠ b.1) := by
  induction finds generalizing group with
  | nil => exact List.Pairwise.nil
  | cons first rest ih =>
    rw [numbered, List.pairwise_cons]
    refine ⟨fun other hother => ?_, ih (group + 1)⟩
    obtain ⟨k, find, _, rfl⟩ := mem_numbered_iff.1 hother
    dsimp only
    omega

/-- The tasks of finds. -/
def findTasks (found : List (Nat × Find)) : List (Pending LoadTask) :=
  found.map fun entry => ⟨900, entry.2.task, entry.1⟩

theorem openedTasks_finds (group : Nat) (finds : List Find) :
    openedTasks group (finds.map fun find => (find.context, find.task)) =
      findTasks (numbered group finds) := by
  induction finds generalizing group with
  | nil => rfl
  | cons first rest ih =>
    rw [List.map_cons, openedTasks, ih, first.priority_task]
    rfl

/-- The entrants among finds with the numbers of their groups. -/
def enlist (setting : LoadSetting) (found : List (Nat × Find)) : List (Nat × Entrant) :=
  found.filterMap fun entry => (entry.2.entrant? setting).map (entry.1, ·)

theorem enlist_append (found others : List (Nat × Find)) :
    enlist setting (found ++ others) = enlist setting found ++ enlist setting others :=
  List.filterMap_append

theorem mem_enlist_iff {found : List (Nat × Find)} {entry : Nat × Entrant} :
    entry ∈ enlist setting found ↔
      ∃ find, (entry.1, find) ∈ found ∧ find.entrant? setting = some entry.2 := by
  rw [enlist, List.mem_filterMap]
  constructor
  · rintro ⟨⟨group, find⟩, hfound, hentry⟩
    obtain ⟨entrant, hentrant, rfl⟩ := Option.map_eq_some_iff.1 hentry
    exact ⟨find, hfound, hentrant⟩
  · rintro ⟨find, hfound, hentrant⟩
    exact ⟨(entry.1, find), hfound, by rw [hentrant]; rfl⟩

theorem map_snd_enlist (found : List (Nat × Find)) :
    (enlist setting found).map Prod.snd =
      (found.map Prod.snd).filterMap (Find.entrant? setting) := by
  rw [enlist, List.map_filterMap, List.filterMap_map]
  refine List.filterMap_congr (fun entry _ => ?_)
  rw [Option.map_map]
  exact Option.map_id'

theorem map_snd_enlist_numbered (group : Nat) (finds : List Find) :
    (enlist setting (numbered group finds)).map Prod.snd =
      finds.filterMap (Find.entrant? setting) := by
  rw [map_snd_enlist, map_snd_numbered]

/-- Every entrant has a group of its own. -/
theorem pairwise_enlist {found : List (Nat × Find)} (h : found.Pairwise (fun a b => a.1 ≠ b.1)) :
    (enlist setting found).Pairwise (fun a b => a.1 ≠ b.1) := by
  refine h.filterMap _ (fun a b hne a' ha b' hb => ?_)
  obtain ⟨_, _, rfl⟩ := Option.map_eq_some_iff.1 ha
  obtain ⟨_, _, rfl⟩ := Option.map_eq_some_iff.1 hb
  exact hne

/-! ## Tasks of entrants -/

/-- The tasks that link the projects of a roster to their dependencies. -/
def linkTasks (roster : List (Nat × Entrant)) : List (Pending LoadTask) :=
  roster.map fun entry => ⟨800, .projectDependencies, entry.1⟩

theorem priority_of_mem_linkTasks {roster : List (Nat × Entrant)} {pending : Pending LoadTask}
    (h : pending ∈ linkTasks roster) : pending.priority = 800 := by
  obtain ⟨entry, _, rfl⟩ := List.mem_map.1 h
  rfl

theorem linkTasks_append (roster others : List (Nat × Entrant)) :
    linkTasks (roster ++ others) = linkTasks roster ++ linkTasks others :=
  List.map_append

/-- The tasks that go through the entries of the archives of a roster. -/
def archiveTasks (setting : LoadSetting) (roster : List (Nat × Entrant)) :
    List (Pending LoadTask) :=
  roster.flatMap fun entry =>
    (entry.2.entryTasks setting).map fun task => ⟨task.priority, task, entry.1⟩

/-- The tasks of priority 700 that come with an entrant. -/
def newLow (setting : LoadSetting) (entrant : Entrant) (group size : Nat) (project : ItemId) :
    List (Pending LoadTask) :=
  (entrant.entryTasks setting).map (fun task => ⟨task.priority, task, group⟩) ++
    openedTasks size (entrant.sourceGroups setting project)

/-- What an entrant spawns: a link, and tasks of priority 700. -/
theorem spawned_deed (entrant : Entrant) (group size : Nat) (project : ItemId) :
    (entrant.deed setting project).spawned group size =
      linkTasks [(group, entrant)] ++ newLow setting entrant group size project := by
  rfl

theorem mem_newLow_source {entrant : Entrant} {size k : Nat} {path : String}
    (hpath : (entrant.sources setting)[k]? = some path) (group : Nat) (project : ItemId) :
    ⟨LoadTask.sourceFile.priority, .sourceFile, size + k⟩ ∈
      newLow setting entrant group size project := by
  exact List.mem_append_right _ (mem_openedTasks_iff.2
    ⟨k, _, _, Entrant.getElem?_sourceGroups hpath project, rfl⟩)

/-- Where the tasks of an entrant come from. -/
theorem mem_newLow_cases {entrant : Entrant} {group size : Nat} {project : ItemId}
    {pending : Pending LoadTask} (h : pending ∈ newLow setting entrant group size project) :
    pending.priority = pending.task.priority ∧
      ((pending.group = group ∧ pending.task ∈ entrant.entryTasks setting) ∨
        ∃ k path, pending.group = size + k ∧ pending.task = .sourceFile ∧
          (entrant.sourceGroups setting project)[k]? =
            some ({ project := some project, source := some path }, .sourceFile)) := by
  rw [newLow, List.mem_append, List.mem_map, mem_openedTasks_iff] at h
  rcases h with ⟨task, htask, rfl⟩ | ⟨k, context, task, hopened, rfl⟩
  · exact ⟨rfl, Or.inl ⟨rfl, htask⟩⟩
  · obtain ⟨path, _, heq⟩ := Entrant.mem_sourceGroups_iff.1 (List.mem_of_getElem? hopened)
    rw [heq] at hopened
    obtain ⟨-, rfl⟩ := Prod.mk.inj heq
    exact ⟨rfl, Or.inr ⟨k, path, rfl, rfl, hopened⟩⟩

theorem priority_of_mem_newLow {entrant : Entrant} {group size : Nat} {project : ItemId}
    {pending : Pending LoadTask} (h : pending ∈ newLow setting entrant group size project) :
    pending.priority = 700 := by
  obtain ⟨hpriority, ⟨_, htask⟩ | ⟨_, _, _, htask, _⟩⟩ := mem_newLow_cases h
  · rw [hpriority, Entrant.priority_of_mem_entryTasks htask]
  · rw [hpriority, htask]
    rfl

theorem filter_newLow (setting : LoadSetting) (entrant : Entrant) (group size : Nat)
    (project : ItemId) :
    (newLow setting entrant group size project).filter (fun pending =>
      pending.task.isArchiveEntries) = archiveTasks setting [(group, entrant)] := by
  have hopened : (openedTasks size (entrant.sourceGroups setting project)).filter
      (fun pending => pending.task.isArchiveEntries) = [] := by
    rw [List.filter_eq_nil_iff]
    intro pending hpending
    obtain ⟨k, context, task, hk, rfl⟩ := mem_openedTasks_iff.1 hpending
    obtain ⟨path, _, heq⟩ := Entrant.mem_sourceGroups_iff.1 (List.mem_of_getElem? hk)
    obtain ⟨-, rfl⟩ := Prod.mk.inj heq
    exact Bool.false_ne_true
  rw [newLow, List.filter_append, hopened, List.append_nil]
  cases entrant <;> rfl

/-- The tasks of an entrant have groups of their own. -/
theorem pairwise_newLow {entrant : Entrant} {group size : Nat} (hgroup : group < size)
    (project : ItemId) :
    (newLow setting entrant group size project).Pairwise (fun a b => a.group ≠ b.group) := by
  rw [newLow, List.pairwise_append]
  refine ⟨?_, pairwise_openedTasks size _, ?_⟩
  · cases entrant with
    | directory path => exact List.Pairwise.nil
    | archive path content => exact List.pairwise_singleton _ _
  · intro a ha b hb
    obtain ⟨task, _, rfl⟩ := List.mem_map.1 ha
    obtain ⟨k, context, task, _, rfl⟩ := mem_openedTasks_iff.1 hb
    dsimp only
    omega

/-- Links go behind those that wait, and the tasks of priority 700 behind everything. -/
theorem insertAll_links {roster more : List (Nat × Entrant)} {low new : List (Pending LoadTask)}
    (hlow : ∀ pending ∈ low, pending.priority = 700)
    (hnew : ∀ pending ∈ new, pending.priority = 700) :
    insertAll (linkTasks more ++ new) (linkTasks roster ++ low) =
      linkTasks (roster ++ more) ++ (low ++ new) := by
  have hlinks : ∀ {links : List (Nat × Entrant)},
      insertAll (linkTasks links) low = linkTasks links ++ low := by
    intro links
    induction links with
    | nil => rfl
    | cons first rest ih =>
      have hfirst : insertPending (⟨800, .projectDependencies, first.1⟩ : Pending LoadTask) low =
          [⟨800, .projectDependencies, first.1⟩] ++ low := by
        cases low with
        | nil => rfl
        | cons head rest =>
          have hhead := hlow head List.mem_cons_self
          have hlt : head.priority < 800 := by omega
          rw [insertPending, if_pos hlt]
          rfl
      have hcons : linkTasks (first :: rest) =
          ⟨800, .projectDependencies, first.1⟩ :: linkTasks rest := rfl
      rw [hcons, insertAll_cons, hfirst, insertAll_append, ih]
      · rfl
      · intro pending hpending other hother
        rw [priority_of_mem_linkTasks hpending, List.mem_singleton.1 hother]
  have hsplit : insertAll (linkTasks more ++ new) (linkTasks roster ++ low) =
      insertAll new (insertAll (linkTasks more) (linkTasks roster ++ low)) :=
    List.foldl_append
  rw [hsplit, insertAll_append (fun pending hpending other hother => by
    rw [priority_of_mem_linkTasks hpending, priority_of_mem_linkTasks hother]), hlinks,
    ← List.append_assoc, ← linkTasks_append, insertAll_eq_append, List.append_assoc]
  intro pending hpending other hother
  rw [hnew pending hpending]
  rcases List.mem_append.1 hother with hother | hother
  · rcases List.mem_append.1 hother with hlink | hother
    · rw [priority_of_mem_linkTasks hlink]
      decide
    · rw [hlow other hother]
  · rw [hnew other hother]

/-! ## Entering projects -/

/-- A context of a group before any source or class file was entered. -/
structure IsBare (context : LoadContext) : Prop where
  unit : context.unit = none
  binary : context.binary = none
  package : context.package = none
  classes : context.classes = none
  binaryItem : context.binaryItem = none

theorem IsBare.fitsIndex {context : LoadContext} (h : IsBare context) {index : Index}
    (hproject : ∀ id, context.project = some id → index.IsKind id .project) :
    FitsIndex index context where
  project := hproject
  package id hid := by rw [h.package] at hid; simp at hid
  unit unit hunit := by rw [h.unit] at hunit; simp at hunit
  classes classes hclasses := by rw [h.classes] at hclasses; simp at hclasses
  binaryItem id hid := by rw [h.binaryItem] at hid; simp at hid

theorem Find.isBare_context (find : Find) : IsBare find.context := by
  cases find <;> exact ⟨rfl, rfl, rfl, rfl, rfl⟩

theorem Entrant.isBare_context (entrant : Entrant) (project : ItemId) (loaded : Bool) :
    IsBare (entrant.context setting project loaded) := by
  cases entrant <;> exact ⟨rfl, rfl, rfl, rfl, rfl⟩

/-- The table of standings after a project was entered. -/
def Entrant.enrol (setting : LoadSetting) (standings : String → Option Standing)
    (entrant : Entrant) : String → Option Standing :=
  Index.enrol standings (entrant.name setting) (entrant.isThirdParty setting) false

/-- A group that is none of those of finds and was opened for a source file. -/
def IsSourceGroup (found : List (Nat × Find)) (groups : Array LoadContext) (group : Nat)
    (project : ItemId) (path : String) : Prop :=
  (∀ entry ∈ found, entry.1 ≠ group) ∧
    groups[group]? = some { project := some project, source := some path }

theorem IsSourceGroup.lt {found : List (Nat × Find)} {groups : Array LoadContext} {group : Nat}
    {project : ItemId} {path : String} (h : IsSourceGroup found groups group project path) :
    group < groups.size :=
  (Array.getElem?_eq_some_iff.1 h.2).1

/-- Some finds were entered and others are to come.  The tasks that wait behind those of the finds
are the links of the roster and then some of priority 700, of which each belongs to an archive of the
roster or to a source file.  What is said about the index holds while it has room. -/
structure Enlisted (setting : LoadSetting) (standings : String → Option Standing)
    (past coming : List (Nat × Find)) (low : List (Pending LoadTask))
    (board : Board LoadContext LoadState) : Prop where
  distinct : (past ++ coming).Pairwise (fun a b => a.1 ≠ b.1)
  lt : ∀ entry ∈ past ++ coming, entry.1 < board.groups.size
  find : ∀ entry ∈ coming, board.groups[entry.1]? = some entry.2.context
  entered : ∀ entry ∈ enlist setting past, ∃ project,
    board.groups[entry.1]? = some (entry.2.context setting project false)
  entries : ∀ entry ∈ enlist setting past, ∀ task ∈ entry.2.entryTasks setting,
    ⟨task.priority, task, entry.1⟩ ∈ low
  sources : ∀ entry ∈ enlist setting past, ∀ path ∈ entry.2.sources setting, ∃ project group,
    ⟨LoadTask.sourceFile.priority, .sourceFile, group⟩ ∈ low ∧
      IsSourceGroup (past ++ coming) board.groups group project path ∧
      (board.world.index.HasRoom →
        board.world.index.findItem none (entry.2.name setting) .project = some project)
  /-- No two of the tasks share a group. -/
  apart : low.Pairwise (fun a b => a.group ≠ b.group)
  archives : low.filter (fun pending => pending.task.isArchiveEntries) =
    archiveTasks setting (enlist setting past)
  low : ∀ pending ∈ low, pending.priority = pending.task.priority ∧
    ((∃ entrant, (pending.group, entrant) ∈ enlist setting past ∧
        pending.task ∈ entrant.entryTasks setting) ∨
      (pending.task = .sourceFile ∧ ∃ project path,
        IsSourceGroup (past ++ coming) board.groups pending.group project path))
  bare : ∀ {group : Nat} {context : LoadContext}, board.groups[group]? = some context →
    IsBare context
  fits : board.world.index.HasRoom → Fits board
  standing : board.world.index.HasRoom → board.world.index.standing? =
    ((enlist setting past).map Prod.snd).foldl (Entrant.enrol setting) standings

namespace Enlisted

variable {standings : String → Option Standing} {past coming : List (Nat × Find)} {group : Nat}
  {find : Find} {low : List (Pending LoadTask)} {board : Board LoadContext LoadState}

theorem priority_eq (h : Enlisted setting standings past coming low board)
    {pending : Pending LoadTask} (hpending : pending ∈ low) : pending.priority = 700 := by
  obtain ⟨hpriority, ⟨entrant, _, htask⟩ | ⟨htask, _⟩⟩ := h.low pending hpending
  · rw [hpriority, Entrant.priority_of_mem_entryTasks htask]
  · rw [hpriority, htask]
    rfl

/-- The finds may come in any order. -/
theorem perm (h : Enlisted setting standings past coming low board) {others : List (Nat × Find)}
    (hperm : coming.Perm others) : Enlisted setting standings past others low board := by
  have hall : (past ++ coming).Perm (past ++ others) := hperm.append_left past
  have hsource : ∀ {group : Nat} {project : ItemId} {path : String},
      IsSourceGroup (past ++ coming) board.groups group project path →
      IsSourceGroup (past ++ others) board.groups group project path :=
    fun hgroup => ⟨fun entry hentry => hgroup.1 entry (hall.mem_iff.2 hentry), hgroup.2⟩
  refine ⟨hall.pairwise h.distinct (fun hne => hne.symm),
    fun entry hentry => h.lt entry (hall.mem_iff.2 hentry),
    fun entry hentry => h.find entry (hperm.mem_iff.2 hentry), h.entered, h.entries,
    fun entry hentry path hpath => ?_, h.apart, h.archives, fun pending hpending => ?_, h.bare,
    h.fits, h.standing⟩
  · obtain ⟨project, group, hmem, hgroup, hnamed⟩ := h.sources entry hentry path hpath
    exact ⟨project, group, hmem, hsource hgroup, hnamed⟩
  · obtain ⟨hpriority, hentry | ⟨htask, project, path, hgroup⟩⟩ := h.low pending hpending
    · exact ⟨hpriority, Or.inl hentry⟩
    · exact ⟨hpriority, Or.inr ⟨htask, project, path, hsource hgroup⟩⟩

theorem isEligible_find (h : Enlisted setting standings past coming low board)
    {entry : Nat × Find} (hentry : entry ∈ coming) :
    setting.workflow.isEligible board ⟨900, entry.2.task, entry.1⟩ = true := by
  obtain ⟨group, find⟩ := entry
  refine (@isEligible_iff setting ⟨900, find.task, group⟩ board _ (h.find _ hentry)).2 ?_
  intro key hkey
  cases find with
  | directory path =>
    obtain rfl := List.mem_singleton.1 hkey
    rfl
  | archive path =>
    obtain rfl := List.mem_singleton.1 hkey
    rfl

theorem find_first (h : Enlisted setting standings past ((group, find) :: coming) low board) :
    board.groups[group]? = some find.context :=
  h.find _ List.mem_cons_self

/-- A task that waits has a group, which is not that of the find that is next. -/
theorem group_lt (h : Enlisted setting standings past ((group, find) :: coming) low board)
    {pending : Pending LoadTask} (hpending : pending ∈ low) :
    pending.group ≠ group ∧ pending.group < board.groups.size := by
  obtain ⟨_, ⟨entrant, hentrant, _⟩ | ⟨_, project, path, hsource⟩⟩ := h.low pending hpending
  · obtain ⟨other, hother, _⟩ := mem_enlist_iff.1 hentrant
    have hapart := (List.pairwise_append.1 h.distinct).2.2 _ hother _ List.mem_cons_self
    exact ⟨hapart, h.lt _ (List.mem_append_left _ hother)⟩
  · exact ⟨(hsource.1 _ (List.mem_append_right _ List.mem_cons_self)).symm, hsource.lt⟩

/-- A find that cannot be read changes no group and no item. -/
theorem skip (h : Enlisted setting standings past ((group, find) :: coming) low board)
    (hfind : find.entrant? setting = none) (stats : LoadStats) :
    Enlisted setting standings (past ++ [(group, find)]) coming low
      ⟨board.groups, ⟨board.world.index, stats⟩⟩ := by
  have hroster : enlist setting (past ++ [(group, find)]) = enlist setting past := by
    rw [enlist_append]
    simp [enlist, hfind]
  have hall : past ++ (group, find) :: coming = past ++ [(group, find)] ++ coming :=
    List.append_cons _ _ _
  have hpast := h.distinct
  have hlt := h.lt
  have hsources := h.sources
  have hlow := h.low
  rw [hall] at hpast hlt hsources hlow
  rw [← hroster] at hsources hlow
  refine ⟨hpast, hlt, fun entry hentry => h.find entry (List.mem_cons_of_mem _ hentry), ?_, ?_,
    hsources, h.apart, ?_, hlow, h.bare,
    fun hroom => ⟨(h.fits hroom).live, (h.fits hroom).contexts⟩, ?_⟩
  · rw [hroster]
    exact h.entered
  · rw [hroster]
    exact h.entries
  · rw [hroster]
    exact h.archives
  · rw [hroster]
    exact h.standing

section Enter

variable {entrant : Entrant} {project : ItemId} {index : Index}

/-- The board after a find was entered. -/
def enterBoard (setting : LoadSetting) (group : Nat) (entrant : Entrant) (project : ItemId)
    (index : Index) (stats : LoadStats) (board : Board LoadContext LoadState) :
    Board LoadContext LoadState :=
  ⟨(entrant.deed setting project).groups group board.groups, ⟨index, stats⟩⟩

variable {stats : LoadStats}

theorem enlist_concat_some (hfind : find.entrant? setting = some entrant) :
    enlist setting (past ++ [(group, find)]) = enlist setting past ++ [(group, entrant)] := by
  rw [enlist_append]
  simp [enlist, hfind]

theorem change_deed (hfind : find.entrant? setting = some entrant) (project : ItemId) :
    (entrant.deed setting project).change find.context =
      entrant.context setting project false := by
  rw [← Find.find_of_entrant? hfind]
  cases entrant <;> rfl

/-- The group of the find holds the project then. -/
theorem getElem?_enterBoard_self (hgroup : board.groups[group]? = some find.context)
    (hfind : find.entrant? setting = some entrant) :
    (enterBoard setting group entrant project index stats board).groups[group]? =
      some (entrant.context setting project false) := by
  rw [← change_deed hfind]
  exact getElem?_groups_self hgroup

theorem getElem?_enterBoard_of_ne {other : Nat} {context : LoadContext} (hne : other ≠ group)
    (hcontext : board.groups[other]? = some context) :
    (enterBoard setting group entrant project index stats board).groups[other]? = some context :=
  getElem?_groups_of_ne hne hcontext

/-- Groups of source files stay what they are. -/
theorem isSourceGroup_enterBoard {found : List (Nat × Find)} {other : Nat} {owner : ItemId}
    {path : String} (hmem : (group, find) ∈ found)
    (h : IsSourceGroup found board.groups other owner path) :
    IsSourceGroup found (enterBoard setting group entrant project index stats board).groups other
      owner path :=
  ⟨h.1, getElem?_enterBoard_of_ne (h.1 _ hmem).symm h.2⟩

/-- The groups that are opened are groups of source files. -/
theorem isSourceGroup_opened {found : List (Nat × Find)} {k : Nat} {path : String}
    (hlt : ∀ entry ∈ found, entry.1 < board.groups.size)
    (hopened : (entrant.sourceGroups setting project)[k]? =
      some ({ project := some project, source := some path }, .sourceFile)) :
    IsSourceGroup found (enterBoard setting group entrant project index stats board).groups
      (board.groups.size + k) project path := by
  refine ⟨fun entry hentry => ?_, getElem?_groups_opened hopened⟩
  have := hlt entry hentry
  omega

/-- What registering the project makes of the index. -/
theorem index_enter (h : Enlisted setting standings past coming low board)
    (hrun : (registerProject (entrant.name setting) (entrant.isThirdParty setting)).run
      board.world.index = (project, index)) :
    Grown board.world.index index ∧ (index.HasRoom → index.Live ∧ board.world.index.Widens index ∧
      index.findItem none (entrant.name setting) .project = some project ∧
      index.standing? = entrant.enrol setting board.world.index.standing?) := by
  have hgrown := grown_registerProject (entrant.name setting) (entrant.isThirdParty setting)
    board.world.index
  rw [hrun] at hgrown
  refine ⟨hgrown, fun hroom => ?_⟩
  have hlive := @live_registerProject _ (h.fits (hgrown.hasRoom hroom)).live (entrant.name setting)
    (entrant.isThirdParty setting) (by rw [hrun]; exact hroom)
  rwa [hrun] at hlive

/-- The sources of the new project and of those before it have their groups. -/
theorem sources_enter (h : Enlisted setting standings past ((group, find) :: coming) low board)
    (hfind : find.entrant? setting = some entrant)
    (hrun : (registerProject (entrant.name setting) (entrant.isThirdParty setting)).run
      board.world.index = (project, index)) :
    ∀ entry ∈ enlist setting (past ++ [(group, find)]), ∀ path ∈ entry.2.sources setting,
      ∃ owner other, ⟨LoadTask.sourceFile.priority, .sourceFile, other⟩ ∈
          low ++ newLow setting entrant group board.groups.size project ∧
        IsSourceGroup (past ++ (group, find) :: coming)
          (enterBoard setting group entrant project index stats board).groups other owner path ∧
        (index.HasRoom → index.findItem none (entry.2.name setting) .project = some owner) := by
  obtain ⟨hgrown, hlive⟩ := h.index_enter hrun
  intro entry hentry path hpath
  rw [enlist_concat_some hfind, List.mem_append, List.mem_singleton] at hentry
  rcases hentry with hold | rfl
  · obtain ⟨owner, other, hmem, hsource, hnamed⟩ := h.sources entry hold path hpath
    refine ⟨owner, other, List.mem_append_left _ hmem, isSourceGroup_enterBoard
      (List.mem_append_right _ List.mem_cons_self) hsource, fun hroom => ?_⟩
    exact (hlive hroom).2.1.finds (by decide) (hnamed (hgrown.hasRoom hroom))
  · obtain ⟨k, hk⟩ := List.getElem?_of_mem hpath
    refine ⟨project, board.groups.size + k, List.mem_append_right _ (mem_newLow_source hk _ project),
      isSourceGroup_opened h.lt (Entrant.getElem?_sourceGroups hk project), fun hroom => ?_⟩
    exact (hlive hroom).2.2.1

/-- The tasks that wait belong to archives of the roster or to source files. -/
theorem low_enter (h : Enlisted setting standings past ((group, find) :: coming) low board)
    (hfind : find.entrant? setting = some entrant) :
    ∀ pending ∈ low ++ newLow setting entrant group board.groups.size project,
      pending.priority = pending.task.priority ∧
      ((∃ other, (pending.group, other) ∈ enlist setting (past ++ [(group, find)]) ∧
          pending.task ∈ other.entryTasks setting) ∨
        (pending.task = .sourceFile ∧ ∃ owner path, IsSourceGroup (past ++ (group, find) :: coming)
          (enterBoard setting group entrant project index stats board).groups pending.group owner
          path)) := by
  intro pending hpending
  rw [enlist_concat_some hfind]
  rcases List.mem_append.1 hpending with hold | hnew
  · obtain ⟨hpriority, ⟨other, hother, htask⟩ | ⟨htask, owner, path, hsource⟩⟩ := h.low pending hold
    · exact ⟨hpriority, Or.inl ⟨other, List.mem_append_left _ hother, htask⟩⟩
    · exact ⟨hpriority, Or.inr ⟨htask, owner, path, isSourceGroup_enterBoard
        (List.mem_append_right _ List.mem_cons_self) hsource⟩⟩
  · obtain ⟨hpriority, ⟨hgroup, htask⟩ | ⟨k, path, hgroup, htask, hopened⟩⟩ := mem_newLow_cases hnew
    · refine ⟨hpriority, Or.inl ⟨entrant, ?_, htask⟩⟩
      rw [hgroup]
      exact List.mem_append_right _ List.mem_cons_self
    · refine ⟨hpriority, Or.inr ⟨htask, project, path, ?_⟩⟩
      rw [hgroup]
      exact isSourceGroup_opened h.lt hopened

/-- The tasks that wait still have groups of their own. -/
theorem apart_enter (h : Enlisted setting standings past ((group, find) :: coming) low board)
    (entrant : Entrant) (project : ItemId) :
    (low ++ newLow setting entrant group board.groups.size project).Pairwise
      (fun a b => a.group ≠ b.group) := by
  rw [List.pairwise_append]
  refine ⟨h.apart, pairwise_newLow (h.lt _ (List.mem_append_right _ List.mem_cons_self)) project, ?_⟩
  -- those that wait have groups already, and not that of the find
  intro old hold new hnew
  obtain ⟨hne, hlt⟩ := h.group_lt hold
  obtain ⟨_, ⟨hgroup, _⟩ | ⟨k, path, hgroup, _⟩⟩ := mem_newLow_cases hnew
  · rw [hgroup]
    exact hne
  · omega

/-- No source or class file was entered. -/
theorem bare_enter (h : Enlisted setting standings past ((group, find) :: coming) low board)
    (hfind : find.entrant? setting = some entrant) {other : Nat} {context : LoadContext}
    (hcontext : (enterBoard setting group entrant project index stats board).groups[other]? =
      some context) : IsBare context := by
  rcases getElem?_groups_cases hcontext with ⟨_, hold⟩ | ⟨rfl, _⟩ | ⟨k, task, _, hk⟩
  · exact h.bare hold
  · rw [getElem?_enterBoard_self h.find_first hfind] at hcontext
    obtain rfl := Option.some.inj hcontext
    exact entrant.isBare_context project false
  · obtain ⟨path, _, heq⟩ := Entrant.mem_sourceGroups_iff.1 (List.mem_of_getElem? hk)
    obtain ⟨rfl, -⟩ := Prod.mk.inj heq
    exact ⟨rfl, rfl, rfl, rfl, rfl⟩

/-- The contexts still fit the index. -/
theorem fits_enter (h : Enlisted setting standings past ((group, find) :: coming) low board)
    (hfind : find.entrant? setting = some entrant)
    (hrun : (registerProject (entrant.name setting) (entrant.isThirdParty setting)).run
      board.world.index = (project, index)) (hroom : index.HasRoom) :
    Fits (enterBoard setting group entrant project index stats board) := by
  obtain ⟨hgrown, hlive⟩ := h.index_enter hrun
  obtain ⟨hlive, hwidens, hnamed, _⟩ := hlive hroom
  have hkind : ∀ id, some project = some id → index.IsKind id .project := by
    rintro id hid
    obtain rfl := Option.some.inj hid
    exact hlive.sound.isKind_of_findItem hnamed
  refine (h.fits (hgrown.hasRoom hroom)).step h.find_first rfl hlive hwidens ?_ ?_
  · rw [change_deed hfind]
    exact (entrant.isBare_context project false).fitsIndex hkind
  · intro opened hopened
    obtain ⟨path, _, rfl⟩ := Entrant.mem_sourceGroups_iff.1 hopened
    exact IsBare.fitsIndex ⟨rfl, rfl, rfl, rfl, rfl⟩ (fun id hid => hkind id hid)

/-- A find that can be read enters its project. -/
theorem enter (h : Enlisted setting standings past ((group, find) :: coming) low board)
    (hfind : find.entrant? setting = some entrant)
    (hrun : (registerProject (entrant.name setting) (entrant.isThirdParty setting)).run
      board.world.index = (project, index)) (stats : LoadStats) :
    Enlisted setting standings (past ++ [(group, find)]) coming
      (low ++ newLow setting entrant group board.groups.size project)
      (enterBoard setting group entrant project index stats board) := by
  have hall : past ++ [(group, find)] ++ coming = past ++ (group, find) :: coming :=
    (List.append_cons _ _ _).symm
  have hapart : ∀ entry ∈ past ++ coming, entry.1 ≠ group := by
    have hmiddle := (List.perm_middle.pairwise_iff fun hne => hne.symm).1 h.distinct
    exact fun entry hentry => ((List.pairwise_cons.1 hmiddle).1 entry hentry).symm
  refine ⟨?_, ?_, ?_, ?_, ?_, ?_, h.apart_enter entrant project, ?_, ?_, ?_, ?_, ?_⟩
  · rw [hall]
    exact h.distinct
  · intro entry hentry
    have hlt := h.lt entry (hall ▸ hentry)
    refine Nat.lt_of_lt_of_le hlt ?_
    rw [enterBoard, size_groups]
    omega
  · intro entry hentry
    exact getElem?_enterBoard_of_ne (hapart entry (List.mem_append_right _ hentry))
      (h.find entry (List.mem_cons_of_mem _ hentry))
  · intro entry hentry
    rw [enlist_concat_some hfind, List.mem_append, List.mem_singleton] at hentry
    rcases hentry with hold | rfl
    · obtain ⟨known, hknown⟩ := h.entered entry hold
      obtain ⟨other, hother, _⟩ := mem_enlist_iff.1 hold
      exact ⟨known, getElem?_enterBoard_of_ne (hapart _ (List.mem_append_left _ hother)) hknown⟩
    · exact ⟨project, getElem?_enterBoard_self h.find_first hfind⟩
  · intro entry hentry task htask
    rw [enlist_concat_some hfind, List.mem_append, List.mem_singleton] at hentry
    rcases hentry with hold | rfl
    · exact List.mem_append_left _ (h.entries entry hold task htask)
    · exact List.mem_append_right _ (List.mem_append_left _ (List.mem_map.2 ⟨task, htask, rfl⟩))
  · rw [hall]
    exact h.sources_enter hfind hrun
  · rw [List.filter_append, h.archives, filter_newLow, enlist_concat_some hfind]
    exact List.flatMap_append.symm
  · rw [hall]
    exact h.low_enter hfind
  · exact h.bare_enter hfind
  · exact h.fits_enter hfind hrun
  · intro hroom
    obtain ⟨hgrown, hlive⟩ := h.index_enter hrun
    rw [enlist_concat_some hfind, List.map_append, List.foldl_append,
      ← h.standing (hgrown.hasRoom hroom)]
    exact (hlive hroom).2.2.2

end Enter

/-- The task of the find that is next ends well.  It spawns a link and tasks of priority 700, or nothing
where the find cannot be read. -/
theorem exists_execute (h : Enlisted setting standings past ((group, find) :: coming) low board) :
    ∃ outcome after new, setting.workflow.execute ⟨900, find.task, group⟩ board =
        (.ok outcome, after) ∧
      outcome.spawned = linkTasks (enlist setting [(group, find)]) ++ new ∧
      (∀ pending ∈ new, pending.priority = 700) ∧
      Enlisted setting standings (past ++ [(group, find)]) coming (low ++ new) after := by
  have heligible := h.isEligible_find List.mem_cons_self
  cases hfind : find.entrant? setting with
  | none =>
    obtain ⟨complete, stats, hexecute⟩ := @execute_of_deed_ok setting ⟨900, find.task, group⟩ board _
      h.find_first heligible _ _ (run_deed_of_entrant?_none hfind board.world.index)
    rw [groups_default] at hexecute
    refine ⟨_, _, [], hexecute, ?_, by simp, ?_⟩
    · simp [enlist, hfind, linkTasks, Deed.spawned, openedTasks]
    · rw [List.append_nil]
      exact h.skip hfind stats
  | some entrant =>
    obtain ⟨complete, stats, hexecute⟩ := @execute_of_deed_ok setting ⟨900, find.task, group⟩ board _
      h.find_first heligible _ _ (run_deed_of_entrant?_some hfind board.world.index)
    have hroster : enlist setting [(group, find)] = [(group, entrant)] := by
      simp [enlist, hfind]
    rw [hroster]
    exact ⟨_, _, _, hexecute, spawned_deed entrant group _ _,
      fun pending hpending => priority_of_mem_newLow hpending, h.enter hfind rfl stats⟩

/-- The finds are entered one after the other. -/
theorem exists_drains (h : Enlisted setting standings past coming low board) (report : Report) :
    ∃ low' board' report',
      setting.workflow.Drains 900 (findTasks coming)
        (linkTasks (enlist setting past) ++ low) board report
        (linkTasks (enlist setting (past ++ coming)) ++ low') board' report' ∧
      Enlisted setting standings (past ++ coming) [] low' board' := by
  induction coming generalizing past low board report with
  | nil =>
    rw [List.append_nil]
    exact ⟨low, board, report, .nil, h⟩
  | cons entry coming ih =>
    obtain ⟨group, find⟩ := entry
    obtain ⟨outcome, after, new, hexecute, hspawned, hnew, hnext⟩ := h.exists_execute
    obtain ⟨low', board', report', hdrains, hend⟩ := ih hnext (report.add outcome)
    rw [← List.append_cons] at hdrains hend
    refine ⟨low', board', report', .cons hexecute (fun pending hpending => ?_) ?_, hend⟩
    · rw [hspawned, List.mem_append] at hpending
      rcases hpending with hlink | hpending
      · rw [priority_of_mem_linkTasks hlink]
        decide
      · rw [hnew pending hpending]
        decide
    · rw [hspawned, insertAll_links (fun _ hlow => h.priority_eq hlow) hnew, ← enlist_append]
      exact hdrains

end Enlisted

end CodeAtlas.Load
