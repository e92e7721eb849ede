/-
# Owners of source files

A source file is loaded into the project of the directory whose source folder it lies in, and it is
searched as part of the project of the innermost directory above it that holds a marker file.  The
two are one project exactly when the two directories have one name: directories in source folders
are not searched for projects, so a marker file there changes the second and not the first.
-/
import CodeAtlas.Proofs.Disk.Paths
import CodeAtlas.Proofs.Load.FirstParty
import CodeAtlas.Proofs.Load.Loaded
import CodeAtlas.Proofs.Prune.Embedding

namespace CodeAtlas

open CodeAtlas.Path Tasks

namespace Disk

variable {disk : Disk} {markers : List String}

/-! ## Directories with the same segments -/

theorem isProject_congr {a b : String} (ha : IsRelative a) (hb : IsRelative b)
    (h : segments a = segments b) : disk.isProject markers a = disk.isProject markers b := by
  have hfile : ∀ marker, disk.isFile (join a marker) = disk.isFile (join b marker) := by
    intro marker
    rw [isFile, isFile, disk.open?_join_congr ha hb h]
  rw [isProject, isProject, funext hfile]

/-- Directories with the same segments have the same name, if they have one at all. -/
theorem projectName_congr {a b : String} (ha : IsRelative a) (hb : IsRelative b)
    (h : segments a = segments b) (hname : (fileName? a).isSome) :
    disk.projectName a = disk.projectName b := by
  have hread : disk.readText (join a ".project") = disk.readText (join b ".project") := by
    rw [readText, readText, disk.open?_join_congr ha hb h]
  have hfile : fileName? b = fileName? a := by
    rw [fileName?, fileName?, h]
  obtain ⟨name, hsome⟩ := Option.isSome_iff_exists.1 hname
  rw [projectName, projectName, hread, hfile, hsome]
  rfl

/-- The name of a project does not hang on how the path of its directory is written. -/
def IsNamedAlike (disk : Disk) (dir : String) : Prop :=
  disk.projectName (ofSegments false (segments dir)) = disk.projectName dir

theorem isNamedAlike_of_fileName? {dir : String} (h : IsRelative dir)
    (hname : (fileName? dir).isSome) : disk.IsNamedAlike dir := by
  obtain ⟨first, rest, hsegments, hare⟩ := h.exists_segments
  obtain ⟨hrelative, hsame⟩ := hare.segments_ofSegments
  rw [IsNamedAlike, hsegments]
  exact (projectName_congr h hrelative (hsegments.trans hsame.symm) hname).symm

/-! ## The innermost project -/

/-- No directory above a path that lies deeper than a project directory is a project. -/
def IsInnermost (disk : Disk) (markers : List String) (dir path : String) : Prop :=
  ∀ above ∈ withAncestors path, (segments dir).length < (segments above).length →
    disk.isProject markers above = false

/-- The innermost of the projects above a path is found first. -/
theorem IsInnermost.exists_owner {dir path : String} {tail : List String}
    (h : disk.IsInnermost markers dir path) (hdir : IsRelative dir) (hpath : IsRelative path)
    (hsegments : segments path = segments dir ++ tail)
    (hproject : disk.isProject markers dir = true) :
    ∃ owner, (withAncestors path).find? (disk.isProject markers) = some owner ∧
      IsRelative owner ∧ segments owner = segments dir ∧
      (tail ≠ [] → owner = ofSegments false (segments dir)) := by
  obtain ⟨first, rest, hcons, _⟩ := hdir.exists_segments
  obtain ⟨owner, hmem, howner, hsame, htext⟩ :=
    hpath.exists_mem_withAncestors hsegments (by simp [hcons])
  refine ⟨owner, ?_, howner, hsame, htext⟩
  obtain ⟨nearer, above, hsplit⟩ := List.append_of_mem hmem
  rw [List.find?_eq_some_iff_append]
  refine ⟨?_, nearer, above, hsplit, fun path hnearer => ?_⟩
  · rw [isProject_congr howner hdir hsame]
    exact hproject
  · have hpairwise := hpath.pairwise_withAncestors
    rw [hsplit, List.pairwise_append] at hpairwise
    have hdeeper := hpairwise.2.2 path hnearer owner List.mem_cons_self
    rw [hsame] at hdeeper
    rw [h path (by rw [hsplit]; exact List.mem_append_left _ hnearer) hdeeper]
    rfl

/-! ## What discovery finds -/

/-- A directory that discovery takes for a project holds a marker file and lies below the root. -/
theorem exists_visit_of_mem_run {config : LoadConfig} {root dir : String}
    (h : dir ∈ (Discovery.run disk config root).1) :
    disk.isProject config.projectMarkers dir = true ∧ ∃ visit ∈ disk.walk root, visit.path = dir := by
  have hfold : ∀ (visits : List Visit) (found : Discovery),
      dir ∈ (visits.foldl (Discovery.step disk config) found).projects →
      dir ∈ found.projects ∨ disk.isProject config.projectMarkers dir = true ∧
        ∃ visit ∈ visits, visit.path = dir := by
    intro visits
    induction visits with
    | nil => exact fun found hmem => Or.inl hmem
    | cons first rest ih =>
      intro found hmem
      rcases ih _ hmem with hstep | ⟨hproject, visit, hvisit, hpath⟩
      · unfold Discovery.step at hstep
        split_ifs at hstep with _ _ _ hproject
        · exact Or.inl hstep
        · exact Or.inl hstep
        · rcases List.mem_cons.1 hstep with rfl | hbefore
          · exact Or.inr ⟨hproject, first, List.mem_cons_self, rfl⟩
          · exact Or.inl hbefore
        · exact Or.inl hstep
        · exact Or.inl hstep
        · exact Or.inl hstep
      · exact Or.inr ⟨hproject, visit, List.mem_cons_of_mem _ hvisit, hpath⟩
  rcases hfold _ _ (List.mem_reverse.1 h) with hstart | hfound
  · simp [Discovery.start] at hstart
  · exact hfound

end Disk

namespace Load

open Index

variable {setting : LoadSetting} {dir path : String}

/-- The path of a source file goes on from that of its directory and has an extension. -/
theorem segments_of_mem_sourcePaths (hplain : setting.disk.IsPlain) (hdir : IsRelative dir)
    (hpath : path ∈ sourcePaths setting dir) :
    IsRelative path ∧ (fileName? path).isSome ∧
      ∃ tail, segments path = segments dir ++ tail := by
  obtain ⟨folder, _, hfile⟩ := List.mem_flatMap.1 hpath
  obtain ⟨visit, hvisit, rfl⟩ := List.mem_map.1 hfile
  obtain ⟨hwalk, hkeep⟩ := List.mem_filter.1 hvisit
  obtain ⟨hroot, hrelative, tail, hsegments⟩ := hplain.segments_visit hwalk
  refine ⟨hrelative, ?_, ?_⟩
  · have hextension : extension? visit.path = some "java" := by
      simpa using (Bool.and_eq_true_iff.1 hkeep).2
    obtain ⟨name, hname, _⟩ := Option.bind_eq_some_iff.1 hextension
    rw [hname]
    rfl
  · -- an absolute folder would be the root of the traversal itself
    have hfolder : isAbsolute folder = false := by
      cases habsolute : isAbsolute folder with
      | false => rfl
      | true =>
        have hnot := hroot.not_absolute
        rw [join, habsolute, Bool.true_or, if_pos rfl, habsolute] at hnot
        exact hnot
    rw [segments_join hdir hfolder, List.append_assoc] at hsegments
    exact ⟨_, hsegments⟩

/-! ## The group of a source file -/

/-- The group that was opened for a source file stays its group. -/
theorem isInvariant_isSource (hgrammar : setting.grammar.SpellsNodes) (group : Nat)
    (project : ItemId) (path : String) :
    setting.workflow.IsInvariant (fun waiting board => Sustained setting waiting board ∧
      ∃ context, board.groups[group]? = some context ∧ IsSource project path context) where
  perm hperm h := ⟨(isInvariant_sustained hgrammar).perm hperm h.1, h.2⟩
  step {first rest board after outcome} h hexecute := by
    obtain ⟨hsustained, context, hcontext, hsource⟩ := h
    refine ⟨hsustained.step hgrammar hexecute, ?_⟩
    obtain ⟨later, hlater, rfl | ⟨_, hkeeps⟩⟩ :=
      exists_kept (hsustained.late first List.mem_cons_self) hexecute hcontext
    · exact ⟨later, hlater, hsource⟩
    · exact ⟨later, hlater, hsource.keeps hkeeps⟩

/-- A source file was loaded into a project: there is a group for the two. -/
def HasSourceGroup (board : Board LoadContext LoadState) (project : ItemId) (path : String) : Prop :=
  ∃ (group : Nat) (context : LoadContext), board.groups[group]? = some context ∧
    context.project = some project ∧ context.source = some path

/-- When the tasks of a load end well, a source file was loaded into the project that has the name of
its directory. -/
theorem exists_group_of_run_ok (hgrammar : setting.grammar.SpellsNodes) {index : Index}
    (hlive : index.Live) (workers : Nat) {root : String} {report : Report}
    (hroom : ((initialTasks workers index root).run setting.workflow).2.board.world.index.HasRoom)
    (hok : ((initialTasks workers index root).run setting.workflow).1 = .ok report)
    (hdir : dir ∈ (Discovery.run setting.disk setting.config root).1)
    (hpath : path ∈ sourcePaths setting dir) :
    let board := ((initialTasks workers index root).run setting.workflow).2.board
    board.world.index.Sound ∧ ∃ project, HasSourceGroup board project path ∧
      board.world.index.findItem none (setting.disk.projectName dir) .project = some project := by
  have hnames := (run_ok_iff hgrammar hlive workers root hroom).1 ⟨report, hok⟩
  obtain ⟨waiting, board, early, hrun, henrolled⟩ := exists_enrolled hlive workers root hroom
  have hsustained := henrolled.sustained hnames
  have hentrant := directory_mem_entrants hdir
  rw [hrun] at hroom hok ⊢
  obtain ⟨_, ⟨hend, hextends⟩, _⟩ := TaskList.exists_left_of_run_ok
    (isInvariant_extends hgrammar board.world.index)
    ⟨hsustained, fun _ => Extends.refl board.world.index⟩ hok
  obtain ⟨project, standing, _, hfind, hproject⟩ := henrolled.exists_project hentrant
  obtain ⟨owner, group, _, hcontext, howner⟩ := henrolled.sources _ hentrant path hpath
  obtain rfl : owner = project := Option.some.inj (howner.symm.trans hfind)
  obtain ⟨_, ⟨_, context, hgroup, hsource⟩, _⟩ := TaskList.exists_left_of_run_ok
    (isInvariant_isSource hgrammar group owner path)
    ⟨hsustained, _, hcontext, rfl, rfl, rfl, rfl⟩ hok
  have hsound := (hend.fits hroom).live.sound
  refine ⟨hsound, owner, ⟨group, context, hgroup, hsource.project, hsource.source⟩, ?_⟩
  -- projects are not lost, and there is one of every name
  obtain ⟨item, hget, hkind, hname, _⟩ := (hextends hroom).isProject hproject
  rw [← hname]
  exact hsound.project_found hget hkind

end Load

/-! ## Loading and searching -/

open Load Index

/-- A load without pruning ends with the items that its tasks registered. -/
theorem findItem_unpruned {config : LoadConfig} (h : config.pruneThirdParty = false) (index : Index)
    (generation : Nat) (owner : Option ItemId) (name : String) (kind : ItemKind) :
    (config.pruned index generation).1.propagateThirdParty.2.findItem owner name kind =
      index.findItem owner name kind := by
  rw [LoadConfig.pruned, h]
  exact findItem_propagateThirdParty index owner name kind

/-- So it gives its files to the same projects. -/
theorem owningProject_unpruned {config : LoadConfig} (h : config.pruneThirdParty = false)
    (index : Index) (generation : Nat) (disk : Disk) (markers : List String) (path : String) :
    disk.owningProject (config.pruned index generation).1.propagateThirdParty.2 markers path =
      disk.owningProject index markers path := by
  rw [Disk.owningProject, Disk.owningProject]
  exact congrArg _ (funext fun dir => findItem_unpruned h index generation none _ .project)

/-- A path belongs to the project of a name exactly when the innermost project above it has the
name. -/
theorem Index.Sound.owningProject_eq_some_iff {index : Index} (h : index.Sound) {disk : Disk}
    {markers : List String} {path name : String} {project : ItemId}
    (hproject : index.findItem none name .project = some project) :
    disk.owningProject index markers path = some project ↔
      ∃ owner, (withAncestors path).find? (disk.isProject markers) = some owner ∧
        disk.projectName owner = name := by
  rw [Disk.owningProject, Option.bind_eq_some_iff]
  constructor
  · rintro ⟨owner, hfind, hitem⟩
    obtain ⟨item, hget, _, _, hname⟩ := h.get?_of_findItem hitem
    obtain ⟨other, hother, _, _, hname'⟩ := h.get?_of_findItem hproject
    obtain rfl := Option.some.inj (hget.symm.trans hother)
    exact ⟨owner, hfind, hname.symm.trans hname'⟩
  · rintro ⟨owner, hfind, rfl⟩
    exact ⟨owner, hfind, hproject⟩

/-- The innermost project above a source file has the name of the directory that the file was loaded
from, if that is innermost. -/
theorem Disk.IsInnermost.exists_projectName {setting : LoadSetting} {root dir path : String}
    (hinner : setting.disk.IsInnermost setting.config.projectMarkers dir path)
    (hplain : setting.disk.IsPlain) (hnamed : setting.disk.IsNamedAlike dir)
    (hdir : dir ∈ (Discovery.run setting.disk setting.config root).1)
    (hpath : path ∈ sourcePaths setting dir) :
    ∃ owner, (withAncestors path).find? (setting.disk.isProject setting.config.projectMarkers) =
        some owner ∧ setting.disk.projectName owner = setting.disk.projectName dir := by
  obtain ⟨hproject, visit, hvisit, rfl⟩ := Disk.exists_visit_of_mem_run hdir
  obtain ⟨_, hrelative, _⟩ := hplain.segments_visit hvisit
  obtain ⟨hpathRelative, hfileName, tail, hsegments⟩ :=
    segments_of_mem_sourcePaths hplain hrelative hpath
  obtain ⟨owner, hfind, howner, hsame, htext⟩ :=
    hinner.exists_owner hrelative hpathRelative hsegments hproject
  refine ⟨owner, hfind, ?_⟩
  cases tail with
  | nil =>
    -- the file would have the segments of its directory, and so the directory a name
    have hname : fileName? visit.path = fileName? path := by
      rw [fileName?, fileName?, hsegments, List.append_nil]
    rw [← hname] at hfileName
    exact (Disk.projectName_congr hrelative howner hsame.symm hfileName).symm
  | cons next tail =>
    rw [htext (List.cons_ne_nil next tail)]
    exact hnamed

/-- After a load without pruning, a source file belongs to the project that it was loaded into exactly
when the innermost project above the file has the name of that project; so it does when no directory
between the two is a project. -/
theorem loadWorkspace_owningProject {disk : Disk} {grammar : Source.Grammar} {config : LoadConfig}
    {base : Option Index} {generation : Nat} {root dir path : String}
    {thirdParty : List Regex.Matcher} {outcome : LoadOutcome}
    (hload : loadWorkspace disk grammar config base generation root = .ok outcome)
    (hpruning : config.pruneThirdParty = false)
    (hpatterns : config.thirdPartyMatchers? = some thirdParty) (hgrammar : grammar.SpellsNodes)
    (hbase : IsBase base generation)
    (hroom : (loadRun ⟨disk, grammar, config, thirdParty⟩ base generation
      root).2.board.world.index.HasRoom)
    (hdir : dir ∈ (Discovery.run disk config root).1)
    (hpath : path ∈ sourcePaths ⟨disk, grammar, config, thirdParty⟩ dir) :
    ∃ project,
      HasSourceGroup (loadRun ⟨disk, grammar, config, thirdParty⟩ base generation root).2.board
        project path ∧
      outcome.index.findItem none (disk.projectName dir) .project = some project ∧
      (disk.owningProject outcome.index config.projectMarkers path = some project ↔
        ∃ owner, (withAncestors path).find? (disk.isProject config.projectMarkers) = some owner ∧
          disk.projectName owner = disk.projectName dir) ∧
      (disk.IsPlain → disk.IsNamedAlike dir → disk.IsInnermost config.projectMarkers dir path →
        disk.owningProject outcome.index config.projectMarkers path = some project) := by
  obtain ⟨report, hok, hindex⟩ := run_of_loadWorkspace_ok hpatterns hload
  obtain ⟨hsound, project, hgroup, hfind⟩ := @exists_group_of_run_ok
    ⟨disk, grammar, config, thirdParty⟩ dir path hgrammar _ hbase.live_startIndex config.workers
    root report hroom hok hdir hpath
  have hiff := @Sound.owningProject_eq_some_iff _ hsound disk config.projectMarkers path _ _ hfind
  rw [hindex, findItem_unpruned hpruning, owningProject_unpruned hpruning]
  refine ⟨project, hgroup, hfind, hiff, fun hplain hnamed hinner => hiff.2 ?_⟩
  exact @Disk.IsInnermost.exists_projectName ⟨disk, grammar, config, thirdParty⟩ root dir path hinner
    hplain hnamed hdir hpath

/-- A workspace with a project `b` that has a file in its source folder and one in a directory of the
folder that holds a marker file too. -/
def nestedDisk : Disk :=
  ⟨[(["ws"], .directory), (["ws", "b"], .directory), (["ws", "b", ".project"], .file (.text "")),
    (["ws", "b", "src"], .directory),
    (["ws", "b", "src", "A.java"], .file (.text "class A \x7b\x7d")),
    (["ws", "b", "src", "in"], .directory),
    (["ws", "b", "src", "in", ".project"], .file (.text "")),
    (["ws", "b", "src", "in", "A.java"], .file (.text "class A \x7b\x7d"))]⟩

/-- The settings without pruning. -/
def unpruned : LoadConfig :=
  { pruneThirdParty := false }

/-- The file in the source folder belongs to the project that it was loaded into. -/
theorem loadWorkspace_owningProject_outer : ∃ outcome project,
    loadWorkspace nestedDisk oneClass unpruned none 0 "ws" = .ok outcome ∧
      HasSourceGroup (loadRun ⟨nestedDisk, oneClass, unpruned, []⟩ none 0 "ws").2.board project
        "ws/b/src/A.java" ∧
      nestedDisk.owningProject outcome.index unpruned.projectMarkers "ws/b/src/A.java" =
        some project := by
  have hroom : (loadRun ⟨nestedDisk, oneClass, unpruned, []⟩ none 0
      "ws").2.board.world.index.HasRoom :=
    @hasRoom_of_runWithin ⟨nestedDisk, oneClass, unpruned, []⟩ none 0 40 3 "ws" (by decide +kernel)
      (by decide)
  obtain ⟨_, outcome, hload⟩ := @exists_loadWorkspace_of_runWithin nestedDisk oneClass unpruned none 0
    40 "ws" [] (fun _ => true) (by decide +kernel) rfl (by decide +kernel)
  have hbase : IsBase none 0 := by
    intro lower hlower
    simp at hlower
  obtain ⟨project, hgroup, _, _, howns⟩ := @loadWorkspace_owningProject nestedDisk oneClass unpruned
    none 0 "ws" "ws/b" "ws/b/src/A.java" [] outcome hload rfl rfl spellsNodes_oneClass hbase hroom
    (by decide +kernel) (by decide +kernel)
  exact ⟨outcome, project, hload, hgroup, howns (by unfold Disk.IsPlain; decide +kernel)
    (Disk.isNamedAlike_of_fileName? ⟨by decide, by decide⟩ (by decide))
    (by unfold Disk.IsInnermost; decide +kernel)⟩

/-- The file beside the inner marker file was loaded into the project `b` too, but it belongs to a
project `in` that was never loaded. -/
theorem owningProject_inner_ne : ∃ outcome project,
    loadWorkspace nestedDisk oneClass unpruned none 0 "ws" = .ok outcome ∧
      "ws/b" ∈ (Discovery.run nestedDisk unpruned "ws").1 ∧
      "ws/b/src/in/A.java" ∈ sourcePaths ⟨nestedDisk, oneClass, unpruned, []⟩ "ws/b" ∧
      HasSourceGroup (loadRun ⟨nestedDisk, oneClass, unpruned, []⟩ none 0 "ws").2.board project
        "ws/b/src/in/A.java" ∧
      outcome.index.findItem none (nestedDisk.projectName "ws/b") .project = some project ∧
      nestedDisk.owningProject outcome.index unpruned.projectMarkers "ws/b/src/in/A.java" ≠
        some project := by
  have hrun : ((initialTasks unpruned.workers (startIndex none 0) "ws").runWithin
      (LoadSetting.workflow ⟨nestedDisk, oneClass, unpruned, []⟩) 40).any (fun result =>
        result.1.isOk && result.2.board.groups[3]?.any (fun context =>
          context.source == some "ws/b/src/in/A.java" && context.project.any (fun project =>
            result.2.board.world.index.findItem none "b" .project == some project) &&
          (nestedDisk.owningProject result.2.board.world.index unpruned.projectMarkers
            "ws/b/src/in/A.java").isNone)) = true := by
    decide +kernel
  obtain ⟨⟨result, tasks⟩, hwithin, hseen⟩ := Option.any_eq_true _ _ |>.1 hrun
  have hloadRun : loadRun ⟨nestedDisk, oneClass, unpruned, []⟩ none 0 "ws" = (result, tasks) :=
    TaskList.run_eq_of_runWithin hwithin
  obtain ⟨_, hgroups⟩ := Bool.and_eq_true_iff.1 hseen
  obtain ⟨context, hcontext, hboth⟩ := Option.any_eq_true _ _ |>.1 hgroups
  obtain ⟨hfirst, hnone⟩ := Bool.and_eq_true_iff.1 hboth
  obtain ⟨hsource, hproject⟩ := Bool.and_eq_true_iff.1 hfirst
  obtain ⟨project, hitem, hfind⟩ := Option.any_eq_true _ _ |>.1 hproject
  obtain ⟨_, outcome, hload⟩ := @exists_loadWorkspace_of_runWithin nestedDisk oneClass unpruned none 0
    40 "ws" [] (fun _ => true) (by decide +kernel) rfl (by decide +kernel)
  obtain ⟨_, _, hindex⟩ := @run_of_loadWorkspace_ok nestedDisk oneClass unpruned none 0 "ws" []
    outcome rfl hload
  have hname : nestedDisk.projectName "ws/b" = "b" := by decide +kernel
  rw [hloadRun] at hindex ⊢
  refine ⟨outcome, project, hload, by decide +kernel, by decide +kernel,
    ⟨3, context, hcontext, hitem, by simpa using hsource⟩, ?_, ?_⟩
  · rw [hindex, hname, findItem_unpruned rfl]
    simpa using hfind
  · rw [hindex, owningProject_unpruned rfl, Option.isNone_iff_eq_none.1 hnone]
    simp

end CodeAtlas
