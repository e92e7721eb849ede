/-
# First-party projects of a load

Project directories, archives and directories in manifests share the project items, by name, and a
flag that one of them sets is never taken back.  A project directory whose name no pattern matches
therefore ends without flags and with the classes of its source files exactly when nothing else of
that name was flagged.
-/
import CodeAtlas.Proofs.Load.Sources
import CodeAtlas.Proofs.Load.Verdict
import CodeAtlas.Proofs.Prune.FirstParty

namespace CodeAtlas

open Tasks

namespace Load

open Index Manifest
open Source (CompilationUnit)

variable {setting : LoadSetting} {standings : String → Option Standing} {name root : String}

/-! ## Names without flags -/

/-- A table says nothing about a name, or that it has no flags. -/
def IsFree (standings : String → Option Standing) (name : String) : Prop :=
  ∀ standing, standings name = some standing → standing = ⟨false, false⟩

theorem isFree_enrol_iff (other : String) (isThirdParty isPseudo : Bool) :
    IsFree (enrol standings other isThirdParty isPseudo) name ↔
      IsFree standings name ∧ (other = name → isThirdParty = false ∧ isPseudo = false) := by
  unfold IsFree enrol
  by_cases hother : name = other
  · subst hother
    cases standings name with
    | none => simp
    | some old =>
      obtain ⟨oldThirdParty, oldPseudo⟩ := old
      simp only [if_true, Option.getD_some, Option.some.injEq, forall_eq', Standing.mk.injEq,
        Bool.or_eq_false_iff, true_implies]
      tauto
  · simp [hother, Ne.symm hother]

theorem isFree_follow_iff (dependencies : List Dependency) :
    IsFree (follow standings dependencies) name ↔
      IsFree standings name ∧ .directory name ∉ dependencies := by
  induction dependencies generalizing standings with
  | nil => simp [follow]
  | cons first rest ih =>
    cases first with
    | archive other =>
      rw [follow, ih]
      simp
    | directory other =>
      rw [follow, ih, isFree_enrol_iff]
      simp [eq_comm, and_assoc]

theorem isFree_enrolAll_iff (entrants : List Entrant) :
    IsFree (enrolAll setting standings entrants) name ↔ IsFree standings name ∧
      ∀ entrant ∈ entrants, entrant.name setting = name → entrant.isThirdParty setting = false := by
  induction entrants generalizing standings with
  | nil => simp [enrolAll]
  | cons first rest ih =>
    have hcons : enrolAll setting standings (first :: rest) =
        enrolAll setting (first.enrol setting standings) rest := rfl
    rw [hcons, ih, Entrant.enrol, isFree_enrol_iff]
    simp [and_assoc]

theorem isFree_followAll_iff (entrants : List Entrant) :
    IsFree (followAll setting standings entrants) name ↔ IsFree standings name ∧
      ∀ entrant ∈ entrants, .directory name ∉ entrant.dependencies setting := by
  induction entrants generalizing standings with
  | nil => simp [followAll]
  | cons first rest ih =>
    have hcons : followAll setting standings (first :: rest) =
        followAll setting (follow standings (first.dependencies setting)) rest := rfl
    rw [hcons, ih, isFree_follow_iff]
    simp [and_assoc]

/-! ## Claims on a name -/

/-- Nothing below a root flags the project of a name, if the patterns do not: neither has a base
flagged it, nor is it the name of an archive, when archives are third-party, nor does a manifest
have it as a directory. -/
structure IsUnclaimed (setting : LoadSetting) (standings : String → Option Standing)
    (root name : String) : Prop where
  base : IsFree standings name
  archives : ∀ path content, .archive path content ∈ entrants setting root →
    (Path.stem? path).getD path = name → setting.config.archivesAreThirdParty = false
  directories : ∀ entrant ∈ entrants setting root, .directory name ∉ entrant.dependencies setting

/-- The table after all entrants were entered and linked has no flags for a name exactly when nothing
claims it. -/
theorem isFree_iff_isUnclaimed (hname : setting.isThirdParty name = false) :
    IsFree (followAll setting (enrolAll setting standings (entrants setting root))
      (entrants setting root)) name ↔ IsUnclaimed setting standings root name := by
  rw [isFree_followAll_iff, isFree_enrolAll_iff]
  constructor
  · rintro ⟨⟨hbase, hentered⟩, hlinked⟩
    refine ⟨hbase, fun path content hmem hstem => ?_, hlinked⟩
    have hthird := hentered _ hmem hstem
    rw [Entrant.isThirdParty, Bool.or_eq_false_iff] at hthird
    exact hthird.1
  · intro h
    refine ⟨⟨h.base, fun entrant hmem hentrant => ?_⟩, h.directories⟩
    cases entrant with
    | directory path =>
      rw [Entrant.isThirdParty, hentrant]
      exact hname
    | archive path content =>
      rw [Entrant.isThirdParty, hentrant, hname, h.archives path content hmem hentrant]
      rfl

/-! ## The end of the tasks -/

theorem directory_mem_entrants {dir : String}
    (h : dir ∈ (Discovery.run setting.disk setting.config root).1) :
    .directory dir ∈ entrants setting root := by
  refine List.mem_filterMap.2 ⟨.directory dir, ?_, rfl⟩
  exact List.mem_append_left _ (List.mem_map_of_mem h)

theorem archive_mem_entrants {path : String} {content : Archive}
    (h : path ∈ (Discovery.run setting.disk setting.config root).2)
    (hcontent : setting.disk.archive? path = some content) :
    .archive path content ∈ entrants setting root := by
  refine List.mem_filterMap.2 ⟨.archive path, ?_, ?_⟩
  · exact List.mem_append_right _ (List.mem_map_of_mem h)
  · rw [Find.entrant?, hcontent]
    rfl

/-- Every source file of a directory that can be read and has no errors has its classes in a project. -/
def HoldsSources (setting : LoadSetting) (dir : String) (index : Index) (project : ItemId) : Prop :=
  ∀ path ∈ sourcePaths setting dir, ∀ text, setting.disk.readText path = .ok text →
    (CompilationUnit.parse path text (setting.grammar text)).hasErrors = false →
    HoldsUnit index project (CompilationUnit.parse path text (setting.grammar text))

section Enrolled

variable {waiting : List (Pending LoadTask)} {board : Board LoadContext LoadState} {dir : String}

/-- A directory has a project, with the flags that the table gives it. -/
theorem Enrolled.exists_project
    (h : Enrolled setting (enrolAll setting standings (entrants setting root)) (entrants setting root)
      waiting board)
    (hdir : .directory dir ∈ entrants setting root) :
    ∃ project standing,
      followAll setting (enrolAll setting standings (entrants setting root)) (entrants setting root)
        (setting.disk.projectName dir) = some standing ∧
      board.world.index.findItem none (setting.disk.projectName dir) .project = some project ∧
      board.world.index.IsProject project (setting.disk.projectName dir) standing.isThirdParty
        standing.isPseudo := by
  have hsound := h.fits.live.sound
  have hknown : (enrolAll setting standings (entrants setting root)
      (setting.disk.projectName dir)).isSome := isSome_enrolAll_iff.2 (Or.inr ⟨_, hdir, rfl⟩)
  obtain ⟨standing, hstanding⟩ := Option.isSome_iff_exists.1
    (@isSome_followAll_iff setting _ _ (entrants setting root) |>.2 (Or.inl hknown))
  have hsome := hsound.isSome_standing? (setting.disk.projectName dir)
  rw [h.standing, hstanding, Option.isSome_some, eq_comm, Option.isSome_iff_exists] at hsome
  obtain ⟨project, hfind⟩ := hsome
  obtain ⟨item, hget, _, hkind, hname⟩ := hsound.get?_of_findItem hfind
  have hitem := standing?_of_findItem hfind hget
  rw [h.standing, hstanding] at hitem
  obtain rfl := Option.some.inj hitem
  exact ⟨project, item.standing, hstanding, hfind, item, hget, hkind, hname, rfl, rfl⟩

/-- When the tasks end well, the source files of a directory have their classes in its project. -/
theorem Enrolled.holdsSources {table : String → Option Standing} {order : List Entrant}
    (h : Enrolled setting table order waiting board) (hgrammar : setting.grammar.SpellsNodes)
    (hsustained : Sustained setting waiting board) (hdir : .directory dir ∈ order) {project : ItemId}
    (hproject : board.world.index.findItem none (setting.disk.projectName dir) .project =
      some project) {workers : Nat} {before after : Report}
    (hroom : (TaskList.run setting.workflow
      ⟨workers, waiting, board, before⟩).2.board.world.index.HasRoom)
    (hok : (TaskList.run setting.workflow ⟨workers, waiting, board, before⟩).1 = .ok after) :
    HoldsSources setting dir (TaskList.run setting.workflow
      ⟨workers, waiting, board, before⟩).2.board.world.index project := by
  intro path hpath text htext herrors
  obtain ⟨owner, group, hwaits, hcontext, howner⟩ := h.sources _ hdir path hpath
  obtain rfl : owner = project := Option.some.inj (howner.symm.trans hproject)
  have htrail : SourceTrail owner path (CompilationUnit.parse path text (setting.grammar text))
      waiting board := .file hwaits hcontext ⟨rfl, rfl, rfl, rfl⟩
  obtain ⟨left, ⟨_, hlater⟩, hend⟩ := TaskList.exists_left_of_run_ok
    (isInvariant_sources hgrammar (fun context hsource => hsource.sourceUnit?_eq htext herrors))
    ⟨hsustained, fun _ => htrail⟩ hok
  exact (hlater hroom).holdsUnit hend

end Enrolled

/-- When the tasks of a load end well, a directory has a project with the flags that the table gives
it and the classes of its source files. -/
theorem exists_project_of_run_ok (hgrammar : setting.grammar.SpellsNodes) {index : Index}
    (hlive : index.Live) (workers : Nat) {report : Report}
    (hroom : ((initialTasks workers index root).run setting.workflow).2.board.world.index.HasRoom)
    (hok : ((initialTasks workers index root).run setting.workflow).1 = .ok report) {dir : String}
    (hdir : dir ∈ (Discovery.run setting.disk setting.config root).1) :
    ((initialTasks workers index root).run setting.workflow).2.board.world.index.Sound ∧
      ∃ project standing,
        followAll setting (enrolAll setting index.standing? (entrants setting root))
          (entrants setting root) (setting.disk.projectName dir) = some standing ∧
        ((initialTasks workers index root).run setting.workflow).2.board.world.index.IsProject
          project (setting.disk.projectName dir) standing.isThirdParty standing.isPseudo ∧
        HoldsSources setting dir
          ((initialTasks workers index root).run setting.workflow).2.board.world.index project := by
  have hnames := (run_ok_iff hgrammar hlive workers root hroom).1 ⟨report, hok⟩
  obtain ⟨waiting, board, early, hrun, henrolled⟩ := exists_enrolled hlive workers root hroom
  have hsustained := henrolled.sustained hnames
  have hentrant := directory_mem_entrants hdir
  rw [hrun] at hroom hok ⊢
  -- what holds after linking still holds at the end, since the index only grows from there
  obtain ⟨_, ⟨hend, hextends⟩, _⟩ := TaskList.exists_left_of_run_ok
    (isInvariant_extends hgrammar board.world.index)
    ⟨hsustained, fun _ => Extends.refl board.world.index⟩ hok
  obtain ⟨project, standing, hstanding, hfind, hproject⟩ := henrolled.exists_project hentrant
  exact ⟨(hend.fits hroom).live.sound, project, standing, hstanding,
    (hextends hroom).isProject hproject,
    henrolled.holdsSources hgrammar hsustained hentrant hfind hroom hok⟩

end Load

/-! ## Loading a workspace -/

open Load Index

/-- A directory has a project without flags that holds the classes of its source files, and there is
no flagged project of its name. -/
def HoldsProject (setting : LoadSetting) (dir : String) (index : Index) : Prop :=
  (∃ project, index.IsProject project (setting.disk.projectName dir) false false ∧
    HoldsSources setting dir index project) ∧
  ∀ project isThirdParty isPseudo,
    index.IsProject project (setting.disk.projectName dir) isThirdParty isPseudo →
    isThirdParty = false ∧ isPseudo = false

/-- The end of a load carries the projects without flags over. -/
theorem carries_pruned {index : Index} (h : index.Sound) (config : LoadConfig) (generation : Nat) :
    Carries index (config.pruned index generation).1.propagateThirdParty.2 := by
  unfold LoadConfig.pruned
  split
  · exact (carries_prune h generation).trans
      (carries_propagateThirdParty (isStacked_prune h.stacked generation))
  · exact carries_propagateThirdParty h.stacked

/-- What a load ends with is held as it was held at the end of the tasks. -/
theorem holdsProject_iff {setting : LoadSetting} {dir : String} {a b : Index} (h : Carries a b)
    (hsound : a.Sound) {project : ItemId} {standing : Standing}
    (hproject : a.IsProject project (setting.disk.projectName dir) standing.isThirdParty
      standing.isPseudo) (hsources : HoldsSources setting dir a project) :
    HoldsProject setting dir b ↔ standing = ⟨false, false⟩ := by
  constructor
  · rintro ⟨⟨new, hnew, _⟩, _⟩
    obtain ⟨old, hold⟩ := h.stems hnew
    obtain ⟨_, hthird, hpseudo⟩ := hsound.isProject_unique hproject hold
    obtain ⟨isThirdParty, isPseudo⟩ := standing
    exact congrArg₂ Standing.mk hthird hpseudo
  · rintro rfl
    refine ⟨?_, ?_⟩
    · obtain ⟨new, hnew, hclasses⟩ := h.keeps hproject
      refine ⟨new, hnew, fun path hpath text htext herrors decl hdecl name hname => ?_⟩
      exact hclasses _ _ (hsources path hpath text htext herrors decl hdecl name hname)
    · intro other isThirdParty isPseudo hother
      obtain ⟨old, hold⟩ := h.stems hother
      obtain ⟨_, hthird, hpseudo⟩ := hsound.isProject_unique hold hproject
      exact ⟨hthird, hpseudo⟩

/-- After a load, the project of a directory whose name no pattern matches is without flags and has
the classes of its source files exactly when nothing else claims its name. -/
theorem loadWorkspace_holdsProject_iff {disk : Disk} {grammar : Source.Grammar} {config : LoadConfig}
    {base : Option Index} {generation : Nat} {root dir : String} {thirdParty : List Regex.Matcher}
    {outcome : LoadOutcome}
    (hload : loadWorkspace disk grammar config base generation root = .ok outcome)
    (hpatterns : config.thirdPartyMatchers? = some thirdParty) (hgrammar : grammar.SpellsNodes)
    (hbase : IsBase base generation)
    (hroom : (loadRun ⟨disk, grammar, config, thirdParty⟩ base generation
      root).2.board.world.index.HasRoom)
    (hdir : dir ∈ (Discovery.run disk config root).1)
    (hname : LoadSetting.isThirdParty ⟨disk, grammar, config, thirdParty⟩ (disk.projectName dir) =
      false) :
    HoldsProject ⟨disk, grammar, config, thirdParty⟩ dir outcome.index ↔
      IsUnclaimed ⟨disk, grammar, config, thirdParty⟩ (baseStandings base) root
        (disk.projectName dir) := by
  obtain ⟨report, hok, hindex⟩ := run_of_loadWorkspace_ok hpatterns hload
  obtain ⟨hsound, project, standing, hstanding, hproject, hsources⟩ := @exists_project_of_run_ok
    ⟨disk, grammar, config, thirdParty⟩ root hgrammar _ hbase.live_startIndex config.workers report
    hroom hok dir hdir
  rw [hbase.standing?_startIndex] at hstanding
  rw [hindex, ← isFree_iff_isUnclaimed hname]
  refine (holdsProject_iff (carries_pruned hsound config (generation + 1)) hsound hproject
    hsources).trans ?_
  constructor
  · rintro rfl other hother
    exact Option.some.inj (hother.symm.trans hstanding)
  · intro hfree
    exact hfree standing hstanding

/-- A grammar of which one text is a program, with a class `A`. -/
def oneClass : Source.Grammar := fun source =>
  if source = "class A \x7b\x7d" then
    ⟨.node "program" none 0 10 [.node "class_declaration" none 0 10
      [.node "identifier" (some "name") 6 7 [], .node "class_body" (some "body") 8 10 []]], false⟩
  else ⟨.node "program" none 0 source.utf8ByteSize [], true⟩

theorem spellsNodes_oneClass : oneClass.SpellsNodes := by
  intro source herrors node hbelow
  unfold oneClass at herrors hbelow
  split at hbelow
  · rename_i hsource
    subst hsource
    have hnode : node ∈ [.node "class_declaration" none 0 10
        [.node "identifier" (some "name") 6 7 [], .node "class_body" (some "body") 8 10 []],
        .node "identifier" (some "name") 6 7 [], .node "class_body" (some "body") 8 10 []] := by
      simpa using hbelow
    simp only [List.mem_cons, List.not_mem_nil, or_false] at hnode
    rcases hnode with rfl | rfl | rfl
    · exact ⟨"class A \x7b\x7d", by decide +kernel, by decide⟩
    · exact ⟨"A", by decide +kernel, by decide⟩
    · exact ⟨"\x7b\x7d", by decide +kernel, by decide⟩
  · rename_i hsource
    simp [hsource] at herrors

/-- A workspace with a directory `app` of a project and an archive `app.jar` beside it. -/
def claimedDisk : Disk :=
  ⟨[(["ws"], .directory), (["ws", "app"], .directory), (["ws", "app", ".project"], .file (.text "")),
    (["ws", "app", "src"], .directory),
    (["ws", "app", "src", "A.java"], .file (.text "class A \x7b\x7d")),
    (["ws", "app.jar"], .archive [])]⟩

/-- An archive claims the name of a directory beside it, which loses its class. -/
theorem loadWorkspace_claimed : ∃ outcome,
    loadWorkspace claimedDisk oneClass {} none 0 "ws" = .ok outcome ∧
      ¬ HoldsProject ⟨claimedDisk, oneClass, {}, []⟩ "ws/app" outcome.index := by
  have hroom : (loadRun ⟨claimedDisk, oneClass, {}, []⟩ none 0 "ws").2.board.world.index.HasRoom :=
    @hasRoom_of_runWithin ⟨claimedDisk, oneClass, {}, []⟩ none 0 30 3 "ws" (by decide +kernel)
      (by decide)
  have hbase : IsBase none 0 := by
    intro lower hlower
    simp at hlower
  have hok := @run_ok_iff ⟨claimedDisk, oneClass, {}, []⟩ spellsNodes_oneClass _
    hbase.live_startIndex 1 "ws" hroom
  obtain ⟨outcome, hload⟩ := (exists_loadWorkspace_ok_iff (by decide +kernel) rfl).2
    (hok.2 (by rw [hbase.standing?_startIndex]; decide +kernel))
  refine ⟨outcome, hload, ?_⟩
  have hiff := @loadWorkspace_holdsProject_iff claimedDisk oneClass {} none 0 "ws" "ws/app" []
    outcome hload rfl spellsNodes_oneClass hbase hroom (by decide +kernel) (by decide +kernel)
  intro hholds
  have harchive : .archive "ws/app.jar" [] ∈ entrants ⟨claimedDisk, oneClass, {}, []⟩ "ws" :=
    archive_mem_entrants (by decide +kernel) rfl
  have hflag := (hiff.1 hholds).archives "ws/app.jar" [] harchive (by decide +kernel)
  simp at hflag

end CodeAtlas
