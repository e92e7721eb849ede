/-
# Files that a search skips

Searching the sources of a workspace, a file whose text has syntax errors contributes nothing, and the
hits of the others stand in the order of their paths.  Loading skips the same file and counts it.  A file
whose text cannot be read is skipped by loading too, but it stops the search.
-/
import CodeAtlas.Proofs.Disk.Paths
import CodeAtlas.Proofs.Load.Loaded
import CodeAtlas.Query.Files
import Mathlib.Data.List.Lex

namespace CodeAtlas

open Source (CompilationUnit Grammar)

/-! ## Files and their units -/

/-- Whether the text of a file can be read. -/
def Disk.IsReadable (disk : Disk) (path : String) : Prop :=
  ∃ text, disk.readText path = .ok text

/-- The unit of a file whose text can be read and has no syntax errors. -/
def Disk.unit? (disk : Disk) (grammar : Grammar) (path : String) : Option CompilationUnit :=
  ((disk.readText path).toOption.map fun text =>
    CompilationUnit.parse path text (grammar text)).filter (fun unit => !unit.hasErrors)

theorem Disk.unit?_of_text {disk : Disk} {grammar : Grammar} {path text : String}
    (h : disk.readText path = .ok text) :
    disk.unit? grammar path =
      (some (CompilationUnit.parse path text (grammar text))).filter (fun unit => !unit.hasErrors) := by
  rw [unit?, h]
  rfl

namespace Query

variable {query : Query} {disk : Disk} {grammar : Grammar} {index : Index} {markers : List String}
  {path : String}

/-- What a query finds in a file; in one without a unit it finds nothing. -/
def hitsIn (query : Query) (disk : Disk) (grammar : Grammar) (index : Index) (markers : List String)
    (path : String) : List SearchHit :=
  match disk.unit? grammar path with
  | some unit => CallContext.search ⟨index, ⟨unit, disk.owningProject index markers path⟩⟩ query
  | none => []

/-! ## Searching one file -/

theorem searchFile_of_text {text : String} (h : disk.readText path = .ok text) :
    query.searchFile disk grammar index markers path =
      .ok (query.hitsIn disk grammar index markers path) := by
  rw [searchFile, h, hitsIn, Disk.unit?_of_text h, Option.filter_some]
  show (if _ then _ else _) = _
  cases (CompilationUnit.parse path text (grammar text)).hasErrors <;> rfl

theorem searchFile_of_error {error : DiskError} (h : disk.readText path = .error error) :
    query.searchFile disk grammar index markers path = .error error := by
  rw [searchFile, h]
  rfl

/-! ## Searching several files -/

/-- Searching files one after the other. -/
theorem searchFiles_eq {paths : List String} (h : ∀ path ∈ paths, query.appliesTo path = true) :
    query.searchFiles disk grammar index markers paths =
      (paths.mapM (query.searchFile disk grammar index markers)).map List.flatten := by
  rw [searchFiles, List.filter_eq_self.2 h]
  rfl

theorem mapM_searchFile_of_readable {paths : List String} (h : ∀ path ∈ paths, disk.IsReadable path) :
    paths.mapM (query.searchFile disk grammar index markers) =
      .ok (paths.map (query.hitsIn disk grammar index markers)) := by
  induction paths with
  | nil => rfl
  | cons path paths ih =>
    obtain ⟨⟨text, htext⟩, hpaths⟩ := List.forall_mem_cons.1 h
    rw [List.mapM_cons, searchFile_of_text htext, ih hpaths]
    rfl

theorem exists_error_of_unreadable {paths : List String} (hpath : path ∈ paths)
    (h : ¬ disk.IsReadable path) :
    ∃ error, paths.mapM (query.searchFile disk grammar index markers) = .error error := by
  induction paths with
  | nil => simp at hpath
  | cons first paths ih =>
    rw [List.mapM_cons]
    cases hfirst : disk.readText first with
    | error error =>
      rw [searchFile_of_error hfirst]
      exact ⟨error, rfl⟩
    | ok text =>
      have hlater : path ∈ paths := by
        rcases List.mem_cons.1 hpath with rfl | hlater
        · exact absurd ⟨text, hfirst⟩ h
        · exact hlater
      obtain ⟨error, herror⟩ := ih hlater
      rw [searchFile_of_text hfirst, herror]
      exact ⟨error, rfl⟩

end Query

/-! ## The sources of a workspace -/

namespace Disk

variable {disk : Disk} {root : String}

theorem appliesTo_of_mem_sources {path : String} (query : Query) (h : path ∈ disk.sources root) :
    query.appliesTo path = true := by
  rw [sources, filesWithExtension] at h
  obtain ⟨visit, hvisit, rfl⟩ := List.mem_map.1 h
  exact ((Bool.and_eq_true _ _).mp (List.mem_filter.1 hvisit).2).2

/-- A node met below the start of a traversal, by its place. -/
theorem exists_of_visit? {place : Place} {entry : Place × DiskNode} {visit : Visit}
    (h : visit? root place entry = some visit) :
    ∃ below, below ≠ [] ∧ entry.1 = place ++ below ∧ visit.path = below.foldl Path.join root := by
  rw [visit?] at h
  split at h
  · rename_i hbelow
    rw [Bool.and_eq_true, List.isPrefixOf_iff_prefix, decide_eq_true_eq] at hbelow
    obtain ⟨⟨below, hentry⟩, hlength⟩ := hbelow
    obtain rfl := Option.some.inj h
    rw [← hentry] at hlength ⊢
    refine ⟨below, ?_, rfl, by simp⟩
    rintro rfl
    simp at hlength
  · simp at h

/-- The path of a node below a place has the names of the node behind the segments of the start. -/
theorem IsOrdered.segments_visit (h : disk.IsOrdered) (hroot : Path.IsRelative root) {place : Place}
    {entry : Place × DiskNode} (hentry : entry ∈ disk.nodes) {below : Place}
    (hbelow : entry.1 = place ++ below) :
    Path.segments (below.foldl Path.join root) = Path.segments root ++ below := by
  have hname : ∀ name ∈ below, name ∈ entry.1 := fun name hname => by
    rw [hbelow]
    exact List.mem_append_right _ hname
  have hrelative : ∀ name ∈ below, Path.isAbsolute name = false := by
    intro name hmem
    rw [Path.isAbsolute_eq, decide_eq_false_iff_not]
    intro hhead
    exact h.plain entry hentry name (hname name hmem) (List.mem_of_mem_head? hhead)
  have hsteps : ∀ name ∈ below, Path.steps name = [name] := by
    intro name hmem
    rw [Path.steps, Text.splitOn_eq_singleton (h.plain entry hentry name (hname name hmem)),
      List.filter_cons_of_pos (h.steps entry hentry name (hname name hmem)), List.filter_nil]
  rw [(Path.segments_foldl_join hroot hrelative).2, List.flatMap_congr hsteps]
  simp

theorem lt_of_append_lt {place below below' : Place} (h : place ++ below < place ++ below') :
    below < below' := by
  induction place with
  | nil => exact h
  | cons name place ih => exact ih (List.cons_lt_cons_self.1 h)

/-- A traversal meets the nodes in the order of their paths. -/
theorem IsOrdered.pairwise_walk (h : disk.IsOrdered) (root : String) :
    (disk.walk root).Pairwise (fun a b => Path.segments a.path < Path.segments b.path) := by
  rw [walk]
  split
  · exact List.Pairwise.nil
  · rename_i place hlocate _
    have hroot := disk.isRelative_of_locate hlocate
    refine List.pairwise_cons.2 ⟨fun visit hvisit => ?_, List.pairwise_filterMap.2 ?_⟩
    · obtain ⟨entry, hentry, hsome⟩ := List.mem_filterMap.1 hvisit
      obtain ⟨below, hne, hplace, hpath⟩ := exists_of_visit? hsome
      obtain ⟨name, rest, rfl⟩ := List.exists_cons_of_ne_nil hne
      have hless : Path.segments root ++ [] < Path.segments root ++ name :: rest :=
        List.append_left_lt (List.nil_lt_cons name rest)
      rw [hpath, h.segments_visit hroot hentry hplace]
      rwa [List.append_nil] at hless
    · refine List.Pairwise.imp_of_mem (fun {a b} ha hb hless first hfirst second hsecond => ?_) h.sorted
      obtain ⟨below, _, hplace, hpath⟩ := exists_of_visit? hfirst
      obtain ⟨below', _, hplace', hpath'⟩ := exists_of_visit? hsecond
      rw [hpath, hpath', h.segments_visit hroot ha hplace, h.segments_visit hroot hb hplace']
      rw [hplace, hplace'] at hless
      -- both nodes lie below the place, so the names below it decide
      exact List.append_left_lt (lt_of_append_lt hless)
  · exact List.pairwise_singleton _ _

/-- The sources come in the order of their paths. -/
theorem IsOrdered.pairwise_sources (h : disk.IsOrdered) (root : String) :
    (disk.sources root).Pairwise (fun a b => Path.segments a < Path.segments b) :=
  List.pairwise_map.2 ((h.pairwise_walk root).filter _)

end Disk

namespace Query

variable {query : Query} {disk : Disk} {grammar : Grammar} {index : Index} {markers : List String}
  {root : String}

theorem searchFiles_of_readable (h : ∀ path ∈ disk.sources root, disk.IsReadable path) :
    query.searchFiles disk grammar index markers (disk.sources root) =
      .ok ((disk.sources root).flatMap (query.hitsIn disk grammar index markers)) := by
  rw [searchFiles_eq fun path hpath => Disk.appliesTo_of_mem_sources query hpath,
    mapM_searchFile_of_readable h]
  rfl

theorem searchFiles_of_unreadable (h : ∃ path ∈ disk.sources root, ¬ disk.IsReadable path) :
    ∃ error, query.searchFiles disk grammar index markers (disk.sources root) = .error error := by
  obtain ⟨path, hpath, hunread⟩ := h
  obtain ⟨error, herror⟩ :
      ∃ error, (disk.sources root).mapM (query.searchFile disk grammar index markers) = .error error :=
    exists_error_of_unreadable hpath hunread
  refine ⟨error, ?_⟩
  rw [searchFiles_eq fun path hpath => Disk.appliesTo_of_mem_sources query hpath, herror]
  rfl

end Query

/-! ## What loading counts -/

namespace Load

open Tasks

section Actions

variable {task : LoadTask} {α β : Type} {group : Nat}

/-- An action that counts no file as skipped. -/
def SkipsNothing (act : LoadAct task α) : Prop :=
  ∀ effect, (act.run.run effect).2.board.world.stats.skippedFiles =
    effect.board.world.stats.skippedFiles

theorem skipsNothing_pure (value : α) : SkipsNothing (pure value : LoadAct task α) :=
  fun _ => rfl

theorem SkipsNothing.bind {act : LoadAct task α} {next : α → LoadAct task β} (h : SkipsNothing act)
    (hnext : ∀ value, SkipsNothing (next value)) : SkipsNothing (act >>= next) := by
  intro effect
  have hrun : (act >>= next).run.run effect =
      (ExceptT.bindCont next (act.run.run effect).1).run (act.run.run effect).2 := rfl
  rw [hrun, ← h effect]
  rcases act.run.run effect with ⟨error | value, after⟩
  · rfl
  · exact hnext value after

theorem skipsNothing_edit (change : Edit α) : SkipsNothing (edit change : LoadAct task α) :=
  fun _ => rfl

theorem skipsNothing_contextOf : SkipsNothing (contextOf group : LoadAct task LoadContext) :=
  fun _ => rfl

theorem skipsNothing_modifyContext (f : LoadContext → LoadContext) :
    SkipsNothing (Act.modifyContext group f : LoadAct task PUnit) :=
  fun _ => rfl

theorem skipsNothing_spawnInto (next : LoadTask) (lower : next.rank < task.rank) :
    SkipsNothing (spawnInto group next lower) :=
  fun _ => rfl

theorem skipsNothing_enterPackage (project : ItemId) (name : String) :
    SkipsNothing (enterPackage group project name : LoadAct task PUnit) := by
  refine (skipsNothing_edit _).bind fun (package, isNew) => ?_
  cases isNew with
  | false => exact skipsNothing_modifyContext _
  | true =>
    have hcount : SkipsNothing (count (fun stats => { stats with packages := stats.packages + 1 }) :
        LoadAct task PUnit) := fun _ => rfl
    exact hcount.bind fun _ => skipsNothing_modifyContext _

end Actions

variable {setting : LoadSetting} {group : Nat} {context : LoadContext} {path : String}

/-- Entering the package of a file that was read and parsed skips nothing. -/
theorem skipsNothing_enterSourcePackage : SkipsNothing (enterSourcePackage.body group) := by
  refine skipsNothing_contextOf.bind fun context => ?_
  cases context.project with
  | none => exact skipsNothing_pure _
  | some project =>
    cases context.unit with
    | none => exact skipsNothing_pure _
    | some unit =>
      exact (skipsNothing_enterPackage project unit.package).bind fun _ =>
        (skipsNothing_spawnInto _ _).bind fun _ => (skipsNothing_spawnInto _ _).bind fun _ =>
        (skipsNothing_spawnInto _ _).bind fun _ => (skipsNothing_spawnInto _ _).bind fun _ =>
        skipsNothing_spawnInto _ _

theorem skipsNothing_runAll {jobs : List (LoadJob .sourceFile)}
    (h : ∀ job ∈ jobs, SkipsNothing (job.body group)) :
    SkipsNothing (Job.runAll LoadContext.has group jobs) := by
  induction jobs with
  | nil => exact skipsNothing_pure _
  | cons job jobs ih =>
    have hcontext : SkipsNothing (Act.context? group : LoadAct .sourceFile (Option LoadContext)) :=
      fun _ => rfl
    refine hcontext.bind fun context => ?_
    split
    · exact (h job List.mem_cons_self).bind fun _ =>
        ih fun later hlater => h later (List.mem_cons_of_mem _ hlater)
    · exact skipsNothing_pure _

/-- A file whose text can be read is parsed next. -/
theorem run_sourceFile_of_text {effect : Effect LoadTask.rank LoadTask.sourceFile.rank LoadContext
      LoadState} (hcontext : effect.board.groups[group]? = some context)
    (hpath : context.source = some path) (hcarried : context.sourceText = none) {text : String}
    (htext : setting.disk.readText path = .ok text) :
    ∃ later : Effect LoadTask.rank LoadTask.sourceFile.rank LoadContext LoadState,
      later.board.world.stats.skippedFiles = effect.board.world.stats.skippedFiles ∧
      later.board.groups[group]? = some { context with sourceText := some text } ∧
      ((setting.job .sourceFile).body group).run.run effect =
        (Job.runAll LoadContext.has group [parseSource setting, enterSourcePackage]).run.run later := by
  have hbound : (readSource setting).inputs.all context.has = true := by
    simp [readSource, LoadContext.has, hpath]
  let later : Effect LoadTask.rank LoadTask.sourceFile.rank LoadContext LoadState :=
    ⟨⟨effect.board.groups.modify group (fun context => { context with sourceText := some text }),
      ⟨effect.board.world.index, { effect.board.world.stats with
        sourceFiles := effect.board.world.stats.sourceFiles + 1 }⟩⟩, effect.spawned⟩
  have hread : ((readSource setting).body group).run.run effect = (.ok (), later) := by
    show (count _ >>= fun _ => contextOf group >>= _).run.run effect = _
    rw [run_count_bind, run_contextOf_bind, hcontext, Option.getD_some]
    simp only [hcarried, hpath, htext]
    rfl
  refine ⟨later, rfl, getElem?_modify_self hcontext _, ?_⟩
  show (Job.runAll LoadContext.has group [readSource setting, parseSource setting,
    enterSourcePackage]).run.run effect = _
  rw [run_runAll hcontext, hbound, if_pos rfl, run_bind_of_ok hread]

/-- Parsing skips a file exactly if it has syntax errors. -/
theorem skippedFiles_parse {effect : Effect LoadTask.rank LoadTask.sourceFile.rank LoadContext
      LoadState} (hcontext : effect.board.groups[group]? = some context)
    (hpath : context.source = some path) {text : String} (htext : context.sourceText = some text) :
    ((Job.runAll LoadContext.has group [parseSource setting, enterSourcePackage]).run.run
        effect).2.board.world.stats.skippedFiles =
      effect.board.world.stats.skippedFiles +
        if (CompilationUnit.parse path text (setting.grammar text)).hasErrors then 1 else 0 := by
  have hbound : (parseSource setting).inputs.all context.has = true := by
    simp [parseSource, LoadContext.has, hpath, htext]
  have hrest : SkipsNothing (Job.runAll LoadContext.has group [enterSourcePackage]) :=
    skipsNothing_runAll fun job hjob => by
      obtain rfl := List.mem_singleton.1 hjob
      exact skipsNothing_enterSourcePackage
  rw [run_runAll hcontext, hbound, if_pos rfl]
  by_cases herrors : (CompilationUnit.parse path text (setting.grammar text)).hasErrors
  all_goals
    have hparse : ∃ later : Effect LoadTask.rank LoadTask.sourceFile.rank LoadContext LoadState,
        ((parseSource setting).body group).run.run effect = (.ok (), later) ∧
        later.board.world.stats.skippedFiles = effect.board.world.stats.skippedFiles +
          if (CompilationUnit.parse path text (setting.grammar text)).hasErrors then 1 else 0 := by
      show ∃ later, (contextOf group >>= _).run.run effect = _ ∧ _
      rw [run_contextOf_bind, hcontext, Option.getD_some]
      simp only [hpath, htext, herrors]
      exact ⟨_, rfl, rfl⟩
    obtain ⟨later, hparse, hlater⟩ := hparse
    rw [run_bind_of_ok hparse, hrest later, hlater]

/-- Loading skips a source file, and counts it, exactly if it has no unit: if its text cannot be read
or has syntax errors. -/
theorem skippedFiles_sourceFile {effect : Effect LoadTask.rank LoadTask.sourceFile.rank LoadContext
      LoadState} (hcontext : effect.board.groups[group]? = some context)
    (hpath : context.source = some path) (hcarried : context.sourceText = none) :
    (((setting.job .sourceFile).body group).run.run effect).2.board.world.stats.skippedFiles =
      effect.board.world.stats.skippedFiles +
        if (setting.disk.unit? setting.grammar path).isSome then 0 else 1 := by
  cases htext : setting.disk.readText path with
  | ok text =>
    obtain ⟨later, hskipped, hlater, hrun⟩ := run_sourceFile_of_text hcontext hpath hcarried htext
    rw [hrun, skippedFiles_parse hlater hpath rfl, hskipped, Disk.unit?_of_text htext,
      Option.filter_some]
    cases (CompilationUnit.parse path text (setting.grammar text)).hasErrors <;> rfl
  | error error =>
    have hunit : setting.disk.unit? setting.grammar path = none := by
      rw [Disk.unit?, htext]
      rfl
    have hbound : (readSource setting).inputs.all context.has = true := by
      simp [readSource, LoadContext.has, hpath]
    have hstop : (parseSource setting).inputs.all context.has = false := by
      simp [parseSource, LoadContext.has, hcarried]
    let stats : LoadStats := { effect.board.world.stats with
      sourceFiles := effect.board.world.stats.sourceFiles + 1
      skippedFiles := effect.board.world.stats.skippedFiles + 1 }
    let later : Effect LoadTask.rank LoadTask.sourceFile.rank LoadContext LoadState :=
      ⟨⟨effect.board.groups, ⟨effect.board.world.index, stats⟩⟩, effect.spawned⟩
    have hread : ((readSource setting).body group).run.run effect = (.ok (), later) := by
      show (count _ >>= fun _ => contextOf group >>= _).run.run effect = _
      rw [run_count_bind, run_contextOf_bind, hcontext, Option.getD_some]
      simp only [hcarried, hpath, htext]
      rfl
    show ((Job.runAll LoadContext.has group [readSource setting, parseSource setting,
      enterSourcePackage]).run.run effect).2.board.world.stats.skippedFiles = _
    rw [run_runAll hcontext, hbound, if_pos rfl, run_bind_of_ok hread,
      run_runAll (show later.board.groups[group]? = some context from hcontext), hstop, hunit]
    rfl

end Load

/-! ## Searching a workspace -/

open Tasks Load

/-- A search of the sources of a workspace gives the hits of the files that can be read and have no
syntax errors, in the order of the paths, exactly if every source can be read.  A source that cannot be
read stops the search, although loading only skips such a file, and counts it, like one with syntax
errors. -/
theorem searchFiles_sources {setting : LoadSetting} (hdisk : setting.disk.IsOrdered) (root : String)
    (query : Query) (index : Index) (markers : List String) :
    (query.searchFiles setting.disk setting.grammar index markers (setting.disk.sources root) =
        .ok ((setting.disk.sources root).flatMap
          (query.hitsIn setting.disk setting.grammar index markers)) ↔
      ∀ path ∈ setting.disk.sources root, setting.disk.IsReadable path) ∧
    ((∃ error, query.searchFiles setting.disk setting.grammar index markers
        (setting.disk.sources root) = .error error) ↔
      ∃ path ∈ setting.disk.sources root, ¬ setting.disk.IsReadable path) ∧
    (setting.disk.sources root).Pairwise (fun a b => Path.segments a < Path.segments b) ∧
    ∀ {group : Nat} {context : LoadContext} {path : String}
      {effect : Effect LoadTask.rank LoadTask.sourceFile.rank LoadContext LoadState},
      effect.board.groups[group]? = some context → context.source = some path →
      context.sourceText = none →
      (((setting.job .sourceFile).body group).run.run effect).2.board.world.stats.skippedFiles =
        effect.board.world.stats.skippedFiles +
          if (setting.disk.unit? setting.grammar path).isSome then 0 else 1 := by
  refine ⟨⟨fun hfound => ?_, Query.searchFiles_of_readable⟩,
    ⟨fun ⟨error, hfound⟩ => ?_, Query.searchFiles_of_unreadable⟩, hdisk.pairwise_sources root,
    skippedFiles_sourceFile⟩
  · by_contra! hunread
    obtain ⟨error, hstopped⟩ := Query.searchFiles_of_unreadable hunread
    rw [hstopped] at hfound
    cases hfound
  · by_contra! hread
    rw [Query.searchFiles_of_readable hread] at hfound
    cases hfound

/-- A workspace with a source file, one with syntax errors and one that is not text. -/
def mixedDisk : Disk :=
  ⟨[(["ws"], .directory),
    (["ws", "A.java"], .file (.text "class A \x7b L f; void m() \x7b f.run(); \x7d \x7d")),
    (["ws", "B.java"], .file (.text "class B \x7b")),
    (["ws", "C.java"], .archive [])]⟩

/-- The methods of the name `m`. -/
def methodsOfM : Query :=
  ⟨.methodDecl, [.name (.literal "m")]⟩

/-- The file that is not text stops the search. -/
theorem searchFiles_sources_mixed : mixedDisk.IsOrdered ∧
    ∃ error, methodsOfM.searchFiles mixedDisk callingTexts (.empty 0) [] (mixedDisk.sources "ws") =
      .error error := by
  have hordered : mixedDisk.IsOrdered :=
    ⟨by decide +kernel, by unfold Disk.IsPlain; decide +kernel, by decide +kernel⟩
  obtain ⟨_, hstops, _⟩ := @searchFiles_sources ⟨mixedDisk, callingTexts, {}, []⟩ hordered "ws"
    methodsOfM (.empty 0) []
  refine ⟨hordered, hstops.2 ⟨"ws/C.java", by decide +kernel, ?_⟩⟩
  rintro ⟨text, htext⟩
  have hread : (mixedDisk.readText "ws/C.java").toOption = none := by decide +kernel
  rw [show mixedDisk.readText "ws/C.java" = .ok text from htext] at hread
  cases hread

end CodeAtlas
