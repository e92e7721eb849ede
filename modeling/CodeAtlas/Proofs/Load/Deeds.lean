/-
# What loading tasks do

A task changes the index, the context of its group, and nothing else that any other task can see: it
spawns tasks into its own group and opens groups with a task in each.  This is its deed.  A deed is an
edit of the index, so what is known about edits says what running a task does.
-/
import CodeAtlas.Load.Workspace
import CodeAtlas.Proofs.Load.Compiled
import CodeAtlas.Proofs.Tasks.Levels

namespace CodeAtlas.Load

open Tasks
open Source (CompilationUnit)

/-! ## Deeds -/

/-- What a task does beside changing the index. -/
structure Deed where
  /-- What becomes of the context of its group. -/
  change : LoadContext → LoadContext := id
  /-- The tasks it spawns into its group. -/
  own : List LoadTask := []
  /-- The groups it opens, each with its task. -/
  opened : List (LoadContext × LoadTask) := []

/-- The tasks of groups that are opened, the first of which gets a given number. -/
def openedTasks : Nat → List (LoadContext × LoadTask) → List (Pending LoadTask)
  | _, [] => []
  | group, (_, task) :: rest => ⟨task.priority, task, group⟩ :: openedTasks (group + 1) rest

theorem openedTasks_append (group : Nat) (opened others : List (LoadContext × LoadTask)) :
    openedTasks group (opened ++ others) =
      openedTasks group opened ++ openedTasks (group + opened.length) others := by
  induction opened generalizing group with
  | nil => rfl
  | cons first rest ih =>
    rw [List.cons_append, openedTasks, openedTasks, ih, List.cons_append, List.length_cons,
      Nat.add_right_comm, Nat.add_assoc]

/-- The tasks spawned by a deed in a group, when there are `size` groups. -/
def Deed.spawned (deed : Deed) (group size : Nat) : List (Pending LoadTask) :=
  deed.own.map (fun task => ⟨task.priority, task, group⟩) ++ openedTasks size deed.opened

/-- The groups after a deed. -/
def Deed.groups (deed : Deed) (group : Nat) (groups : Array LoadContext) : Array LoadContext :=
  groups.modify group deed.change ++ (deed.opened.map Prod.fst).toArray

/-- The source files of a project directory. -/
def sourcePaths (setting : LoadSetting) (dir : String) : List String :=
  (setting.disk.sourceFolders setting.config dir).flatMap fun folder =>
    setting.disk.filesWithExtension (Path.join dir folder) "java"

/-- The groups opened for the entry of an archive. -/
def entryGroups (path : String) (project : ItemId) (archive : Archive) (entry : ArchiveEntry) :
    List (LoadContext × LoadTask) :=
  match entryContent? archive entry with
  | some (.binary cls) => [({ project := some project, binary := some cls }, .binaryPackage)]
  | some (.source text) =>
    [({ project := some project
        source := some (path ++ "!/" ++ entry.name)
        sourceText := some text }, .sourceFile)]
  | _ => []

/-- The text of a source file: one that is there, or else what can be read. -/
def sourceText? (setting : LoadSetting) (context : LoadContext) (path : String) : Option String :=
  context.sourceText.or (setting.disk.readText path).toOption

/-- The unit of a source file that can be read and has no errors. -/
def sourceUnit? (setting : LoadSetting) (context : LoadContext) (path : String) :
    Option CompilationUnit :=
  ((sourceText? setting context path).map fun text =>
    CompilationUnit.parse path text (setting.grammar text)).filter (fun unit => !unit.hasErrors)

/-- What becomes of the context of a source file that was read and parsed. -/
def parsed (setting : LoadSetting) (context : LoadContext) (path : String) : LoadContext → LoadContext :=
  if (sourceText? setting context path).isSome then
    fun context' => { context' with
      sourceText := none, unit := sourceUnit? setting context path }
  else id

/-- The deed of a task in a group with a given context. -/
def deed (setting : LoadSetting) (context : LoadContext) : LoadTask → Edit Deed
  | .discovery =>
    match context.workspace with
    | none => return {}
    | some root =>
      let (projects, archives) := Discovery.run setting.disk setting.config root
      return {
        opened := projects.map (fun path => ({ projectDir := some path }, .project)) ++
          archives.map (fun path => ({ archive := some path }, .archive)) }
  | .project =>
    match context.projectDir with
    | none => return {}
    | some dir => do
      let disk := setting.disk
      let name := disk.projectName dir
      let project ← registerProject name (setting.isThirdParty name)
      return {
        change := fun context => { context with
          project := some project
          dependencies := disk.projectDependencies dir (disk.sourceFolders setting.config dir) }
        own := [.projectDependencies]
        opened := (sourcePaths setting dir).map (fun path =>
          ({ project := some project, source := some path }, .sourceFile)) }
  | .projectDependencies =>
    match context.project with
    | none => return {}
    | some project => do
      let missing ← linkDependencies project context.dependencies
      return {
        change := fun context =>
          if missing = 0 then { context with dependenciesLoaded := true } else context }
  | .archive =>
    match context.archive with
    | none => return {}
    | some path =>
      match setting.disk.archive? path with
      | none => return {}
      | some archive => do
        let name := (Path.stem? path).getD path
        let project ← registerProject name
          (setting.config.archivesAreThirdParty || setting.isThirdParty name)
        return {
          change := fun context =>
            { context with project := some project, dependencies := archiveDependencies archive }
          own := [.projectDependencies, .archiveEntries setting.config.requireArchiveDependencies] }
  | .archiveEntries _ =>
    match context.archive, context.project with
    | some path, some project =>
      match setting.disk.archive? path with
      | none => return {}
      | some archive =>
        return { opened := (entriesByName archive).flatMap (entryGroups path project archive) }
    | _, _ => return {}
  | .sourceFile =>
    match context.source with
    | none => return {}
    | some path =>
      match context.project, sourceUnit? setting context path with
      | some project, some unit => do
        let (package, _) ← registerPackage project unit.package
        return {
          change := fun context' => { parsed setting context path context' with
            package := some package }
          own := [.classes, .classDependencies, .members, .pseudoMethods, .methodDependencies] }
      | _, _ => return { change := parsed setting context path }
  | .classes =>
    match context.package, context.unit with
    | some package, some unit => do
      let classes ← registerClasses unit package
      return { change := fun context => { context with classes := some classes } }
    | _, _ => return {}
  | .classDependencies =>
    match context.unit, context.classes with
    | some unit, some classes => do
      let _ ← linkClasses ⟨unit, context.project⟩ classes
      return { change := fun context => { context with classDependencies := true } }
    | _, _ => return {}
  | .members =>
    match context.unit, context.classes with
    | some unit, some classes => do
      let members ← registerMembers ⟨unit, context.project⟩ classes
      return { change := fun context => { context with methods := some members.methods } }
    | _, _ => return {}
  | .pseudoMethods =>
    match context.unit with
    | some unit => do
      let calls := CallContext.calls ⟨← get, ⟨unit, context.project⟩⟩
      let _ ← settleCalls calls setting.config.createPseudoMethods
      return { change := fun context => { context with calls := some calls } }
    | none => return {}
  | .methodDependencies =>
    match context.unit, context.calls with
    | some unit, some calls => do
      modify (linkCalls unit.ast (context.methods.getD []) (context.classes.getD []) calls)
      return { change := fun context => { context with methodDependencies := true } }
    | _, _ => return {}
  | .binaryPackage =>
    match context.project, context.binary with
    | some project, some binary => do
      let (package, _) ← registerPackage project binary.package
      return {
        change := fun context => { context with package := some package }
        own := [.binaryClass, .binaryClassDependencies, .binaryMembers] }
    | _, _ => return {}
  | .binaryClass =>
    match context.package, context.binary with
    | some package, some binary => do
      let cls ← registerBinaryClass package binary
      return { change := fun context => { context with binaryItem := some cls } }
    | _, _ => return {}
  | .binaryClassDependencies =>
    match context.binary, context.binaryItem with
    | some binary, some cls => do
      let _ ← linkBinaryClass context.project cls binary
      return { change := fun context => { context with classDependencies := true } }
    | _, _ => return {}
  | .binaryMembers =>
    match context.binary, context.binaryItem with
    | some binary, some cls => do
      registerBinaryMembers context.project cls binary
      return { change := fun context => { context with methods := some [] } }
    | _, _ => return {}

/-! ## Running actions -/

section Actions

variable {task : LoadTask} {α : Type} {group : Nat}
  {effect : Effect LoadTask.rank task.rank LoadContext LoadState}

theorem run_bind_of_ok {β : Type} {act : LoadAct task α} {next : α → LoadAct task β} {value : α}
    {after : Effect LoadTask.rank task.rank LoadContext LoadState}
    (h : act.run.run effect = (.ok value, after)) :
    (act >>= next).run.run effect = (next value).run.run after := by
  have hrun : (act >>= next).run.run effect =
      (ExceptT.bindCont next (act.run.run effect).1).run (act.run.run effect).2 := rfl
  rw [hrun, h]
  rfl

theorem run_context?_bind (group : Nat) (next : Option LoadContext → LoadAct task α)
    (effect : Effect LoadTask.rank task.rank LoadContext LoadState) :
    (Act.context? group >>= next).run.run effect =
      (next effect.board.groups[group]?).run.run effect :=
  rfl

theorem run_count_bind (f : LoadStats → LoadStats) (next : PUnit → LoadAct task α)
    (effect : Effect LoadTask.rank task.rank LoadContext LoadState) :
    (count f >>= next).run.run effect =
      (next ()).run.run { effect with board.world.stats := f effect.board.world.stats } :=
  rfl

theorem run_contextOf_bind (group : Nat) (next : LoadContext → LoadAct task α)
    (effect : Effect LoadTask.rank task.rank LoadContext LoadState) :
    (contextOf group >>= next).run.run effect =
      (next (effect.board.groups[group]?.getD {})).run.run effect :=
  rfl

/-- An action that carries a deed out. -/
def Performs (act : LoadAct task PUnit) (group : Nat)
    (effect : Effect LoadTask.rank task.rank LoadContext LoadState) (change : Edit Deed) : Prop :=
  match change.run.run effect.board.world.index with
  | (.ok deed, index) => ∃ stats spawned,
      act.run.run effect = (.ok (), ⟨⟨deed.groups group effect.board.groups, ⟨index, stats⟩⟩, spawned⟩) ∧
      spawned.map Subtype.val =
        effect.spawned.map Subtype.val ++ deed.spawned group effect.board.groups.size
  | (.error error, index) => ∃ after,
      act.run.run effect = (.error error.message, after) ∧ after.board.world.index = index

theorem groups_default (group : Nat) (groups : Array LoadContext) :
    ({} : Deed).groups group groups = groups := by
  have hmodify : groups.modify group id = groups := by
    apply Array.ext
    · rw [Array.size_modify]
    · intro i _ _
      rw [Array.getElem_modify]
      split <;> rfl
  rw [Deed.groups, hmodify]
  exact Array.append_empty

theorem performs_pure (task : LoadTask) (group : Nat)
    (effect : Effect LoadTask.rank task.rank LoadContext LoadState) :
    Performs (pure () : LoadAct task PUnit) group effect (pure {}) := by
  refine ⟨effect.board.world.stats, effect.spawned, ?_, ?_⟩
  · rw [groups_default]
    rfl
  · simp [Deed.spawned, openedTasks]

theorem performs_context {next : LoadContext → LoadAct task PUnit} {change : Edit Deed}
    {context : LoadContext} (hcontext : effect.board.groups[group]? = some context)
    (h : Performs (next context) group effect change) :
    Performs (contextOf group >>= next) group effect change := by
  have hrun : (contextOf group >>= next).run.run effect = (next context).run.run effect := by
    show (next ((effect.board.groups[group]?).getD {})).run.run effect = _
    rw [hcontext]
    rfl
  rw [Performs, hrun]
  exact h

theorem performs_count {f : LoadStats → LoadStats} {next : PUnit → LoadAct task PUnit}
    {change : Edit Deed}
    (h : Performs (next ()) group
      { effect with board.world.stats := f effect.board.world.stats } change) :
    Performs (count f >>= next) group effect change := by
  exact h

theorem performs_world {next : LoadState → LoadAct task PUnit} {rest : Index → Edit Deed}
    (h : Performs (next effect.board.world) group effect (rest effect.board.world.index)) :
    Performs (Act.world >>= next) group effect (get >>= rest) :=
  h

theorem performs_edit {change : Edit α} {next : α → LoadAct task PUnit} {rest : α → Edit Deed}
    (h : ∀ value index, Performs (next value) group
      { effect with board.world.index := index } (rest value)) :
    Performs (edit change >>= next) group effect (change >>= rest) := by
  have hrun : (edit change >>= next).run.run effect =
      match change.run.run effect.board.world.index with
      | (.ok value, index) => (next value).run.run { effect with board.world.index := index }
      | (.error error, index) =>
        (.error error.message, { effect with board.world.index := index }) := by
    show (ExceptT.bindCont next ((change.run.run effect.board.world.index).1.mapError _)).run
      { effect with board.world.index := (change.run.run effect.board.world.index).2 } = _
    rcases change.run.run effect.board.world.index with ⟨error | value, index⟩
    · rfl
    · rfl
  rcases hchange : change.run.run effect.board.world.index with ⟨error | value, index⟩
  · rw [Performs, Edit.run_bind_of_error hchange, hrun, hchange]
    exact ⟨_, rfl, rfl⟩
  · rw [Performs, Edit.run_bind_of_ok hchange, hrun, hchange]
    exact h value index

theorem performs_revise {change : StateM Index α} {next : α → LoadAct task PUnit}
    {rest : α → Edit Deed}
    (h : ∀ value index, Performs (next value) group
      { effect with board.world.index := index } (rest value)) :
    Performs (revise change >>= next) group effect (ExceptT.lift change >>= rest) :=
  performs_edit h

/-! ## Opening groups -/

/-- An action that does nothing but open groups and count. -/
def Opens (act : LoadAct task PUnit) (opened : List (LoadContext × LoadTask)) : Prop :=
  ∀ effect, ∃ stats spawned,
    act.run.run effect = (.ok (), ⟨⟨effect.board.groups ++ (opened.map Prod.fst).toArray,
      ⟨effect.board.world.index, stats⟩⟩, spawned⟩) ∧
    spawned.map Subtype.val =
      effect.spawned.map Subtype.val ++ openedTasks effect.board.groups.size opened

theorem opens_count (f : LoadStats → LoadStats) : Opens (count f : LoadAct task PUnit) [] := by
  intro effect
  refine ⟨f effect.board.world.stats, effect.spawned, ?_, by simp [openedTasks]⟩
  simp only [List.map_nil, Array.append_empty]
  rfl

theorem opens_pure : Opens (pure () : LoadAct task PUnit) [] :=
  opens_count id

theorem opens_spawnWith (context : LoadContext) (next : LoadTask) (lower : next.rank < task.rank) :
    Opens (spawnWith context next lower) [(context, next)] := by
  intro effect
  refine ⟨effect.board.world.stats,
    effect.spawned ++ [⟨⟨next.priority, next, effect.board.groups.size⟩, lower⟩], ?_, ?_⟩
  · simp only [List.map_cons, List.map_nil, ← Array.push_eq_append]
    rfl
  · simp [openedTasks]

theorem Opens.bind {act : LoadAct task PUnit} {next : PUnit → LoadAct task PUnit}
    {opened others : List (LoadContext × LoadTask)} (h : Opens act opened)
    (hnext : Opens (next ()) others) : Opens (act >>= next) (opened ++ others) := by
  intro effect
  obtain ⟨_, _, hrun, hspawned⟩ := h effect
  obtain ⟨stats, spawned, hrun', hspawned'⟩ := hnext _
  refine ⟨stats, spawned, ?_, ?_⟩
  · rw [run_bind_of_ok hrun, hrun']
    simp
  · rw [hspawned', hspawned, openedTasks_append]
    simp

/-- A loop that opens groups. -/
theorem opens_forIn {body : α → PUnit → LoadAct task (ForInStep PUnit)}
    {opened : α → List (LoadContext × LoadTask)}
    (h : ∀ value, ∃ act : LoadAct task PUnit,
      body value () = act >>= (fun _ => pure (.yield ())) ∧ Opens act (opened value))
    (list : List α) : Opens (forIn list () body) (list.flatMap opened) := by
  induction list with
  | nil => exact opens_pure
  | cons first rest ih =>
    obtain ⟨act, hbody, hopens⟩ := h first
    rw [List.forIn_cons, hbody, bind_assoc, List.flatMap_cons]
    refine hopens.bind ?_
    rw [pure_bind]
    exact ih

theorem opens_spawnAll (list : List α) (context : α → LoadContext) (next : LoadTask)
    (lower : next.rank < task.rank) :
    Opens (forIn list () (fun value _ => do
      spawnWith (context value) next lower
      pure (.yield ()))) (list.map (fun value => (context value, next))) := by
  rw [List.map_eq_flatMap]
  exact opens_forIn (fun value => ⟨_, rfl, opens_spawnWith (context value) next lower⟩) list

/-- Opening groups is all that a deed does. -/
theorem performs_opens {act : LoadAct task PUnit} {opened : List (LoadContext × LoadTask)}
    (h : Opens act opened) : Performs act group effect (pure { opened := opened }) := by
  obtain ⟨stats, spawned, hrun, hspawned⟩ := h effect
  refine ⟨stats, spawned, ?_, ?_⟩
  · rw [hrun]
    have hgroups := groups_default group effect.board.groups
    simp only [Deed.groups, List.map_nil, Array.append_empty] at hgroups ⊢
    rw [hgroups]
  · simpa [Deed.spawned] using hspawned

end Actions

/-! ## The deeds of all tasks -/

section Bodies

variable {setting : LoadSetting} {group : Nat} {context : LoadContext}

theorem performs_discovery
    {effect : Effect LoadTask.rank LoadTask.discovery.rank LoadContext LoadState}
    (hcontext : effect.board.groups[group]? = some context) :
    Performs (discoveryBody setting group) group effect (deed setting context .discovery) := by
  refine performs_context hcontext ?_
  rw [deed]
  cases context.workspace with
  | none => exact performs_pure _ _ _
  | some root =>
    refine performs_opens ?_
    refine (opens_spawnAll _ _ .project (by decide)).bind ?_
    rw [← List.append_nil (List.map _ _)]
    exact (opens_spawnAll _ _ .archive (by decide)).bind opens_pure

/-- A change of the context and tasks for the own group end what a task does. -/
theorem performs_finish {task : LoadTask}
    {effect : Effect LoadTask.rank task.rank LoadContext LoadState} {act : LoadAct task PUnit}
    {deed : Deed} (hopened : deed.opened = [])
    (hrun : ∃ stats spawned, act.run.run effect = (.ok (), ⟨⟨effect.board.groups.modify group deed.change,
      ⟨effect.board.world.index, stats⟩⟩, spawned⟩) ∧
      spawned.map Subtype.val = effect.spawned.map Subtype.val ++
        deed.own.map (fun task => ⟨task.priority, task, group⟩)) :
    Performs act group effect (pure deed) := by
  obtain ⟨stats, spawned, hrun, hspawned⟩ := hrun
  refine ⟨stats, spawned, ?_, ?_⟩
  · rw [hrun, Deed.groups, hopened]
    simp only [List.map_nil, Array.append_empty]
  · rw [hspawned, Deed.spawned, hopened, openedTasks, List.append_nil]

theorem performs_spawnOpen {task next : LoadTask}
    {effect : Effect LoadTask.rank task.rank LoadContext LoadState}
    {change : LoadContext → LoadContext} {lower : next.rank < task.rank} {rest : LoadAct task PUnit}
    {opened : List (LoadContext × LoadTask)} (h : Opens rest opened) :
    Performs (do
      Act.modifyContext group change
      spawnInto group next lower
      rest) group effect (pure { change := change, own := [next], opened := opened }) := by
  obtain ⟨stats, spawned, hrun, hspawned⟩ := h ⟨⟨effect.board.groups.modify group change,
    effect.board.world⟩, effect.spawned ++ [⟨⟨next.priority, next, group⟩, lower⟩]⟩
  refine ⟨stats, spawned, ?_, ?_⟩
  · exact hrun
  · rw [hspawned, Deed.spawned]
    simp

theorem performs_project
    {effect : Effect LoadTask.rank LoadTask.project.rank LoadContext LoadState}
    (hcontext : effect.board.groups[group]? = some context) :
    Performs (projectBody setting group) group effect (deed setting context .project) := by
  refine performs_context hcontext ?_
  rw [deed]
  cases context.projectDir with
  | none => exact performs_pure _ _ _
  | some dir =>
    refine performs_revise (fun project index => performs_count (performs_spawnOpen ?_))
    rw [sourcePaths, List.map_flatMap, ← List.append_nil (List.flatMap _ _)]
    exact (opens_forIn (fun folder => ⟨_, rfl, opens_spawnAll _ _ _ _⟩) _).bind opens_pure

theorem performs_projectDependencies
    {effect : Effect LoadTask.rank LoadTask.projectDependencies.rank LoadContext LoadState}
    (hcontext : effect.board.groups[group]? = some context) :
    Performs (projectDependenciesBody group) group effect
      (deed setting context .projectDependencies) := by
  refine performs_context hcontext ?_
  rw [deed]
  cases hproject : context.project with
  | none => exact performs_pure _ _ _
  | some project =>
    refine performs_revise (fun missing index => ?_)
    by_cases hmissing : missing = 0
    · simp only [hmissing, if_true]
      exact performs_finish rfl ⟨_, effect.spawned, rfl, by simp⟩
    · simp only [hmissing, if_false]
      exact performs_opens (opens_count _)

theorem performs_archive
    {effect : Effect LoadTask.rank LoadTask.archive.rank LoadContext LoadState}
    (hcontext : effect.board.groups[group]? = some context) :
    Performs (archiveBody setting group) group effect (deed setting context .archive) := by
  refine performs_context hcontext ?_
  rw [deed]
  cases context.archive with
  | none => exact performs_pure _ _ _
  | some path =>
    cases harchive : setting.disk.archive? path with
    | none =>
      simp only [harchive]
      exact performs_opens (opens_count _)
    | some archive =>
      simp only [harchive]
      refine performs_revise (fun project index => performs_count (performs_finish rfl ?_))
      refine ⟨_, _, rfl, ?_⟩
      simp

theorem performs_archiveEntries {gated : Bool}
    {effect : Effect LoadTask.rank (LoadTask.archiveEntries gated).rank LoadContext LoadState}
    (hcontext : effect.board.groups[group]? = some context) :
    Performs (archiveEntriesBody setting gated group) group effect
      (deed setting context (.archiveEntries gated)) := by
  refine performs_context hcontext ?_
  rw [deed]
  cases context.archive with
  | none => exact performs_pure _ _ _
  | some path =>
    cases context.project with
    | none => exact performs_pure _ _ _
    | some project =>
      cases harchive : setting.disk.archive? path with
      | none =>
        simp only [harchive]
        exact performs_opens (opens_count _)
      | some archive =>
        simp only [harchive]
        refine performs_opens ?_
        rw [← List.append_nil (List.flatMap _ _)]
        refine (opens_forIn (fun entry => ?_) _).bind opens_pure
        rw [entryGroups]
        rcases entryContent? archive entry with _ | (cls | text | _)
        · exact ⟨pure (), rfl, opens_pure⟩
        · exact ⟨_, (bind_assoc _ _ _).symm, (opens_count _).bind (opens_spawnWith _ _ _)⟩
        · exact ⟨_, rfl, opens_spawnWith _ _ _⟩
        · exact ⟨_, rfl, opens_count _⟩

theorem performs_classes
    {effect : Effect LoadTask.rank LoadTask.classes.rank LoadContext LoadState}
    (hcontext : effect.board.groups[group]? = some context) :
    Performs (classesBody group) group effect (deed setting context .classes) := by
  refine performs_context hcontext ?_
  rw [deed]
  cases context.package with
  | none => exact performs_pure _ _ _
  | some package =>
    cases context.unit with
    | none => exact performs_pure _ _ _
    | some unit =>
      refine performs_edit (fun classes index => performs_count (performs_finish rfl ?_))
      exact ⟨_, effect.spawned, rfl, by simp⟩

theorem performs_classDependencies
    {effect : Effect LoadTask.rank LoadTask.classDependencies.rank LoadContext LoadState}
    (hcontext : effect.board.groups[group]? = some context) :
    Performs (classDependenciesBody group) group effect
      (deed setting context .classDependencies) := by
  refine performs_context hcontext ?_
  rw [deed]
  cases context.unit with
  | none => exact performs_pure _ _ _
  | some unit =>
    cases context.classes with
    | none => exact performs_pure _ _ _
    | some classes =>
      refine performs_revise (fun missing index => performs_count (performs_finish rfl ?_))
      exact ⟨_, effect.spawned, rfl, by simp⟩

theorem performs_members
    {effect : Effect LoadTask.rank LoadTask.members.rank LoadContext LoadState}
    (hcontext : effect.board.groups[group]? = some context) :
    Performs (membersBody group) group effect (deed setting context .members) := by
  refine performs_context hcontext ?_
  rw [deed]
  cases context.unit with
  | none => exact performs_pure _ _ _
  | some unit =>
    cases context.classes with
    | none => exact performs_pure _ _ _
    | some classes =>
      refine performs_edit (fun members index => performs_count (performs_finish rfl ?_))
      exact ⟨_, effect.spawned, rfl, by simp⟩

theorem performs_pseudoMethods
    {effect : Effect LoadTask.rank LoadTask.pseudoMethods.rank LoadContext LoadState}
    (hcontext : effect.board.groups[group]? = some context) :
    Performs (pseudoMethodsBody setting group) group effect
      (deed setting context .pseudoMethods) := by
  refine performs_context hcontext ?_
  rw [deed]
  cases context.unit with
  | none => exact performs_pure _ _ _
  | some unit =>
    refine performs_world ?_
    refine performs_edit (fun counts index => performs_count (performs_finish rfl ?_))
    exact ⟨_, effect.spawned, rfl, by simp⟩

theorem performs_methodDependencies
    {effect : Effect LoadTask.rank LoadTask.methodDependencies.rank LoadContext LoadState}
    (hcontext : effect.board.groups[group]? = some context) :
    Performs (methodDependenciesBody group) group effect
      (deed setting context .methodDependencies) := by
  refine performs_context hcontext ?_
  rw [deed]
  cases context.unit with
  | none => exact performs_pure _ _ _
  | some unit =>
    cases context.calls with
    | none => exact performs_pure _ _ _
    | some calls =>
      refine performs_revise (fun _ index => performs_finish rfl ?_)
      exact ⟨_, effect.spawned, rfl, by simp⟩

/-- An action that does nothing but spawn tasks into a group. -/
def Spawns {task : LoadTask} (act : LoadAct task PUnit) (group : Nat) (own : List LoadTask) : Prop :=
  ∀ effect, ∃ spawned, act.run.run effect = (.ok (), ⟨effect.board, spawned⟩) ∧
    spawned.map Subtype.val = effect.spawned.map Subtype.val ++
      own.map (fun task => ⟨task.priority, task, group⟩)

theorem spawns_spawnInto {task : LoadTask} (group : Nat) (next : LoadTask)
    (lower : next.rank < task.rank) : Spawns (spawnInto group next lower) group [next] := by
  intro effect
  refine ⟨effect.spawned ++ [⟨⟨next.priority, next, group⟩, lower⟩], rfl, ?_⟩
  simp

theorem Spawns.bind {task : LoadTask} {act : LoadAct task PUnit}
    {next : PUnit → LoadAct task PUnit} {own others : List LoadTask} (h : Spawns act group own)
    (hnext : Spawns (next ()) group others) : Spawns (act >>= next) group (own ++ others) := by
  intro effect
  obtain ⟨_, hrun, hspawned⟩ := h effect
  obtain ⟨spawned, hrun', hspawned'⟩ := hnext _
  refine ⟨spawned, ?_, ?_⟩
  · rw [run_bind_of_ok hrun, hrun']
  · rw [hspawned', hspawned, List.map_append, List.append_assoc]

/-- Entering a package and spawning the tasks behind it. -/
theorem performs_enterPackage {task : LoadTask}
    {effect : Effect LoadTask.rank task.rank LoadContext LoadState} {project : ItemId}
    {name : String} {rest : LoadAct task PUnit} {own : List LoadTask}
    (hrest : Spawns rest group own) :
    Performs (enterPackage group project name >>= fun _ => rest) group effect (do
      let (package, _) ← registerPackage project name
      return {
        change := fun context => { context with package := some package }
        own := own }) := by
  rw [enterPackage, bind_assoc]
  refine performs_edit (fun result index => ?_)
  obtain ⟨package, isNew⟩ := result
  have hfinish : ∀ effect : Effect LoadTask.rank task.rank LoadContext LoadState,
      Performs (Act.modifyContext group (fun context => { context with package := some package }) >>=
        fun _ => rest) group effect
        (pure { change := fun context => { context with package := some package }, own := own }) := by
    intro effect
    obtain ⟨spawned, hrun, hspawned⟩ := hrest ⟨⟨effect.board.groups.modify group
      (fun context => { context with package := some package }), effect.board.world⟩, effect.spawned⟩
    exact performs_finish rfl ⟨effect.board.world.stats, spawned, hrun, hspawned⟩
  cases isNew with
  | false => exact hfinish _
  | true =>
    dsimp only
    rw [if_pos rfl, bind_assoc]
    exact performs_count (hfinish _)

theorem performs_binaryPackage
    {effect : Effect LoadTask.rank LoadTask.binaryPackage.rank LoadContext LoadState}
    (hcontext : effect.board.groups[group]? = some context) :
    Performs (binaryPackageBody group) group effect (deed setting context .binaryPackage) := by
  refine performs_context hcontext ?_
  rw [deed]
  cases context.project with
  | none => exact performs_pure _ _ _
  | some project =>
    cases context.binary with
    | none => exact performs_pure _ _ _
    | some binary =>
      exact performs_enterPackage ((spawns_spawnInto _ _ _).bind
        ((spawns_spawnInto _ _ _).bind (spawns_spawnInto _ _ _)))

theorem performs_binaryClass
    {effect : Effect LoadTask.rank LoadTask.binaryClass.rank LoadContext LoadState}
    (hcontext : effect.board.groups[group]? = some context) :
    Performs (binaryClassBody group) group effect (deed setting context .binaryClass) := by
  refine performs_context hcontext ?_
  rw [deed]
  cases context.package with
  | none => exact performs_pure _ _ _
  | some package =>
    cases context.binary with
    | none => exact performs_pure _ _ _
    | some binary =>
      refine performs_edit (fun cls index => performs_count (performs_finish rfl ?_))
      exact ⟨_, effect.spawned, rfl, by simp⟩

theorem performs_binaryClassDependencies
    {effect : Effect LoadTask.rank LoadTask.binaryClassDependencies.rank LoadContext LoadState}
    (hcontext : effect.board.groups[group]? = some context) :
    Performs (binaryClassDependenciesBody group) group effect
      (deed setting context .binaryClassDependencies) := by
  refine performs_context hcontext ?_
  rw [deed]
  cases context.binary with
  | none => exact performs_pure _ _ _
  | some binary =>
    cases context.binaryItem with
    | none => exact performs_pure _ _ _
    | some cls =>
      refine performs_revise (fun missing index => performs_count (performs_finish rfl ?_))
      exact ⟨_, effect.spawned, rfl, by simp⟩

theorem performs_binaryMembers
    {effect : Effect LoadTask.rank LoadTask.binaryMembers.rank LoadContext LoadState}
    (hcontext : effect.board.groups[group]? = some context) :
    Performs (binaryMembersBody group) group effect (deed setting context .binaryMembers) := by
  refine performs_context hcontext ?_
  rw [deed]
  cases context.binary with
  | none => exact performs_pure _ _ _
  | some binary =>
    cases context.binaryItem with
    | none => exact performs_pure _ _ _
    | some cls =>
      refine performs_edit (fun _ index => performs_count (performs_finish rfl ?_))
      exact ⟨_, effect.spawned, rfl, by simp⟩

/-! ### Source files -/

theorem modify_modify (groups : Array LoadContext) (group : Nat) (f g : LoadContext → LoadContext) :
    (groups.modify group f).modify group g = groups.modify group (g ∘ f) := by
  apply Array.ext
  · simp
  · intro i _ _
    simp only [Array.getElem_modify]
    split <;> rfl

theorem modify_eq_self {groups : Array LoadContext} (hcontext : groups[group]? = some context)
    {f : LoadContext → LoadContext} (hf : f context = context) : groups.modify group f = groups := by
  apply Array.ext
  · simp
  · intro i hi hi'
    simp only [Array.getElem_modify]
    split
    · rename_i heq
      subst heq
      rw [Array.getElem?_eq_getElem hi', Option.some.injEq] at hcontext
      rw [hcontext, hf]
    · rfl

/-- What an action does after the context of its group was changed. -/
theorem performs_after {task : LoadTask}
    {effect : Effect LoadTask.rank task.rank LoadContext LoadState} {stats : LoadStats}
    {act next : LoadAct task PUnit} {f : LoadContext → LoadContext} {change : Edit Deed}
    (hact : act.run.run effect = next.run.run
      ⟨⟨effect.board.groups.modify group f, ⟨effect.board.world.index, stats⟩⟩, effect.spawned⟩)
    (h : Performs next group
      ⟨⟨effect.board.groups.modify group f, ⟨effect.board.world.index, stats⟩⟩, effect.spawned⟩
      change) :
    Performs act group effect (do
      let deed ← change
      return { deed with change := deed.change ∘ f }) := by
  rcases hchange : change.run.run effect.board.world.index with ⟨error | value, index⟩
  · rw [Performs] at h
    simp only [hchange] at h
    rw [Performs, Edit.run_bind_of_error hchange, hact]
    exact h
  · rw [Performs] at h
    simp only [hchange] at h
    obtain ⟨stats', spawned, hrun, hspawned⟩ := h
    rw [Performs, Edit.run_bind_of_ok hchange, hact]
    refine ⟨stats', spawned, ?_, ?_⟩
    · rw [hrun, Deed.groups, modify_modify]
      rfl
    · rw [hspawned, Array.size_modify]
      rfl

/-- A chain goes on with its first job when the inputs of that are bound. -/
theorem run_runAll {effect : Effect LoadTask.rank LoadTask.sourceFile.rank LoadContext LoadState}
    (hcontext : effect.board.groups[group]? = some context) (job : LoadJob .sourceFile)
    (rest : List (LoadJob .sourceFile)) :
    (Job.runAll LoadContext.has group (job :: rest)).run.run effect =
      (if job.inputs.all context.has then
        job.body group >>= fun _ => Job.runAll LoadContext.has group rest
        else pure ()).run.run effect := by
  rw [Job.runAll, run_context?_bind, hcontext]
  rfl

/-- What the last job of the chain does. -/
def packageDeed (context : LoadContext) : Edit Deed :=
  match context.project, context.unit with
  | some project, some unit => do
    let (package, _) ← registerPackage project unit.package
    return {
      change := fun context => { context with package := some package }
      own := [.classes, .classDependencies, .members, .pseudoMethods, .methodDependencies] }
  | _, _ => return {}

theorem performs_package
    {effect : Effect LoadTask.rank LoadTask.sourceFile.rank LoadContext LoadState}
    (hcontext : effect.board.groups[group]? = some context) :
    Performs (Job.runAll LoadContext.has group [enterSourcePackage]) group effect
      (packageDeed context) := by
  have hrun := run_runAll hcontext enterSourcePackage []
  rw [Performs, hrun]
  show Performs _ group effect _
  rw [packageDeed]
  cases hproject : context.project with
  | none =>
    have hbound : enterSourcePackage.inputs.all context.has = false := by
      simp [enterSourcePackage, LoadContext.has, hproject]
    rw [hbound]
    exact performs_pure _ _ _
  | some project =>
    cases hunit : context.unit with
    | none =>
      have hbound : enterSourcePackage.inputs.all context.has = false := by
        simp [enterSourcePackage, LoadContext.has, hunit]
      rw [hbound]
      exact performs_pure _ _ _
    | some unit =>
      have hbound : enterSourcePackage.inputs.all context.has = true := by
        simp [enterSourcePackage, LoadContext.has, hproject, hunit]
      rw [hbound, if_pos rfl, Job.runAll, bind_pure]
      refine performs_context hcontext ?_
      simp only [hproject, hunit]
      exact performs_enterPackage ((spawns_spawnInto _ _ _).bind ((spawns_spawnInto _ _ _).bind
        ((spawns_spawnInto _ _ _).bind ((spawns_spawnInto _ _ _).bind (spawns_spawnInto _ _ _)))))

/-- What parsing makes of a context. -/
def withUnit (unit : CompilationUnit) (context : LoadContext) : LoadContext :=
  { context with sourceText := none, unit := if unit.hasErrors then none else some unit }

theorem getElem?_modify_self {groups : Array LoadContext} (hcontext : groups[group]? = some context)
    (f : LoadContext → LoadContext) : (groups.modify group f)[group]? = some (f context) := by
  rw [Array.getElem?_modify, if_pos rfl, hcontext]
  rfl

theorem performs_parse
    {effect : Effect LoadTask.rank LoadTask.sourceFile.rank LoadContext LoadState}
    (hcontext : effect.board.groups[group]? = some context) {path text : String}
    (hpath : context.source = some path) (htext : context.sourceText = some text) :
    Performs (Job.runAll LoadContext.has group [parseSource setting, enterSourcePackage]) group effect
      (do
        let unit := CompilationUnit.parse path text (setting.grammar text)
        let deed ← packageDeed (withUnit unit context)
        return { deed with change := deed.change ∘ withUnit unit }) := by
  have hbound : (parseSource setting).inputs.all context.has = true := by
    simp [parseSource, LoadContext.has, hpath, htext]
  have hrun : ∃ stats, (Job.runAll LoadContext.has group
      [parseSource setting, enterSourcePackage]).run.run effect =
      (Job.runAll LoadContext.has group [enterSourcePackage]).run.run
        ⟨⟨effect.board.groups.modify group
          (withUnit (CompilationUnit.parse path text (setting.grammar text))),
          ⟨effect.board.world.index, stats⟩⟩, effect.spawned⟩ := by
    rw [run_runAll hcontext, hbound, if_pos rfl]
    have hbody : ∃ stats, ((parseSource setting).body group).run.run effect =
        (.ok (), ⟨⟨effect.board.groups.modify group
          (withUnit (CompilationUnit.parse path text (setting.grammar text))),
          ⟨effect.board.world.index, stats⟩⟩, effect.spawned⟩) := by
      show ∃ stats, (contextOf group >>= _).run.run effect = _
      rw [run_contextOf_bind, hcontext, Option.getD_some]
      simp only [hpath, htext]
      show ∃ stats, (Act.modifyContext group (withUnit (CompilationUnit.parse path text
        (setting.grammar text))) >>= fun _ => _).run.run effect = _
      by_cases herrors : (CompilationUnit.parse path text (setting.grammar text)).hasErrors
      · rw [if_pos herrors]
        exact ⟨_, rfl⟩
      · rw [if_neg herrors]
        exact ⟨_, rfl⟩
    obtain ⟨stats, hbody⟩ := hbody
    exact ⟨stats, run_bind_of_ok hbody⟩
  obtain ⟨stats, hrun⟩ := hrun
  exact performs_after hrun (performs_package (getElem?_modify_self hcontext _))

/-- Reading a file that gives no text changes no context. -/
theorem run_readSource_of_none
    {effect : Effect LoadTask.rank LoadTask.sourceFile.rank LoadContext LoadState}
    (hcontext : effect.board.groups[group]? = some context) {path : String}
    (hpath : context.source = some path) (htext : sourceText? setting context path = none) :
    ∃ stats, ((readSource setting).body group).run.run effect =
      (.ok (), ⟨⟨effect.board.groups, ⟨effect.board.world.index, stats⟩⟩, effect.spawned⟩) := by
  obtain ⟨hnone, hread⟩ := Option.or_eq_none_iff.1 htext
  obtain ⟨error, herror⟩ : ∃ error, setting.disk.readText path = .error error := by
    cases hresult : setting.disk.readText path with
    | error error => exact ⟨error, rfl⟩
    | ok text => simp [hresult, Except.toOption] at hread
  show ∃ stats, (count _ >>= fun _ => contextOf group >>= _).run.run effect = _
  rw [run_count_bind, run_contextOf_bind, hcontext, Option.getD_some]
  simp only [hnone, hpath, herror]
  exact ⟨_, rfl⟩

/-- Reading a file puts its text into the context, if it did not come with the group. -/
theorem run_readSource_of_some
    {effect : Effect LoadTask.rank LoadTask.sourceFile.rank LoadContext LoadState}
    (hcontext : effect.board.groups[group]? = some context) {path text : String}
    (hpath : context.source = some path) (htext : sourceText? setting context path = some text) :
    ∃ stats, ((readSource setting).body group).run.run effect =
      (.ok (), ⟨⟨effect.board.groups.modify group
        (fun context => { context with sourceText := some text }),
        ⟨effect.board.world.index, stats⟩⟩, effect.spawned⟩) := by
  show ∃ stats, (count _ >>= fun _ => contextOf group >>= _).run.run effect = _
  rw [run_count_bind, run_contextOf_bind, hcontext, Option.getD_some]
  rcases Option.or_eq_some_iff.1 htext with hthere | ⟨hnone, hread⟩
  · have hsame : effect.board.groups.modify group
        (fun context => { context with sourceText := some text }) = effect.board.groups :=
      modify_eq_self hcontext (by rw [← hthere])
    rw [hsame]
    simp only [hthere, Option.isSome_some, if_true]
    exact ⟨_, rfl⟩
  · have hok : setting.disk.readText path = .ok text := by
      cases hresult : setting.disk.readText path with
      | error error => simp [hresult, Except.toOption] at hread
      | ok found => simpa [hresult, Except.toOption] using hread
    simp only [hnone, hpath, hok]
    exact ⟨_, rfl⟩

/-- The jobs of a source file, in the order of their chain. -/
def sourceJobs (setting : LoadSetting) : List (LoadJob .sourceFile) :=
  [readSource setting, parseSource setting, enterSourcePackage]

/-- The chain ends behind a file that gives no text. -/
theorem performs_unread
    {effect : Effect LoadTask.rank LoadTask.sourceFile.rank LoadContext LoadState}
    (hcontext : effect.board.groups[group]? = some context) {path : String}
    (hpath : context.source = some path) (htext : sourceText? setting context path = none) :
    Performs (Job.runAll LoadContext.has group (sourceJobs setting)) group effect (pure {}) := by
  have hbound : (readSource setting).inputs.all context.has = true := by
    simp [readSource, LoadContext.has, hpath]
  have hstop : (parseSource setting).inputs.all context.has = false := by
    simp [parseSource, LoadContext.has, (Option.or_eq_none_iff.1 htext).1]
  obtain ⟨stats, hbody⟩ := run_readSource_of_none hcontext hpath htext
  have hsame : (⟨⟨effect.board.groups, ⟨effect.board.world.index, stats⟩⟩, effect.spawned⟩ :
      Effect LoadTask.rank LoadTask.sourceFile.rank LoadContext LoadState).board.groups[group]? =
        some context := hcontext
  refine ⟨stats, effect.spawned, ?_, by simp [Deed.spawned, openedTasks]⟩
  rw [groups_default, sourceJobs, run_runAll hcontext, hbound, if_pos rfl, run_bind_of_ok hbody,
    run_runAll hsame, hstop]
  rfl

/-- A file that gives a text is parsed, and its package is entered. -/
theorem performs_read
    {effect : Effect LoadTask.rank LoadTask.sourceFile.rank LoadContext LoadState}
    (hcontext : effect.board.groups[group]? = some context) {path text : String}
    (hpath : context.source = some path) (htext : sourceText? setting context path = some text) :
    Performs (Job.runAll LoadContext.has group (sourceJobs setting)) group effect
      (do
        let unit := CompilationUnit.parse path text (setting.grammar text)
        let deed ← packageDeed (withUnit unit context)
        return { deed with change := deed.change ∘ withUnit unit }) := by
  have hbound : (readSource setting).inputs.all context.has = true := by
    simp [readSource, LoadContext.has, hpath]
  obtain ⟨stats, hbody⟩ := run_readSource_of_some hcontext hpath htext
  have hrun : (Job.runAll LoadContext.has group (sourceJobs setting)).run.run effect =
      (Job.runAll LoadContext.has group [parseSource setting, enterSourcePackage]).run.run
        ⟨⟨effect.board.groups.modify group
          (fun context => { context with sourceText := some text }),
          ⟨effect.board.world.index, stats⟩⟩, effect.spawned⟩ := by
    rw [sourceJobs, run_runAll hcontext, hbound, if_pos rfl]
    exact run_bind_of_ok hbody
  have hafter := performs_after hrun
    (@performs_parse setting group { context with sourceText := some text } _
      (getElem?_modify_self hcontext _) path text hpath rfl)
  -- parsing forgets the text, so it does not matter that it was put there
  rw [bind_assoc] at hafter
  exact hafter

theorem deed_sourceFile_of_none {path : String} (hpath : context.source = some path)
    (htext : sourceText? setting context path = none) :
    deed setting context .sourceFile = pure {} := by
  have hunit : sourceUnit? setting context path = none := by
    rw [sourceUnit?, htext]
    rfl
  have hparsed : parsed setting context path = id := by
    rw [parsed, htext]
    rfl
  rw [deed]
  simp only [hpath, hunit, hparsed]
  cases context.project <;> rfl

/-- The deed of a source file with a text is that of its last job, after parsing. -/
theorem deed_sourceFile_of_some {path text : String} (hpath : context.source = some path)
    (htext : sourceText? setting context path = some text) :
    deed setting context .sourceFile = (do
      let unit := CompilationUnit.parse path text (setting.grammar text)
      let deed ← packageDeed (withUnit unit context)
      return { deed with change := deed.change ∘ withUnit unit }) := by
  have hunit : sourceUnit? setting context path =
      if (CompilationUnit.parse path text (setting.grammar text)).hasErrors then none
      else some (CompilationUnit.parse path text (setting.grammar text)) := by
    rw [sourceUnit?, htext, Option.map_some, Option.filter_some]
    cases (CompilationUnit.parse path text (setting.grammar text)).hasErrors <;> rfl
  have hparsed : parsed setting context path =
      withUnit (CompilationUnit.parse path text (setting.grammar text)) := by
    rw [parsed, htext, hunit]
    rfl
  -- the last job finds the project as it was and the unit that parsing gave
  have hproject : (withUnit (CompilationUnit.parse path text (setting.grammar text)) context).project =
      context.project := rfl
  have hkept : (withUnit (CompilationUnit.parse path text (setting.grammar text)) context).unit =
      sourceUnit? setting context path := hunit.symm
  rw [deed]
  simp only [hpath, hparsed, packageDeed, hproject, hkept]
  cases context.project with
  | none => rfl
  | some project =>
    cases sourceUnit? setting context path with
    | none => rfl
    | some unit =>
      simp only [bind_assoc, pure_bind]
      rfl

theorem performs_sourceFile
    {effect : Effect LoadTask.rank LoadTask.sourceFile.rank LoadContext LoadState}
    (hcontext : effect.board.groups[group]? = some context) :
    Performs ((setting.job .sourceFile).body group) group effect
      (deed setting context .sourceFile) := by
  have hjob : (setting.job .sourceFile).body group =
      Job.runAll LoadContext.has group (sourceJobs setting) := rfl
  rw [hjob]
  cases hpath : context.source with
  | none =>
    have hbound : (readSource setting).inputs.all context.has = false := by
      simp [readSource, LoadContext.has, hpath]
    rw [deed, hpath, Performs, sourceJobs, run_runAll hcontext, hbound]
    exact performs_pure _ _ _
  | some path =>
    cases htext : sourceText? setting context path with
    | none =>
      rw [deed_sourceFile_of_none hpath htext]
      exact performs_unread hcontext hpath htext
    | some text =>
      rw [deed_sourceFile_of_some hpath htext]
      exact performs_read hcontext hpath htext

/-- Every task carries out its deed. -/
theorem performs_job (setting : LoadSetting) (task : LoadTask)
    (effect : Effect LoadTask.rank task.rank LoadContext LoadState)
    (hcontext : effect.board.groups[group]? = some context) :
    Performs ((setting.job task).body group) group effect (deed setting context task) := by
  cases task with
  | discovery => exact performs_discovery hcontext
  | project => exact performs_project hcontext
  | projectDependencies => exact performs_projectDependencies hcontext
  | archive => exact performs_archive hcontext
  | archiveEntries gated => exact performs_archiveEntries hcontext
  | sourceFile => exact performs_sourceFile hcontext
  | classes => exact performs_classes hcontext
  | classDependencies => exact performs_classDependencies hcontext
  | members => exact performs_members hcontext
  | pseudoMethods => exact performs_pseudoMethods hcontext
  | methodDependencies => exact performs_methodDependencies hcontext
  | binaryPackage => exact performs_binaryPackage hcontext
  | binaryClass => exact performs_binaryClass hcontext
  | binaryClassDependencies => exact performs_binaryClassDependencies hcontext
  | binaryMembers => exact performs_binaryMembers hcontext

end Bodies

/-! ## Running tasks -/

section Execute

variable {setting : LoadSetting} {pending : Pending LoadTask} {board : Board LoadContext LoadState}
  {context : LoadContext}

theorem job_inputs (setting : LoadSetting) (task : LoadTask) :
    (setting.job task).inputs = task.inputs := by
  cases task <;> rfl

theorem job_name (setting : LoadSetting) (task : LoadTask) : (setting.job task).name = task.name := by
  cases task <;> rfl

theorem job_outputs (setting : LoadSetting) (task : LoadTask) :
    (setting.job task).outputs = task.outputs := by
  cases task <;> rfl

theorem isEligible_iff (hcontext : board.groups[pending.group]? = some context) :
    setting.workflow.isEligible board pending = true ↔
      ∀ key ∈ pending.task.inputs, context.has key = true := by
  rw [Workflow.isEligible, hcontext, Job.allBound]
  show (List.all (setting.job pending.task).inputs _) = true ↔ _
  rw [job_inputs, List.all_eq_true]
  rfl

/-- What has its inputs does not depend on the setting. -/
theorem isEligible_congr (setting other : LoadSetting) :
    other.workflow.isEligible = setting.workflow.isEligible := by
  funext board pending
  unfold Workflow.isEligible
  show Job.allBound LoadContext.has _ (other.job pending.task).inputs =
    Job.allBound LoadContext.has _ (setting.job pending.task).inputs
  rw [job_inputs, job_inputs]

/-- A task does the same under two settings if its bodies do. -/
theorem execute_congr {other : LoadSetting}
    (h : ((other.job pending.task).body pending.group).run.run ⟨board, []⟩ =
      ((setting.job pending.task).body pending.group).run.run ⟨board, []⟩) :
    other.workflow.execute pending board = setting.workflow.execute pending board := by
  have hbody : other.workflow.runBody pending board = setting.workflow.runBody pending board := h
  have hinputs : ∀ setting : LoadSetting, (setting.workflow.job pending.task).inputs =
      pending.task.inputs := fun setting => job_inputs setting pending.task
  have hname : ∀ setting : LoadSetting, (setting.workflow.job pending.task).name =
      pending.task.name := fun setting => job_name setting pending.task
  have houtputs : ∀ setting : LoadSetting, (setting.workflow.job pending.task).outputs =
      pending.task.outputs := fun setting => job_outputs setting pending.task
  simp only [Workflow.execute, hbody, hinputs, hname, houtputs]
  rfl

/-- A task finishes when its deed is not refused. -/
theorem execute_of_deed_ok (hcontext : board.groups[pending.group]? = some context)
    (heligible : setting.workflow.isEligible board pending = true) {done : Deed} {index : Index}
    (hdeed : (deed setting context pending.task).run.run board.world.index = (.ok done, index)) :
    ∃ complete stats, setting.workflow.execute pending board =
      (.ok ⟨(setting.job pending.task).name, complete,
          done.spawned pending.group board.groups.size⟩,
        ⟨done.groups pending.group board.groups, ⟨index, stats⟩⟩) := by
  have hperforms := performs_job setting pending.task ⟨board, []⟩ hcontext
  rw [Performs] at hperforms
  simp only [hdeed] at hperforms
  obtain ⟨stats, spawned, hrun, hspawned⟩ := hperforms
  obtain ⟨complete, hexecute⟩ := Workflow.execute_of_runBody_ok heligible hrun
  refine ⟨complete, stats, ?_⟩
  have hmap : done.spawned pending.group board.groups.size = spawned.map Subtype.val :=
    hspawned.symm
  rw [hmap]
  exact hexecute

/-- A task fails when its deed is refused. -/
theorem execute_of_deed_error (hcontext : board.groups[pending.group]? = some context)
    (heligible : setting.workflow.isEligible board pending = true) {error : GraphError}
    {index : Index}
    (hdeed : (deed setting context pending.task).run.run board.world.index = (.error error, index)) :
    ∃ after, setting.workflow.execute pending board =
      (.error (.taskFailed (setting.job pending.task).name error.message), after) ∧
        after.world.index = index := by
  have hperforms := performs_job setting pending.task ⟨board, []⟩ hcontext
  rw [Performs] at hperforms
  simp only [hdeed] at hperforms
  obtain ⟨after, hrun, hindex⟩ := hperforms
  exact ⟨after.board, Workflow.execute_of_runBody_error heligible hrun, hindex⟩

end Execute

end CodeAtlas.Load
