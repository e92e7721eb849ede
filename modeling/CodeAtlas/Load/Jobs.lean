/-
# What loading tasks do

The job of every loading task, and the workflow they form.
-/
import CodeAtlas.Index.Prune
import CodeAtlas.Load.Compiled
import CodeAtlas.Load.Project
import CodeAtlas.Load.Task
import CodeAtlas.Resolve.Variables
import CodeAtlas.Tasks.Run

namespace CodeAtlas.Load

open Tasks (Act Job Workflow)
open Source (CompilationUnit Grammar)

/-- What loading reads and never changes. -/
structure LoadSetting where
  disk : Disk
  grammar : Grammar
  config : LoadConfig
  /-- The matchers for the names of third-party projects. -/
  thirdParty : List Regex.Matcher

/-- Whether the name of a project is one of a third party. -/
def LoadSetting.isThirdParty (setting : LoadSetting) (name : String) : Bool :=
  setting.thirdParty.any (fun matcher => matcher.isMatch name)

/-- Actions of a loading task. -/
abbrev LoadAct (task : LoadTask) := Act LoadTask.rank task.rank LoadContext LoadState

/-- The job of a loading task. -/
abbrev LoadJob (task : LoadTask) := Job LoadTask.rank task.rank LoadKey LoadContext LoadState

section Actions

variable {task : LoadTask}

/-- The context of a group. -/
def contextOf (group : Nat) : LoadAct task LoadContext :=
  return (← Act.context? group).getD {}

/-- Changes the index. -/
def edit {α : Type} (change : Edit α) : LoadAct task α :=
  ExceptT.mk fun effect =>
    let (result, index) := change.run.run effect.board.world.index
    (result.mapError GraphError.message, { effect with board.world.index := index })

/-- Changes the index by a change that cannot be refused. -/
def revise {α : Type} (change : StateM Index α) : LoadAct task α :=
  edit (ExceptT.lift change)

/-- Changes the counters. -/
def count (f : LoadStats → LoadStats) : LoadAct task PUnit :=
  Act.modifyWorld (fun state => { state with stats := f state.stats })

/-- Spawns a task into a group, with the priority of its kind. -/
def spawnInto (group : Nat) (next : LoadTask) (lower : next.rank < task.rank) :
    LoadAct task PUnit :=
  Act.spawn next.priority next group lower

/-- Spawns a task into a new group. -/
def spawnWith (context : LoadContext) (next : LoadTask) (lower : next.rank < task.rank) :
    LoadAct task PUnit := do
  spawnInto (← Act.newGroup context) next lower

/-- Enters a project, flagged as third-party or not. -/
def registerProject (name : String) (isThirdParty : Bool) : StateM Index ItemId := do
  let project ← Index.createProject name
  if isThirdParty then
    Index.update project (fun item => item.setFlag .thirdParty true)
  return project

end Actions

/-! ## Projects and archives -/

/-- Finds the projects and archives of the workspace. -/
def discoveryBody (setting : LoadSetting) (group : Nat) : LoadAct .discovery PUnit := do
  let some root := (← contextOf group).workspace | return
  let (projects, archives) := Discovery.run setting.disk setting.config root
  for path in projects do
    spawnWith { projectDir := some path } .project (by decide)
  for path in archives do
    spawnWith { archive := some path } .archive (by decide)

/-- Enters a project and opens a group for each of its source files. -/
def projectBody (setting : LoadSetting) (group : Nat) : LoadAct .project PUnit := do
  let some dir := (← contextOf group).projectDir | return
  let disk := setting.disk
  let name := disk.projectName dir
  let folders := disk.sourceFolders setting.config dir
  let project ← revise (registerProject name (setting.isThirdParty name))
  count (fun stats => { stats with projects := stats.projects + 1 })
  Act.modifyContext group fun context =>
    { context with
      project := some project
      dependencies := disk.projectDependencies dir folders }
  spawnInto group .projectDependencies (by decide)
  for folder in folders do
    for path in disk.filesWithExtension (Path.join dir folder) "java" do
      spawnWith { project := some project, source := some path } .sourceFile (by decide)

/-- The project that a dependency names, if there is one.  A directory always gets a pseudo
project. -/
def dependencyTarget (dependency : Manifest.Dependency) : StateM Index (Option ItemId) := do
  match dependency with
  | .archive name => return (← get).findItem none name .project
  | .directory name =>
    let pseudo ← Index.createProject name
    Index.update pseudo (fun item => (item.setFlag .thirdParty true).setFlag .pseudo true)
    return some pseudo

/-- Links a project to what it depends on; returns the number of dependencies not found. -/
def linkDependencies (project : ItemId) (dependencies : List Manifest.Dependency) :
    StateM Index Nat :=
  dependencies.foldlM (fun missing dependency => do
    match ← dependencyTarget dependency with
    | some target =>
      modify (fun index => (index.addDependency project target).2)
      return missing
    | none => return missing + 1) 0

/-- Links a project to what it depends on.  The dependencies count as loaded when all are found. -/
def projectDependenciesBody (group : Nat) : LoadAct .projectDependencies PUnit := do
  let context ← contextOf group
  let some project := context.project | return
  let missing ← revise (linkDependencies project context.dependencies)
  if missing = 0 then
    Act.modifyContext group (fun context => { context with dependenciesLoaded := true })
  else
    count (fun stats =>
      { stats with unresolvedDependencies := stats.unresolvedDependencies + missing })

/-- What the manifest of an archive names, when it can be read. -/
def archiveDependencies (archive : Archive) : List Manifest.Dependency :=
  match (archive.entry? Disk.manifestPath).bind (fun entry => entry.data.text?) with
  | some text => Manifest.dependencies text
  | none => []

/-- Enters an archive as a project. -/
def archiveBody (setting : LoadSetting) (group : Nat) : LoadAct .archive PUnit := do
  let some path := (← contextOf group).archive | return
  match setting.disk.archive? path with
  | none => count (fun stats => { stats with skippedFiles := stats.skippedFiles + 1 })
  | some archive =>
    let name := (Path.stem? path).getD path
    let project ← revise
      (registerProject name (setting.config.archivesAreThirdParty || setting.isThirdParty name))
    count (fun stats =>
      { stats with projects := stats.projects + 1, archives := stats.archives + 1 })
    Act.modifyContext group fun context =>
      { context with project := some project, dependencies := archiveDependencies archive }
    spawnInto group .projectDependencies (by decide)
    spawnInto group (.archiveEntries setting.config.requireArchiveDependencies)
      (show 2 < 3 by decide)

/-- What is loaded from an archive entry. -/
inductive EntryContent where
  | binary (cls : BinaryClass)
  | source (text : String)
  /-- The entry cannot be used. -/
  | unusable

/-- Whether a class file holds no class that can be named. -/
def isNamelessClass (binary : String) : Bool :=
  BinaryName.isAnonymous binary || Text.endsWith "module-info" binary ||
    Text.endsWith "package-info" binary

/-- What an entry of an archive contributes.  A source counts only when no class file stands beside
it; most entries contribute nothing. -/
def entryContent? (archive : Archive) (entry : ArchiveEntry) : Option EntryContent :=
  match Text.stripTail? ".class" entry.name with
  | some binary =>
    if isNamelessClass binary then none
    else
      match entry.data.bytes?.bind ClassFile.read? with
      | some cls => some (.binary cls)
      | none => some .unusable
  | none =>
    match Text.stripTail? ".java" entry.name with
    | none => none
    | some stem =>
      if archive.names.contains (stem ++ ".class") then none
      else
        match entry.data.text? with
        | some text => some (.source text)
        | none => some .unusable

/-- The entries of an archive by name. -/
def entriesByName (archive : Archive) : List ArchiveEntry :=
  archive.mergeSort (fun a b => decide (a.name ≤ b.name))

/-- Opens a group for each class file and each source of an archive. -/
def archiveEntriesBody (setting : LoadSetting) (gated : Bool) (group : Nat) :
    LoadAct (.archiveEntries gated) PUnit := do
  let context ← contextOf group
  let (some path, some project) := (context.archive, context.project) | return
  match setting.disk.archive? path with
  | none => count (fun stats => { stats with skippedFiles := stats.skippedFiles + 1 })
  | some archive =>
    for entry in entriesByName archive do
      match entryContent? archive entry with
      | none => pure ()
      | some .unusable =>
        count (fun stats => { stats with skippedFiles := stats.skippedFiles + 1 })
      | some (.binary cls) =>
        count (fun stats => { stats with classFiles := stats.classFiles + 1 })
        spawnWith { project := some project, binary := some cls } .binaryPackage
          (show 1 < 2 by decide)
      | some (.source text) =>
        spawnWith
          { project := some project
            source := some (path ++ "!/" ++ entry.name)
            sourceText := some text } .sourceFile (show 1 < 2 by decide)

/-! ## Source files -/

/-- Enters a package and counts it when it is new. -/
def enterPackage {task : LoadTask} (group : Nat) (project : ItemId) (name : String) :
    LoadAct task PUnit := do
  let (package, isNew) ← edit (registerPackage project name)
  if isNew then
    count (fun stats => { stats with packages := stats.packages + 1 })
  Act.modifyContext group (fun context => { context with package := some package })

/-- Reads the text of the source file, unless it is there. -/
def readSource (setting : LoadSetting) : LoadJob .sourceFile where
  name := "read source"
  inputs := [.source]
  outputs := [.sourceText]
  body group := do
    count (fun stats => { stats with sourceFiles := stats.sourceFiles + 1 })
    let context ← contextOf group
    if context.sourceText.isSome then return
    let some path := context.source | return
    match setting.disk.readText path with
    | .ok text => Act.modifyContext group (fun context => { context with sourceText := some text })
    | .error _ => count (fun stats => { stats with skippedFiles := stats.skippedFiles + 1 })

/-- Parses the text of the source file; one with syntax errors is skipped. -/
def parseSource (setting : LoadSetting) : LoadJob .sourceFile where
  name := "parse source"
  inputs := [.source, .sourceText]
  outputs := [.unit]
  body group := do
    let context ← contextOf group
    let (some path, some text) := (context.source, context.sourceText) | return
    let unit := CompilationUnit.parse path text (setting.grammar text)
    Act.modifyContext group fun context =>
      { context with
        sourceText := none
        unit := if unit.hasErrors then none else some unit }
    if unit.hasErrors then
      count (fun stats => { stats with skippedFiles := stats.skippedFiles + 1 })

/-- Enters the package of the unit and spawns the stages of its declarations. -/
def enterSourcePackage : LoadJob .sourceFile where
  name := "register package"
  inputs := [.project, .unit]
  outputs := [.package]
  body group := do
    let context ← contextOf group
    let (some project, some unit) := (context.project, context.unit) | return
    enterPackage group project unit.package
    spawnInto group .classes (by decide)
    spawnInto group .classDependencies (by decide)
    spawnInto group .members (by decide)
    spawnInto group .pseudoMethods (by decide)
    spawnInto group .methodDependencies (by decide)

/-- Enters the classes of the unit. -/
def classesBody (group : Nat) : LoadAct .classes PUnit := do
  let context ← contextOf group
  let (some package, some unit) := (context.package, context.unit) | return
  let classes ← edit (registerClasses unit package)
  count (fun stats => { stats with classes := stats.classes + classes.length })
  Act.modifyContext group (fun context => { context with classes := some classes })

/-- Links the classes of the unit to their supertypes and imports. -/
def classDependenciesBody (group : Nat) : LoadAct .classDependencies PUnit := do
  let context ← contextOf group
  let (some unit, some classes) := (context.unit, context.classes) | return
  let unresolved ← revise (linkClasses ⟨unit, context.project⟩ classes)
  count (fun stats =>
    { stats with unresolvedSupertypes := stats.unresolvedSupertypes + unresolved })
  Act.modifyContext group (fun context => { context with classDependencies := true })

/-- Enters the members of the classes of the unit. -/
def membersBody (group : Nat) : LoadAct .members PUnit := do
  let context ← contextOf group
  let (some unit, some classes) := (context.unit, context.classes) | return
  let members ← edit (registerMembers ⟨unit, context.project⟩ classes)
  count (fun stats =>
    { stats with
      methods := stats.methods + members.methods.length
      fields := stats.fields + members.fields })
  Act.modifyContext group (fun context => { context with methods := some members.methods })

/-- Collects the calls of the unit and makes pseudo methods for them where that is asked for. -/
def pseudoMethodsBody (setting : LoadSetting) (group : Nat) : LoadAct .pseudoMethods PUnit := do
  let context ← contextOf group
  let some unit := context.unit | return
  let calls := CallContext.calls ⟨(← Act.world).index, ⟨unit, context.project⟩⟩
  let (created, unresolved) ← edit (settleCalls calls setting.config.createPseudoMethods)
  count (fun stats =>
    { stats with
      pseudoMethods := stats.pseudoMethods + created
      unresolvedCalls := stats.unresolvedCalls + unresolved })
  Act.modifyContext group (fun context => { context with calls := some calls })

/-- Links the methods of the unit to what they call. -/
def methodDependenciesBody (group : Nat) : LoadAct .methodDependencies PUnit := do
  let context ← contextOf group
  let (some unit, some calls) := (context.unit, context.calls) | return
  let classes := context.classes.getD []
  revise (modify (linkCalls unit.ast (context.methods.getD []) classes calls))
  Act.modifyContext group (fun context => { context with methodDependencies := true })

/-! ## Class files -/

/-- Enters the package of a class file and spawns the stages of its class. -/
def binaryPackageBody (group : Nat) : LoadAct .binaryPackage PUnit := do
  let context ← contextOf group
  let (some project, some binary) := (context.project, context.binary) | return
  enterPackage group project binary.package
  spawnInto group .binaryClass (by decide)
  spawnInto group .binaryClassDependencies (by decide)
  spawnInto group .binaryMembers (by decide)

/-- Enters the class of a class file. -/
def binaryClassBody (group : Nat) : LoadAct .binaryClass PUnit := do
  let context ← contextOf group
  let (some package, some binary) := (context.package, context.binary) | return
  let cls ← edit (registerBinaryClass package binary)
  count (fun stats => { stats with classes := stats.classes + 1 })
  Act.modifyContext group (fun context => { context with binaryItem := some cls })

/-- Links the class of a class file to its supertypes. -/
def binaryClassDependenciesBody (group : Nat) : LoadAct .binaryClassDependencies PUnit := do
  let context ← contextOf group
  let (some binary, some cls) := (context.binary, context.binaryItem) | return
  let unresolved ← revise (linkBinaryClass context.project cls binary)
  count (fun stats =>
    { stats with unresolvedSupertypes := stats.unresolvedSupertypes + unresolved })
  Act.modifyContext group (fun context => { context with classDependencies := true })

/-- Enters the members of the class of a class file. -/
def binaryMembersBody (group : Nat) : LoadAct .binaryMembers PUnit := do
  let context ← contextOf group
  let (some binary, some cls) := (context.binary, context.binaryItem) | return
  edit (registerBinaryMembers context.project cls binary)
  count (fun stats =>
    { stats with
      methods := stats.methods + binary.methods.length
      fields := stats.fields + binary.fields.length })
  Act.modifyContext group (fun context => { context with methods := some [] })

/-! ## The workflow -/

/-- The keys that have to be bound before a task may run. -/
def LoadTask.inputs : LoadTask → List LoadKey
  | discovery => [.workspace]
  | project => [.projectDir]
  | projectDependencies => [.project]
  | archive => [.archive]
  | archiveEntries gated => if gated then [.project, .dependenciesLoaded] else [.project]
  | sourceFile => [.source]
  | classes => [.package, .unit]
  | classDependencies => [.classes]
  | members => [.classDependencies]
  | pseudoMethods => [.methods]
  | methodDependencies => [.pseudoMethods]
  | binaryPackage => [.project, .binary]
  | binaryClass => [.package, .binary]
  | binaryClassDependencies => [.classes, .binary]
  | binaryMembers => [.classDependencies, .binary]

/-- The keys a task promises to bind. -/
def LoadTask.outputs : LoadTask → List LoadKey
  | discovery => []
  | project => [.project]
  | projectDependencies => [.dependenciesLoaded]
  | archive => [.project]
  | archiveEntries _ => []
  | sourceFile => [.package]
  | classes => [.classes]
  | classDependencies => [.classDependencies]
  | members => [.methods]
  | pseudoMethods => [.pseudoMethods]
  | methodDependencies => [.methodDependencies]
  | binaryPackage => [.package]
  | binaryClass => [.classes]
  | binaryClassDependencies => [.classDependencies]
  | binaryMembers => [.methods]

/-- A job with the name, the inputs and the outputs of its task. -/
def LoadTask.jobOf (task : LoadTask) (body : Nat → LoadAct task PUnit) : LoadJob task where
  name := task.name
  inputs := task.inputs
  outputs := task.outputs
  body := body

/-- The job of a task. -/
def LoadSetting.job (setting : LoadSetting) : (task : LoadTask) → LoadJob task
  | .discovery => LoadTask.jobOf _ (discoveryBody setting)
  | .project => LoadTask.jobOf _ (projectBody setting)
  | .projectDependencies => LoadTask.jobOf _ projectDependenciesBody
  | .archive => LoadTask.jobOf _ (archiveBody setting)
  | .archiveEntries gated => LoadTask.jobOf _ (archiveEntriesBody setting gated)
  | .sourceFile =>
    Job.chain LoadContext.has LoadTask.sourceFile.name
      [readSource setting, parseSource setting, enterSourcePackage]
  | .classes => LoadTask.jobOf _ classesBody
  | .classDependencies => LoadTask.jobOf _ classDependenciesBody
  | .members => LoadTask.jobOf _ membersBody
  | .pseudoMethods => LoadTask.jobOf _ (pseudoMethodsBody setting)
  | .methodDependencies => LoadTask.jobOf _ methodDependenciesBody
  | .binaryPackage => LoadTask.jobOf _ binaryPackageBody
  | .binaryClass => LoadTask.jobOf _ binaryClassBody
  | .binaryClassDependencies => LoadTask.jobOf _ binaryClassDependenciesBody
  | .binaryMembers => LoadTask.jobOf _ binaryMembersBody

/-- The workflow of loading. -/
def LoadSetting.workflow (setting : LoadSetting) :
    Workflow LoadTask LoadKey LoadContext LoadState where
  rank := LoadTask.rank
  has := LoadContext.has
  keyText := LoadKey.text
  job := setting.job

end CodeAtlas.Load
