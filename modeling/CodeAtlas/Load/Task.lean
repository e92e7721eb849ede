/-
# Loading tasks

Loading runs as tasks in groups.  Discovery opens a group for each project and each archive, these
open a group for each source file and each class file, and every such group goes through the same
stages.  The priorities make all classes exist before supertypes are resolved, and all methods
before calls are linked.
-/
import CodeAtlas.ClassFile.Basic
import CodeAtlas.Load.Manifest
import CodeAtlas.Resolve.Calls
import CodeAtlas.Source.CompilationUnit

namespace CodeAtlas.Load

/-- A task of loading. -/
inductive LoadTask where
  | discovery
  | project
  | projectDependencies
  | archive
  /-- The entries of an archive; when gated, it waits for the dependencies of the archive. -/
  | archiveEntries (gated : Bool)
  | sourceFile
  | classes
  | classDependencies
  | members
  | pseudoMethods
  | methodDependencies
  | binaryPackage
  | binaryClass
  | binaryClassDependencies
  | binaryMembers
deriving DecidableEq, Repr

namespace LoadTask

/-- How far a task stands from the tasks that spawn nothing. -/
def rank : LoadTask → Nat
  | discovery => 4
  | project => 3
  | archive => 3
  | archiveEntries _ => 2
  | sourceFile => 1
  | binaryPackage => 1
  | _ => 0

/-- The name of a task. -/
def name : LoadTask → String
  | discovery => "discover workspace"
  | project => "load project"
  | projectDependencies => "load project dependencies"
  | archive => "load archive project"
  | archiveEntries _ => "load archive entries"
  | sourceFile => "load source file"
  | classes => "load classes"
  | classDependencies => "load class dependencies"
  | members => "load methods"
  | pseudoMethods => "load pseudo methods"
  | methodDependencies => "load method dependencies"
  | binaryPackage => "register binary package"
  | binaryClass => "load binary class"
  | binaryClassDependencies => "load binary class dependencies"
  | binaryMembers => "load binary methods"

/-- The priority of a task. -/
def priority : LoadTask → Int
  | discovery => 1000
  | project | archive => 900
  | projectDependencies => 800
  | archiveEntries _ | sourceFile | binaryPackage => 700
  | classes | binaryClass => 600
  | classDependencies | binaryClassDependencies => 500
  | members | binaryMembers => 400
  | pseudoMethods => 300
  | methodDependencies => 200

end LoadTask

/-- What a group can have bound. -/
inductive LoadKey where
  | workspace
  | projectDir
  | archive
  | project
  | dependenciesLoaded
  | source
  | sourceText
  | unit
  | binary
  | package
  | classes
  | classDependencies
  | methods
  | pseudoMethods
  | methodDependencies
deriving DecidableEq, Repr

/-- The text of a key. -/
def LoadKey.text : LoadKey → String
  | workspace => "Workspace"
  | projectDir => "ProjectDir"
  | archive => "Archive"
  | project => "Project"
  | dependenciesLoaded => "DependenciesLoaded"
  | source => "Source"
  | sourceText => "SourceText"
  | unit => "Unit"
  | binary => "Binary"
  | package => "Package"
  | classes => "Classes"
  | classDependencies => "ClassDependencies"
  | methods => "Methods"
  | pseudoMethods => "PseudoMethods"
  | methodDependencies => "MethodDependencies"

/-- What the tasks of a group share. -/
structure LoadContext where
  workspace : Option String := none
  projectDir : Option String := none
  archive : Option String := none
  project : Option ItemId := none
  dependencies : List Manifest.Dependency := []
  dependenciesLoaded : Bool := false
  /-- The path of the source file. -/
  source : Option String := none
  sourceText : Option String := none
  unit : Option Source.CompilationUnit := none
  binary : Option BinaryClass := none
  package : Option ItemId := none
  /-- The type declarations of the unit with their classes, outer ones first. -/
  classes : Option (List (Nat × ItemId)) := none
  /-- The class of the class file. -/
  binaryItem : Option ItemId := none
  classDependencies : Bool := false
  /-- The method and constructor declarations with their methods. -/
  methods : Option (List (Nat × ItemId)) := none
  calls : Option (List CallSite) := none
  methodDependencies : Bool := false

namespace LoadContext

/-- Whether a key is bound. -/
def has (context : LoadContext) : LoadKey → Bool
  | .workspace => context.workspace.isSome
  | .projectDir => context.projectDir.isSome
  | .archive => context.archive.isSome
  | .project => context.project.isSome
  | .dependenciesLoaded => context.dependenciesLoaded
  | .source => context.source.isSome
  | .sourceText => context.sourceText.isSome
  | .unit => context.unit.isSome
  | .binary => context.binary.isSome
  | .package => context.package.isSome
  | .classes => context.classes.isSome || context.binaryItem.isSome
  | .classDependencies => context.classDependencies
  | .methods => context.methods.isSome
  | .pseudoMethods => context.calls.isSome
  | .methodDependencies => context.methodDependencies

end LoadContext

/-- How much was loaded and how much could not be. -/
structure LoadStats where
  projects : Nat := 0
  archives : Nat := 0
  sourceFiles : Nat := 0
  classFiles : Nat := 0
  skippedFiles : Nat := 0
  packages : Nat := 0
  classes : Nat := 0
  methods : Nat := 0
  fields : Nat := 0
  pseudoMethods : Nat := 0
  unresolvedCalls : Nat := 0
  unresolvedSupertypes : Nat := 0
  unresolvedDependencies : Nat := 0
deriving DecidableEq, Repr

/-- The counters with their names. -/
def LoadStats.toList (stats : LoadStats) : List (String × Nat) :=
  [("projects", stats.projects), ("archives", stats.archives),
    ("source_files", stats.sourceFiles), ("class_files", stats.classFiles),
    ("skipped_files", stats.skippedFiles), ("packages", stats.packages),
    ("classes", stats.classes), ("methods", stats.methods), ("fields", stats.fields),
    ("pseudo_methods", stats.pseudoMethods), ("unresolved_calls", stats.unresolvedCalls),
    ("unresolved_supertypes", stats.unresolvedSupertypes),
    ("unresolved_dependencies", stats.unresolvedDependencies)]

/-- What all loading tasks share. -/
structure LoadState where
  index : Index
  stats : LoadStats

end CodeAtlas.Load
