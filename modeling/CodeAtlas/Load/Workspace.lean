/-
# Workspaces

Loading a workspace directory into an index: the loading tasks run to their end, third-party items
that nothing refers to are dropped if that is asked for, and the third-party flag spreads to the
members of third-party projects.
-/
import CodeAtlas.Load.Jobs

namespace CodeAtlas

open Load

/-- Why a workspace cannot be loaded. -/
inductive LoadError where
  | notDirectory (root : String)
  /-- A third-party pattern is wrong. -/
  | badPattern
  | run (error : Tasks.RunError)
deriving DecidableEq, Repr

/-- The first line of the message of a load error. -/
def LoadError.message : LoadError → String
  | notDirectory root => "configuration error: workspace " ++ root ++ " is not a directory"
  | badPattern => "invalid pattern: regex parse error:"
  | run error => error.message

/-- A loaded workspace. -/
structure LoadOutcome where
  index : Index
  stats : LoadStats
  /-- What the run of the tasks did. -/
  report : Tasks.Report
  /-- The number of items that were dropped. -/
  pruned : Nat

/-- The tasks a load begins with: discovery from a root, in a group of its own. -/
def Load.initialTasks (workers : Nat) (index : Index) (root : String) :
    Tasks.TaskList LoadTask LoadContext LoadState :=
  let tasks := Tasks.TaskList.empty (max workers 1) ⟨index, {}⟩
  let (group, tasks) := tasks.newGroup { workspace := some root }
  tasks.push LoadTask.discovery.priority .discovery group

/-- Drops what is not worth keeping, if the settings say so; the result has the given
generation then. -/
def LoadConfig.pruned (config : LoadConfig) (index : Index) (generation : Nat) : Index × Nat :=
  if config.pruneThirdParty then
    let pruned := index.prune generation
    (pruned.index, pruned.removed)
  else (index, 0)

/-- Loads a workspace.  The index lies over the base, if there is one, and has the given
generation, or the next one when it was pruned. -/
def loadWorkspace (disk : Disk) (grammar : Source.Grammar) (config : LoadConfig) (base : Option Index)
    (generation : Nat) (root : String) : Except LoadError LoadOutcome := do
  if !disk.isDirectory root then throw (.notDirectory root)
  let some thirdParty := config.thirdPartyMatchers? | throw .badPattern
  let index := match base with
    | some base => .onBase generation base
    | none => .empty generation
  let setting : LoadSetting := ⟨disk, grammar, config, thirdParty⟩
  let (result, tasks) := (initialTasks config.workers index root).run setting.workflow
  match result with
  | .error error => throw (.run error)
  | .ok report =>
    let (index, pruned) := config.pruned tasks.board.world.index (generation + 1)
    return ⟨index.propagateThirdParty.2, tasks.board.world.stats, report, pruned⟩

end CodeAtlas
