/-
# Tasks

A task belongs to a group, whose context it shares with the other tasks of the group.  It names the
keys that have to be bound in the context before it may run and the keys it promises to bind.  When
it runs it may change the contexts and the state all tasks share, open groups and spawn further
tasks.  Every task has a rank, and a task spawns only tasks of lower rank.  Where ranks are numbers
every run ends; where every rank counts as lower than every other, tasks spawn what they like.
-/

namespace CodeAtlas.Tasks

/-- What tasks work on: the contexts of the groups, by number, and what all tasks share. -/
structure Board (Ctx World : Type) where
  groups : Array Ctx
  world : World

/-- A task waiting to run in a group.  Higher priorities run first. -/
structure Pending (Task : Type) where
  priority : Int
  task : Task
  group : Nat

/-- A waiting task of rank below `bound`. -/
abbrev Below {Task Rank : Type} [LT Rank] (rank : Task → Rank) (bound : Rank) :=
  { pending : Pending Task // rank pending.task < bound }

/-- What a body has done so far: the board and the tasks spawned, in order. -/
structure Effect {Task Rank : Type} [LT Rank] (rank : Task → Rank) (bound : Rank)
    (Ctx World : Type) where
  board : Board Ctx World
  spawned : List (Below rank bound)

/-- Actions of a body.  What an action has done before it fails stays done. -/
abbrev Act {Task Rank : Type} [LT Rank] (rank : Task → Rank) (bound : Rank) (Ctx World : Type) :=
  ExceptT String (StateM (Effect rank bound Ctx World))

namespace Act

variable {Task Ctx World Rank : Type} [LT Rank] {rank : Task → Rank} {bound : Rank}

/-- The context of a group. -/
def context? (group : Nat) : Act rank bound Ctx World (Option Ctx) :=
  return (← get).board.groups[group]?

/-- Changes the context of a group. -/
def modifyContext (group : Nat) (f : Ctx → Ctx) : Act rank bound Ctx World PUnit :=
  modify (fun effect => { effect with board.groups := effect.board.groups.modify group f })

/-- What all tasks share. -/
def world : Act rank bound Ctx World World :=
  return (← get).board.world

/-- Changes what all tasks share. -/
def modifyWorld (f : World → World) : Act rank bound Ctx World PUnit :=
  modify (fun effect => { effect with board.world := f effect.board.world })

/-- Opens a group. -/
def newGroup (context : Ctx) : Act rank bound Ctx World Nat :=
  modifyGet fun effect =>
    (effect.board.groups.size, { effect with board.groups := effect.board.groups.push context })

/-- Spawns a task into a group. -/
def spawn (priority : Int) (task : Task) (group : Nat) (lower : rank task < bound) :
    Act rank bound Ctx World PUnit :=
  modify (fun effect =>
    { effect with spawned := effect.spawned ++ [⟨⟨priority, task, group⟩, lower⟩] })

end Act

/-- A task as the scheduler sees it. -/
structure Job {Task Rank : Type} [LT Rank] (rank : Task → Rank) (bound : Rank)
    (Key Ctx World : Type) where
  name : String
  /-- The keys that have to be bound before it may run. -/
  inputs : List Key
  /-- The keys it promises to bind. -/
  outputs : List Key
  /-- What it does in its group. -/
  body : Nat → Act rank bound Ctx World PUnit

namespace Job

variable {Task Key Ctx World Rank : Type} [LT Rank] {rank : Task → Rank} {bound : Rank}

/-- Whether all keys are bound in a context. -/
def allBound (has : Ctx → Key → Bool) (context : Option Ctx) (keys : List Key) : Bool :=
  keys.all (fun key => context.any (fun context => has context key))

/-- Runs jobs one after the other and stops before the first whose inputs are not bound. -/
def runAll (has : Ctx → Key → Bool) (group : Nat) :
    List (Job rank bound Key Ctx World) → Act rank bound Ctx World PUnit
  | [] => pure ()
  | job :: rest => do
    if allBound has (← Act.context? group) job.inputs then
      job.body group
      runAll has group rest
    else pure ()

/-- A fixed sequence of jobs as one job.  It needs the inputs of its first member and promises the
outputs of its last. -/
def chain (has : Ctx → Key → Bool) (name : String) (jobs : List (Job rank bound Key Ctx World)) :
    Job rank bound Key Ctx World where
  name := name
  inputs := (jobs.head?.map Job.inputs).getD []
  outputs := (jobs.getLast?.map Job.outputs).getD []
  body group := runAll has group jobs

end Job

/-- A kind of tasks and what each of them does. -/
structure Workflow (Task Key Ctx World : Type) (Rank : Type := Nat) [LT Rank] where
  rank : Task → Rank
  has : Ctx → Key → Bool
  keyText : Key → String
  job : (task : Task) → Job rank (rank task) Key Ctx World

end CodeAtlas.Tasks
