/-
# Scripted tasks

Tasks whose bodies are data: a plain task unbinds and binds keys, spawns further scripts and may
fail; a chain runs scripts one after the other.  Groups can be given labels, by which scripts spawn
into them.  Each script is larger than those inside it, so a run of scripts always ends.
-/
import CodeAtlas.Tasks.Run
import Std.Data.TreeSet

namespace CodeAtlas.Tasks

/-- The group a script is spawned into. -/
inductive Placement where
  /-- The group of the task that spawns it. -/
  | here
  /-- A new group in which keys are bound, with a label if one is given. -/
  | fresh (keys : List String) (label : Option String)
  /-- The group of a label; a label that is not in use gets an empty group. -/
  | labelled (label : String)
deriving DecidableEq, Repr

/-- A task given as data. -/
inductive Script where
  | plain (name : String) (priority : Int) (placement : Placement) (inputs outputs : List String)
      (unset set : List String) (spawn : List Script) (failure : Option String)
  | chain (name : String) (priority : Int) (placement : Placement) (members : List Script)

instance : Inhabited Script :=
  ⟨.chain "" 0 .here []⟩

namespace Script

/-- The name of a script. -/
def name : Script → String
  | plain name .. => name
  | chain name .. => name

/-- The priority a script is spawned with. -/
def priority : Script → Int
  | plain _ priority .. => priority
  | chain _ priority .. => priority

/-- The group a script is spawned into. -/
def placement : Script → Placement
  | plain _ _ placement .. => placement
  | chain _ _ placement _ => placement

mutual

/-- The number of scripts in a script, itself included. -/
def size : Script → Nat
  | plain _ _ _ _ _ _ _ spawn _ => sizeAll spawn + 1
  | chain _ _ _ members => sizeAll members + 1

/-- The number of scripts in a list of scripts. -/
def sizeAll : List Script → Nat
  | [] => 0
  | script :: rest => size script + sizeAll rest

end

/-- A script is no larger than a list that holds it. -/
theorem size_le_sizeAll {script : Script} {scripts : List Script} (h : script ∈ scripts) :
    script.size ≤ sizeAll scripts := by
  induction scripts with
  | nil => simp at h
  | cons first rest ih =>
    simp only [sizeAll]
    rcases List.mem_cons.1 h with rfl | h
    · omega
    · have := ih h
      omega

/-- The keys bound in a group. -/
abbrev Keys := Std.TreeSet String

/-- What scripts share: the groups of the labels, latest first, and the names of the plain tasks
that ran, latest first. -/
structure World where
  labels : List (String × Nat)
  trace : List String

/-- Nothing has happened. -/
def World.empty : World :=
  ⟨[], []⟩

/-- What scripts work on. -/
abbrev Table := Board Keys World

namespace Table

/-- A new group in which keys are bound, with a label if one is given. -/
def openGroup (table : Table) (keys : Keys) (label : Option String) : Nat × Table :=
  let group := table.groups.size
  (group,
    { groups := table.groups.push keys
      world := { table.world with
        labels := (label.map (fun label => (label, group))).toList ++ table.world.labels } })

/-- The group of a label; a label that is not in use gets an empty group. -/
def labelled (table : Table) (label : String) : Nat × Table :=
  match table.world.labels.lookup label with
  | some group => (group, table)
  | none => table.openGroup ∅ (some label)

/-- The group of a placement, seen from a group. -/
def locate (table : Table) (group : Nat) : Placement → Nat × Table
  | .here => (group, table)
  | .fresh keys label => table.openGroup (Std.TreeSet.ofList keys) label
  | .labelled label => table.labelled label

end Table

/-- Actions of scripts. -/
abbrev Action (bound : Nat) := Act size bound Keys World

/-- The group of a placement, seen from a group. -/
def locate {bound : Nat} (group : Nat) (placement : Placement) : Action bound Nat :=
  modifyGet fun effect =>
    let (target, board) := Table.locate effect.board group placement
    (target, { effect with board := board })

/-- The body of a plain task. -/
def plainBody {bound : Nat} (name : String) (unset set : List String)
    (spawn : List { script : Script // script.size < bound }) (failure : Option String)
    (group : Nat) : Action bound PUnit := do
  Act.modifyWorld (fun world => { world with trace := name :: world.trace })
  Act.modifyContext group (fun keys => set.foldl Std.TreeSet.insert (unset.foldl Std.TreeSet.erase keys))
  for script in spawn do
    let target ← locate group script.1.placement
    Act.spawn script.1.priority script.1 target script.2
  match failure with
  | some message => throw message
  | none => pure ()

/-- The job of a script, as part of a script of size `bound` or as that script. -/
def jobWithin (bound : Nat) : (script : Script) → script.size ≤ bound →
    Job size bound String Keys World
  | plain name priority placement inputs outputs unset set spawn failure, h =>
    { name := name
      inputs := inputs
      outputs := outputs
      body := plainBody name unset set
        (spawn.attach.map fun script => ⟨script.1, by
          have := size_le_sizeAll script.2
          simp only [size] at h
          omega⟩) failure }
  | chain name priority placement members, h =>
    Job.chain Std.TreeSet.contains name
      (members.attach.map fun member => jobWithin bound member.1 (by
        have := size_le_sizeAll member.2
        simp only [size] at h
        omega))
termination_by script => script.size
decreasing_by
  have := size_le_sizeAll member.2
  simp only [size]
  omega

/-- Scripts as tasks. -/
def workflow : Workflow Script String Keys World where
  rank := size
  has := Std.TreeSet.contains
  keyText := id
  job script := jobWithin script.size script (Nat.le_refl _)

end Script

end CodeAtlas.Tasks
