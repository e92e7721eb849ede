/-
# Traversal

A visitor is told of each node before and after the nodes below it, and may ask to skip them.  The
traversal keeps the nodes that remain to be entered or left on a stack of its own.
-/
import CodeAtlas.Source.Ast

namespace CodeAtlas.Source

/-- What a traversal does at each node, with a state of type `σ`.  Entering a node tells whether to
go on to the nodes below it. -/
structure Visitor (σ : Type) where
  enter : σ → Nat → Bool × σ
  leave : σ → Nat → σ

namespace Visitor

/-- What remains to be done in a traversal. -/
inductive Frame where
  | enter (tree : Tree)
  | leave (id : Nat)

/-- A bound on the steps a frame takes. -/
def Frame.steps : Frame → Nat
  | .enter tree => 2 * tree.size
  | .leave _ => 1

/-- A bound on the steps a stack takes. -/
def stackSteps : List Frame → Nat
  | [] => 0
  | frame :: rest => frame.steps + stackSteps rest

/-- The frames that enter the given trees. -/
def enterAll (trees : List Tree) : List Frame :=
  trees.map .enter

theorem stackSteps_enterAll (trees : List Tree) :
    stackSteps (enterAll trees) = 2 * Tree.sizeAll trees := by
  induction trees with
  | nil => rfl
  | cons tree rest ih =>
    have h : stackSteps (enterAll (tree :: rest)) = 2 * tree.size + stackSteps (enterAll rest) := rfl
    rw [h, ih, Tree.sizeAll]
    omega

theorem stackSteps_append (above below : List Frame) :
    stackSteps (above ++ below) = stackSteps above + stackSteps below := by
  induction above with
  | nil => simp only [List.nil_append, stackSteps, Nat.zero_add]
  | cons frame rest ih => simp only [List.cons_append, stackSteps, ih, Nat.add_assoc]

/-- Works off a stack, the first frame first. -/
def runStack {σ : Type} (visitor : Visitor σ) : List Frame → σ → σ
  | [], state => state
  | .leave id :: rest, state => visitor.runStack rest (visitor.leave state id)
  | .enter (.node id _ children) :: rest, state =>
    let (descend, state) := visitor.enter state id
    if descend then visitor.runStack (enterAll children ++ .leave id :: rest) state
    else visitor.runStack (.leave id :: rest) state
termination_by stack => stackSteps stack
decreasing_by
  · simp only [stackSteps, Frame.steps]
    omega
  · rw [stackSteps_append, stackSteps_enterAll]
    simp only [stackSteps, Frame.steps, Tree.size]
    omega
  · simp only [stackSteps, Frame.steps, Tree.size]
    omega

/-- Visits a tree. -/
def walkTree {σ : Type} (visitor : Visitor σ) (tree : Tree) (state : σ) : σ :=
  visitor.runStack [.enter tree] state

end Visitor

namespace Ast

/-- Visits every node of a syntax tree. -/
def walk {σ : Type} (ast : Ast) (visitor : Visitor σ) (state : σ) : σ :=
  visitor.walkTree ast.tree state

/-- Visits a node and the nodes below it; the whole tree when there is no such node. -/
def walkFrom {σ : Type} (ast : Ast) (start : Nat) (visitor : Visitor σ) (state : σ) : σ :=
  visitor.walkTree ((ast.tree.find? start).getD ast.tree) state

end Ast

end CodeAtlas.Source
