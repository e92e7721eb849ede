/-
# Traversals and recursive visits

A recursive visit enters a node, visits its children from left to right if the visitor asked for
them, and leaves the node.  The traversal, which keeps a stack of its own, makes the same calls in
the same states: when it works off the frames that enter a list of trees, it does what a visit of
their roots does and goes on with the frames below.  What is on the stack below plays the part of
the visits that have not returned.
-/
import CodeAtlas.Proofs.Query.SourceOrder

namespace CodeAtlas.Source

/-! ## Subtrees -/

namespace Tree

/-- A tree inside another has no more nodes. -/
theorem Within.size_le {inner tree : Tree} (h : inner.Within tree) : inner.size ≤ tree.size := by
  induction h with
  | self tree => exact Nat.le_refl _
  | @child id info children inner outer hmem _ ih =>
    have houter : outer.size ≤ sizeAll children := by
      obtain ⟨before, behind, rfl⟩ := List.append_of_mem hmem
      rw [sizeAll_append, sizeAll]
      omega
    rw [size]
    omega

theorem findAll?_isSome_of_mem {target : Nat} {trees : List Tree} {tree : Tree}
    (hmem : tree ∈ trees) (h : (tree.find? target).isSome) : (findAll? target trees).isSome := by
  induction trees with
  | nil => simp at hmem
  | cons first rest ih =>
    rw [findAll?]
    cases hfirst : first.find? target with
    | some found => rfl
    | none =>
      rcases List.mem_cons.1 hmem with rfl | hmem
      · rw [hfirst] at h
        simp at h
      · exact ih hmem

/-- The number of a tree inside another is found in it. -/
theorem Within.find?_isSome {inner tree : Tree} (h : inner.Within tree) :
    (tree.find? inner.id).isSome := by
  induction h with
  | self tree =>
    cases tree with
    | node id info children => simp [find?, Tree.id]
  | child hmem _ ih =>
    rw [find?]
    split
    · rfl
    · exact findAll?_isSome_of_mem hmem ih

/-- The children of a node that a visit reaches. -/
def reached (tree : Tree) (descend : Bool) : List Tree :=
  if descend then tree.children else []

theorem sizeAll_reached_lt (tree : Tree) (descend : Bool) :
    sizeAll (tree.reached descend) < tree.size := by
  cases tree with
  | node id info children =>
    unfold reached
    rw [size]
    split
    · exact Nat.lt_succ_self _
    · exact Nat.succ_pos _

end Tree

namespace Ast

/-- These trees stand in a syntax tree and are numbered from `first` on. -/
def LaidOut (ast : Ast) (first : Nat) (trees : List Tree) : Prop :=
  Tree.NumberedAll first trees ∧ ∀ tree ∈ trees, tree.Within ast.tree

variable {ast : Ast} {first : Nat} {tree : Tree} {behind : List Tree}

theorem LaidOut.id_eq (h : ast.LaidOut first (tree :: behind)) : tree.id = first := by
  cases tree with
  | node id info children => exact h.1.1.1

theorem LaidOut.rest (h : ast.LaidOut first (tree :: behind)) :
    ast.LaidOut (first + tree.size) behind :=
  ⟨h.1.2, fun other hother => h.2 other (List.mem_cons_of_mem _ hother)⟩

theorem LaidOut.reached (h : ast.LaidOut first (tree :: behind)) (descend : Bool) :
    ast.LaidOut (first + 1) (tree.reached descend) := by
  unfold Tree.reached
  split
  · refine ⟨?_, fun child hchild => ?_⟩
    · cases tree with
      | node id info children => exact h.1.1.2
    · exact (Tree.within_of_mem_children hchild).trans (h.2 tree List.mem_cons_self)
  · exact ⟨trivial, fun child hchild => by simp at hchild⟩

/-- The children that a visit reaches are those of the node in the syntax tree. -/
theorem IsNumbered.map_id_reached (h : ast.IsNumbered) (hlaid : ast.LaidOut first (tree :: behind))
    (descend : Bool) :
    (tree.reached descend).map Tree.id = if descend then ast.children tree.id else [] := by
  rw [(h.span_and_children (hlaid.2 tree List.mem_cons_self)).2]
  unfold Tree.reached
  split
  · rfl
  · rfl

/-- Each node is found, as the root of a tree that stands in the syntax tree. -/
theorem IsNumbered.exists_find? (h : ast.IsNumbered) {start : Nat} (hstart : start < ast.size) :
    ∃ tree first, ast.tree.find? start = some tree ∧ tree.id = start ∧
      ast.LaidOut first [tree] ∧ tree.size ≤ ast.size := by
  obtain ⟨inner, hinner, rfl⟩ := h.exists_within hstart
  obtain ⟨tree, hfound⟩ := Option.isSome_iff_exists.1 hinner.find?_isSome
  obtain ⟨hwithin, hid⟩ := Tree.within_of_find? hfound
  obtain ⟨first, hnumbered⟩ := hwithin.exists_numbered h
  refine ⟨tree, first, hfound, hid, ⟨⟨hnumbered, trivial⟩, ?_⟩, ?_⟩
  · intro other hother
    rwa [List.mem_singleton.1 hother]
  · rw [size_eq]
    exact hwithin.size_le

end Ast

/-! ## Calls -/

namespace Visitor

variable {σ : Type}

/-- A call of a visitor: the node and the state the call is made in. -/
inductive Call (σ : Type) where
  | enter (id : Nat) (state : σ)
  | leave (id : Nat) (state : σ)
deriving DecidableEq, Repr

/-- The node that a call enters. -/
def Call.entered? : Call σ → Option Nat
  | .enter id _ => some id
  | .leave _ _ => none

/-- The node that a call leaves. -/
def Call.left? : Call σ → Option Nat
  | .enter _ _ => none
  | .leave id _ => some id

/-- The nodes that are entered, in the order of the calls. -/
def entered (calls : List (Call σ)) : List Nat :=
  calls.filterMap Call.entered?

/-- The nodes that are left, in the order of the calls. -/
def left (calls : List (Call σ)) : List Nat :=
  calls.filterMap Call.left?

variable (id : Nat) (state : σ) (calls others : List (Call σ))

@[simp]
theorem entered_enter : entered (.enter id state :: calls) = id :: entered calls :=
  rfl

@[simp]
theorem entered_leave : entered (.leave id state :: calls) = entered calls :=
  rfl

@[simp]
theorem entered_append : entered (calls ++ others) = entered calls ++ entered others :=
  List.filterMap_append

@[simp]
theorem left_enter : left (.enter id state :: calls) = left calls :=
  rfl

@[simp]
theorem left_leave : left (.leave id state :: calls) = id :: left calls :=
  rfl

@[simp]
theorem left_append : left (calls ++ others) = left calls ++ left others :=
  List.filterMap_append

/-- A call enters a node or leaves one. -/
theorem length_eq_entered_add_left :
    calls.length = (entered calls).length + (left calls).length := by
  induction calls with
  | nil => rfl
  | cons call rest ih =>
    cases call with
    | enter id state =>
      rw [List.length_cons, entered_enter, left_enter, List.length_cons, ih]
      omega
    | leave id state =>
      rw [List.length_cons, entered_leave, left_leave, List.length_cons, ih]
      omega

/-- The visitor that does what a given one does and keeps a record of its calls. -/
def recording (visitor : Visitor σ) : Visitor (σ × List (Call σ)) where
  enter now id :=
    ((visitor.enter now.1 id).1, ((visitor.enter now.1 id).2, now.2 ++ [.enter id now.1]))
  leave now id := (visitor.leave now.1 id, now.2 ++ [.leave id now.1])

/-- Keeping a record does not change a traversal. -/
theorem fst_runStack_recording (visitor : Visitor σ) (stack : List Frame)
    (now : σ × List (Call σ)) :
    (visitor.recording.runStack stack now).1 = visitor.runStack stack now.1 := by
  fun_induction visitor.recording.runStack stack now with
  | case1 now => rw [runStack]
  | case2 id rest now ih => rw [ih, runStack]; rfl
  | case3 id info children rest now next hnext ih =>
    obtain ⟨hdescend, rfl⟩ := Prod.mk.inj hnext
    rw [ih, runStack.eq_3 visitor]
    simp only [hdescend, if_true]
  | case4 id info children rest now descend next hnext hdescend ih =>
    obtain ⟨rfl, rfl⟩ := Prod.mk.inj hnext
    rw [ih, runStack.eq_3 visitor]
    simp [hdescend]

/-- A frame that enters a tree is replaced by those of the children that are reached, with the end of
the node below them. -/
theorem runStack_enter (visitor : Visitor σ) (tree : Tree) (rest : List Frame) (state : σ) :
    visitor.runStack (.enter tree :: rest) state =
      visitor.runStack (enterAll (tree.reached (visitor.enter state tree.id).1) ++
        .leave tree.id :: rest) (visitor.enter state tree.id).2 := by
  cases tree with
  | node id info children =>
    rw [runStack]
    show (if (visitor.enter state id).1 then _ else _) = _
    unfold Tree.reached Tree.id Tree.children
    split
    · rfl
    · rfl

end Visitor

/-! ## Recursive visits -/

namespace Ast

open Visitor (Call Frame enterAll entered left)

variable {σ : Type} {ast : Ast} {visitor : Visitor σ}

/-- The calls that a recursive visit of some nodes, one after the other, makes from a state on, and the
state it ends in: a node is entered, its children are visited if the visitor says so, the node is
left, and the other nodes are visited. -/
inductive Visits (ast : Ast) (visitor : Visitor σ) : List Nat → σ → List (Call σ) → σ → Prop
  | nil (state : σ) : Visits ast visitor [] state [] state
  | cons {id : Nat} {rest : List Nat} {state below after : σ} {inner others : List (Call σ)}
      (hbelow : Visits ast visitor
        (if (visitor.enter state id).1 then ast.children id else [])
        (visitor.enter state id).2 inner below)
      (hrest : Visits ast visitor rest (visitor.leave below id) others after) :
      Visits ast visitor (id :: rest) state
        (.enter id state :: inner ++ .leave id below :: others) after

/-- A visit has one outcome at most. -/
theorem Visits.unique {ids : List Nat} {state after other : σ} {calls others : List (Call σ)}
    (h : ast.Visits visitor ids state calls after)
    (hother : ast.Visits visitor ids state others other) : others = calls ∧ other = after := by
  induction h generalizing others other with
  | nil state =>
    cases hother
    exact ⟨rfl, rfl⟩
  | cons _ _ ihbelow ihrest =>
    cases hother with
    | cons hbelow hrest =>
      obtain ⟨rfl, rfl⟩ := ihbelow hbelow
      obtain ⟨rfl, rfl⟩ := ihrest hrest
      exact ⟨rfl, rfl⟩

/-- A visit leaves the nodes that it enters, each as often. -/
theorem Visits.left_perm {ids : List Nat} {state after : σ} {calls : List (Call σ)}
    (h : ast.Visits visitor ids state calls after) : (left calls).Perm (entered calls) := by
  induction h with
  | nil state => exact List.Perm.refl _
  | @cons id rest state below after inner others _ _ ihbelow ihrest =>
    rw [List.cons_append, Visitor.left_enter, Visitor.left_append, Visitor.left_leave,
      Visitor.entered_enter, Visitor.entered_append, Visitor.entered_leave]
    exact List.perm_middle.trans ((ihbelow.append ihrest).cons id)

/-- A visit of trees enters nodes of theirs, in the order of their numbers. -/
theorem Visits.entered_sublist (hast : ast.IsNumbered) {ids : List Nat} {state after : σ}
    {calls : List (Call σ)} (h : ast.Visits visitor ids state calls after) {first : Nat}
    {trees : List Tree} (hlaid : ast.LaidOut first trees) (hids : ids = trees.map Tree.id) :
    (entered calls).Sublist (List.range' first (Tree.sizeAll trees)) := by
  induction h generalizing first trees with
  | nil state => exact List.nil_sublist _
  | @cons id rest state below after inner others _ _ ihbelow ihrest =>
    cases trees with
    | nil => simp at hids
    | cons tree behind =>
      obtain ⟨rfl, rfl⟩ := List.cons.inj hids
      have hsize := tree.sizeAll_reached_lt (visitor.enter state tree.id).1
      have hinner := ihbelow (hlaid.reached _) (hast.map_id_reached hlaid _).symm
      have hothers := ihrest hlaid.rest rfl
      have hentered : entered (.enter tree.id state :: inner ++ .leave tree.id below :: others) =
          first :: (entered inner ++ entered others) := by
        rw [← hlaid.id_eq, List.cons_append, Visitor.entered_enter, Visitor.entered_append,
          Visitor.entered_leave]
      have hrange : List.range' first (Tree.sizeAll (tree :: behind)) =
          first :: (List.range' (first + 1) (tree.size - 1) ++
            List.range' (first + tree.size) (Tree.sizeAll behind)) := by
        have hplace : first + tree.size = first + 1 + (tree.size - 1) := by omega
        rw [hplace, List.range'_append_1, ← List.range'_succ, Tree.sizeAll]
        congr 1
        omega
      rw [hentered, hrange]
      refine List.Sublist.cons_cons first (List.Sublist.append (hinner.trans ?_) hothers)
      exact List.range'_sublist_right.2 (by omega)

/-- Working off the frames that enter trees makes the calls of a visit of their roots and goes on with
the frames below. -/
theorem Visits.runStack (hast : ast.IsNumbered) {ids : List Nat} {state after : σ}
    {calls : List (Call σ)} (h : ast.Visits visitor ids state calls after) {first : Nat}
    {trees : List Tree} (hlaid : ast.LaidOut first trees) (hids : ids = trees.map Tree.id)
    (stack : List Frame) (record : List (Call σ)) :
    visitor.recording.runStack (enterAll trees ++ stack) (state, record) =
      visitor.recording.runStack stack (after, record ++ calls) := by
  induction h generalizing first trees stack record with
  | nil state =>
    obtain rfl := List.map_eq_nil_iff.1 hids.symm
    rw [List.append_nil]
    rfl
  | @cons id rest state below after inner others _ _ ihbelow ihrest =>
    cases trees with
    | nil => simp at hids
    | cons tree behind =>
      obtain ⟨rfl, rfl⟩ := List.cons.inj hids
      calc visitor.recording.runStack (.enter tree :: (enterAll behind ++ stack)) (state, record)
          = visitor.recording.runStack
              (enterAll (tree.reached (visitor.enter state tree.id).1) ++
                .leave tree.id :: (enterAll behind ++ stack))
              ((visitor.enter state tree.id).2, record ++ [.enter tree.id state]) :=
            Visitor.runStack_enter _ _ _ _
        _ = visitor.recording.runStack (.leave tree.id :: (enterAll behind ++ stack))
              (below, record ++ [.enter tree.id state] ++ inner) :=
            ihbelow (hlaid.reached _) (hast.map_id_reached hlaid _).symm _ _
        _ = visitor.recording.runStack (enterAll behind ++ stack)
              (visitor.leave below tree.id,
                record ++ [.enter tree.id state] ++ inner ++ [.leave tree.id below]) := by
            rw [Visitor.runStack]
            rfl
        _ = visitor.recording.runStack stack (after,
              record ++ [.enter tree.id state] ++ inner ++ [.leave tree.id below] ++ others) :=
            ihrest hlaid.rest rfl _ _
        _ = _ := by simp

/-- Every visit comes to an end. -/
theorem IsNumbered.exists_visits (hast : ast.IsNumbered) {first : Nat} {trees : List Tree}
    (hlaid : ast.LaidOut first trees) (state : σ) :
    ∃ calls after, ast.Visits visitor (trees.map Tree.id) state calls after := by
  match trees with
  | [] => exact ⟨[], state, .nil state⟩
  | tree :: rest =>
    obtain ⟨inner, below, hbelow⟩ :=
      exists_visits hast (hlaid.reached (visitor.enter state tree.id).1)
        (visitor.enter state tree.id).2
    obtain ⟨others, after, hrest⟩ := exists_visits hast hlaid.rest (visitor.leave below tree.id)
    rw [hast.map_id_reached hlaid] at hbelow
    exact ⟨_, after, .cons hbelow hrest⟩
termination_by Tree.sizeAll trees
decreasing_by
  · have hlt := tree.sizeAll_reached_lt (visitor.enter state tree.id).1
    rw [Tree.sizeAll]
    omega
  · have hlt := tree.sizeAll_reached_lt true
    rw [Tree.sizeAll]
    omega

/-- A traversal from a node ends after two calls for each node at most.  The calls it makes and the
state it ends in are the one outcome of the recursive visit of the node; no node is entered twice,
and each node that is entered is left once. -/
theorem traversal_is_recursive_visit (hast : ast.IsNumbered) {start : Nat}
    (hstart : start < ast.size) (visitor : Visitor σ) (state : σ) :
    ∃ calls after,
      ast.walkFrom start visitor.recording (state, []) = (after, calls) ∧
      ast.walkFrom start visitor state = after ∧
      (∀ others other, ast.Visits visitor [start] state others other ↔
        others = calls ∧ other = after) ∧
      (entered calls).Nodup ∧ (left calls).Perm (entered calls) ∧
      calls.length ≤ 2 * ast.size := by
  obtain ⟨tree, first, hfound, rfl, hlaid, hsize⟩ := hast.exists_find? hstart
  have hends : ∃ calls after, ast.Visits visitor [tree.id] state calls after :=
    hast.exists_visits hlaid state
  obtain ⟨calls, after, hvisits⟩ := hends
  have hrun : ast.walkFrom tree.id visitor.recording (state, []) = (after, calls) := by
    unfold walkFrom Visitor.walkTree
    rw [hfound, Option.getD_some]
    calc visitor.recording.runStack (enterAll [tree] ++ []) (state, [])
        = visitor.recording.runStack [] (after, [] ++ calls) :=
          hvisits.runStack hast hlaid rfl [] []
      _ = (after, calls) := by rw [Visitor.runStack, List.nil_append]
  have hplain : ast.walkFrom tree.id visitor state = after := by
    have hfst := visitor.fst_runStack_recording [.enter ((ast.tree.find? tree.id).getD ast.tree)]
      (state, [])
    exact hfst.symm.trans (congrArg Prod.fst hrun)
  have hentered := hvisits.entered_sublist hast hlaid rfl
  refine ⟨calls, after, hrun, hplain, fun others other => ⟨hvisits.unique, ?_⟩,
    hentered.nodup List.nodup_range', hvisits.left_perm, ?_⟩
  · rintro ⟨rfl, rfl⟩
    exact hvisits
  · have hlength := hentered.length_le
    rw [List.length_range', Tree.sizeAll_singleton] at hlength
    rw [Visitor.length_eq_entered_add_left, hvisits.left_perm.length_eq]
    omega

/-- A class with a method, a call inside the method, and a field behind it. -/
def ofClassWithMethod : Ast :=
  .ofTree "class A { void f() { g(); } int x; }" (.node 0 ⟨.classDeclaration, .member, ⟨0, 36⟩⟩
    [.node 1 ⟨.methodDeclaration, .member, ⟨10, 17⟩⟩ [.node 2 ⟨.methodInvocation, .other, ⟨21, 3⟩⟩ []],
      .node 3 ⟨.fieldDeclaration, .member, ⟨28, 6⟩⟩ []])

/-- A visitor that counts the nodes it enters and skips what is below methods. -/
def countingAboveMethods : Visitor Nat where
  enter count id := (ofClassWithMethod.kind id != .methodDeclaration, count + 1)
  leave count _ := count

theorem traversal_is_recursive_visit_skipping :
    ofClassWithMethod.IsNumbered ∧ 0 < ofClassWithMethod.size ∧
      ofClassWithMethod.walkFrom 0 countingAboveMethods.recording (0, []) =
        (3, [.enter 0 0, .enter 1 1, .leave 1 2, .enter 3 2, .leave 3 3, .leave 0 3]) := by
  have hnumbered : ofClassWithMethod.IsNumbered :=
    ⟨rfl, ⟨rfl, ⟨rfl, trivial⟩, trivial⟩, ⟨rfl, trivial⟩, trivial⟩
  have hsize : 0 < ofClassWithMethod.size := by decide
  refine ⟨hnumbered, hsize, ?_⟩
  obtain ⟨calls, after, hrun, -, hvisits, -⟩ :=
    traversal_is_recursive_visit hnumbered hsize countingAboveMethods 0
  obtain ⟨rfl, rfl⟩ := (hvisits _ _).1 <|
    Visits.cons (.cons (.nil 2) (.cons (.nil 3) (.nil 3))) (.nil 3)
  exact hrun

end Ast

end CodeAtlas.Source
