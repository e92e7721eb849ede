/-
# Traversals in pre-order

The nodes of a syntax tree bear their places in pre-order as numbers, and a traversal that skips
nothing reaches them in this order.  When it reaches a node, the nodes that it has entered and not
yet left are those around the node.  What a traversal keeps between its steps can therefore be said
in terms of the nodes around a node and of the nodes before it.
-/
import CodeAtlas.Proofs.Source.Lowering
import CodeAtlas.Source.Walk

namespace CodeAtlas.Source

/-! ## Numbered trees -/

namespace Tree

mutual

/-- The nodes bear the numbers from `first` on, in pre-order. -/
def Numbered (first : Nat) : Tree → Prop
  | node id _ children => id = first ∧ NumberedAll (first + 1) children

/-- The nodes of a list of trees bear the numbers from `first` on, in pre-order. -/
def NumberedAll (first : Nat) : List Tree → Prop
  | [] => True
  | tree :: rest => Numbered first tree ∧ NumberedAll (first + tree.size) rest

end

theorem numberedAll_append {first : Nat} {trees others : List Tree} :
    NumberedAll first (trees ++ others) ↔
      NumberedAll first trees ∧ NumberedAll (first + sizeAll trees) others := by
  induction trees generalizing first with
  | nil => simp [NumberedAll, sizeAll]
  | cons tree rest ih =>
    rw [List.cons_append, NumberedAll, NumberedAll, ih, sizeAll, and_assoc, Nat.add_assoc]

theorem sizeAll_append (trees others : List Tree) :
    sizeAll (trees ++ others) = sizeAll trees + sizeAll others := by
  induction trees with
  | nil => simp [sizeAll]
  | cons tree rest ih => rw [List.cons_append, sizeAll, sizeAll, ih, Nat.add_assoc]

theorem sizeAll_singleton (tree : Tree) : sizeAll [tree] = tree.size := by
  rw [sizeAll, sizeAll, Nat.add_zero]

mutual

theorem length_layout (owner : Option Nat) (tree : Tree) :
    (layout owner tree).length = tree.size := by
  match tree with
  | .node id info children =>
    rw [layout, List.length_cons, length_layoutAll (some id) children, size]

theorem length_layoutAll (owner : Option Nat) (trees : List Tree) :
    (layoutAll owner trees).length = sizeAll trees := by
  match trees with
  | [] => rfl
  | tree :: rest =>
    rw [layoutAll, List.length_append, length_layout owner tree, length_layoutAll owner rest,
      sizeAll]

end

mutual

/-- In a numbered tree the numbers grow on the way down. -/
theorem Numbered.ascends {first : Nat} {tree : Tree} (h : tree.Numbered first)
    {owner : Option Nat} (howner : ∀ outer, owner = some outer → outer < first) :
    Ascends first (layout owner tree) := by
  match tree with
  | .node id info children =>
    obtain ⟨rfl, hchildren⟩ := h
    rw [layout]
    refine Ascends.cons howner (NumberedAll.ascends hchildren (fun outer houter => ?_))
    obtain rfl := Option.some.inj houter
    exact Nat.lt_succ_self id

theorem NumberedAll.ascends {first : Nat} {trees : List Tree} (h : NumberedAll first trees)
    {owner : Option Nat} (howner : ∀ outer, owner = some outer → outer < first) :
    Ascends first (layoutAll owner trees) := by
  match trees with
  | [] => exact ascends_nil first
  | tree :: rest =>
    rw [layoutAll]
    refine (Numbered.ascends h.1 howner).append ?_
    rw [length_layout]
    exact NumberedAll.ascends h.2 (fun outer houter =>
      Nat.lt_of_lt_of_le (howner outer houter) (Nat.le_add_right first tree.size))

end

mutual

/-- In a syntax tree, the nodes of this tree hang from the node above them in it, and its root hangs
from `owner`. -/
def HangsFrom (ast : Ast) (owner : Option Nat) : Tree → Prop
  | node id _ children => ast.parent id = owner ∧ HangAllFrom ast (some id) children

def HangAllFrom (ast : Ast) (owner : Option Nat) : List Tree → Prop
  | [] => True
  | tree :: rest => HangsFrom ast owner tree ∧ HangAllFrom ast owner rest

end

mutual

/-- A numbered tree that is laid out in a syntax tree from its number on hangs there. -/
theorem Numbered.hangsFrom {ast : Ast} {first : Nat} {tree : Tree} (h : tree.Numbered first)
    {owner : Option Nat} (hnodes : ∀ (k : Nat) (node : Node), (layout owner tree)[k]? = some node →
      ast.node? (first + k) = some node) : tree.HangsFrom ast owner := by
  match tree with
  | .node id info children =>
    obtain ⟨rfl, hchildren⟩ := h
    rw [layout] at hnodes
    refine ⟨?_, NumberedAll.hangAllFrom hchildren (fun k node hnode => ?_)⟩
    · have hroot := hnodes 0 _ rfl
      rw [Nat.add_zero] at hroot
      rw [Ast.parent, hroot, Option.bind_some]
    · rw [Nat.add_assoc, Nat.add_comm 1 k]
      exact hnodes (k + 1) node hnode

theorem NumberedAll.hangAllFrom {ast : Ast} {first : Nat} {trees : List Tree}
    (h : NumberedAll first trees) {owner : Option Nat}
    (hnodes : ∀ (k : Nat) (node : Node), (layoutAll owner trees)[k]? = some node →
      ast.node? (first + k) = some node) : HangAllFrom ast owner trees := by
  match trees with
  | [] => trivial
  | tree :: rest =>
    rw [layoutAll] at hnodes
    refine ⟨Numbered.hangsFrom h.1 (fun k node hnode => hnodes k node ?_),
      NumberedAll.hangAllFrom h.2 (fun k node hnode => ?_)⟩
    · rw [List.getElem?_append_left (List.getElem?_eq_some_iff.1 hnode).1]
      exact hnode
    · rw [Nat.add_assoc]
      refine hnodes _ node ?_
      rw [← length_layout owner tree, List.getElem?_append_right (Nat.le_add_right _ _),
        Nat.add_sub_cancel_left]
      exact hnode

end

theorem HangAllFrom.parent_id {ast : Ast} {owner : Option Nat} {trees : List Tree}
    (h : HangAllFrom ast owner trees) {tree : Tree} (htree : tree ∈ trees) :
    ast.parent tree.id = owner := by
  induction trees with
  | nil => simp at htree
  | cons first rest ih =>
    obtain ⟨hfirst, hrest⟩ := h
    rcases List.mem_cons.1 htree with rfl | htree
    · cases tree with
      | node id info children => exact hfirst.1
    · exact ih hrest htree

mutual

/-- In a numbered tree that hangs in a syntax tree, the children of a node have it as parent. -/
theorem Numbered.parent_of_child {ast : Ast} {first : Nat} {tree : Tree} (h : tree.Numbered first)
    {owner : Option Nat} (hhang : tree.HangsFrom ast owner) {k child : Nat} {node : Node}
    (hnode : (layout owner tree)[k]? = some node) (hchild : child ∈ node.children) :
    ast.parent child = some (first + k) := by
  match tree with
  | .node id info children =>
    obtain ⟨rfl, hchildren⟩ := h
    rw [layout] at hnode
    cases k with
    | zero =>
      obtain rfl := Option.some.inj hnode
      obtain ⟨below, hbelow, rfl⟩ := List.mem_map.1 hchild
      exact hhang.2.parent_id hbelow
    | succ k =>
      rw [NumberedAll.parent_of_child hchildren hhang.2 hnode hchild, Nat.add_assoc,
        Nat.add_comm 1 k]

theorem NumberedAll.parent_of_child {ast : Ast} {first : Nat} {trees : List Tree}
    (h : NumberedAll first trees) {owner : Option Nat} (hhang : HangAllFrom ast owner trees)
    {k child : Nat} {node : Node} (hnode : (layoutAll owner trees)[k]? = some node)
    (hchild : child ∈ node.children) : ast.parent child = some (first + k) := by
  match trees with
  | [] => simp [layoutAll] at hnode
  | tree :: rest =>
    rw [layoutAll, List.getElem?_append, length_layout] at hnode
    split at hnode
    · exact Numbered.parent_of_child h.1 hhang.1 hnode hchild
    · rename_i hlength
      rw [NumberedAll.parent_of_child h.2 hhang.2 hnode hchild]
      congr 1
      omega

end

end Tree

namespace Ast

variable {ast : Ast}

/-- The nodes are numbered in pre-order. -/
def IsNumbered (ast : Ast) : Prop :=
  ast.tree.Numbered 0

theorem node?_eq (ast : Ast) (id : Nat) : ast.node? id = (ast.tree.layout none)[id]? := by
  rw [node?, ast.nodes_eq, List.getElem?_toArray]

theorem size_eq (ast : Ast) : ast.size = ast.tree.size := by
  rw [size, ast.nodes_eq, List.size_toArray, Tree.length_layout]

theorem IsNumbered.isOrdered (h : ast.IsNumbered) : ast.IsOrdered := by
  intro id outer hparent
  obtain ⟨node, hnode, houter⟩ := Option.bind_eq_some_iff.1 hparent
  rw [node?_eq] at hnode
  have hlt := h.ascends (fun _ hnone => absurd hnone (by simp)) id node outer hnode houter
  rwa [Nat.zero_add] at hlt

theorem IsNumbered.hangsFrom (h : ast.IsNumbered) : ast.tree.HangsFrom ast none := by
  refine Tree.Numbered.hangsFrom h (fun k node hnode => ?_)
  rw [Nat.zero_add, node?_eq, hnode]

/-- A node is the parent of its children. -/
theorem IsNumbered.parent_of_mem_children (h : ast.IsNumbered) {id child : Nat}
    (hchild : child ∈ ast.children id) : ast.parent child = some id := by
  cases hnode : ast.node? id with
  | none => simp [children, hnode] at hchild
  | some node =>
    rw [children, hnode] at hchild
    rw [node?_eq] at hnode
    rw [Tree.Numbered.parent_of_child h h.hangsFrom hnode hchild, Nat.zero_add]

/-- The nodes around a node have smaller numbers, and the farther out they are the smaller. -/
theorem IsOrdered.pairwise_withAncestors (h : ast.IsOrdered) (id : Nat) :
    (ast.withAncestors id).Pairwise (fun inner outer => outer < inner) := by
  induction id using Nat.strongRecOn with
  | ind id ih =>
    rw [withAncestors]
    cases hparent : ast.parent id with
    | none =>
      rw [ancestors_of_parent_eq_none hparent]
      exact List.pairwise_singleton _ _
    | some outer =>
      have hlt := h _ _ hparent
      have hup := ih outer hlt
      rw [h.ancestors_of_parent hparent]
      refine List.Pairwise.cons (fun other hother => ?_) hup
      rcases List.mem_cons.1 hother with rfl | hother
      · exact hlt
      · exact Nat.lt_trans ((List.pairwise_cons.1 hup).1 other hother) hlt

theorem IsOrdered.lt_of_mem_ancestors (h : ast.IsOrdered) {id outer : Nat}
    (houter : outer ∈ ast.ancestors id) : outer < id :=
  (List.pairwise_cons.1 (h.pairwise_withAncestors id)).1 outer houter

/-- What is around a node that is around another is around that one. -/
theorem IsOrdered.mem_ancestors_trans (h : ast.IsOrdered) {id middle outer : Nat}
    (hmiddle : middle ∈ ast.ancestors id) (houter : outer ∈ ast.ancestors middle) :
    outer ∈ ast.ancestors id := by
  induction id using Nat.strongRecOn with
  | ind id ih =>
    cases hparent : ast.parent id with
    | none =>
      rw [ancestors_of_parent_eq_none hparent] at hmiddle
      simp at hmiddle
    | some next =>
      rw [h.ancestors_of_parent hparent] at hmiddle ⊢
      rcases List.mem_cons.1 hmiddle with rfl | hmiddle
      · exact List.mem_cons_of_mem _ houter
      · exact List.mem_cons_of_mem _ (ih next (h _ _ hparent) hmiddle)

/-- Of two nodes around a node, the one of the smaller number is around the other. -/
theorem IsOrdered.mem_ancestors_of_lt (h : ast.IsOrdered) {id middle outer : Nat}
    (hmiddle : middle ∈ ast.ancestors id) (houter : outer ∈ ast.ancestors id)
    (hlt : outer < middle) : outer ∈ ast.ancestors middle := by
  induction id using Nat.strongRecOn with
  | ind id ih =>
    cases hparent : ast.parent id with
    | none =>
      rw [ancestors_of_parent_eq_none hparent] at hmiddle
      simp at hmiddle
    | some next =>
      have hnext := h _ _ hparent
      rw [h.ancestors_of_parent hparent] at hmiddle houter
      rcases List.mem_cons.1 hmiddle with rfl | hmiddle
      · rcases List.mem_cons.1 houter with rfl | houter
        · exact absurd hlt (Nat.lt_irrefl _)
        · exact houter
      · rcases List.mem_cons.1 houter with rfl | houter
        · exact absurd hlt (Nat.not_lt_of_gt (h.lt_of_mem_ancestors hmiddle))
        · exact ih next hnext hmiddle houter

end Ast

/-! ## Lowered trees -/

mutual

theorem numbered_lowerNode (source : String) (cst : Cst) (parent : String) (role : Role)
    (next : Nat) : Tree.NumberedAll next (lowerNode source parent role next cst).1 ∧
      next + Tree.sizeAll (lowerNode source parent role next cst).1 =
        (lowerNode source parent role next cst).2 := by
  match cst with
  | .node kind field start stop children =>
    rw [lowerNode]
    split
    · exact ⟨trivial, rfl⟩
    · exact numbered_lowerAll source children kind _ next
    · exact ⟨⟨⟨rfl, trivial⟩, trivial⟩, rfl⟩
    · obtain ⟨hbelow, htotal⟩ := numbered_lowerAll source children kind none (next + 1)
      refine ⟨⟨⟨rfl, hbelow⟩, trivial⟩, ?_⟩
      rw [Tree.sizeAll_singleton, Tree.size, ← htotal, Nat.add_assoc, Nat.add_comm 1]

theorem numbered_lowerAll (source : String) (children : List Cst) (parent : String)
    (role : Option Role) (next : Nat) :
    Tree.NumberedAll next (lowerAll source parent role next children).1 ∧
      next + Tree.sizeAll (lowerAll source parent role next children).1 =
        (lowerAll source parent role next children).2 := by
  match children with
  | [] => exact ⟨trivial, rfl⟩
  | child :: rest =>
    obtain ⟨hfirst, hlength⟩ := numbered_lowerNode source child parent
      (role.getD (roleFor parent child.field child.kind)) next
    obtain ⟨hrest, htotal⟩ := numbered_lowerAll source rest parent role
      (lowerNode source parent (role.getD (roleFor parent child.field child.kind)) next child).2
    simp only [lowerAll]
    rw [Tree.numberedAll_append, Tree.sizeAll_append, ← Nat.add_assoc, hlength]
    exact ⟨⟨hfirst, hrest⟩, htotal⟩

end

/-- The syntax tree of a text is numbered in pre-order. -/
theorem Ast.isNumbered_lower (source : String) (root : Cst) : (lower source root).IsNumbered := by
  match root with
  | .node kind field start stop children =>
    exact ⟨rfl, (numbered_lowerAll source children kind none 1).1⟩

theorem CompilationUnit.isNumbered_parse (path source : String) (tree : ParseTree) :
    (parse path source tree).ast.IsNumbered :=
  Ast.isNumbered_lower source tree.root

/-! ## Stacks of a traversal -/

namespace Visitor

variable {σ : Type} {ast : Ast}

/-- The nodes that were entered and are still to be left, innermost first. -/
def openIds : List Frame → List Nat
  | [] => []
  | .enter _ :: rest => openIds rest
  | .leave id :: rest => id :: openIds rest

/-- What remains of a traversal in pre-order that has reached `next` nodes. -/
def Remains (ast : Ast) : List Frame → Nat → Prop
  | [], next => next = ast.size
  | .enter tree :: rest, next =>
    tree.Numbered next ∧ tree.HangsFrom ast (openIds rest).head? ∧
      Remains ast rest (next + tree.size)
  | .leave id :: rest, next => ast.parent id = (openIds rest).head? ∧ Remains ast rest next

theorem openIds_enterAll (trees : List Tree) (stack : List Frame) :
    openIds (enterAll trees ++ stack) = openIds stack := by
  induction trees with
  | nil => rfl
  | cons tree rest ih => exact ih

theorem remains_enterAll {trees : List Tree} {stack : List Frame} {next : Nat}
    (hnumbered : Tree.NumberedAll next trees)
    (hhang : Tree.HangAllFrom ast (openIds stack).head? trees)
    (h : Remains ast stack (next + Tree.sizeAll trees)) :
    Remains ast (enterAll trees ++ stack) next := by
  induction trees generalizing next with
  | nil => exact h
  | cons tree rest ih =>
    rw [Tree.sizeAll, ← Nat.add_assoc] at h
    refine ⟨hnumbered.1, ?_, ih hnumbered.2 hhang.2 h⟩
    show Tree.HangsFrom ast (openIds (enterAll rest ++ stack)).head? tree
    rw [openIds_enterAll]
    exact hhang.1

/-- Entering a node leaves the nodes below it and its own end to be done. -/
theorem Remains.enter {id : Nat} {info : NodeInfo} {children : List Tree} {rest : List Frame}
    {next : Nat} (h : Remains ast (.enter (.node id info children) :: rest) next) :
    id = next ∧ ast.parent id = (openIds rest).head? ∧
      Remains ast (enterAll children ++ .leave id :: rest) (next + 1) := by
  obtain ⟨⟨rfl, hchildren⟩, ⟨hparent, hhang⟩, hrest⟩ := h
  refine ⟨rfl, hparent, remains_enterAll hchildren hhang ⟨hparent, ?_⟩⟩
  rwa [Nat.add_assoc, Nat.add_comm 1]

/-- The nodes that are still to be left are the nodes around those that hang from the innermost. -/
theorem Remains.ancestors_eq (hordered : ast.IsOrdered) {stack : List Frame} {next : Nat}
    (h : Remains ast stack next) {id : Nat} (hparent : ast.parent id = (openIds stack).head?) :
    ast.ancestors id = openIds stack := by
  induction stack generalizing next id with
  | nil => exact Ast.ancestors_of_parent_eq_none hparent
  | cons frame rest ih =>
    cases frame with
    | enter tree => exact ih h.2.2 hparent
    | leave outer => rw [hordered.ancestors_of_parent hparent, ih h.2 h.1, openIds]

theorem remains_tree (h : ast.IsNumbered) : Remains ast [.enter ast.tree] 0 :=
  ⟨h, h.hangsFrom, by rw [Remains, Ast.size_eq, Nat.zero_add]⟩

/-! ## What is noted on the way -/

/-- The visitor that notes the nodes it reaches, each with the state before it is entered, the
latest first. -/
def noting (visitor : Visitor σ) : Visitor (σ × List (Nat × σ)) where
  enter noted id :=
    ((visitor.enter noted.1 id).1, ((visitor.enter noted.1 id).2, (id, noted.1) :: noted.2))
  leave noted id := (visitor.leave noted.1 id, noted.2)

/-- Taking notes does not change a traversal. -/
theorem fst_runStack_noting (visitor : Visitor σ) (stack : List Frame)
    (noted : σ × List (Nat × σ)) :
    (visitor.noting.runStack stack noted).1 = visitor.runStack stack noted.1 := by
  fun_induction visitor.noting.runStack stack noted with
  | case1 noted => rw [runStack]
  | case2 id rest noted ih => rw [ih, runStack]; rfl
  | case3 id info children rest noted next hnext ih =>
    obtain ⟨hdescend, rfl⟩ := Prod.mk.inj hnext
    rw [ih, runStack.eq_3 visitor]
    simp only [hdescend, if_true]
  | case4 id info children rest noted descend next hnext hdescend ih =>
    obtain ⟨rfl, rfl⟩ := Prod.mk.inj hnext
    rw [ih, runStack.eq_3 visitor]
    simp [hdescend]

end Visitor

namespace Ast

variable {σ : Type} {ast : Ast} {visitor : Visitor σ} {start : σ}

/-- The nodes that a traversal reaches, each with the state in which it is reached, the latest
first. -/
def noted (ast : Ast) (visitor : Visitor σ) (start : σ) : List (Nat × σ) :=
  (ast.walk visitor.noting (start, [])).2

theorem fst_walk_noting (ast : Ast) (visitor : Visitor σ) (start : σ) :
    (ast.walk visitor.noting (start, [])).1 = ast.walk visitor start :=
  visitor.fst_runStack_noting _ _

/-- A condition on the nodes around a place, the nodes reached before it with their states, and the
state itself that entering and leaving a node keep. -/
structure Carries (ast : Ast) (visitor : Visitor σ)
    (holds : List Nat → List (Nat × σ) → σ → Prop) : Prop where
  enter : ∀ {id : Nat} {earlier : List (Nat × σ)} {state : σ},
    earlier.map Prod.fst = (List.range id).reverse → holds (ast.ancestors id) earlier state →
    holds (id :: ast.ancestors id) ((id, state) :: earlier) (visitor.enter state id).2
  leave : ∀ {id : Nat} {earlier : List (Nat × σ)} {state : σ},
    holds (id :: ast.ancestors id) earlier state →
    holds (ast.ancestors id) earlier (visitor.leave state id)

/-- The notes of a traversal are in order: each node was reached after all nodes of smaller numbers,
in a state that fits the nodes around it and the notes before. -/
inductive NotesHold (ast : Ast) (holds : List Nat → List (Nat × σ) → σ → Prop) :
    List (Nat × σ) → Prop
  | nil : NotesHold ast holds []
  | cons {earlier : List (Nat × σ)} {state : σ} (hearlier : NotesHold ast holds earlier)
      (hholds : holds (ast.ancestors earlier.length) earlier state) :
      NotesHold ast holds ((earlier.length, state) :: earlier)

variable {holds : List Nat → List (Nat × σ) → σ → Prop} {notes : List (Nat × σ)}

theorem NotesHold.map_fst (h : ast.NotesHold holds notes) :
    notes.map Prod.fst = (List.range notes.length).reverse := by
  induction h with
  | nil => rfl
  | cons _ _ ih =>
    rw [List.map_cons, ih, List.length_cons, List.range_succ, List.reverse_append]
    rfl

/-- Before a node the nodes of smaller numbers were reached. -/
theorem NotesHold.exists_earlier (h : ast.NotesHold holds notes) {id : Nat} {state : σ}
    (hmem : (id, state) ∈ notes) : ∃ earlier : List (Nat × σ),
      earlier.map Prod.fst = (List.range id).reverse ∧ holds (ast.ancestors id) earlier state ∧
      ∀ note, note ∈ earlier ↔ note ∈ notes ∧ note.1 < id := by
  induction h with
  | nil => simp at hmem
  | @cons earlier last hearlier hholds ih =>
    have hids := hearlier.map_fst
    have hbound : ∀ note ∈ earlier, note.1 < earlier.length := by
      intro note hnote
      have hid := List.mem_map_of_mem (f := Prod.fst) hnote
      rw [hids] at hid
      simpa using hid
    rcases List.mem_cons.1 hmem with hlast | hold
    · obtain ⟨rfl, rfl⟩ := Prod.mk.inj hlast
      refine ⟨earlier, hids, hholds, fun note => ⟨fun hnote => ?_, ?_⟩⟩
      · exact ⟨List.mem_cons_of_mem _ hnote, hbound note hnote⟩
      · rintro ⟨hnote, hlt⟩
        rcases List.mem_cons.1 hnote with rfl | hnote
        · exact absurd hlt (Nat.lt_irrefl _)
        · exact hnote
    · obtain ⟨before, hbefore, hstate, hiff⟩ := ih hold
      refine ⟨before, hbefore, hstate, fun note => ?_⟩
      rw [hiff, List.mem_cons]
      refine ⟨fun hnote => ⟨Or.inr hnote.1, hnote.2⟩, ?_⟩
      rintro ⟨rfl | hnote, hlt⟩
      · exact absurd (Nat.lt_trans hlt (hbound _ hold)) (Nat.lt_irrefl _)
      · exact ⟨hnote, hlt⟩

/-- What is carried along a traversal that skips nothing holds in its notes and in the end. -/
theorem Carries.notesHold_runStack (hcarries : ast.Carries visitor holds)
    (hordered : ast.IsOrdered) (hdescend : ∀ state id, (visitor.enter state id).1 = true)
    (stack : List Visitor.Frame) (now : σ × List (Nat × σ))
    (hremains : Visitor.Remains ast stack now.2.length) (hnotes : ast.NotesHold holds now.2)
    (hholds : holds (Visitor.openIds stack) now.2 now.1) :
    (ast.NotesHold holds (visitor.noting.runStack stack now).2 ∧
      (visitor.noting.runStack stack now).2.length = ast.size) ∧
      holds [] (visitor.noting.runStack stack now).2 (visitor.noting.runStack stack now).1 := by
  fun_induction visitor.noting.runStack stack now with
  | case1 now => exact ⟨⟨hnotes, hremains⟩, hholds⟩
  | case2 id rest now ih =>
    have haround := Visitor.Remains.ancestors_eq hordered hremains.2 hremains.1
    refine ih hremains.2 hnotes ?_
    rw [← haround]
    refine hcarries.leave ?_
    rw [haround]
    exact hholds
  | case3 id info children rest now next hnext ih =>
    obtain ⟨-, rfl⟩ := Prod.mk.inj hnext
    obtain ⟨rfl, hparent, hbelow⟩ := hremains.enter
    have haround := Visitor.Remains.ancestors_eq hordered hremains.2.2 hparent
    have hhere : holds (ast.ancestors now.2.length) now.2 now.1 := by
      rw [haround]
      exact hholds
    refine ih hbelow (.cons hnotes hhere) ?_
    rw [Visitor.openIds_enterAll, Visitor.openIds, ← haround]
    exact hcarries.enter hnotes.map_fst hhere
  | case4 id info children rest now descend next hnext hskip ih =>
    obtain ⟨rfl, -⟩ := Prod.mk.inj hnext
    exact absurd (hdescend now.1 id) hskip

/-- A traversal that skips nothing reaches every node, in pre-order, in a state that fits the nodes
around it and the nodes before it. -/
theorem IsNumbered.notesHold_noted (h : ast.IsNumbered)
    (hdescend : ∀ state id, (visitor.enter state id).1 = true)
    (hcarries : ast.Carries visitor holds) (hstart : holds [] [] start) :
    ast.NotesHold holds (ast.noted visitor start) ∧ (ast.noted visitor start).length = ast.size :=
  (hcarries.notesHold_runStack h.isOrdered hdescend [.enter ast.tree] (start, [])
    (Visitor.remains_tree h) .nil hstart).1

/-- What is carried along a traversal that skips nothing holds when everything has been left. -/
theorem IsNumbered.holds_walk (h : ast.IsNumbered)
    (hdescend : ∀ state id, (visitor.enter state id).1 = true)
    (hcarries : ast.Carries visitor holds) (hstart : holds [] [] start) :
    holds [] (ast.noted visitor start) (ast.walk visitor start) := by
  have hend := (hcarries.notesHold_runStack h.isOrdered hdescend [.enter ast.tree] (start, [])
    (Visitor.remains_tree h) .nil hstart).2
  rw [← fst_walk_noting]
  exact hend

end Ast

end CodeAtlas.Source
