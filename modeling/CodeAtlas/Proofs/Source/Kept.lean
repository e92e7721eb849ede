/-
# Concrete nodes that a syntax tree keeps

Lowering drops some nodes of a concrete tree and puts the nodes below others in their place.  Every
node of the syntax tree but its root was kept for a concrete node: it has the kind and role that this
node was given and stands in its place, and its children were kept for the concrete nodes that are
left below that one, in the same order.
-/
import CodeAtlas.Proofs.Source.Preorder
import Mathlib.Data.List.Forall2

namespace CodeAtlas.Source

/-! ## What is kept -/

/-- What is found first on one side is related to what is found first on the other. -/
theorem rel_find?_of_forall₂ {α β : Type} {R : α → β → Prop} {p : α → Bool} {q : β → Bool}
    {xs : List α} {ys : List β} (h : List.Forall₂ R xs ys) (hpq : ∀ x y, R x y → p x = q y) :
    Option.Rel R (xs.find? p) (ys.find? q) := by
  induction h with
  | nil => exact .none
  | @cons x y _ _ hxy _ ih =>
    rw [List.find?_cons, List.find?_cons, ← hpq x y hxy]
    cases p x with
    | true => exact .some hxy
    | false => exact ih

theorem exists_of_rel_left {α β : Type} {R : α → β → Prop} {x : α} {found : Option β}
    (h : Option.Rel R (some x) found) : ∃ y, found = some y ∧ R x y := by
  cases h with
  | some hxy => exact ⟨_, rfl, hxy⟩

theorem eq_none_of_rel_none {α β : Type} {R : α → β → Prop} {found : Option β}
    (h : Option.Rel R none found) : found = none := by
  cases h
  rfl

theorem rel_or {α β : Type} {R : α → β → Prop} {first second : Option α} {found other : Option β}
    (h : Option.Rel R first found) (h' : Option.Rel R second other) :
    Option.Rel R (first.or second) (found.or other) := by
  cases h with
  | some hxy => exact .some hxy
  | none => exact h'

theorem Cst.Below.trans {inner middle outer : Cst} (h : Below inner middle)
    (h' : Below middle outer) : Below inner outer := by
  induction h' with
  | child hmem => exact .deeper hmem h
  | deeper hmem _ ih => exact .deeper hmem ih

/-- The concrete nodes below a concrete node. -/
def Cst.children : Cst → List Cst
  | .node _ _ _ _ children => children

/-- A concrete node that is kept.  Nothing below a leaf is kept. -/
structure Kept where
  kind : Kind
  role : Role
  isLeaf : Bool
  node : Cst

mutual

/-- The nodes that are kept of a concrete node: the node itself or, where it is flattened, nodes below
it. -/
def keptNode (source parent : String) (role : Role) : Cst → List Kept
  | .node kind field start stop children =>
    match classify parent kind ((Text.sliceBytes? source start stop).getD "") with
    | .skip => []
    | .flatten inner => keptAll source kind (some (inner.getD role)) children
    | .leaf kept => [⟨kept, role, true, .node kind field start stop children⟩]
    | .keep kept => [⟨kept, role, false, .node kind field start stop children⟩]

/-- The nodes that are kept of concrete nodes below a node of kind `parent`. -/
def keptAll (source parent : String) (role : Option Role) : List Cst → List Kept
  | [] => []
  | child :: rest =>
    keptNode source parent (role.getD (roleFor parent child.field child.kind)) child ++
      keptAll source parent role rest

end

mutual

theorem below_of_mem_keptNode {source : String} {kept : Kept} {cst : Cst} {parent : String}
    {role : Role} (h : kept ∈ keptNode source parent role cst) :
    kept.node = cst ∨ kept.node.Below cst := by
  match cst with
  | .node kind field start stop children =>
    rw [keptNode] at h
    split at h
    · simp at h
    · obtain ⟨child, hchild, hbelow⟩ := below_of_mem_keptAll h
      exact Or.inr (Cst.below_node_iff.2 ⟨child, hchild, hbelow⟩)
    all_goals exact Or.inl (by rw [List.mem_singleton.1 h])

theorem below_of_mem_keptAll {source : String} {kept : Kept} {children : List Cst} {parent : String}
    {role : Option Role} (h : kept ∈ keptAll source parent role children) :
    ∃ child ∈ children, kept.node = child ∨ kept.node.Below child := by
  match children with
  | [] => simp [keptAll] at h
  | child :: rest =>
    rw [keptAll, List.mem_append] at h
    rcases h with hfirst | hrest
    · exact ⟨child, List.mem_cons_self, below_of_mem_keptNode hfirst⟩
    · obtain ⟨other, hother, hbelow⟩ := below_of_mem_keptAll hrest
      exact ⟨other, List.mem_cons_of_mem _ hother, hbelow⟩

end

/-- The nodes that are kept below a node. -/
def Kept.below (source : String) (kept : Kept) : List Kept :=
  if kept.isLeaf then [] else keptAll source kept.node.kind none kept.node.children

theorem Kept.below_of_mem_below {source : String} {kept inner : Kept}
    (h : inner ∈ kept.below source) : inner.node.Below kept.node := by
  rw [below] at h
  split at h
  · simp at h
  · obtain ⟨kind, role, isLeaf, node⟩ := kept
    cases node with
    | node nodeKind field start stop children =>
      exact Cst.below_node_iff.2 (below_of_mem_keptAll h)

/-- The tree that a node is lowered to. -/
def Kept.Becomes (source : String) (kept : Kept) (tree : Tree) : Prop :=
  tree.info = ⟨kept.kind, kept.role, kept.node.span⟩ ∧
    tree.children =
      if kept.isLeaf then []
      else (lowerAll source kept.node.kind none (tree.id + 1) kept.node.children).1

mutual

theorem forall₂_becomes_lowerNode (source : String) (cst : Cst) (parent : String) (role : Role)
    (next : Nat) :
    List.Forall₂ (Kept.Becomes source) (keptNode source parent role cst)
      (lowerNode source parent role next cst).1 := by
  match cst with
  | .node kind field start stop children =>
    rw [keptNode, lowerNode]
    cases classify parent kind ((Text.sliceBytes? source start stop).getD "") with
    | skip => exact .nil
    | flatten inner => exact forall₂_becomes_lowerAll source children kind _ next
    | leaf kept => exact .cons ⟨rfl, rfl⟩ .nil
    | keep kept => exact .cons ⟨rfl, rfl⟩ .nil

theorem forall₂_becomes_lowerAll (source : String) (children : List Cst) (parent : String)
    (role : Option Role) (next : Nat) :
    List.Forall₂ (Kept.Becomes source) (keptAll source parent role children)
      (lowerAll source parent role next children).1 := by
  match children with
  | [] => exact .nil
  | child :: rest =>
    rw [keptAll]
    simp only [lowerAll]
    exact List.rel_append (forall₂_becomes_lowerNode source child parent _ next)
      (forall₂_becomes_lowerAll source rest parent role _)

end

/-- The children of the tree of a node are the trees of the nodes that are kept below it. -/
theorem Kept.Becomes.children {source : String} {kept : Kept} {tree : Tree}
    (h : kept.Becomes source tree) :
    List.Forall₂ (Kept.Becomes source) (kept.below source) tree.children := by
  rw [h.2, Kept.below]
  cases kept.isLeaf with
  | true => exact .nil
  | false => exact forall₂_becomes_lowerAll source _ _ none _

/-! ## Trees inside a tree -/

/-- The first tree is the second or stands inside it. -/
inductive Tree.Within : Tree → Tree → Prop
  | self (tree : Tree) : Within tree tree
  | child {id : Nat} {info : NodeInfo} {children : List Tree} {inner outer : Tree}
      (hmem : outer ∈ children) (h : Within inner outer) : Within inner (.node id info children)

theorem Tree.Within.trans {inner middle outer : Tree} (h : inner.Within middle)
    (h' : middle.Within outer) : inner.Within outer := by
  induction h' with
  | self _ => exact h
  | child hmem _ ih => exact .child hmem (ih h)

theorem Tree.within_of_mem_children {child tree : Tree} (h : child ∈ tree.children) :
    child.Within tree := by
  cases tree with
  | node id info children => exact .child h (.self child)

namespace Tree

mutual

theorem within_of_find? {target : Nat} {tree inner : Tree} (h : tree.find? target = some inner) :
    inner.Within tree ∧ inner.id = target := by
  match tree with
  | .node id info children =>
    rw [find?] at h
    split at h
    · rename_i hid
      obtain rfl := Option.some.inj h
      exact ⟨.self _, hid⟩
    · obtain ⟨outer, houter, hwithin, hid⟩ := within_of_findAll? h
      exact ⟨.child houter hwithin, hid⟩

theorem within_of_findAll? {target : Nat} {trees : List Tree} {inner : Tree}
    (h : findAll? target trees = some inner) :
    ∃ outer ∈ trees, inner.Within outer ∧ inner.id = target := by
  match trees with
  | [] => simp [findAll?] at h
  | tree :: rest =>
    rw [findAll?] at h
    split at h
    · rename_i found hfound
      obtain rfl := Option.some.inj h
      exact ⟨tree, List.mem_cons_self, within_of_find? hfound⟩
    · obtain ⟨outer, houter, hinner⟩ := within_of_findAll? h
      exact ⟨outer, List.mem_cons_of_mem _ houter, hinner⟩

end

/-- What a tree says of the node at its root. -/
def Describes (tree : Tree) (node : Node) : Prop :=
  node.kind = tree.info.kind ∧ node.role = tree.info.role ∧ node.span = tree.info.span ∧
    node.children = tree.children.map id

/-- One of several numbered trees is laid out among them from its own number on. -/
theorem NumberedAll.exists_offset {first : Nat} {trees : List Tree} (h : NumberedAll first trees)
    (owner : Option Nat) {tree : Tree} (htree : tree ∈ trees) :
    ∃ offset, tree.Numbered (first + offset) ∧ ∀ (k : Nat) (node : Node),
      (layout owner tree)[k]? = some node → (layoutAll owner trees)[offset + k]? = some node := by
  induction trees generalizing first with
  | nil => simp at htree
  | cons other rest ih =>
    obtain ⟨hother, hrest⟩ := h
    rw [layoutAll]
    rcases List.mem_cons.1 htree with rfl | htree
    · refine ⟨0, hother, fun k node hnode => ?_⟩
      rw [Nat.zero_add, List.getElem?_append_left (List.getElem?_eq_some_iff.1 hnode).1]
      exact hnode
    · obtain ⟨offset, hnumbered, hlaid⟩ := ih hrest htree
      refine ⟨other.size + offset, by rwa [← Nat.add_assoc], fun k node hnode => ?_⟩
      rw [← length_layout owner other, Nat.add_assoc,
        List.getElem?_append_right (Nat.le_add_right _ _), Nat.add_sub_cancel_left]
      exact hlaid k node hnode

/-- In a numbered tree, the trees inside tell the nodes that are laid out. -/
theorem Within.describes {inner tree : Tree} (hinner : inner.Within tree) {first : Nat}
    (h : tree.Numbered first) (owner : Option Nat) : ∃ offset node, inner.id = first + offset ∧
      (layout owner tree)[offset]? = some node ∧ inner.Describes node := by
  induction hinner generalizing first owner with
  | self tree =>
    cases tree with
    | node id info children =>
      rw [layout]
      exact ⟨0, _, h.1, rfl, rfl, rfl, rfl, rfl⟩
  | @child id info children inner outer hmem _ ih =>
    obtain ⟨rfl, hchildren⟩ := h
    obtain ⟨before, hnumbered, hlaid⟩ := hchildren.exists_offset (some id) hmem
    obtain ⟨offset, node, hid, hnode, hdescribes⟩ := ih hnumbered (some id)
    refine ⟨before + offset + 1, node, by omega, ?_, hdescribes⟩
    rw [layout]
    exact hlaid offset node hnode

mutual

/-- In a numbered tree, every node that is laid out is that of a tree inside. -/
theorem Numbered.exists_within {first : Nat} {tree : Tree} (h : tree.Numbered first)
    {owner : Option Nat} {offset : Nat} {node : Node}
    (hnode : (layout owner tree)[offset]? = some node) :
    ∃ inner : Tree, inner.Within tree ∧ inner.id = first + offset := by
  match tree with
  | .node id info children =>
    obtain ⟨rfl, hchildren⟩ := h
    rw [layout] at hnode
    cases offset with
    | zero => exact ⟨_, .self _, rfl⟩
    | succ offset =>
      obtain ⟨outer, houter, inner, hwithin, hid⟩ := NumberedAll.exists_within hchildren hnode
      exact ⟨inner, .child houter hwithin, by omega⟩

theorem NumberedAll.exists_within {first : Nat} {trees : List Tree} (h : NumberedAll first trees)
    {owner : Option Nat} {offset : Nat} {node : Node}
    (hnode : (layoutAll owner trees)[offset]? = some node) :
    ∃ outer ∈ trees, ∃ inner : Tree, inner.Within outer ∧ inner.id = first + offset := by
  match trees with
  | [] => simp [layoutAll] at hnode
  | tree :: rest =>
    rw [layoutAll, List.getElem?_append, length_layout] at hnode
    split at hnode
    · exact ⟨tree, List.mem_cons_self, Numbered.exists_within h.1 hnode⟩
    · obtain ⟨outer, houter, inner, hwithin, hid⟩ := NumberedAll.exists_within h.2 hnode
      exact ⟨outer, List.mem_cons_of_mem _ houter, inner, hwithin, by omega⟩

end

end Tree

/-! ## Nodes of the syntax tree -/

namespace Ast

variable {ast : Ast}

/-- A node of a syntax tree was kept for a concrete node. -/
def Holds (ast : Ast) (kept : Kept) (id : Nat) : Prop :=
  ∃ tree, tree.Within ast.tree ∧ tree.id = id ∧ kept.Becomes ast.source tree

theorem IsNumbered.exists_node?_of_holds (h : ast.IsNumbered) {kept : Kept} {id : Nat}
    (hholds : ast.Holds kept id) :
    ∃ node, ast.node? id = some node ∧ node.kind = kept.kind ∧ node.role = kept.role ∧
      node.span = kept.node.span ∧
      List.Forall₂ ast.Holds (kept.below ast.source) node.children := by
  obtain ⟨tree, hwithin, rfl, hbecomes⟩ := hholds
  obtain ⟨offset, node, hid, hnode, hkind, hrole, hspan, hchildren⟩ := hwithin.describes h none
  rw [hbecomes.1] at hkind hrole hspan
  refine ⟨node, by rw [node?_eq, hid, Nat.zero_add, hnode], hkind, hrole, hspan, ?_⟩
  rw [hchildren, List.forall₂_map_right_iff]
  have hinside : ∀ child ∈ tree.children, child.Within ast.tree := fun child hchild =>
    (Tree.within_of_mem_children hchild).trans hwithin
  refine ((List.forall₂_and_left _ _).2 ⟨hinside, hbecomes.children.flip⟩).flip.imp ?_
  rintro below child ⟨hchild, hbelow⟩
  exact ⟨child, hchild, rfl, hbelow⟩

end Ast

end CodeAtlas.Source
