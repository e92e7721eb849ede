/-
# Source order

In a text, the nodes of a concrete tree stand inside the nodes above them, one after the other.
Lowering drops nodes and puts others in the place of the nodes above them, but it never moves one past
another.  So the syntax tree lists the nodes of the text in pre-order, each once below its parent, and
their places follow each other the way their numbers do.

A search looks at the nodes of a unit by their numbers and takes some of them.  Whatever it looks for,
the nodes it finds are therefore among the nodes of the unit in their order, no node twice, and their
places start in this order as well.
-/
import CodeAtlas.Proofs.Query.Screening
import CodeAtlas.Proofs.Source.Kept

namespace CodeAtlas

namespace Source

/-! ## Trees in source order -/

mutual

/-- The nodes of a concrete tree stand inside the nodes above them and one after the other. -/
def Cst.InOrder : Cst → Prop
  | .node _ _ start stop children => InOrderBetween start stop children

/-- Concrete trees stand one after the other between two offsets. -/
def Cst.InOrderBetween (start stop : Nat) : List Cst → Prop
  | [] => start ≤ stop
  | tree :: rest =>
    start ≤ tree.span.start ∧ tree.InOrder ∧ InOrderBetween tree.span.stop stop rest

end

namespace Tree

mutual

/-- The nodes of a tree stand inside the nodes above them and one after the other. -/
def InOrder : Tree → Prop
  | .node _ info children => InOrderBetween info.span.start info.span.stop children

/-- Trees stand one after the other between two offsets. -/
def InOrderBetween (start stop : Nat) : List Tree → Prop
  | [] => start ≤ stop
  | tree :: rest =>
    start ≤ tree.info.span.start ∧ tree.InOrder ∧ InOrderBetween tree.info.span.stop stop rest

end

theorem start_le_stop (tree : Tree) : tree.info.span.start ≤ tree.info.span.stop := by
  unfold Span.stop
  omega

namespace InOrderBetween

variable {start stop : Nat} {trees : List Tree}

theorem of_le (h : InOrderBetween start stop trees) {first : Nat} (hfirst : first ≤ start) :
    InOrderBetween first stop trees := by
  cases trees with
  | nil => exact Nat.le_trans hfirst h
  | cons tree rest => exact ⟨Nat.le_trans hfirst h.1, h.2⟩

theorem le (h : InOrderBetween start stop trees) : start ≤ stop := by
  induction trees generalizing start with
  | nil => exact h
  | cons tree rest ih => exact Nat.le_trans h.1 (Nat.le_trans tree.start_le_stop (ih h.2.2))

theorem append {middle : Nat} {others : List Tree} (h : InOrderBetween start middle trees)
    (hothers : InOrderBetween middle stop others) : InOrderBetween start stop (trees ++ others) := by
  induction trees generalizing start with
  | nil => exact hothers.of_le h
  | cons tree rest ih => exact ⟨h.1, h.2.1, ih h.2.2⟩

theorem inOrder (h : InOrderBetween start stop trees) {tree : Tree} (htree : tree ∈ trees) :
    tree.InOrder ∧ start ≤ tree.info.span.start ∧ tree.info.span.stop ≤ stop := by
  induction trees generalizing start with
  | nil => simp at htree
  | cons first rest ih =>
    rcases List.mem_cons.1 htree with rfl | htree
    · exact ⟨h.2.1, h.1, h.2.2.le⟩
    · obtain ⟨hinner, hstart, hstop⟩ := ih h.2.2 htree
      exact ⟨hinner, Nat.le_trans h.1 (Nat.le_trans first.start_le_stop hstart), hstop⟩

end InOrderBetween

/-- Every tree inside a tree in source order is in source order. -/
theorem Within.inOrder {inner tree : Tree} (hinner : inner.Within tree) (h : tree.InOrder) :
    inner.InOrder := by
  induction hinner with
  | self tree => exact h
  | child hmem _ ih => exact ih (InOrderBetween.inOrder h hmem).1

end Tree

/-! ## Lowering keeps the order -/

/-- A place that does not end before it starts ends where it should. -/
theorem Span.stop_mk {start stop : Nat} (h : start ≤ stop) :
    (⟨start, stop - start⟩ : Span).stop = stop :=
  Nat.add_sub_of_le h

mutual

/-- What a concrete node in source order is lowered to stands in order inside it. -/
theorem inOrderBetween_lowerNode (source : String) {cst : Cst} (h : cst.InOrder) (parent : String)
    (role : Role) (next : Nat) :
    Tree.InOrderBetween cst.span.start cst.span.stop (lowerNode source parent role next cst).1 := by
  match cst with
  | .node kind field start stop children =>
    have hbelow : ∀ role next,
        Tree.InOrderBetween start stop (lowerAll source kind role next children).1 :=
      inOrderBetween_lowerAll source h kind
    have hle : start ≤ stop := (hbelow none next).le
    rw [lowerNode, Cst.span, Span.stop_mk hle]
    split
    · exact hle
    · exact hbelow _ next
    · rename_i kept _
      have hself := Span.stop_mk hle
      -- A leaf has nothing below it, so its own place is all there is to fit in.
      refine ⟨Nat.le_refl start, ?_, Nat.le_of_eq hself⟩
      exact Tree.start_le_stop (.node next ⟨kept, role, ⟨start, stop - start⟩⟩ [])
    · have hself := Span.stop_mk hle
      refine ⟨Nat.le_refl start, ?_, Nat.le_of_eq hself⟩
      show Tree.InOrderBetween start (Span.stop ⟨start, stop - start⟩) _
      rw [hself]
      exact hbelow none (next + 1)

/-- What concrete trees that stand one after the other are lowered to does so as well. -/
theorem inOrderBetween_lowerAll (source : String) {start stop : Nat} {children : List Cst}
    (h : Cst.InOrderBetween start stop children) (parent : String) (role : Option Role)
    (next : Nat) :
    Tree.InOrderBetween start stop (lowerAll source parent role next children).1 := by
  match children with
  | [] => exact h
  | child :: rest =>
    obtain ⟨hstart, hchild, hrest⟩ := h
    simp only [lowerAll]
    have hfirst := inOrderBetween_lowerNode source hchild parent
      (role.getD (roleFor parent child.field child.kind)) next
    exact (hfirst.of_le hstart).append (inOrderBetween_lowerAll source hrest parent role _)

end

/-- The tree of a text whose concrete tree is in source order is in source order. -/
theorem inOrder_tree_lower (source : String) {root : Cst} (h : root.InOrder) :
    (lower source root).tree.InOrder := by
  match root with
  | .node kind field start stop children =>
    have hbelow := inOrderBetween_lowerAll source h kind none 1
    show Tree.InOrderBetween start (Span.stop ⟨start, stop - start⟩) _
    rw [Span.stop_mk hbelow.le]
    exact hbelow

/-! ## Places in pre-order -/

namespace Tree

/-- Nodes whose places start in order between two offsets. -/
structure StartInOrder (start stop : Nat) (nodes : List Node) : Prop where
  bounds : ∀ node ∈ nodes, start ≤ node.span.start ∧ node.span.stop ≤ stop
  pairwise : nodes.Pairwise (fun first second => first.span.start ≤ second.span.start)

mutual

/-- The nodes of a tree in source order start in the order in which they are laid out. -/
theorem InOrder.startInOrder {tree : Tree} (h : tree.InOrder) (owner : Option Nat) :
    StartInOrder tree.info.span.start tree.info.span.stop (layout owner tree) := by
  match tree with
  | .node id info children =>
    have hbelow := InOrderBetween.startInOrder h (some id)
    rw [layout]
    constructor
    · intro node hnode
      rcases List.mem_cons.1 hnode with rfl | hnode
      · exact ⟨Nat.le_refl _, Nat.le_refl _⟩
      · exact hbelow.bounds node hnode
    · exact List.Pairwise.cons (fun node hnode => (hbelow.bounds node hnode).1) hbelow.pairwise

theorem InOrderBetween.startInOrder {start stop : Nat} {trees : List Tree}
    (h : InOrderBetween start stop trees) (owner : Option Nat) :
    StartInOrder start stop (layoutAll owner trees) := by
  match trees with
  | [] => exact ⟨fun node hnode => by simp [layoutAll] at hnode, List.Pairwise.nil⟩
  | tree :: rest =>
    obtain ⟨hstart, htree, hrest⟩ := h
    have hstop := hrest.le
    have hfirst := InOrder.startInOrder htree owner
    have hothers := InOrderBetween.startInOrder hrest owner
    rw [layoutAll]
    constructor
    · intro node hnode
      rcases List.mem_append.1 hnode with hnode | hnode
      · have hbounds := hfirst.bounds node hnode
        omega
      · have hbounds := hothers.bounds node hnode
        have hle := tree.start_le_stop
        omega
    · refine List.pairwise_append.2 ⟨hfirst.pairwise, hothers.pairwise, ?_⟩
      intro node hnode other hother
      -- What comes from the first tree ends before the second tree starts.
      have hends := (hfirst.bounds node hnode).2
      have hstarts := (hothers.bounds other hother).1
      unfold Span.stop at hends hstarts
      omega

end

/-! ## Parents and children -/

/-- A tree inside another is the whole of it or hangs from a tree inside it. -/
theorem Within.eq_or_mem_children {inner tree : Tree} (h : inner.Within tree) :
    inner = tree ∨ ∃ outer : Tree, outer.Within tree ∧ inner ∈ outer.children := by
  induction h with
  | self tree => exact Or.inl rfl
  | @child id info children inner next hmem _ ih =>
    right
    rcases ih with rfl | ⟨outer, houter, hinner⟩
    · exact ⟨.node id info children, .self _, hmem⟩
    · exact ⟨outer, .child hmem houter, hinner⟩

/-- Trees inside a numbered tree are numbered from some number on. -/
theorem Within.exists_numbered {inner tree : Tree} (hinner : inner.Within tree) {first : Nat}
    (h : tree.Numbered first) : ∃ next, inner.Numbered next := by
  induction hinner generalizing first with
  | self tree => exact ⟨first, h⟩
  | child hmem _ ih =>
    obtain ⟨offset, hnumbered, -⟩ := h.2.exists_offset none hmem
    exact ih hnumbered

/-- Trees that are numbered one after the other have different numbers, none below the first. -/
theorem NumberedAll.nodup {first : Nat} {trees : List Tree} (h : NumberedAll first trees) :
    (∀ tree ∈ trees, first ≤ tree.id) ∧ (trees.map id).Nodup := by
  induction trees generalizing first with
  | nil => exact ⟨fun tree htree => by simp at htree, List.nodup_nil⟩
  | cons tree rest ih =>
    obtain ⟨⟩ := tree
    rename_i number info children
    obtain ⟨⟨rfl, -⟩, hrest⟩ := h
    obtain ⟨hbound, hnodup⟩ := ih hrest
    constructor
    · intro other hother
      rcases List.mem_cons.1 hother with rfl | hother
      · exact Nat.le_refl _
      · exact Nat.le_trans (Nat.le_add_right _ _) (hbound other hother)
    · refine List.nodup_cons.2 ⟨fun hmem => ?_, hnodup⟩
      obtain ⟨other, hother, hid⟩ := List.mem_map.1 hmem
      have hle := hbound other hother
      rw [hid, size, id] at hle
      omega

end Tree

namespace Ast

variable {ast : Ast}

/-- Every node of a numbered tree is that of a tree inside. -/
theorem IsNumbered.exists_within (h : ast.IsNumbered) {id : Nat} (hid : id < ast.size) :
    ∃ tree : Tree, tree.Within ast.tree ∧ tree.id = id := by
  have hlength : id < (ast.tree.layout none).length := by
    rwa [Tree.length_layout, ← size_eq]
  obtain ⟨tree, hwithin, htree⟩ :=
    Tree.Numbered.exists_within h (List.getElem?_eq_getElem hlength)
  exact ⟨tree, hwithin, by rw [htree, Nat.zero_add]⟩

/-- A tree inside a numbered tree tells where its root is and what is below it. -/
theorem IsNumbered.span_and_children (h : ast.IsNumbered) {tree : Tree}
    (hwithin : tree.Within ast.tree) :
    ast.span tree.id = tree.info.span ∧ ast.children tree.id = tree.children.map Tree.id := by
  obtain ⟨offset, node, hid, hnode, -, -, hspan, hchildren⟩ := hwithin.describes h none
  have hfound : ast.node? tree.id = some node := by
    rw [node?_eq, hid, Nat.zero_add, hnode]
  unfold span children
  rw [hfound, ← hspan, ← hchildren]
  exact ⟨rfl, rfl⟩

/-- The numbers of the nodes around each other: a node comes before its children, every node but the
first is listed once, as a child of its parent, and a traversal that skips nothing visits the nodes in
the order of their numbers. -/
structure InPreorder (ast : Ast) : Prop where
  lt_child : ∀ id, ∀ child ∈ ast.children id, id < child
  parent_zero : ast.parent 0 = none
  listed_once : ∀ id, 0 < id → id < ast.size → ∃ outer, ast.parent id = some outer ∧
    ∀ other, (ast.children other).count id = if other = outer then 1 else 0
  visited : ∀ {σ : Type} (visitor : Visitor σ) (start : σ),
    (∀ state id, (visitor.enter state id).1 = true) →
    ((ast.noted visitor start).map Prod.fst).reverse = ast.ids

/-- The places of nodes are those of nodes in pre-order: inside the places of their parents, and
starting in the order of their numbers. -/
structure SpansInOrder (ast : Ast) : Prop where
  inside : ∀ id outer, ast.parent id = some outer →
    (ast.span outer).start ≤ (ast.span id).start ∧ (ast.span id).stop ≤ (ast.span outer).stop
  start_le : ∀ first second, first ≤ second → second < ast.size →
    (ast.span first).start ≤ (ast.span second).start

/-- No node lists a child twice. -/
theorem IsNumbered.nodup_children (h : ast.IsNumbered) (id : Nat) : (ast.children id).Nodup := by
  by_cases hid : id < ast.size
  · obtain ⟨tree, hwithin, rfl⟩ := h.exists_within hid
    obtain ⟨next, hnumbered⟩ := hwithin.exists_numbered h
    rw [(h.span_and_children hwithin).2]
    cases tree with
    | node number info children => exact hnumbered.2.nodup.2
  · have hnone : ast.node? id = none := Array.getElem?_eq_none (Nat.le_of_not_lt hid)
    unfold children
    rw [hnone]
    exact List.nodup_nil

/-- A node but the first is the root of a tree that hangs from another. -/
theorem IsNumbered.exists_parent (h : ast.IsNumbered) {id : Nat} (hpos : 0 < id)
    (hid : id < ast.size) : ∃ tree outer : Tree, tree.id = id ∧ tree.Within ast.tree ∧
      outer.Within ast.tree ∧ tree ∈ outer.children ∧ ast.parent id = some outer.id := by
  obtain ⟨tree, hwithin, rfl⟩ := h.exists_within hid
  rcases hwithin.eq_or_mem_children with heq | ⟨outer, houter, htree⟩
  · have hzero : ast.tree.id = 0 := by
      have hroot : ast.tree.Numbered 0 := h
      cases htree : ast.tree with
      | node number info children =>
        rw [htree] at hroot
        exact hroot.1
    rw [heq, hzero] at hpos
    exact absurd hpos (Nat.lt_irrefl 0)
  · refine ⟨tree, outer, rfl, hwithin, houter, htree, ?_⟩
    apply h.parent_of_mem_children
    rw [(h.span_and_children houter).2]
    exact List.mem_map_of_mem htree

theorem IsNumbered.inPreorder (h : ast.IsNumbered) : ast.InPreorder where
  lt_child id child hchild := h.isOrdered child id (h.parent_of_mem_children hchild)
  parent_zero := by
    cases hparent : ast.parent 0 with
    | none => rfl
    | some outer => exact absurd (h.isOrdered 0 outer hparent) (Nat.not_lt_zero outer)
  listed_once id hpos hid := by
    obtain ⟨tree, outer, rfl, -, houter, htree, hparent⟩ := h.exists_parent hpos hid
    refine ⟨outer.id, hparent, fun other => ?_⟩
    rw [(h.nodup_children other).count]
    have hlisted : tree.id ∈ ast.children other ↔ other = outer.id := by
      constructor
      · intro hmem
        have hother := h.parent_of_mem_children hmem
        rw [hparent] at hother
        exact (Option.some.inj hother).symm
      · rintro rfl
        rw [(h.span_and_children houter).2]
        exact List.mem_map_of_mem htree
    simp only [hlisted]
  visited visitor start hdescend := by
    have hcarries : ast.Carries visitor (fun _ _ _ => True) :=
      ⟨fun _ _ => trivial, fun _ => trivial⟩
    obtain ⟨hnotes, hlength⟩ : ast.NotesHold _ (ast.noted visitor start) ∧ _ :=
      h.notesHold_noted hdescend hcarries trivial
    rw [hnotes.map_fst, hlength, List.reverse_reverse]
    rfl

/-- The places of a syntax tree in source order follow the numbers of its nodes. -/
theorem IsNumbered.spansInOrder (h : ast.IsNumbered) (horder : ast.tree.InOrder) :
    ast.SpansInOrder where
  inside id outer hparent := by
    have hlt := h.isOrdered id outer hparent
    have hid : id < ast.size := by
      by_contra hsize
      rw [parent_eq_none_of_size_le (Nat.le_of_not_lt hsize)] at hparent
      cases hparent
    obtain ⟨tree, above, rfl, hwithin, habove, htree, hfound⟩ :=
      h.exists_parent (Nat.zero_lt_of_lt hlt) hid
    obtain rfl : above.id = outer := Option.some.inj (hfound.symm.trans hparent)
    rw [(h.span_and_children hwithin).1, (h.span_and_children habove).1]
    cases above with
    | node number info children => exact ((habove.inOrder horder).inOrder htree).2
  start_le first second hle hsize := by
    rcases Nat.eq_or_lt_of_le hle with rfl | hlt
    · exact Nat.le_refl _
    have hstarts := (horder.startInOrder none).pairwise
    have hlength : second < (ast.tree.layout none).length := by
      rwa [Tree.length_layout, ← size_eq]
    have hpair := List.pairwise_iff_getElem.1 hstarts first second
      (Nat.lt_trans hlt hlength) hlength hlt
    unfold span
    rw [node?_eq, node?_eq, List.getElem?_eq_getElem hlength,
      List.getElem?_eq_getElem (Nat.lt_trans hlt hlength)]
    exact hpair

end Ast

end Source

/-! ## Searches -/

open Source

namespace CallContext

theorem node_of_ofDeclaration? {ast : Ast} {decl : Nat} {candidate : Candidate}
    (h : Candidate.ofDeclaration? ast decl = some candidate) : candidate.node = decl := by
  unfold Candidate.ofDeclaration? at h
  dsimp only at h
  split at h
  · obtain rfl := Option.some.inj h
    rfl
  · simp at h

/-- A query looks at nodes of the unit in their order, at none of them twice. -/
theorem map_node_candidates_sublist (context : CallContext) (kind : SearchKind) :
    ((context.candidates kind).map Candidate.node).Sublist context.ast.ids := by
  cases kind with
  | classDecl =>
    refine (map_node_filterMap_sublist ?_ context.types.unit.typeDeclarations).trans ?_
    · intro id candidate hcandidate
      obtain ⟨name, _, rfl⟩ := Option.map_eq_some_iff.1 hcandidate
      rfl
    · exact List.filter_sublist
  | classRef =>
    apply map_node_filterMap_sublist
    intro id candidate hcandidate
    obtain ⟨name, _, rfl⟩ := Option.map_eq_some_iff.1 hcandidate
    rfl
  | methodDecl =>
    refine (map_node_filterMap_sublist ?_ _).trans List.filter_sublist
    intro id candidate hcandidate
    exact node_of_ofDeclaration? hcandidate
  | methodRef =>
    show (context.methodReferences.map Candidate.node).Sublist context.ast.ids
    rw [methodReferences_eq]
    exact map_node_filterMap_sublist (fun id call hcall => node_of_callAt? hcall) _

/-- Whatever is searched, the nodes that are found are nodes of the unit in their order. -/
theorem map_node_search_sublist (context : CallContext) (query : Query) :
    ((context.search query).map SearchHit.node).Sublist context.ast.ids := by
  rw [search_eq_hits, map_node_hits]
  have htaken : ∀ passes : Candidate → Bool,
      (((context.candidates query.kind).filter passes).map Candidate.node).Sublist
        ((context.candidates query.kind).map Candidate.node) :=
    fun passes => List.filter_sublist.map _
  exact (htaken _).trans (context.map_node_candidates_sublist query.kind)

/-- A result starts where its node does. -/
theorem start_of_mem_search {context : CallContext} {query : Query} {found : SearchHit}
    (h : found ∈ context.search query) : found.start = (context.ast.span found.node).start := by
  rw [search_eq_hits] at h
  obtain ⟨candidate, _, hfound⟩ := List.mem_filterMap.1 h
  obtain ⟨captures, _, rfl⟩ := Option.map_eq_some_iff.1 hfound
  rfl

/-- Where the places of nodes start in the order of their numbers, so do results. -/
theorem pairwise_search {context : CallContext} (h : context.ast.SpansInOrder) (query : Query) :
    (context.search query).Pairwise
      (fun first second => first.node < second.node ∧ first.start ≤ second.start) := by
  have hsublist := context.map_node_search_sublist query
  have hnodes : (context.search query).Pairwise (fun first second => first.node < second.node) :=
    List.pairwise_map.1 (List.pairwise_lt_range.sublist hsublist)
  refine hnodes.imp_of_mem (fun {first second} hfirst hsecond hlt => ⟨hlt, ?_⟩)
  have hsize : second.node < context.ast.size :=
    List.mem_range.1 (hsublist.subset (List.mem_map_of_mem hsecond))
  rw [start_of_mem_search hfirst, start_of_mem_search hsecond]
  exact h.start_le first.node second.node (Nat.le_of_lt hlt) hsize

end CallContext

/-- Lowering keeps source order.  Where the nodes of a concrete tree stand inside the nodes above them
and one after the other, the nodes of the syntax tree are numbered in pre-order and their places start
in this order, each inside that of its parent.  So every search, in any index and project, gives each
node at most once and in the order in which they start. -/
theorem lowering_keeps_source_order (path source : String) {tree : ParseTree}
    (h : tree.root.InOrder) :
    let unit := CompilationUnit.parse path source tree
    unit.ast.InPreorder ∧ unit.ast.SpansInOrder ∧
    ∀ (index : Index) (project : Option ItemId) (query : Query),
      (CallContext.search ⟨index, ⟨unit, project⟩⟩ query).Pairwise
        (fun first second => first.node < second.node ∧ first.start ≤ second.start) := by
  intro unit
  have hnumbered : unit.ast.IsNumbered := CompilationUnit.isNumbered_parse path source tree
  have hspans : unit.ast.SpansInOrder := hnumbered.spansInOrder (inOrder_tree_lower source h)
  refine ⟨hnumbered.inPreorder, hspans, fun index project query => ?_⟩
  let context : CallContext := ⟨index, ⟨unit, project⟩⟩
  have hcontext : context.ast.SpansInOrder := hspans
  exact CallContext.pairwise_search hcontext query

/-- The text of a class with a comment, whose method calls another with the result of a third. -/
def nestingText : String :=
  "class A \x7b /* */ int f() \x7b g(h()); \x7d \x7d"

/-- Its concrete tree.  The comment and the lists around parameters, arguments and members go. -/
def nestingTree : ParseTree := ⟨.node "program" none 0 37
  [.node "class_declaration" none 0 37 [.node "identifier" (some "name") 6 7 [],
    .node "class_body" (some "body") 8 37 [.node "block_comment" none 10 15 [],
      .node "method_declaration" none 16 35 [.node "integral_type" (some "type") 16 19 [],
        .node "identifier" (some "name") 20 21 [],
        .node "formal_parameters" (some "parameters") 21 23 [],
        .node "block" (some "body") 24 35 [.node "expression_statement" none 26 33
          [.node "method_invocation" none 26 32 [.node "identifier" (some "name") 26 27 [],
            .node "argument_list" (some "arguments") 27 32
              [.node "method_invocation" none 28 31 [.node "identifier" (some "name") 28 29 [],
                .node "argument_list" (some "arguments") 29 31 []]]]]]]]]], false⟩

/-- The outer call comes before the call in its argument. -/
theorem source_order_of_nested_calls :
    let unit := CompilationUnit.parse "A.java" nestingText nestingTree
    let found := CallContext.search ⟨.empty 1, ⟨unit, none⟩⟩ ⟨.methodRef, []⟩
    nestingTree.root.InOrder ∧ unit.ast.InPreorder ∧ unit.ast.SpansInOrder ∧
    found.map (fun hit => (hit.node, hit.start)) = [(8, 26), (10, 28)] ∧
    found.Pairwise (fun first second => first.node < second.node ∧ first.start ≤ second.start) := by
  intro unit found
  have horder : nestingTree.root.InOrder := by
    simp [nestingTree, Cst.InOrder, Cst.InOrderBetween, Cst.span, Span.stop]
  have hfound : found.map (fun hit => (hit.node, hit.start)) = [(8, 26), (10, 28)] := by
    decide +kernel
  obtain ⟨hpreorder, hspans, hsearch⟩ :=
    lowering_keeps_source_order "A.java" nestingText horder
  exact ⟨horder, hpreorder, hspans, hfound, hsearch (.empty 1) none ⟨.methodRef, []⟩⟩

end CodeAtlas
