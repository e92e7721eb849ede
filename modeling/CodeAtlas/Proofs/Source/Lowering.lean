/-
# Syntax trees of source texts

Lowering keeps the places of concrete nodes: every node of a syntax tree below its root spans the
text of a concrete node.  So where the grammar finds no errors and gives every node a text, the names
in the syntax tree are not empty.

Nodes are numbered in pre-order, so a node has a greater number than the nodes around it.  Hence the
name of a nested declaration is the name of the declaration around it and its own.
-/
import CodeAtlas.Source.CompilationUnit
import Mathlib.Data.List.Basic

namespace CodeAtlas.Source

/-! ## Concrete nodes with texts -/

/-- The first node stands below the second. -/
inductive Cst.Below : Cst → Cst → Prop
  | child {child : Cst} {kind : String} {field : Option String} {start stop : Nat}
      {children : List Cst} (hmem : child ∈ children) :
      Below child (.node kind field start stop children)
  | deeper {inner child : Cst} {kind : String} {field : Option String} {start stop : Nat}
      {children : List Cst} (hmem : child ∈ children) (hbelow : Below inner child) :
      Below inner (.node kind field start stop children)

@[simp] theorem Cst.below_node_iff {inner : Cst} {kind : String} {field : Option String}
    {start stop : Nat} {children : List Cst} :
    Below inner (.node kind field start stop children) ↔
      ∃ child ∈ children, inner = child ∨ Below inner child := by
  constructor
  · rintro (hmem | ⟨hmem, hbelow⟩)
    · exact ⟨inner, hmem, Or.inl rfl⟩
    · exact ⟨_, hmem, Or.inr hbelow⟩
  · rintro ⟨child, hmem, rfl | hbelow⟩
    · exact .child hmem
    · exact .deeper hmem hbelow

/-- The place of a concrete node in the text. -/
def Cst.span : Cst → Span
  | .node _ _ start stop _ => ⟨start, stop - start⟩

/-- A place of a text that is not empty. -/
def HasText (source : String) (span : Span) : Prop :=
  ∃ text, Text.sliceBytes? source span.start span.stop = some text ∧ text ≠ ""

/-- Where a grammar finds no errors, every node below the root has a text: a node stands for
at least one character. -/
def Grammar.SpellsNodes (grammar : Grammar) : Prop :=
  ∀ source, (grammar source).hasErrors = false →
    ∀ node, Cst.Below node (grammar source).root → HasText source node.span

/-! ## Places of lowered nodes -/

theorem layoutAll_append (parent : Option Nat) (trees others : List Tree) :
    Tree.layoutAll parent (trees ++ others) =
      Tree.layoutAll parent trees ++ Tree.layoutAll parent others := by
  induction trees with
  | nil => rfl
  | cons tree rest ih => rw [List.cons_append, Tree.layoutAll, Tree.layoutAll, ih, List.append_assoc]

theorem layoutAll_singleton (parent : Option Nat) (tree : Tree) :
    Tree.layoutAll parent [tree] = Tree.layout parent tree := by
  rw [Tree.layoutAll, Tree.layoutAll, List.append_nil]

section Places

variable {holds : Span → Prop} {source : String}

mutual

/-- What a concrete node is lowered to has places of that node and those below it. -/
theorem span_of_mem_lowerNode (cst : Cst) (hself : holds cst.span)
    (hbelow : ∀ node, Cst.Below node cst → holds node.span) (owner : Option Nat)
    (parent : String) (role : Role) (next : Nat) :
    ∀ node ∈ Tree.layoutAll owner (lowerNode source parent role next cst).1, holds node.span := by
  match cst with
  | .node kind field start stop children =>
    have hchildren : ∀ child ∈ children,
        holds child.span ∧ ∀ node, Cst.Below node child → holds node.span := fun child hchild =>
      ⟨hbelow child (.child hchild), fun node hnode => hbelow node (.deeper hchild hnode)⟩
    rw [lowerNode]
    split
    · intro node hnode
      simp [Tree.layoutAll] at hnode
    · exact span_of_mem_lowerAll children hchildren owner kind _ next
    · intro node hnode
      rw [layoutAll_singleton, Tree.layout, Tree.layoutAll, List.mem_singleton] at hnode
      subst hnode
      exact hself
    · intro node hnode
      simp only [layoutAll_singleton, Tree.layout, List.mem_cons] at hnode
      rcases hnode with rfl | hnode
      · exact hself
      · exact span_of_mem_lowerAll children hchildren _ kind _ (next + 1) node hnode

/-- What concrete nodes are lowered to has places of these nodes and those below them. -/
theorem span_of_mem_lowerAll (children : List Cst)
    (hchildren : ∀ child ∈ children,
      holds child.span ∧ ∀ node, Cst.Below node child → holds node.span) (owner : Option Nat)
    (parent : String) (role : Option Role) (next : Nat) :
    ∀ node ∈ Tree.layoutAll owner (lowerAll source parent role next children).1,
      holds node.span := by
  match children with
  | [] =>
    intro node hnode
    simp [lowerAll, Tree.layoutAll] at hnode
  | child :: rest =>
    intro node hnode
    simp only [lowerAll, layoutAll_append, List.mem_append] at hnode
    obtain ⟨hself, hbelow⟩ := hchildren child List.mem_cons_self
    rcases hnode with hfirst | hrest
    · exact span_of_mem_lowerNode child hself hbelow owner parent _ next node hfirst
    · exact span_of_mem_lowerAll rest
        (fun other hother => hchildren other (List.mem_cons_of_mem _ hother)) owner parent role _
        node hrest

end

end Places

/-! ## Names -/

/-- A node of a syntax tree is its root or spans a concrete node. -/
theorem span_of_node?_lower {holds : Span → Prop} {source : String} {root : Cst}
    (h : ∀ node, Cst.Below node root → holds node.span) {id : Nat} {node : Node}
    (hnode : (lower source root).node? id = some node) : node.role = .root ∨ holds node.span := by
  match root with
  | .node kind field start stop children =>
    have hmem : node ∈ (lower source (.node kind field start stop children)).nodes :=
      Array.mem_of_getElem? hnode
    simp only [lower, Ast.ofTree, List.mem_toArray, Tree.layout, List.mem_cons] at hmem
    rcases hmem with rfl | hmem
    · exact Or.inl rfl
    · refine Or.inr (span_of_mem_lowerAll children (fun child hchild => ?_) _ kind none 1 node hmem)
      exact ⟨h child (.child hchild), fun inner hinner => h inner (.deeper hchild hinner)⟩

/-- The names in a syntax tree are not empty when every concrete node below the root has a text. -/
theorem Ast.name_ne_empty {source : String} {root : Cst}
    (h : ∀ node, Cst.Below node root → HasText source node.span) {id : Nat} {name : String}
    (hname : (lower source root).nameOf id = some name) : name ≠ "" := by
  rw [nameOf] at hname
  obtain ⟨child, hchild, rfl⟩ := Option.map_eq_some_iff.1 hname
  have hrole : (lower source root).role child = .name := by
    simpa using List.find?_some hchild
  cases hnode : (lower source root).node? child with
  | none => simp [role, hnode] at hrole
  | some node =>
    simp only [role, hnode, Option.map_some, Option.getD_some] at hrole
    rcases span_of_node?_lower h hnode with hroot | ⟨text, hslice, hne⟩
    · rw [hrole] at hroot
      exact absurd hroot (by simp)
    · have hsource : (lower source root).source = source := by
        cases root
        rfl
      have htext : (lower source root).text child = text := by
        simp only [Ast.text, span, hnode, Option.map_some, Option.getD_some, textBetween?, hsource,
          hslice]
      rw [htext]
      exact hne

/-- The names of a unit without errors are not empty. -/
theorem CompilationUnit.name_ne_empty {grammar : Grammar} (h : grammar.SpellsNodes)
    {path source : String} (herrors : (grammar source).hasErrors = false) {id : Nat} {name : String}
    (hname : (CompilationUnit.parse path source (grammar source)).ast.nameOf id = some name) :
    name ≠ "" :=
  Ast.name_ne_empty (h source herrors) hname

/-! ## Grammars of a few texts -/

mutual

/-- The nodes below a concrete node. -/
def Cst.nodesBelow : Cst → List Cst
  | .node _ _ _ _ children => nodesWithin children

/-- The nodes of a list of concrete trees. -/
def Cst.nodesWithin : List Cst → List Cst
  | [] => []
  | tree :: rest => tree :: (nodesBelow tree ++ nodesWithin rest)

end

theorem Cst.mem_nodesWithin_iff {node : Cst} {trees : List Cst} :
    node ∈ nodesWithin trees ↔ ∃ tree ∈ trees, node = tree ∨ node ∈ tree.nodesBelow := by
  induction trees with
  | nil => simp [nodesWithin]
  | cons tree rest ih => simp [nodesWithin, ih, or_assoc]

theorem Cst.mem_nodesBelow_of_below {inner outer : Cst} (h : Below inner outer) :
    inner ∈ outer.nodesBelow := by
  induction h with
  | child hmem =>
    rw [nodesBelow, mem_nodesWithin_iff]
    exact ⟨_, hmem, Or.inl rfl⟩
  | deeper hmem _ ih =>
    rw [nodesBelow, mem_nodesWithin_iff]
    exact ⟨_, hmem, Or.inr ih⟩

/-- The grammar that knows the trees of a few texts and takes every other text for an error. -/
def Grammar.ofTexts (texts : List (String × Cst)) : Grammar := fun source =>
  match texts.lookup source with
  | some root => ⟨root, false⟩
  | none => ⟨.node "program" none 0 source.utf8ByteSize [], true⟩

/-- Whether every node below the root of a tree has a text. -/
def Cst.isSpelt (source : String) (root : Cst) : Bool :=
  root.nodesBelow.all fun node =>
    (Text.sliceBytes? source node.span.start node.span.stop).any (· != "")

theorem Grammar.spellsNodes_ofTexts {texts : List (String × Cst)}
    (h : ∀ entry ∈ texts, entry.2.isSpelt entry.1 = true) : (ofTexts texts).SpellsNodes := by
  intro source herrors node hbelow
  rw [ofTexts] at herrors hbelow
  split at hbelow
  · rename_i root hlookup
    obtain ⟨before, after, htexts, _⟩ := List.lookup_eq_some_iff.1 hlookup
    have hspelt := h (source, root) (by simp [htexts])
    have hnode := List.all_eq_true.1 hspelt node (Cst.mem_nodesBelow_of_below hbelow)
    obtain ⟨text, hslice, hne⟩ := Option.any_eq_true _ _ |>.1 hnode
    exact ⟨text, hslice, by simpa using hne⟩
  · rename_i hlookup
    simp [hlookup] at herrors

/-! ## Numbers in pre-order -/

/-- Nodes that stand in pre-order from a number on, each below a node of a smaller number. -/
def Ascends (first : Nat) (nodes : List Node) : Prop :=
  ∀ k node outer, nodes[k]? = some node → node.parent = some outer → outer < first + k

theorem ascends_nil (first : Nat) : Ascends first [] := by
  intro k node outer hnode
  simp at hnode

theorem Ascends.append {first : Nat} {nodes others : List Node} (h : Ascends first nodes)
    (hothers : Ascends (first + nodes.length) others) : Ascends first (nodes ++ others) := by
  intro k node outer hnode hparent
  rw [List.getElem?_append] at hnode
  split at hnode
  · exact h k node outer hnode hparent
  · have := hothers _ node outer hnode hparent
    omega

theorem Ascends.cons {first : Nat} {node : Node} {nodes : List Node}
    (hnode : ∀ outer, node.parent = some outer → outer < first) (h : Ascends (first + 1) nodes) :
    Ascends first (node :: nodes) := by
  have hsingle : Ascends first [node] := by
    intro k found outer hfound hparent
    rcases k with _ | k
    · obtain rfl : node = found := by simpa using hfound
      have := hnode outer hparent
      omega
    · simp at hfound
  exact hsingle.append h

mutual

theorem ascends_lowerNode (source : String) (cst : Cst) (owner : Option Nat) (parent : String)
    (role : Role) (next : Nat) (howner : ∀ outer, owner = some outer → outer < next) :
    Ascends next (Tree.layoutAll owner (lowerNode source parent role next cst).1) ∧
      next + (Tree.layoutAll owner (lowerNode source parent role next cst).1).length =
        (lowerNode source parent role next cst).2 := by
  match cst with
  | .node kind field start stop children =>
    rw [lowerNode]
    split
    · exact ⟨ascends_nil next, rfl⟩
    · exact ascends_lowerAll source children owner kind _ next howner
    · rw [layoutAll_singleton, Tree.layout]
      exact ⟨Ascends.cons howner (ascends_nil _), rfl⟩
    · simp only [layoutAll_singleton, Tree.layout]
      obtain ⟨hbelow, hlength⟩ := ascends_lowerAll source children (some next) kind none (next + 1)
        (fun outer houter => by cases houter; omega)
      refine ⟨Ascends.cons howner hbelow, ?_⟩
      rw [List.length_cons, ← hlength]
      omega

theorem ascends_lowerAll (source : String) (children : List Cst) (owner : Option Nat)
    (parent : String) (role : Option Role) (next : Nat)
    (howner : ∀ outer, owner = some outer → outer < next) :
    Ascends next (Tree.layoutAll owner (lowerAll source parent role next children).1) ∧
      next + (Tree.layoutAll owner (lowerAll source parent role next children).1).length =
        (lowerAll source parent role next children).2 := by
  match children with
  | [] => exact ⟨ascends_nil next, rfl⟩
  | child :: rest =>
    simp only [lowerAll, layoutAll_append, List.length_append]
    obtain ⟨hfirst, hlength⟩ := ascends_lowerNode source child owner parent
      (role.getD (roleFor parent child.field child.kind)) next howner
    obtain ⟨hrest, htotal⟩ := ascends_lowerAll source rest owner parent role
      (lowerNode source parent (role.getD (roleFor parent child.field child.kind)) next child).2
      (fun outer houter => by have := howner outer houter; omega)
    refine ⟨hfirst.append (hlength ▸ hrest), ?_⟩
    rw [← htotal, ← hlength]
    omega

end

namespace Ast

/-- Every node has a greater number than the node around it. -/
def IsOrdered (ast : Ast) : Prop :=
  ∀ id outer, ast.parent id = some outer → outer < id

theorem isOrdered_lower (source : String) (root : Cst) : (lower source root).IsOrdered := by
  intro id outer hparent
  match root with
  | .node kind field start stop children =>
    obtain ⟨node, hnode, hnodeParent⟩ := Option.bind_eq_some_iff.1 hparent
    have hbelow := (ascends_lowerAll source children (some 0) kind none 1
      (fun outer houter => by cases houter; omega)).1
    have hnodes : (Tree.layout none (.node 0 ⟨.compilationUnit, .root, ⟨start, stop - start⟩⟩
        (lowerAll source kind none 1 children).1))[id]? = some node := by
      simpa [node?, lower, ofTree] using hnode
    rw [Tree.layout] at hnodes
    have hall := Ascends.cons (fun outer houter => absurd houter (by simp)) hbelow id node outer
      hnodes hnodeParent
    omega

variable {ast : Ast}

theorem parent_eq_none_of_size_le {id : Nat} (h : ast.size ≤ id) : ast.parent id = none := by
  have hnode : ast.node? id = none := Array.getElem?_eq_none h
  rw [parent, hnode]
  rfl

/-! ## Nodes around a node -/

/-- The way up from a node does not depend on the number of steps, if it is great enough. -/
theorem IsOrdered.upwardWithin_eq (h : ast.IsOrdered) {id m n : Nat} (hm : id < m) (hn : id < n) :
    ast.upwardWithin m (some id) = ast.upwardWithin n (some id) := by
  induction id using Nat.strongRecOn generalizing m n with
  | ind id ih =>
    obtain ⟨m, rfl⟩ := Nat.exists_eq_succ_of_ne_zero (Nat.ne_of_gt (Nat.zero_lt_of_lt hm))
    obtain ⟨n, rfl⟩ := Nat.exists_eq_succ_of_ne_zero (Nat.ne_of_gt (Nat.zero_lt_of_lt hn))
    rw [upwardWithin, upwardWithin]
    cases hparent : ast.parent id with
    | none => cases m <;> cases n <;> rfl
    | some outer =>
      have hlt := h _ _ hparent
      rw [ih outer hlt (show outer < m by omega) (show outer < n by omega)]

theorem ancestors_of_parent_eq_none {id : Nat} (h : ast.parent id = none) :
    ast.ancestors id = [] := by
  rw [ancestors, h]
  cases ast.size <;> rfl

theorem IsOrdered.ancestors_of_parent (h : ast.IsOrdered) {id outer : Nat}
    (hparent : ast.parent id = some outer) : ast.ancestors id = outer :: ast.ancestors outer := by
  have hlt := h _ _ hparent
  have hsize : id < ast.size := by
    by_contra hle
    rw [parent_eq_none_of_size_le (by omega)] at hparent
    simp at hparent
  rw [ancestors, hparent]
  obtain ⟨n, hn⟩ := Nat.exists_eq_succ_of_ne_zero (Nat.ne_of_gt (Nat.zero_lt_of_lt hsize))
  rw [hn, upwardWithin, List.cons.injEq, ancestors]
  refine ⟨rfl, ?_⟩
  cases hnext : ast.parent outer with
  | none => cases n <;> cases ast.size <;> rfl
  | some next =>
    have hlt' := h _ _ hnext
    exact h.upwardWithin_eq (by omega) (by omega)

/-- The type declarations around a node, innermost first. -/
def outerTypes (ast : Ast) (id : Nat) : List Nat :=
  (ast.ancestors id).filter (fun outer => (ast.kind outer).isTypeDeclaration)

theorem IsOrdered.outerTypes_eq (h : ast.IsOrdered) (id : Nat) :
    (ast.enclosingType id = none ∧ ast.outerTypes id = []) ∨
      ∃ outer < id, (ast.kind outer).isTypeDeclaration = true ∧
        ast.enclosingType id = some outer ∧ ast.outerTypes id = outer :: ast.outerTypes outer := by
  induction id using Nat.strongRecOn with
  | ind id ih =>
    cases hparent : ast.parent id with
    | none =>
      left
      rw [enclosingType, outerTypes, ancestors_of_parent_eq_none hparent]
      exact ⟨rfl, rfl⟩
    | some outer =>
      have hlt := h _ _ hparent
      have hancestors := h.ancestors_of_parent hparent
      cases hkind : (ast.kind outer).isTypeDeclaration with
      | true =>
        right
        refine ⟨outer, hlt, hkind, ?_, ?_⟩
        · rw [enclosingType, hancestors]
          exact List.find?_cons_of_pos hkind
        · rw [outerTypes, hancestors]
          exact List.filter_cons_of_pos hkind
      | false =>
        have henclosing : ast.enclosingType id = ast.enclosingType outer := by
          rw [enclosingType, hancestors, List.find?_cons_of_neg (by simp [hkind]), enclosingType]
        have houter : ast.outerTypes id = ast.outerTypes outer := by
          rw [outerTypes, hancestors, List.filter_cons_of_neg (by simp [hkind]), outerTypes]
        rw [henclosing, houter]
        refine (ih outer hlt).imp (fun hnone => hnone) ?_
        rintro ⟨inner, hinner, hrest⟩
        exact ⟨inner, by omega, hrest⟩

/-! ## Names of nested declarations -/

theorem nestedName_eq (ast : Ast) (decl : Nat) :
    ast.nestedName decl = ((decl :: ast.outerTypes decl).mapM ast.nameOf).map
      (fun names => ".".intercalate names.reverse) :=
  rfl

/-- The name of a declaration that stands in no other is its own. -/
theorem IsOrdered.nestedName_of_top (h : ast.IsOrdered) {decl : Nat}
    (henclosing : ast.enclosingType decl = none) : ast.nestedName decl = ast.nameOf decl := by
  rcases h.outerTypes_eq decl with ⟨_, houter⟩ | ⟨outer, _, _, hsome, _⟩
  · rw [nestedName_eq, houter]
    cases hname : ast.nameOf decl with
    | none => simp [List.mapM_cons, hname]
    | some name => simp [List.mapM_cons, hname]
  · rw [henclosing] at hsome
    simp at hsome

/-- The name of a declaration inside another is the name of that one and its own. -/
theorem IsOrdered.nestedName_of_inner (h : ast.IsOrdered) {decl outer : Nat}
    (henclosing : ast.enclosingType decl = some outer) :
    ast.nestedName decl = (ast.nestedName outer).bind
      (fun name => (ast.nameOf decl).map (fun simple => name ++ "." ++ simple)) := by
  rcases h.outerTypes_eq decl with ⟨hnone, _⟩ | ⟨other, _, _, hsome, houter⟩
  · rw [henclosing] at hnone
    simp at hnone
  · obtain rfl : outer = other := Option.some.inj (henclosing.symm.trans hsome)
    rw [nestedName_eq, nestedName_eq, houter]
    cases hname : ast.nameOf decl with
    | none =>
      rw [List.mapM_cons, hname]
      cases ((outer :: ast.outerTypes outer).mapM ast.nameOf) <;> rfl
    | some simple =>
      rw [List.mapM_cons, hname]
      cases hnames : (outer :: ast.outerTypes outer).mapM ast.nameOf with
      | none => rfl
      | some names =>
        have hne : names ≠ [] := by
          rintro rfl
          simp [List.mapM_cons, Option.bind_eq_some_iff] at hnames
        simp [String.intercalate_append_of_ne_nil, hne]

end Ast

end CodeAtlas.Source
