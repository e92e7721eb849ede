/-
# Brackets in a text

A pair of brackets adds a dimension to a type where it stands in a `dimensions` node, and there outside
the nodes below it: what stands in a comment or in an annotation adds none.  A stretch of the text
holds the brackets of these pairs and stray ones.
-/
import CodeAtlas.Proofs.Source.Kept
import CodeAtlas.Proofs.Text.Slices
import Mathlib.Algebra.Ring.Nat

namespace CodeAtlas.Source

/-! ## Stretches and nodes -/

/-- The opening brackets between two places of a text. -/
def bracketsBetween (source : String) (start stop : Nat) : Nat :=
  match Text.sliceBytes? source start stop with
  | some text => text.toList.count '['
  | none => 0

/-- The opening brackets of the text of a concrete node. -/
def bracketsIn (source : String) (node : Cst) : Nat :=
  bracketsBetween source node.span.start node.span.stop

/-- Whether nodes stand one after the other between two places of a text. -/
def standInOrder (source : String) (start stop : Nat) : List Cst → Bool
  | [] => (Text.sliceBytes? source start stop).isSome
  | node :: rest =>
    (Text.sliceBytes? source start node.span.start).isSome &&
      (Text.sliceBytes? source node.span.start node.span.stop).isSome &&
      standInOrder source node.span.stop stop rest

/-- The opening brackets between two places of a text that stand in none of the nodes there. -/
def bareBrackets (source : String) (start stop : Nat) : List Cst → Nat
  | [] => bracketsBetween source start stop
  | node :: rest =>
    bracketsBetween source start node.span.start + bareBrackets source node.span.stop stop rest

theorem bracketsBetween_append {source : String} {start middle stop : Nat}
    (hfirst : (Text.sliceBytes? source start middle).isSome = true)
    (hsecond : (Text.sliceBytes? source middle stop).isSome = true) :
    bracketsBetween source start stop =
      bracketsBetween source start middle + bracketsBetween source middle stop := by
  obtain ⟨first, hfirst⟩ := Option.isSome_iff_exists.1 hfirst
  obtain ⟨second, hsecond⟩ := Option.isSome_iff_exists.1 hsecond
  rw [bracketsBetween, bracketsBetween, bracketsBetween, hfirst, hsecond,
    Text.sliceBytes?_append hfirst hsecond]
  dsimp only
  rw [String.toList_append, List.count_append]

theorem isSome_of_standInOrder {source : String} {start stop : Nat} {nodes : List Cst}
    (h : standInOrder source start stop nodes = true) :
    (Text.sliceBytes? source start stop).isSome = true := by
  induction nodes generalizing start with
  | nil => exact h
  | cons node rest ih =>
    simp only [standInOrder, Bool.and_eq_true] at h
    obtain ⟨⟨hgap, hnode⟩, hrest⟩ := h
    obtain ⟨gap, hgap⟩ := Option.isSome_iff_exists.1 hgap
    obtain ⟨text, htext⟩ := Option.isSome_iff_exists.1 hnode
    obtain ⟨tail, htail⟩ := Option.isSome_iff_exists.1 (ih hrest)
    rw [Text.sliceBytes?_append (Text.sliceBytes?_append hgap htext) htail]
    rfl

/-- The brackets of a stretch stand in the nodes there or in none of them. -/
theorem bracketsBetween_eq {source : String} {start stop : Nat} {nodes : List Cst}
    (h : standInOrder source start stop nodes = true) :
    bracketsBetween source start stop =
      bareBrackets source start stop nodes + (nodes.map (bracketsIn source)).sum := by
  induction nodes generalizing start with
  | nil => rfl
  | cons node rest ih =>
    simp only [standInOrder, Bool.and_eq_true] at h
    obtain ⟨⟨hgap, hnode⟩, hrest⟩ := h
    have htail := isSome_of_standInOrder hrest
    have hnodeTail : (Text.sliceBytes? source node.span.start stop).isSome = true := by
      obtain ⟨text, htext⟩ := Option.isSome_iff_exists.1 hnode
      obtain ⟨tail, htail⟩ := Option.isSome_iff_exists.1 htail
      rw [Text.sliceBytes?_append htext htail]
      rfl
    rw [bracketsBetween_append hgap hnodeTail, bracketsBetween_append hnode htail, ih hrest,
      bareBrackets, List.map_cons, List.sum_cons, bracketsIn]
    omega

theorem standInOrder_of_append {source : String} {start stop : Nat} {before behind : List Cst}
    {node : Cst} (h : standInOrder source start stop (before ++ node :: behind) = true) :
    standInOrder source node.span.stop stop behind = true := by
  induction before generalizing start with
  | nil =>
    simp only [List.nil_append, standInOrder, Bool.and_eq_true] at h
    exact h.2
  | cons other rest ih =>
    simp only [List.cons_append, standInOrder, Bool.and_eq_true] at h
    exact ih h.2

/-- Whether the children of every node below the root stand in order inside the node, as the grammar
lays them out. -/
def Cst.isLaidOut (source : String) (root : Cst) : Bool :=
  root.nodesBelow.all fun node =>
    standInOrder source node.span.start node.span.stop node.children

theorem Cst.standInOrder_of_below {source : String} {root node : Cst}
    (h : root.isLaidOut source = true) (hbelow : node.Below root) :
    standInOrder source node.span.start node.span.stop node.children = true :=
  List.all_eq_true.1 h node (mem_nodesBelow_of_below hbelow)

theorem Cst.below_of_mem_children {child node : Cst} (h : child ∈ node.children) :
    child.Below node := by
  cases node with
  | node kind field start stop children => exact .child h

/-! ## Pairs and strays -/

/-- Whether a concrete node holds bracket pairs that add dimensions. -/
def Cst.isDimensions (node : Cst) : Bool :=
  node.kind == "dimensions"

/-- The bracket pairs of a `dimensions` node, those in nodes below it left out. -/
def pairsOf (source : String) (node : Cst) : Nat :=
  bareBrackets source node.span.start node.span.stop node.children

/-- The bracket pairs that add dimensions, in the `dimensions` nodes among the given ones. -/
def bracketPairs (source : String) (nodes : List Cst) : Nat :=
  ((nodes.filter Cst.isDimensions).map (pairsOf source)).sum

/-- The brackets of a node that add no dimensions: all of them, but for a `dimensions` node only those
in nodes below it. -/
def straysOf (source : String) (node : Cst) : Nat :=
  if node.isDimensions then (node.children.map (bracketsIn source)).sum else bracketsIn source node

/-- The brackets between two places that add no dimensions, given the nodes there. -/
def strayBrackets (source : String) (start stop : Nat) (nodes : List Cst) : Nat :=
  bareBrackets source start stop nodes + (nodes.map (straysOf source)).sum

theorem sum_bracketsIn {source : String} {nodes : List Cst}
    (h : ∀ node ∈ nodes,
      standInOrder source node.span.start node.span.stop node.children = true) :
    (nodes.map (bracketsIn source)).sum =
      bracketPairs source nodes + (nodes.map (straysOf source)).sum := by
  induction nodes with
  | nil => rfl
  | cons node rest ih =>
    have hrest := ih (fun other hother => h other (List.mem_cons_of_mem _ hother))
    rw [bracketPairs] at hrest ⊢
    rw [List.map_cons, List.sum_cons, List.map_cons, List.sum_cons, hrest, straysOf]
    cases hkind : node.isDimensions with
    | true =>
      rw [List.filter_cons_of_pos hkind, List.map_cons, List.sum_cons, if_pos rfl, bracketsIn,
        bracketsBetween_eq (h node List.mem_cons_self), pairsOf]
      omega
    | false =>
      rw [List.filter_cons_of_neg (by simp [hkind]), if_neg (by simp)]
      omega

/-- The brackets of a stretch are those of its bracket pairs and the stray ones. -/
theorem bracketsBetween_eq_pairs_add_strays {source : String} {start stop : Nat} {nodes : List Cst}
    (h : standInOrder source start stop nodes = true)
    (hnodes : ∀ node ∈ nodes,
      standInOrder source node.span.start node.span.stop node.children = true) :
    bracketsBetween source start stop =
      bracketPairs source nodes + strayBrackets source start stop nodes := by
  rw [bracketsBetween_eq h, sum_bracketsIn hnodes, strayBrackets]
  omega

end CodeAtlas.Source
