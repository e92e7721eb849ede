/-
# Concrete and abstract trees

The grammar of the language gives a concrete tree: nodes with a grammar kind, the field of the
parent they fill and a byte range.  The library works on an abstract tree, whose nodes are numbered
in pre-order and carry a kind and a role.
-/
import CodeAtlas.Source.Kind

namespace CodeAtlas.Source

/-! ## Concrete trees -/

/-- A concrete tree. -/
inductive Cst where
  | node (kind : String) (field : Option String) (start stop : Nat) (children : List Cst)

/-- A node of a concrete tree in a pre-order listing. -/
structure CstEntry where
  depth : Nat
  kind : String
  field : Option String
  start : Nat
  stop : Nat
deriving DecidableEq, Repr

namespace Cst

/-- Puts a node in front of the trees listed after it; those deeper than the node are below it. -/
def graft (entry : CstEntry) (forest : List (Nat × Cst)) : List (Nat × Cst) :=
  let isBelow := fun (tree : Nat × Cst) => decide (entry.depth < tree.1)
  let below := (forest.takeWhile isBelow).map Prod.snd
  (entry.depth, .node entry.kind entry.field entry.start entry.stop below) ::
    forest.dropWhile isBelow

/-- The tree of a pre-order listing. -/
def ofEntries? (entries : List CstEntry) : Option Cst :=
  ((entries.foldr graft []).head?).map Prod.snd

end Cst

/-- A concrete tree together with whether the grammar found errors in the text. -/
structure ParseTree where
  root : Cst
  hasErrors : Bool

/-- The parser of the language, as a function from texts to trees. -/
abbrev Grammar := String → ParseTree

/-! ## Abstract trees -/

/-- A byte range. -/
structure Span where
  start : Nat
  length : Nat
deriving DecidableEq, Repr

/-- The offset after the last byte of a range. -/
def Span.stop (span : Span) : Nat :=
  span.start + span.length

/-- Kind, role and place of a syntax node. -/
structure NodeInfo where
  kind : Kind
  role : Role
  span : Span
deriving DecidableEq, Repr

/-- An abstract tree of numbered nodes. -/
inductive Tree where
  | node (id : Nat) (info : NodeInfo) (children : List Tree)

namespace Tree

/-- The number of the root. -/
def id : Tree → Nat
  | node id _ _ => id

/-- Kind, role and place of the root. -/
def info : Tree → NodeInfo
  | node _ info _ => info

/-- The trees below the root. -/
def children : Tree → List Tree
  | node _ _ children => children

mutual

/-- The number of nodes. -/
def size : Tree → Nat
  | node _ _ children => sizeAll children + 1

/-- The number of nodes of a list of trees. -/
def sizeAll : List Tree → Nat
  | [] => 0
  | tree :: rest => size tree + sizeAll rest

end

mutual

/-- The subtree with a given number at its root. -/
def find? (target : Nat) : Tree → Option Tree
  | node id info children =>
    if id = target then some (node id info children) else findAll? target children

/-- The subtree with a given number at its root, in a list of trees. -/
def findAll? (target : Nat) : List Tree → Option Tree
  | [] => none
  | tree :: rest =>
    match find? target tree with
    | some found => some found
    | none => findAll? target rest

end

end Tree

/-- A node of the abstract tree, with the numbers of the nodes around it. -/
structure Node where
  kind : Kind
  role : Role
  span : Span
  parent : Option Nat
  children : List Nat
deriving DecidableEq, Repr

namespace Tree

mutual

/-- The nodes in pre-order. -/
def layout (parent : Option Nat) : Tree → List Node
  | node id info children =>
    { kind := info.kind
      role := info.role
      span := info.span
      parent := parent
      children := children.map Tree.id } :: layoutAll (some id) children

/-- The nodes of a list of trees in pre-order. -/
def layoutAll (parent : Option Nat) : List Tree → List Node
  | [] => []
  | tree :: rest => layout parent tree ++ layoutAll parent rest

end

end Tree

end CodeAtlas.Source
