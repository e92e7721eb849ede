/-
# The syntax tree of a text

A syntax tree is an abstract tree over a source text, with its nodes laid out in pre-order for
access by number.
-/
import CodeAtlas.Source.Tree
import CodeAtlas.Text.Blank
import CodeAtlas.Text.Split

namespace CodeAtlas.Source

/-- A source text and its syntax tree. -/
structure Ast where
  source : String
  tree : Tree
  nodes : Array Node
  nodes_eq : nodes = (tree.layout none).toArray := by rfl

namespace Ast

/-- The syntax tree with the given nodes over a text. -/
def ofTree (source : String) (tree : Tree) : Ast where
  source := source
  tree := tree
  nodes := (tree.layout none).toArray

/-- The number of nodes. -/
def size (ast : Ast) : Nat :=
  ast.nodes.size

/-- The numbers of all nodes, in pre-order. -/
def ids (ast : Ast) : List Nat :=
  List.range ast.size

/-- A node by its number. -/
def node? (ast : Ast) (id : Nat) : Option Node :=
  ast.nodes[id]?

/-- The kind of a node. -/
def kind (ast : Ast) (id : Nat) : Kind :=
  ((ast.node? id).map Node.kind).getD .other

/-- The role of a node. -/
def role (ast : Ast) (id : Nat) : Role :=
  ((ast.node? id).map Node.role).getD .other

/-- The byte range of a node. -/
def span (ast : Ast) (id : Nat) : Span :=
  ((ast.node? id).map Node.span).getD ⟨0, 0⟩

/-- The parent of a node. -/
def parent (ast : Ast) (id : Nat) : Option Nat :=
  (ast.node? id).bind Node.parent

/-- The children of a node. -/
def children (ast : Ast) (id : Nat) : List Nat :=
  ((ast.node? id).map Node.children).getD []

/-- The source text between two offsets. -/
def textBetween? (ast : Ast) (start stop : Nat) : Option String :=
  Text.sliceBytes? ast.source start stop

/-- The source text of a node. -/
def text (ast : Ast) (id : Nat) : String :=
  let span := ast.span id
  (ast.textBetween? span.start span.stop).getD ""

/-! ## Children -/

/-- The first child in a role. -/
def childInRole (ast : Ast) (id : Nat) (role : Role) : Option Nat :=
  (ast.children id).find? (fun child => ast.role child == role)

/-- The children in a role. -/
def childrenInRole (ast : Ast) (id : Nat) (role : Role) : List Nat :=
  (ast.children id).filter (fun child => ast.role child == role)

/-- The children of a kind. -/
def childrenOfKind (ast : Ast) (id : Nat) (kind : Kind) : List Nat :=
  (ast.children id).filter (fun child => ast.kind child == kind)

/-- The text of the first child that is a name, such as the identifier of a declaration. -/
def nameOf (ast : Ast) (id : Nat) : Option String :=
  (ast.childInRole id .name).map ast.text

/-- The arguments of a call. -/
def arguments (ast : Ast) (call : Nat) : List Nat :=
  ast.childrenInRole call .argument

/-- Whether the modifiers of a declaration contain a word. -/
def hasModifier (ast : Ast) (decl : Nat) (word : String) : Bool :=
  (ast.childrenOfKind decl .modifiers).any (fun id => (Text.words (ast.text id)).contains word)

/-- The names of the type parameters of a declaration. -/
def typeParameterNames (ast : Ast) (decl : Nat) : List String :=
  (ast.childrenInRole decl .typeParameter).filterMap ast.nameOf

/-- The formal parameters of a method, constructor, record or lambda. -/
def parameters (ast : Ast) (decl : Nat) : List Nat :=
  (ast.childrenInRole decl .parameter).filter (fun id => ast.kind id == .formalParameter)

/-- The members of a type declaration. -/
def members (ast : Ast) (decl : Nat) : List Nat :=
  ast.childrenInRole decl .member

/-- The dimensions of an array type: the opening brackets after its element type. -/
def arrayDims (ast : Ast) (id : Nat) : Nat :=
  let span := ast.span id
  let start :=
    match ast.childInRole id .type with
    | some element => (ast.span element).stop
    | none => span.start
  match ast.textBetween? start span.stop with
  | some text => text.toList.count '['
  | none => 0

/-! ## Ancestors -/

/-- The nodes on the way up from a node that is given, within `steps` steps. -/
def upwardWithin (ast : Ast) : Nat → Option Nat → List Nat
  | 0, _ => []
  | _ + 1, none => []
  | steps + 1, some id => id :: upwardWithin ast steps (ast.parent id)

/-- The proper ancestors of a node, innermost first. -/
def ancestors (ast : Ast) (id : Nat) : List Nat :=
  ast.upwardWithin ast.size (ast.parent id)

/-- A node and its ancestors, innermost first. -/
def withAncestors (ast : Ast) (id : Nat) : List Nat :=
  id :: ast.ancestors id

/-- The innermost type declaration around a node. -/
def enclosingType (ast : Ast) (id : Nat) : Option Nat :=
  (ast.ancestors id).find? (fun outer => (ast.kind outer).isTypeDeclaration)

/-- The innermost method or constructor declaration around a node. -/
def enclosingMethod (ast : Ast) (id : Nat) : Option Nat :=
  (ast.ancestors id).find? (fun outer => (ast.kind outer).isMethodDeclaration)

/-- The name of a type declaration within its package, `Outer.Inner` for a nested one. -/
def nestedName (ast : Ast) (decl : Nat) : Option String :=
  let outer := (ast.ancestors decl).filter (fun id => (ast.kind id).isTypeDeclaration)
  ((decl :: outer).mapM ast.nameOf).map (fun names => ".".intercalate names.reverse)

end Ast

end CodeAtlas.Source
