/-
# Searching a source file

A search collects the candidates of a query in source order and keeps those that pass its filters,
together with what patterns captured on the way.  The index is only read.
-/
import CodeAtlas.Query.Basic
import CodeAtlas.Resolve.Variables

namespace CodeAtlas

open Source

/-- How the class of a candidate is found. -/
inductive ClassSource where
  | known (id : Option ItemId)
  /-- The class of a type declaration. -/
  | declaration (decl : Nat)
  /-- The class that declares the called method, else the first that may declare it. -/
  | call (site : CallSite)
  /-- The class of a qualified name as written. -/
  | name (name : String)
deriving DecidableEq, Repr

/-- How the class of a call is found from what is recorded for the call. -/
def ClassSource.ofRecorded : Option CallSite → ClassSource
  | some site => .call site
  | none => .known none

/-- A node with what filters ask about it: the name of a method or the qualified name of a class,
and the number of parameters or arguments of a method. -/
structure Candidate where
  node : Nat
  isMethod : Bool
  name : String
  argCount : Option Nat
  source : ClassSource
deriving DecidableEq, Repr

/-- A node that a query found.  Its line counts from 1. -/
structure SearchHit where
  path : String
  node : Nat
  kind : Kind
  start : Nat
  stop : Nat
  line : Nat
  text : String
  captures : List Capture
deriving DecidableEq, Repr

namespace Candidate

/-- A candidate for a class. -/
def ofClass (node : Nat) (name : String) (source : ClassSource) : Candidate :=
  ⟨node, false, name, none, source⟩

/-- A candidate for a method. -/
def ofMethod (node : Nat) (name : String) (argCount : Nat) (source : ClassSource) : Candidate :=
  ⟨node, true, name, some argCount, source⟩

/-- The candidate of a method or constructor declaration. -/
def ofDeclaration? (ast : Ast) (decl : Nat) : Option Candidate :=
  let name :=
    match ast.kind decl with
    | .constructorDeclaration => some constructorName
    | .methodDeclaration => ast.nameOf decl
    | _ => none
  match name, ast.enclosingType decl with
  | some name, some owner =>
    some (ofMethod decl name (ast.parameters decl).length (.declaration owner))
  | _, _ => none

/-- The class a candidate is, or the class that owns it. -/
def owner (candidate : Candidate) (context : CallContext) : Option ItemId :=
  match candidate.source with
  | .known id => id
  | .declaration decl => context.types.classOfDecl context.index decl
  | .call site =>
    (((context.index.resolveCall site).bind context.index.get?).bind Item.parent).or
      site.owners.head?
  | .name name => context.types.ownClass context.index name

/-- The qualified name of the class of a candidate. -/
def ownerName (candidate : Candidate) (context : CallContext) : Option String :=
  match candidate.source with
  | .name name => some name
  | _ =>
    if candidate.isMethod then (candidate.owner context).bind context.index.qualifiedName
    else some candidate.name

/-- Whether a node is written as a supertype. -/
def hasSupertypeRole (ast : Ast) (id : Nat) : Bool :=
  ast.role id == .superclass || ast.role id == .interface

/-- Whether a candidate is written as a supertype, with or without type arguments. -/
def isSupertype (candidate : Candidate) (ast : Ast) : Bool :=
  hasSupertypeRole ast candidate.node ||
    (ast.parent candidate.node).any
      (fun parent => ast.kind parent == .parameterizedType && hasSupertypeRole ast parent)

end Candidate

namespace CallContext

mutual

/-- What a filter captures of a candidate that passes it. -/
def accept (context : CallContext) : Filter → Candidate → Option (List Capture)
  | .name matcher, candidate => matcher.captures? candidate.name
  | .className matcher, candidate => (candidate.ownerName context).bind matcher.captures?
  | .hasParam count, candidate => if candidate.argCount.any count.accepts then some [] else none
  | .hasSupertype filters, candidate =>
    match candidate.owner context with
    | none => none
    | some cls =>
      (context.index.supertypes cls).findSome? fun ancestor =>
        (context.index.qualifiedName ancestor).bind fun name =>
          acceptAll context filters (.ofClass candidate.node name (.known (some ancestor)))
  | .isSupertype, candidate => if candidate.isSupertype context.ast then some [] else none
  | .isInMethod filters, candidate =>
    ((context.ast.enclosingMethod candidate.node).bind (Candidate.ofDeclaration? context.ast)).bind
      (acceptAll context filters)
  | .not filters, candidate => if (acceptAll context filters candidate).isSome then none else some []
  | .and filters, candidate => acceptAll context filters candidate

/-- What filters capture, in order, of a candidate that passes all of them. -/
def acceptAll (context : CallContext) : List Filter → Candidate → Option (List Capture)
  | [], _ => some []
  | filter :: rest, candidate =>
    match accept context filter candidate with
    | none => none
    | some captures => (acceptAll context rest candidate).map (captures ++ ·)

end

/-! ## Candidates -/

/-- The type declarations whose classes are in the index. -/
def classDeclarations (context : CallContext) : List Candidate :=
  context.types.unit.typeDeclarations.filterMap fun decl =>
    let cls := context.types.classOfDecl context.index decl
    (cls.bind context.index.qualifiedName).map (fun name => .ofClass decl name (.known cls))

/-- The qualified name that a type spells out through the imports of single classes. -/
def referencedName (unit : CompilationUnit) (id : Nat) : Option String :=
  let text := Text.dropBlanks (unit.ast.text id)
  match unit.ast.kind id with
  | .simpleType => (unit.explicitImport? text).map Import.name
  | .qualifiedType =>
    (Text.splitOnce '.' text).map fun (head, rest) =>
      match unit.explicitImport? head with
      | some imp => imp.name ++ "." ++ rest
      | none => text
  | .importDeclaration =>
    (unit.imports.reverse.find? (fun imp => imp.isSingleType && imp.node == id)).map Import.name
  | _ => none

/-- The imports of single classes and the types that are spelled out. -/
def classReferences (context : CallContext) : List Candidate :=
  context.ast.ids.filterMap fun id =>
    (referencedName context.types.unit id).map (fun name => .ofClass id name (.name name))

/-- The declarations of methods and constructors. -/
def methodDeclarations (context : CallContext) : List Candidate :=
  (context.ast.ids.filter (fun id => (context.ast.kind id).isMethodDeclaration)).filterMap
    (Candidate.ofDeclaration? context.ast)

/-- The name that a call spells out. -/
def calledName (ast : Ast) (id : Nat) : Option String :=
  match ast.kind id with
  | .methodInvocation => ast.nameOf id
  | .objectCreation => some constructorName
  | .constructorInvocation => some constructorName
  | _ => none

/-- The recorded calls by their nodes. -/
def callTable (context : CallContext) : Std.TreeMap Nat CallSite :=
  Std.TreeMap.ofList (context.calls.map (fun site => (site.node, site)))

/-- The calls. -/
def methodReferences (context : CallContext) : List Candidate :=
  let table := context.callTable
  context.ast.ids.filterMap fun id =>
    (calledName context.ast id).map fun name =>
      .ofMethod id name (context.ast.arguments id).length (.ofRecorded table[id]?)

/-- The nodes a query looks at, in source order. -/
def candidates (context : CallContext) : SearchKind → List Candidate
  | .classDecl => context.classDeclarations
  | .classRef => context.classReferences
  | .methodDecl => context.methodDeclarations
  | .methodRef => context.methodReferences

/-! ## Results -/

/-- The line of an offset. -/
def lineOf (ast : Ast) (offset : Nat) : Nat :=
  ((ast.textBetween? 0 offset).getD "").toList.count '\n' + 1

/-- The result for a node. -/
def hit (unit : CompilationUnit) (id : Nat) (captures : List Capture) : SearchHit :=
  let span := unit.ast.span id
  { path := unit.path
    node := id
    kind := unit.ast.kind id
    start := span.start
    stop := span.stop
    line := lineOf unit.ast span.start
    text := unit.ast.text id
    captures := captures }

/-- What filters find among candidates. -/
def hits (context : CallContext) (filters : List Filter) (candidates : List Candidate) :
    List SearchHit :=
  candidates.filterMap fun candidate =>
    (context.acceptAll filters candidate).map (hit context.types.unit candidate.node)

/-! ### Calls

What a call spells out is there before any call is resolved.  The calls of a unit are resolved only
if one of them passes the filters that look at nothing else. -/

/-- The calls as they are spelled out, with their classes left open. -/
def spelledCalls (context : CallContext) : List Candidate :=
  context.ast.ids.filterMap fun id =>
    (calledName context.ast id).map fun name =>
      .ofMethod id name (context.ast.arguments id).length (.known none)

/-- The calls that pass the filters on what they spell out. -/
def screenedCalls (context : CallContext) (filters : List Filter) : List Candidate :=
  context.spelledCalls.filter fun call =>
    (context.acceptAll (filters.filter Filter.isSyntactic) call).isSome

/-- Gives calls what is recorded for their nodes.  What is given is taken from the table. -/
def withRecorded : Std.TreeMap Nat CallSite → List Candidate → List Candidate
  | _, [] => []
  | table, call :: rest =>
    { call with source := .ofRecorded table[call.node]? } ::
      withRecorded (table.erase call.node) rest

/-- What filters find among calls that are resolved first. -/
def resolvedHits (context : CallContext) (filters : List Filter) (calls : List Candidate) :
    List SearchHit :=
  context.hits filters (withRecorded context.callTable calls)

/-- What filters find among the calls. -/
def callHits (context : CallContext) (filters : List Filter) : List SearchHit :=
  let screened := context.screenedCalls filters
  if screened.isEmpty then [] else context.resolvedHits filters screened

/-- Every node of a unit that a query finds, in source order. -/
def search (context : CallContext) (query : Query) : List SearchHit :=
  let filters := query.orderedFilters
  match query.kind with
  | .methodRef => context.callHits filters
  | kind => context.hits filters (context.candidates kind)

end CallContext

end CodeAtlas
