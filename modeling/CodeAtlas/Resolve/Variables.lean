/-
# Variables and the types of expressions

A traversal of a compilation unit that keeps the variables in sight and records every call with the
classes that may declare its target.  The index is only read.  The type of an expression is worked
out once, when it is first asked for.
-/
import CodeAtlas.Resolve.Calls
import CodeAtlas.Resolve.Scope
import CodeAtlas.Resolve.Types
import CodeAtlas.Source.Walk

namespace CodeAtlas

open Source

/-- What the traversal keeps: the scope, the classes around the place, innermost first, the calls
seen, latest first, and the types of expressions worked out so far. -/
structure CallTracker where
  scope : Scope
  classes : List (Option ItemId)
  calls : List CallSite
  exprTypes : Std.TreeMap Nat (Option ItemId)

namespace CallTracker

/-- The state at the root of a unit. -/
def start : CallTracker :=
  ⟨.empty, [], [], ∅⟩

/-- The class around the place. -/
def currentClass (tracker : CallTracker) : Option ItemId :=
  tracker.classes.head?.join

/-- The superclass of the class around the place. -/
def currentSuperclass (tracker : CallTracker) (index : Index) : Option ItemId :=
  (tracker.currentClass.bind index.get?).bind Item.superclass

/-- The known classes around the place, innermost first. -/
def knownClasses (tracker : CallTracker) : List ItemId :=
  tracker.classes.filterMap (fun id => id)

/-- Binds a variable. -/
def bind (tracker : CallTracker) (name : String) (type : Option ItemId) : CallTracker :=
  { tracker with scope := tracker.scope.bind name type }

end CallTracker

/-- The index and the unit that a traversal reads. -/
structure CallContext where
  index : Index
  types : TypeResolver

namespace CallContext

/-- The syntax tree of the unit. -/
def ast (context : CallContext) : Ast :=
  context.types.unit.ast

/-- The type of the declared type of a declaration, if it exists. -/
def declared (context : CallContext) (decl : Nat) : Option ItemId :=
  (context.ast.declaredType decl).bind (context.types.lookupType context.index)

/-- The type of a literal. -/
def literalType (index : Index) : LiteralKind → Option ItemId
  | .int => index.findPrimitive "int"
  | .long => index.findPrimitive "long"
  | .float => index.findPrimitive "float"
  | .double => index.findPrimitive "double"
  | .char => index.findPrimitive "char"
  | .boolean => index.findPrimitive "boolean"
  | .string => (index.findClasses "java.lang.String").head?
  | .null => none

/-- The type of a simple name: that of the variable, else of the field of an enclosing class, else
the class of that name. -/
def nameType (context : CallContext) (tracker : CallTracker) (id : Nat) (name : String) :
    Option ItemId :=
  match tracker.scope.lookup name with
  | some binding => binding.type
  | none =>
    match tracker.knownClasses.findSome? (fun owner => context.index.findField owner name) with
    | some field => (context.index.get? field).bind Item.fieldType
    | none => context.types.lookupClassName context.index id name

/-- The class whose member a static import may bring into sight under a name. -/
def staticImportClass? (name : String) (imp : Import) : Option String :=
  if !imp.isStatic then none
  else if imp.onDemand then some imp.name
  else if imp.simpleName == name then (Text.splitLast '.' imp.name).map Prod.fst
  else none

/-- The classes that static imports bring into sight for a method name. -/
def staticImportOwners (context : CallContext) (name : String) : List ItemId :=
  (context.types.unit.imports.filterMap (staticImportClass? name)).flatMap context.index.findClasses

/-- The types of expressions below the one at hand. -/
abbrev TypeOf := Nat → StateM CallTracker (Option ItemId)

/-- The classes that may declare the target of a method call. -/
def methodOwners (context : CallContext) (typeOf : TypeOf) (call : Nat) (name : String) :
    StateM CallTracker (List ItemId) := do
  match context.ast.childInRole call .receiver with
  | some receiver => return (← typeOf receiver).toList
  | none =>
    let known := (← get).knownClasses.toArray
    return ((distinct (context.staticImportOwners name)).foldl insertNew known).toList

/-- The call site of a node, when the node is a call. -/
def callSite? (context : CallContext) (typeOf : TypeOf) (call : Nat) :
    StateM CallTracker (Option CallSite) := do
  let ast := context.ast
  let site := fun (kind : CallKind) (name : String) (owners : List ItemId) =>
    some (CallSite.mk call kind name owners (ast.arguments call).length (ast.enclosingMethod call))
  match ast.kind call with
  | .methodInvocation =>
    match ast.nameOf call with
    | none => return none
    | some name => return site .method name (← context.methodOwners typeOf call name)
  | .objectCreation =>
    return site .constructor constructorName (context.declared call).toList
  | .constructorInvocation =>
    let tracker ← get
    let owner :=
      if (ast.childrenOfKind call .super).isEmpty then tracker.currentClass
      else tracker.currentSuperclass context.index
    return site .constructor constructorName owner.toList
  | _ => return none

/-- The type of a field access. -/
def fieldAccessType (context : CallContext) (typeOf : TypeOf) (expr : Nat) :
    StateM CallTracker (Option ItemId) := do
  let ast := context.ast
  match ast.childInRole expr .name, ast.childInRole expr .receiver with
  | some field, some receiver =>
    if ast.kind field = .this then
      return context.types.lookupClassName context.index expr (ast.text receiver)
    else
      match ← typeOf receiver with
      | some owner =>
        return ((context.index.findField owner (ast.text field)).bind context.index.get?).bind
          Item.fieldType
      | none =>
        return context.types.lookupClassName context.index expr (Text.dropBlanks (ast.text expr))
  | _, _ => return none

/-- Works out the type of an expression from those below it. -/
def computeType (context : CallContext) (typeOf : TypeOf) (expr : Nat) :
    StateM CallTracker (Option ItemId) := do
  let ast := context.ast
  match ast.kind expr with
  | .name => return context.nameType (← get) expr (ast.text expr)
  | .qualifiedName => return context.types.lookupClassName context.index expr (ast.text expr)
  | .this => return (← get).currentClass
  | .super => return (← get).currentSuperclass context.index
  | .fieldAccess => context.fieldAccessType typeOf expr
  | .methodInvocation =>
    match ← context.callSite? typeOf expr with
    | none => return none
    | some site =>
      return ((context.index.resolveCall site).bind context.index.get?).bind Item.returnType
  | .objectCreation | .cast => return context.declared expr
  | .parenthesized =>
    match (ast.children expr).head? with
    | some inner => typeOf inner
    | none => return none
  | .literal kind => return literalType context.index kind
  | _ => return none

/-- The type of an expression, looking at most `steps` nodes deep. -/
def exprTypeWithin (context : CallContext) : Nat → TypeOf
  | 0, _ => return none
  | steps + 1, expr => do
    match (← get).exprTypes[expr]? with
    | some type => return type
    | none =>
      let type ← context.computeType (context.exprTypeWithin steps) expr
      modify (fun tracker => { tracker with exprTypes := tracker.exprTypes.insert expr type })
      return type

/-- The type of an expression, none when it is unknown. -/
def exprType (context : CallContext) : TypeOf :=
  context.exprTypeWithin (context.ast.size + 1)

/-! ## The traversal -/

/-- Binds the variables of a local declaration.  The type of `var` is that of the initial value. -/
def bindLocals (context : CallContext) (decl : Nat) : StateM CallTracker PUnit := do
  let ast := context.ast
  let use := ast.declaredType decl
  let isInferred :=
    match use with
    | some use => ast.text use.node == "var"
    | none => false
  for declarator in ast.childrenInRole decl .declarator do
    match ast.nameOf declarator with
    | none => pure ()
    | some name =>
      let type ←
        if isInferred then
          match ast.childInRole declarator .value with
          | some value => context.exprType value
          | none => pure none
        else pure (use.bind (context.types.lookupType context.index))
      modify (fun tracker => tracker.bind name type)

/-- Binds the variable of a declaration that has one. -/
def bindDeclared (context : CallContext) (decl : Nat) : StateM CallTracker PUnit := do
  match context.ast.nameOf decl with
  | some name => modify (fun tracker => tracker.bind name (context.declared decl))
  | none => pure ()

/-- Whether a name is an untyped parameter of a lambda. -/
def isLambdaParameter (ast : Ast) (id : Nat) : Bool :=
  ast.role id == .parameter && (ast.parent id).any (fun parent => ast.kind parent == .lambda)

/-- Opens the scope of a node and, for a type declaration, enters its class. -/
def openNode (context : CallContext) (id : Nat) (tracker : CallTracker) : CallTracker :=
  let kind := context.ast.kind id
  if kind.isTypeDeclaration then
    { tracker with
      classes := context.types.classOfDecl context.index id :: tracker.classes
      scope := tracker.scope.push }
  else if kind.opensScope then { tracker with scope := tracker.scope.push }
  else tracker

/-- What happens when a node is entered: variables are bound and calls recorded. -/
def enterNode (context : CallContext) (id : Nat) : StateM CallTracker PUnit := do
  modify (context.openNode id)
  match context.ast.kind id with
  | .formalParameter | .enhancedFor => context.bindDeclared id
  | .name =>
    if isLambdaParameter context.ast id then
      modify (fun tracker => tracker.bind (context.ast.text id) none)
  | .localVariableDeclaration => context.bindLocals id
  | .methodInvocation | .objectCreation | .constructorInvocation =>
    match ← context.callSite? context.exprType id with
    | some site => modify (fun tracker => { tracker with calls := site :: tracker.calls })
    | none => pure ()
  | _ => pure ()

/-- What happens when a node is left: its scope is closed. -/
def leaveNode (context : CallContext) (id : Nat) (tracker : CallTracker) : CallTracker :=
  let kind := context.ast.kind id
  if kind.isTypeDeclaration then
    { tracker with classes := tracker.classes.tail, scope := tracker.scope.pop }
  else if kind.opensScope then { tracker with scope := tracker.scope.pop }
  else tracker

/-- The visitor that records the calls of a unit. -/
def visitor (context : CallContext) : Visitor CallTracker where
  enter tracker id := (true, ((context.enterNode id).run tracker).2)
  leave tracker id := context.leaveNode id tracker

/-- The calls of a unit, in source order. -/
def calls (context : CallContext) : List CallSite :=
  (context.ast.walk context.visitor .start).calls.reverse

end CallContext

end CodeAtlas
