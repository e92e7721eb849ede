/-
# Declarations of a source file

Entering into an index what a source file declares: its classes, their supertypes and imports,
their members, and the calls between their methods.
-/
import CodeAtlas.Resolve.Calls
import CodeAtlas.Resolve.Types

namespace CodeAtlas.Load

open Source (Ast CompilationUnit)

/-! ## Packages and classes -/

/-- Enters a package into a project; tells whether it is new. -/
def registerPackage (project : ItemId) (name : String) : Edit (ItemId × Bool) := do
  let known := ((← get).findItem (some project) name .package).isSome
  let package ← Index.createPackage project name
  return (package, !known)

/-- Enters the class of a type declaration, inside the class of the declaration around it.  A
declaration without a name, or inside one that has no class, gets none. -/
def registerClass (ast : Ast) (package : ItemId) (known : List (Nat × ItemId)) (decl : Nat) :
    Edit (List (Nat × ItemId)) := do
  let some simple := ast.nameOf decl | return known
  let cls ← match ast.enclosingType decl with
    | none => Index.createClass package simple
    | some outer =>
      match known.lookup outer with
      | some outer => Index.createInnerClass outer simple
      | none => return known
  if ast.hasModifier decl "public" then
    Index.update cls (fun item => item.setFlag .projectVisible true)
  return known ++ [(decl, cls)]

/-- Enters the classes of all type declarations of a unit. -/
def registerClasses (unit : CompilationUnit) (package : ItemId) : Edit (List (Nat × ItemId)) :=
  unit.typeDeclarations.foldlM (registerClass unit.ast package) []

/-! ## Supertypes and imports -/

/-- What a class refers to by its head and the imports of its unit. -/
structure ClassLinks where
  superclass : Option ItemId
  interfaces : List ItemId
  imports : List ItemId
  /-- The number of supertypes that are not in the index. -/
  unresolved : Nat

/-- The classes that a unit imports by name. -/
def importedClasses (types : TypeResolver) (index : Index) : List ItemId :=
  (types.unit.imports.filter Source.Import.isSingleType).filterMap
    (fun imp => types.ownClass index imp.name)

/-- The links of the class of a type declaration; imports belong to top-level classes. -/
def classLinks (types : TypeResolver) (index : Index) (imported : List ItemId) (decl : Nat) :
    ClassLinks :=
  let ast := types.unit.ast
  let supertypes := fun role =>
    ((ast.childrenInRole decl role).filter (fun id => (ast.kind id).isType)).map
      (fun id => types.lookupType index ⟨id, 0⟩)
  let superclasses := supertypes .superclass
  let interfaces := supertypes .interface
  { superclass := (superclasses.filterMap fun found => found).getLast?
    interfaces := interfaces.filterMap fun found => found
    imports := if (ast.enclosingType decl).isNone then imported else []
    unresolved := (superclasses ++ interfaces).countP Option.isNone }

/-- Enters supertypes into a class. -/
def setSupertypes (superclass : Option ItemId) (interfaces : List ItemId) (item : Item) : Item :=
  let item := match superclass with
    | some id => item.setId .superclass id
    | none => item
  interfaces.foldl (fun item id => item.pushNew .superinterfaces id) item

/-- Makes a class depend on items. -/
def dependOn (source : ItemId) (targets : List ItemId) (index : Index) : Index :=
  targets.foldl (fun index target => (index.addDependency source target).2) index

/-- Enters the links of a class. -/
def linkClass (index : Index) (cls : ItemId) (links : ClassLinks) : Index :=
  let index := index.modify cls (setSupertypes links.superclass links.interfaces)
  dependOn cls (links.superclass.toList ++ links.interfaces ++ links.imports) index

/-- Links the classes of a unit, all of them as the index was before; returns the number of
supertypes that are not in the index. -/
def linkClasses (types : TypeResolver) (classes : List (Nat × ItemId)) : StateM Index Nat :=
  fun index =>
    let imported := importedClasses types index
    let links := classes.map (fun (decl, cls) => (cls, classLinks types index imported decl))
    (links.foldl (fun missing (_, links) => missing + links.unresolved) 0,
      links.foldl (fun index (cls, links) => linkClass index cls links) index)

/-! ## Members -/

/-- The methods of a unit by their declarations, and the number of fields. -/
structure Members where
  methods : List (Nat × ItemId)
  fields : Nat

/-- The type of a declaration; a declaration without a type has any type. -/
def declaredOrAny (types : TypeResolver) (decl : Nat) : Edit ItemId :=
  match types.unit.ast.declaredType decl with
  | some use => types.materializeType use
  | none => Index.createWildcard

/-- Enters a field of a type. -/
def registerField (cls : ItemId) (type : ItemId) (members : Members) (name : String) :
    Edit Members := do
  let field ← Index.createField cls name
  Index.update field (fun item => item.setId .fieldType type)
  return { members with fields := members.fields + 1 }

/-- Enters the field of a record component that has a name and a type. -/
def registerComponent (types : TypeResolver) (cls : ItemId) (members : Members) (component : Nat) :
    Edit Members := do
  match types.unit.ast.nameOf component, types.unit.ast.declaredType component with
  | some name, some use =>
    let type ← types.materializeType use
    registerField cls type members name
  | _, _ => return members

/-- Enters a method of a name with the signature of a declaration. -/
def registerMethod (types : TypeResolver) (cls : ItemId) (members : Members) (decl : Nat)
    (name : String) : Edit Members := do
  let ast := types.unit.ast
  let params ← (ast.parameters decl).mapM (declaredOrAny types)
  let returnType ← match ast.kind decl, ast.declaredType decl with
    | .methodDeclaration, some use => some <$> types.materializeType use
    | _, _ => pure none
  let thrown ← ((ast.childrenInRole decl .throws).filter (fun id => (ast.kind id).isType)).mapM
    (fun id => types.materializeType ⟨id, 0⟩)
  let method ← Index.createMethod cls name (some params)
  Index.update method fun item =>
    let item := match returnType with
      | some type => item.setId .returnType type
      | none => item
    thrown.foldl (fun item type => item.pushNew .thrownTypes type) item
  return { members with methods := members.methods ++ [(decl, method)] }

/-- Enters a member of a class. -/
def registerMember (types : TypeResolver) (cls : ItemId) (members : Members) (member : Nat) :
    Edit Members := do
  let ast := types.unit.ast
  match ast.kind member with
  | .constructorDeclaration => registerMethod types cls members member constructorName
  | .methodDeclaration =>
    match ast.nameOf member with
    | some name => registerMethod types cls members member name
    | none => return members
  | .fieldDeclaration =>
    let type ← declaredOrAny types member
    ((ast.childrenInRole member .declarator).filterMap ast.nameOf).foldlM
      (registerField cls type) members
  | .enumConstant =>
    match ast.nameOf member with
    | some name => registerField cls cls members name
    | none => return members
  | _ => return members

/-- Enters the members of the class of a type declaration, the components of a record first. -/
def registerMembersOf (types : TypeResolver) (members : Members) (declared : Nat × ItemId) :
    Edit Members := do
  let ast := types.unit.ast
  let (decl, cls) := declared
  let components := if ast.kind decl = .recordDeclaration then ast.parameters decl else []
  let members ← components.foldlM (registerComponent types cls) members
  (ast.members decl).foldlM (registerMember types cls) members

/-- Enters the members of the classes of a unit. -/
def registerMembers (types : TypeResolver) (classes : List (Nat × ItemId)) : Edit Members :=
  classes.foldlM (registerMembersOf types) ⟨[], 0⟩

/-! ## Calls -/

/-- Resolves calls, in order; returns how many got a pseudo method and how many no target. -/
def settleCalls (calls : List CallSite) (create : Bool) : Edit (Nat × Nat) :=
  calls.foldlM (fun (created, unresolved) site => do
    match ← Index.resolveOrCreate site create with
    | .resolved _ => return (created, unresolved)
    | .created _ => return (created + 1, unresolved)
    | .unresolved => return (created, unresolved + 1)) (0, 0)

/-- The dependencies that a call makes: the method around it, or else the class, depends on the
target, and on the class of the target when that is a constructor. -/
def callEdges (ast : Ast) (index : Index) (methods classes : List (Nat × ItemId))
    (site : CallSite) : List (ItemId × ItemId) :=
  let source := (ast.ancestors site.node).findSome? fun id =>
    (methods.lookup id).or (classes.lookup id)
  match index.resolveCall site, source with
  | some target, some source =>
    let owner := if site.kind = .constructor then (index.get? target).bind Item.parent else none
    (source, target) :: owner.toList.map (fun owner => (source, owner))
  | _, _ => []

/-- Links the calls of a unit, all of them as the index was before. -/
def linkCalls (ast : Ast) (methods classes : List (Nat × ItemId)) (calls : List CallSite)
    (index : Index) : Index :=
  (calls.flatMap (callEdges ast index methods classes)).foldl
    (fun index (source, target) => (index.addDependency source target).2) index

end CodeAtlas.Load
