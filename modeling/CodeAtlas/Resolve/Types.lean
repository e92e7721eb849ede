/-
# Types named in a source file

A type name written in a compilation unit stands for a class of the index.  A simple name is looked
for among the enclosing types and their members, inherited ones included, then among the imports of
single classes, in the package of the file, in the on-demand imports and in `java.lang`.  Where
several projects declare a class, that of the file's own project wins.
-/
import CodeAtlas.Index.Factory
import CodeAtlas.Source.CompilationUnit

namespace CodeAtlas

open Source

/-! ## Declared types -/

/-- A type written in a source file, with the dimensions that its declaration adds. -/
structure TypeUse where
  node : Nat
  extraDims : Nat
deriving DecidableEq, Repr

namespace Source.Ast

/-- Whether a parameter takes any number of arguments: three dots stand between its type and its
name. -/
def isSpread (ast : Ast) (param type : Nat) : Bool :=
  let start := (ast.span type).stop
  let stop :=
    match (ast.childInRole param .declarator).or (ast.childInRole param .name) with
    | some id => (ast.span id).start
    | none => (ast.span param).stop
  match ast.textBetween? start stop with
  | some gap => Text.occursIn ['.', '.', '.'] gap.toList
  | none => false

/-- The declared type of a parameter, field, variable, method or of a new object. -/
def declaredType (ast : Ast) (decl : Nat) : Option TypeUse :=
  let role := if ast.kind decl = .methodDeclaration then .returnType else .type
  match (ast.childrenInRole decl role).find? (fun id => (ast.kind id).isType) with
  | none => none
  | some node =>
    let spread := ast.kind decl == .formalParameter && ast.isSpread decl node
    some ⟨node, if spread then 1 else 0⟩

/-- The name and the dimensions of a type, looking at most `steps` nodes deep. -/
def typeNameWithin (ast : Ast) : Nat → Nat → Option (String × Nat)
  | 0, _ => none
  | steps + 1, id =>
    match ast.kind id with
    | .simpleType | .qualifiedType | .primitiveType => some (Text.dropBlanks (ast.text id), 0)
    | .parameterizedType =>
      match (ast.childrenInRole id .type).find? (fun child => (ast.kind child).isType) with
      | some raw => typeNameWithin ast steps raw
      | none => none
    | .arrayType =>
      match (ast.childInRole id .type).bind (typeNameWithin ast steps) with
      | some (name, dims) => some (name, dims + ast.arrayDims id)
      | none => none
    | _ => none

/-- The name and the dimensions of a type; type arguments are dropped. -/
def typeName (ast : Ast) (id : Nat) : Option (String × Nat) :=
  ast.typeNameWithin (ast.size + 1) id

end Source.Ast

/-! ## Resolving names -/

/-- What a type name stands for. -/
inductive NameLookup where
  | found (id : ItemId)
  /-- A type parameter in sight; it stands for any type. -/
  | typeVariable
  | unresolved
deriving DecidableEq, Repr

/-- Chooses the first candidate of a project, else the first candidate. -/
def Index.preferProject (index : Index) (project : Option ItemId) (candidates : List ItemId) :
    Option ItemId :=
  let own := project.bind fun project =>
    candidates.find? (fun candidate => index.projectOf candidate == some project)
  own.or candidates.head?

/-- The class with a dotted name below a class. -/
def Index.memberClass (index : Index) (outer : ItemId) (rest : String) : Option ItemId :=
  match index.get? outer, index.packageOf outer with
  | some item, some package => index.findItem (some package) (item.name ++ "." ++ rest) .class
  | _, _ => none

/-- A compilation unit and the project it belongs to. -/
structure TypeResolver where
  unit : CompilationUnit
  project : Option ItemId

namespace TypeResolver

/-- Chooses the first candidate of the unit's project, else the first candidate. -/
def preferOwn (types : TypeResolver) (index : Index) (candidates : List ItemId) : Option ItemId :=
  index.preferProject types.project candidates

/-- The packages named like the unit's package, those of its project first. -/
def unitPackages (types : TypeResolver) (index : Index) : List ItemId :=
  let packages := index.findByName .package types.unit.package
  match types.project with
  | none => packages
  | some project =>
    let isOwn := fun id => index.projectOf id == some project
    packages.filter isOwn ++ packages.filter (fun id => !isOwn id)

/-- A class of the unit's package. -/
def classInPackage (types : TypeResolver) (index : Index) (name : String) : Option ItemId :=
  (types.unitPackages index).findSome? (fun package => index.findItem (some package) name .class)

/-- The class of a type declaration of the unit. -/
def classOfDecl (types : TypeResolver) (index : Index) (decl : Nat) : Option ItemId :=
  (types.unit.ast.nestedName decl).bind (types.classInPackage index)

/-- The class of the innermost type declaration around a node. -/
def enclosingClass (types : TypeResolver) (index : Index) (id : Nat) : Option ItemId :=
  (types.unit.ast.enclosingType id).bind (types.classOfDecl index)

/-- Whether a name is a type parameter of a declaration around a node. -/
def isTypeVariable (types : TypeResolver) (id : Nat) (name : String) : Bool :=
  let ast := types.unit.ast
  let declares := fun decl =>
    ((ast.kind decl).isTypeDeclaration || (ast.kind decl).isMethodDeclaration) &&
      (ast.typeParameterNames decl).contains name
  (ast.withAncestors id).any declares

/-- A class that a type declaration brings into sight under a simple name: itself, a member or an
inherited member. -/
def classInSight (types : TypeResolver) (index : Index) (simple : String) (decl : Nat) :
    Option ItemId :=
  match types.classOfDecl index decl with
  | none => none
  | some id =>
    if types.unit.ast.nameOf decl == some simple then some id
    else
      (index.memberClass id simple).or
        ((index.supertypes id).findSome? (fun parent => index.memberClass parent simple))

/-- The class of a qualified name, from the unit's project if that has one. -/
def ownClass (types : TypeResolver) (index : Index) (name : String) : Option ItemId :=
  types.preferOwn index (index.findClasses name)

/-- The class of a simple name as seen from a node. -/
def lookupSimple (types : TypeResolver) (index : Index) (id : Nat) (simple : String) :
    Option ItemId :=
  let ast := types.unit.ast
  let enclosing := (ast.withAncestors id).filter (fun decl => (ast.kind decl).isTypeDeclaration)
  match enclosing.findSome? (types.classInSight index simple) with
  | some found => some found
  | none =>
    match (types.unit.explicitImport? simple).bind (fun imp => types.ownClass index imp.name) with
    | some found => some found
    | none =>
      match types.classInPackage index simple with
      | some found => some found
      | none =>
        match types.unit.starImports.findSome?
            (fun imp => types.ownClass index (imp.name ++ "." ++ simple)) with
        | some found => some found
        | none => types.ownClass index ("java.lang." ++ simple)

/-- The class of a name as seen from a node; type parameters are not considered. -/
def lookupClassName (types : TypeResolver) (index : Index) (id : Nat) (name : String) :
    Option ItemId :=
  match index.findPrimitive name with
  | some primitive => some primitive
  | none =>
    match Text.splitOnce '.' name with
    | none => types.lookupSimple index id name
    | some (head, rest) =>
      match types.ownClass index name with
      | some found => some found
      | none => (types.lookupSimple index id head).bind (index.memberClass · rest)

/-- What a name stands for as seen from a node. -/
def resolveName (types : TypeResolver) (index : Index) (id : Nat) (name : String) : NameLookup :=
  if !name.toList.contains '.' && types.isTypeVariable id name then .typeVariable
  else
    match types.lookupClassName index id name with
    | some found => .found found
    | none => .unresolved

/-- The class of a type use, if it exists already. -/
def lookupType (types : TypeResolver) (index : Index) (use : TypeUse) : Option ItemId :=
  match types.unit.ast.typeName use.node with
  | none => none
  | some (name, dims) =>
    let base :=
      match types.resolveName index use.node name with
      | .found id => some id
      | .typeVariable => index.findWildcard
      | .unresolved => none
    match base with
    | none => none
    | some id =>
      let dims := dims + use.extraDims
      if dims = 0 then some id
      else
        match index.get? id with
        | none => none
        | some item => index.findItem item.parent (Item.arrayName item.name dims) .class

/-- The class of a type use.  Array classes are created as needed, and the wildcard stands for what
cannot be resolved. -/
def materializeType (types : TypeResolver) (use : TypeUse) : Edit ItemId := do
  match types.unit.ast.typeName use.node with
  | none => Index.createWildcard
  | some (name, dims) =>
    let base ←
      if primitives.contains name then Index.createPrimitive name
      else
        match types.resolveName (← get) use.node name with
        | .found id => pure id
        | .typeVariable | .unresolved => Index.createWildcard
    Index.createArrayClass base (dims + use.extraDims)

end TypeResolver

end CodeAtlas
