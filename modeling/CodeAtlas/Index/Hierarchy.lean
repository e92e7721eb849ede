/-
# Owners, names and supertypes

Questions about one item that take several steps through the index: which package or project it
stands in, its qualified name, the supertypes of a class, and whether two types or signatures
match.

Links can form circles in an index that was read from a damaged snapshot.  Every walk along links
therefore takes at most as many steps as the index has items, which is enough to visit each item
once.
-/
import CodeAtlas.Index.Basic

namespace CodeAtlas

/-- The project that holds the primitive types, `void` and the wildcard. -/
def builtinProject : String := "$builtin"

/-- The name of the class that stands for any type. -/
def wildcardName : String := "?"

/-- The primitive types and `void`. -/
def primitives : List String :=
  ["boolean", "byte", "char", "short", "int", "long", "float", "double", "void"]

namespace Index

/-! ## Owners -/

/-- The nearest item of a kind on the way up from an item, the item itself included, within
`steps` steps. -/
def ownerWithin (index : Index) (kind : ItemKind) : Nat → ItemId → Option ItemId
  | 0, _ => none
  | steps + 1, id =>
    match index.get? id with
    | none => none
    | some item =>
      if item.kind = kind then some id
      else item.parent.bind (ownerWithin index kind steps)

/-- The nearest item of a kind on the way up from an item, the item itself included. -/
def ownerOfKind (index : Index) (kind : ItemKind) (id : ItemId) : Option ItemId :=
  index.ownerWithin kind (index.size + 1) id

/-- The package an item stands in. -/
def packageOf (index : Index) (id : ItemId) : Option ItemId :=
  index.ownerOfKind .package id

/-- The project an item stands in. -/
def projectOf (index : Index) (id : ItemId) : Option ItemId :=
  index.ownerOfKind .project id

/-- The class an item stands in. -/
def classOf (index : Index) (id : ItemId) : Option ItemId :=
  index.ownerOfKind .class id

/-- Whether the project an item stands in is flagged as third party. -/
def inThirdParty (index : Index) (id : ItemId) : Bool :=
  match (index.projectOf id).bind index.get? with
  | some project => project.isThirdParty
  | none => false

/-- The items that stand in a third-party project and are not flagged themselves. -/
def unflagged (index : Index) : List ItemId :=
  (index.items.filter (fun item => !item.isThirdParty && index.inThirdParty item.id)).map Item.id

/-- Flags every item of a third-party project.  The number tells how many were not flagged. -/
def propagateThirdParty (index : Index) : Nat × Index :=
  let pending := index.unflagged
  (pending.length,
    pending.foldl (fun index id => index.modify id (fun item => item.setFlag .thirdParty true)) index)

/-! ## Qualified names -/

/-- The qualified name of an item, walking at most `steps` owners up. -/
def qualifiedNameWithin (index : Index) : Nat → ItemId → Option String
  | 0, _ => none
  | steps + 1, id =>
    match index.get? id with
    | none => none
    | some item =>
      match item.kind with
      | .project | .package => some item.name
      | .class =>
        match item.parent.bind index.get? with
        | none => none
        | some package =>
          some (if package.name.isEmpty then item.name else package.name ++ "." ++ item.name)
      | .method | .field =>
        match item.parent.bind (qualifiedNameWithin index steps) with
        | none => none
        | some owner => some (owner ++ "." ++ item.name)

/-- The qualified name of an item: `pkg.Outer.Inner` for a class, `pkg.Class.member` for a method
or field, the plain name for a project or package. -/
def qualifiedName (index : Index) (id : ItemId) : Option String :=
  index.qualifiedNameWithin (index.size + 1) id

/-- The parts of a name before and after each of its dots, the first dot first. -/
def dotCuts : List Char → List (List Char × List Char)
  | [] => []
  | c :: rest =>
    let later := (dotCuts rest).map (fun cut => (c :: cut.1, cut.2))
    if c = '.' then ([], rest) :: later else later

/-- The ways to read a dotted name as a package and a class in it, the longest package first and
the unnamed package last. -/
def nameSplits (name : List Char) : List (List Char × List Char) :=
  (dotCuts name).reverse ++ [([], name)]

/-- The classes with a given qualified name, in all projects; longer packages come first. -/
def findClasses (index : Index) (name : String) : List ItemId :=
  let found := (nameSplits name.toList).flatMap fun (package, name) =>
    if name.isEmpty then []
    else
      (index.findByName .package (String.ofList package)).filterMap
        (fun id => index.findItem (some id) (String.ofList name) .class)
  (distinct found).toList

/-! ## Supertypes -/

/-- The superclass of an item, then its interfaces. -/
def directSupertypes (index : Index) (id : ItemId) : List ItemId :=
  match index.get? id with
  | some item => item.superclass.toList ++ item.superinterfaces
  | none => []

/-- The new items one link above a level, in order of discovery. -/
def nextLevel (index : Index) (seen level : List ItemId) : List ItemId :=
  (distinct ((level.flatMap index.directSupertypes).filter (fun id => !seen.contains id))).toList

/-- The supertypes above a level, level by level, up to `steps` levels. -/
def supertypesAbove (index : Index) : Nat → List ItemId → List ItemId → List ItemId
  | 0, _, _ => []
  | steps + 1, seen, level =>
    let next := index.nextLevel seen level
    if next.isEmpty then []
    else next ++ supertypesAbove index steps (seen ++ next) next

/-- The proper supertypes of a class, nearest first; at equal distance a superclass comes before
the interfaces declared beside it. -/
def supertypes (index : Index) (id : ItemId) : List ItemId :=
  index.supertypesAbove (index.size + 1) [id] [id]

/-- A class and its supertypes, nearest first. -/
def withSupertypes (index : Index) (id : ItemId) : List ItemId :=
  id :: index.supertypes id

/-- Whether the second class is the first or one of its supertypes. -/
def isSubtype (index : Index) (id ancestor : ItemId) : Bool :=
  id = ancestor || (index.supertypes id).contains ancestor

/-- The nearest field of a name in a class or its supertypes. -/
def findField (index : Index) (id : ItemId) (name : String) : Option ItemId :=
  (index.withSupertypes id).findSome? (fun owner => index.findItem (some owner) name .field)

/-! ## Matching types -/

/-- A builtin class that exists already. -/
def findBuiltin (index : Index) (name : String) : Option ItemId :=
  match index.findItem none builtinProject .project with
  | none => none
  | some project =>
    match index.findItem (some project) "" .package with
    | none => none
    | some package => index.findItem (some package) name .class

/-- The wildcard, if it exists. -/
def findWildcard (index : Index) : Option ItemId :=
  index.findBuiltin wildcardName

/-- A primitive type, if it exists. -/
def findPrimitive (index : Index) (name : String) : Option ItemId :=
  if primitives.contains name then index.findBuiltin name else none

/-- Whether two types match, looking at most `steps` array bases deep. -/
def typesMatchWithin (index : Index) : Nat → ItemId → ItemId → Bool
  | 0, _, _ => false
  | steps + 1, a, b =>
    if a = b then true
    else if index.findWildcard = some a || index.findWildcard = some b then true
    else
      match index.get? a, index.get? b with
      | some x, some y =>
        match x.arrayBase, y.arrayBase with
        | some xBase, some yBase =>
          x.arrayDims == y.arrayDims && typesMatchWithin index steps xBase yBase
        | _, _ => false
      | _, _ => false

/-- Whether two types can stand for each other: they are equal, one is the wildcard, or they are
arrays of equal dimensions over matching types. -/
def typesMatch (index : Index) (a b : ItemId) : Bool :=
  index.typesMatchWithin (index.size + 1) a b

/-- Whether two parameter lists match, type by type. -/
def paramsMatch (index : Index) (a b : List ItemId) : Bool :=
  a.length == b.length && (a.zip b).all (fun (x, y) => index.typesMatch x y)

end Index

/-! ## Asking for a method -/

/-- What is known about an argument of a call. -/
inductive ArgType where
  | any
  | known (type : ItemId)
deriving DecidableEq, Repr

/-- A method as a call describes it: a name and what is known of each argument. -/
structure MethodQuery where
  name : String
  args : List ArgType
deriving DecidableEq, Repr

namespace MethodQuery

/-- The query of a call of which only the number of arguments is known. -/
def ofCount (name : String) (count : Nat) : MethodQuery :=
  ⟨name, List.replicate count .any⟩

/-- Whether an argument fits a parameter. -/
def argFits (index : Index) (param : ItemId) : ArgType → Bool
  | .any => true
  | .known type => index.typesMatch type param

/-- Whether an item is a method that the query describes. -/
def matchesItem (query : MethodQuery) (index : Index) (id : ItemId) : Bool :=
  match index.get? id with
  | none => false
  | some item =>
    item.kind == .method && item.name == query.name &&
      item.paramTypes.length == query.args.length &&
      (item.paramTypes.zip query.args).all (fun (param, arg) => argFits index param arg)

/-- The parameter list of a method made from the query; an unknown argument gives the wildcard. -/
def paramTypes (query : MethodQuery) (wildcard : ItemId) : List ItemId :=
  query.args.map fun
    | .any => wildcard
    | .known type => type

end MethodQuery

/-- The nearest method in a class or its supertypes that a query describes. -/
def Index.findMethod (index : Index) (id : ItemId) (query : MethodQuery) : Option ItemId :=
  (index.withSupertypes id).findSome? fun owner =>
    (index.findAll (some owner) query.name .method).find? (query.matchesItem index)

end CodeAtlas
