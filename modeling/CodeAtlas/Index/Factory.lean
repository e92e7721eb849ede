/-
# Finding or creating items

Each operation returns the item that fits its arguments and creates it only when there is none.
Methods are told apart by their signatures, everything else by owner, name and kind.
-/
import CodeAtlas.Index.Hierarchy

namespace CodeAtlas

/-- A change of an index that may be refused.  The index after a refusal is kept. -/
abbrev Edit := ExceptT GraphError (StateM Index)

namespace Index

/-- Changes the item a handle names. -/
def update (id : ItemId) (f : Item → Item) : StateM Index Unit :=
  fun index => ((), index.modify id f)

/-- Creates an item and links it to its owner. -/
def insertItem (index : Index) (parent : Option ItemId) (name : String) (kind : ItemKind) :
    ItemId × Index :=
  let (id, index) := index.allocate
  let index := index.store (.fresh id name kind parent)
  let index :=
    match parent with
    | some owner =>
      index.modify owner (fun item => { item with children := item.children.push id })
    | none => index
  (id, index.register id)

/-- The item under an owner, a name and a kind, created when there is none. -/
def intern (parent : Option ItemId) (name : String) (kind : ItemKind) : StateM Index ItemId :=
  fun index =>
    match index.findItem parent name kind with
    | some id => (id, index)
    | none => index.insertItem parent name kind

/-- Why `owner` may not get an item of this kind and name, if so. -/
def refusal? (index : Index) (owner : ItemId) (kind : ItemKind) (name : String) :
    Option GraphError :=
  match index.get? owner with
  | none => some (.unknownOwner owner)
  | some item =>
    if !item.kind.canContain kind then some (.cannotContain item.kind item.name kind name)
    else if name.isEmpty && kind != .package then some (.emptyName kind)
    else none

/-- Refuses an owner that may not get an item of this kind and name. -/
def checkOwner (owner : ItemId) (kind : ItemKind) (name : String) : Edit Unit := do
  match (← get).refusal? owner kind name with
  | some error => throw error
  | none => return ()

/-- The project of a name. -/
def createProject (name : String) : StateM Index ItemId :=
  intern none name .project

/-- The package of a full dotted name in a project; the empty name is the unnamed package. -/
def createPackage (project : ItemId) (name : String) : Edit ItemId := do
  checkOwner project .package name
  intern (some project) name .package

/-- The class of a name in a package; a nested class is named `Outer.Inner`. -/
def createClass (package : ItemId) (name : String) : Edit ItemId := do
  checkOwner package .class name
  intern (some package) name .class

/-- The package and the name of a class; `error` says that the item is none. -/
def classPlace (id : ItemId) (error : GraphError) : Edit (ItemId × String) := do
  match (← get).get? id with
  | some item =>
    if item.kind = .class then
      match item.parent with
      | some package => return (package, item.name)
      | none => throw (.noPackage item.name)
    else throw error
  | none => throw error

/-- The class `Outer.simple` beside a class, with both directions of the nesting recorded. -/
def createInnerClass (outer : ItemId) (simple : String) : Edit ItemId := do
  let (package, outerName) ← classPlace outer (.notClass outer)
  let inner ← createClass package (outerName ++ "." ++ simple)
  update inner (fun item => item.setId .outerClass outer)
  update outer (fun item => item.pushNew .innerClasses inner)
  return inner

/-- The method of a class with a name and a matching signature.  A new method records `params`;
`none` leaves its signature unrecorded. -/
def createMethod (owner : ItemId) (name : String) (params : Option (List ItemId)) :
    Edit ItemId := do
  checkOwner owner .method name
  let index ← get
  let existing := (index.findAll (some owner) name .method).find? fun candidate =>
    index.paramsMatch (((index.get? candidate).map Item.paramTypes).getD []) (params.getD [])
  match existing with
  | some id => return id
  | none =>
    let id ← modifyGet (fun index : Index => index.insertItem (some owner) name .method)
    match params with
    | some params => update id (fun item => item.setParamTypes params)
    | none => pure ()
    return id

/-- The field of a name in a class. -/
def createField (owner : ItemId) (name : String) : Edit ItemId := do
  checkOwner owner .field name
  intern (some owner) name .field

/-- The element type and the number of dimensions of the array with `dims` dimensions over `base`;
the dimensions of a `base` that is itself an array count. -/
def arrayShape (index : Index) (base : ItemId) (dims : Nat) : ItemId × Nat :=
  match index.get? base with
  | some item =>
    match item.arrayBase with
    | some inner => (inner, dims + item.arrayDims)
    | none => (base, dims)
  | none => (base, dims)

/-- The array class of `dims` dimensions over `base`, beside its element type. -/
def createArrayClass (base : ItemId) (dims : Nat) : Edit ItemId := do
  let (root, total) := (← get).arrayShape base dims
  if total = 0 then return root
  let (package, name) ← classPlace root (.badArrayBase root)
  let array ← createClass package (Item.arrayName name total)
  update array (fun item => item.setId .arrayBase root)
  return array

/-- The builtin project. -/
def createBuiltinProject : StateM Index ItemId :=
  createProject builtinProject

/-- The package of the builtin classes. -/
def createBuiltinPackage : StateM Index ItemId := do
  let project ← createBuiltinProject
  intern (some project) "" .package

/-- A primitive type. -/
def createPrimitive (name : String) : Edit ItemId := do
  if primitives.contains name then
    let package ← createBuiltinPackage
    intern (some package) name .class
  else throw (.notPrimitive name)

/-- The wildcard. -/
def createWildcard : StateM Index ItemId := do
  let package ← createBuiltinPackage
  intern (some package) wildcardName .class

end Index

end CodeAtlas
