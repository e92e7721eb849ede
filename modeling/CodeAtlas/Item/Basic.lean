/-
# Items

An item is a project, package, class, method or field.  It knows its owner and what it owns, the
items it depends on and those that depend on it, and its attributes.
-/
import CodeAtlas.Item.Attributes
import CodeAtlas.Item.Kind
import CodeAtlas.Text.Split

namespace CodeAtlas

/-- Adds a handle at the end unless it is there already. -/
def insertNew (ids : Array ItemId) (id : ItemId) : Array ItemId :=
  if ids.contains id then ids else ids.push id

/-- The handles of a list in order of first occurrence. -/
def distinct (ids : List ItemId) : Array ItemId :=
  ids.foldl insertNew #[]

/-- One item. -/
structure Item where
  id : ItemId
  name : String
  kind : ItemKind
  parent : Option ItemId
  children : Array ItemId
  dependencies : Array ItemId
  incoming : Array ItemId
  attributes : Attributes
deriving DecidableEq, Repr

namespace Item

/-- An item with an owner and nothing else. -/
def fresh (id : ItemId) (name : String) (kind : ItemKind) (parent : Option ItemId) : Item where
  id := id
  name := name
  kind := kind
  parent := parent
  children := #[]
  dependencies := #[]
  incoming := #[]
  attributes := .empty

/-! ## Attributes -/

/-- The superclass of a class. -/
def superclass (item : Item) : Option ItemId :=
  item.attributes.id? .superclass

/-- The interfaces a class extends or implements, in order. -/
def superinterfaces (item : Item) : List ItemId :=
  ((item.attributes.ids? .superinterfaces).getD #[]).toList

/-- The return type of a method. -/
def returnType (item : Item) : Option ItemId :=
  item.attributes.id? .returnType

/-- The recorded parameter list; none when no signature was recorded. -/
def paramTypes? (item : Item) : Option (List ItemId) :=
  (item.attributes.ids? .paramTypes).map Array.toList

/-- The parameter list, where an unrecorded one counts as empty. -/
def paramTypes (item : Item) : List ItemId :=
  item.paramTypes?.getD []

/-- The type of a field. -/
def fieldType (item : Item) : Option ItemId :=
  item.attributes.id? .fieldType

/-- The types a method declares to throw, in order. -/
def thrownTypes (item : Item) : List ItemId :=
  ((item.attributes.ids? .thrownTypes).getD #[]).toList

/-- The classes declared inside a class, in order. -/
def innerClasses (item : Item) : List ItemId :=
  ((item.attributes.ids? .innerClasses).getD #[]).toList

/-- The class around a class. -/
def outerClass (item : Item) : Option ItemId :=
  item.attributes.id? .outerClass

/-- The element type of an array class. -/
def arrayBase (item : Item) : Option ItemId :=
  item.attributes.id? .arrayBase

/-- Whether an item comes from a class file. -/
def isBinary (item : Item) : Bool :=
  item.attributes.flag .binary

/-- Whether an item is flagged as third-party. -/
def isThirdParty (item : Item) : Bool :=
  item.attributes.flag .thirdParty

/-- Whether an item can be seen from other projects. -/
def isProjectVisible (item : Item) : Bool :=
  item.attributes.flag .projectVisible

/-- Whether an item is a placeholder. -/
def isPseudo (item : Item) : Bool :=
  item.attributes.flag .pseudo

/-- Sets an attribute. -/
def set (item : Item) (key : AttrKey) (value : AttrValue) : Item :=
  { item with attributes := item.attributes.set key value }

/-- Sets an attribute to a handle. -/
def setId (item : Item) (key : AttrKey) (target : ItemId) : Item :=
  item.set key (.id target)

/-- Sets an attribute to a flag. -/
def setFlag (item : Item) (key : AttrKey) (value : Bool) : Item :=
  item.set key (.flag value)

/-- Records the parameter list. -/
def setParamTypes (item : Item) (params : List ItemId) : Item :=
  item.set .paramTypes (.ids params.toArray)

/-- Adds a handle to a list attribute. -/
def push (item : Item) (key : AttrKey) (target : ItemId) : Item :=
  { item with attributes := item.attributes.push key target }

/-- Adds a handle to a list attribute unless it is there. -/
def pushNew (item : Item) (key : AttrKey) (target : ItemId) : Item :=
  { item with attributes := item.attributes.pushNew key target }

/-! ## Array names -/

/-- The number of `[]` at the end of a name that is given back to front. -/
def bracketPairs : List Char → Nat
  | ']' :: '[' :: rest => bracketPairs rest + 1
  | _ => 0

/-- The number of array dimensions a class name spells out. -/
def arrayDims (item : Item) : Nat :=
  bracketPairs item.name.toList.reverse

/-- The name of the array class of `dims` dimensions over `name`. -/
def arrayName (name : String) (dims : Nat) : String :=
  name ++ String.join (List.replicate dims "[]")

/-! ## References -/

/-- Every handle in the attributes. -/
def attributeIds (item : Item) : List ItemId :=
  item.attributes.targets

/-- Every handle the item holds: its owner, what it owns, dependencies both ways, attributes. -/
def referencedIds (item : Item) : List ItemId :=
  item.parent.toList ++ item.children.toList ++ item.dependencies.toList ++
    item.incoming.toList ++ item.attributeIds

/-- The item with every handle it holds sent through `f`; handles that `f` refuses are dropped. -/
def remap (item : Item) (f : ItemId → Option ItemId) : Item :=
  { item with
    parent := item.parent.bind f
    children := item.children.filterMap f
    dependencies := distinct (item.dependencies.toList.filterMap f)
    incoming := distinct (item.incoming.toList.filterMap f)
    attributes := item.attributes.remap f }

end Item

end CodeAtlas
