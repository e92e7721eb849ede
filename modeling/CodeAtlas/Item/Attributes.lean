/-
# Attributes of items

What an item records beyond its place in the containment tree: the types it mentions, the classes
it is nested with and a few flags.  Each attribute has a key; its value is a handle, a list of
handles or a flag.  A key can be set to a value of any of the three forms.
-/
import CodeAtlas.Item.Id

namespace CodeAtlas

/-- The attributes, in the order in which they are listed. -/
inductive AttrKey where
  | superclass
  | superinterfaces
  | returnType
  | paramTypes
  | fieldType
  | thrownTypes
  | innerClasses
  | outerClass
  | arrayBase
  | binary
  | thirdParty
  | projectVisible
  | pseudo
deriving DecidableEq, Repr

namespace AttrKey

/-- Every key, in listing order. -/
def all : List AttrKey :=
  [superclass, superinterfaces, returnType, paramTypes, fieldType, thrownTypes, innerClasses,
    outerClass, arrayBase, binary, thirdParty, projectVisible, pseudo]

/-- Place of a key in the listing order. -/
def index : AttrKey → Fin 13
  | superclass => 0
  | superinterfaces => 1
  | returnType => 2
  | paramTypes => 3
  | fieldType => 4
  | thrownTypes => 5
  | innerClasses => 6
  | outerClass => 7
  | arrayBase => 8
  | binary => 9
  | thirdParty => 10
  | projectVisible => 11
  | pseudo => 12

/-- The key at a place of the listing order. -/
theorem all_getElem_index (key : AttrKey) : all[(key.index : Nat)]? = some key := by
  cases key <;> rfl

/-- Different keys have different places. -/
theorem index_inj {a b : AttrKey} : a.index = b.index ↔ a = b := by
  refine ⟨fun h => ?_, fun h => h ▸ rfl⟩
  have ha := all_getElem_index a
  rw [h, all_getElem_index b] at ha
  exact (Option.some.inj ha).symm

/-- The name of an attribute. -/
def text : AttrKey → String
  | superclass => "Superclass"
  | superinterfaces => "Superinterfaces"
  | returnType => "ReturnType"
  | paramTypes => "ParamTypes"
  | fieldType => "FieldType"
  | thrownTypes => "ThrownTypes"
  | innerClasses => "InnerClasses"
  | outerClass => "OuterClass"
  | arrayBase => "ArrayBase"
  | binary => "Binary"
  | thirdParty => "ThirdParty"
  | projectVisible => "ProjectVisible"
  | pseudo => "Pseudo"

/-- The attribute of a name. -/
def ofText? (word : String) : Option AttrKey :=
  all.find? (fun key => key.text == word)

end AttrKey

/-- Value of an attribute. -/
inductive AttrValue where
  | id (target : ItemId)
  | ids (targets : Array ItemId)
  | flag (value : Bool)
deriving DecidableEq, Repr

namespace AttrValue

/-- The handles a value holds, in order. -/
def targets : AttrValue → List ItemId
  | id target => [target]
  | ids targets => targets.toList
  | flag _ => []

/-- A value with its handles sent through `f`; a lone handle that `f` refuses leaves no value. -/
def remap (f : ItemId → Option ItemId) : AttrValue → Option AttrValue
  | id target => (f target).map id
  | ids targets => some (ids (targets.filterMap f))
  | flag value => some (flag value)

end AttrValue

/-- The attributes of one item: for each key a value or none. -/
structure Attributes where
  slots : Vector (Option AttrValue) 13
deriving DecidableEq, Repr

namespace Attributes

/-- No attribute is set. -/
def empty : Attributes :=
  ⟨Vector.replicate 13 none⟩

/-- The value under a key. -/
def get? (attrs : Attributes) (key : AttrKey) : Option AttrValue :=
  attrs.slots[key.index]

/-- The value under `key` sent through `f`.  The slot is emptied first, so that `f` owns the old
value and can extend a long list in place. -/
def alter (attrs : Attributes) (key : AttrKey) (f : Option AttrValue → Option AttrValue) :
    Attributes :=
  let old := attrs.slots[key.index]
  let rest := attrs.slots.set key.index none
  ⟨rest.set key.index (f old)⟩

/-- Sets the value under a key. -/
def set (attrs : Attributes) (key : AttrKey) (value : AttrValue) : Attributes :=
  attrs.alter key (fun _ => some value)

theorem get?_alter (attrs : Attributes) (key other : AttrKey)
    (f : Option AttrValue → Option AttrValue) :
    (attrs.alter key f).get? other = if key = other then f (attrs.get? key) else attrs.get? other := by
  by_cases h : key = other
  · subst h
    simp [alter, get?]
  · have hne : (key.index : Nat) ≠ other.index := fun e => h (AttrKey.index_inj.1 (Fin.ext e))
    simp [alter, get?, h, Vector.getElem_set_ne, hne]

@[simp] theorem get?_set (attrs : Attributes) (key other : AttrKey) (value : AttrValue) :
    (attrs.set key value).get? other = if key = other then some value else attrs.get? other :=
  get?_alter attrs key other _

/-- The keys that are set, with their values, in listing order. -/
def toList (attrs : Attributes) : List (AttrKey × AttrValue) :=
  AttrKey.all.filterMap (fun key => (attrs.get? key).map (fun value => (key, value)))

/-- The handle under a key, when its value is a handle. -/
def id? (attrs : Attributes) (key : AttrKey) : Option ItemId :=
  match attrs.get? key with
  | some (.id target) => some target
  | _ => none

/-- The list of handles under a key, when its value is a list. -/
def ids? (attrs : Attributes) (key : AttrKey) : Option (Array ItemId) :=
  match attrs.get? key with
  | some (.ids targets) => some targets
  | _ => none

/-- Whether a key is set to a flag that holds. -/
def flag (attrs : Attributes) (key : AttrKey) : Bool :=
  match attrs.get? key with
  | some (.flag value) => value
  | _ => false

/-- Adds a handle at the end of the list under a key; anything else there gives way to a list. -/
def push (attrs : Attributes) (key : AttrKey) (target : ItemId) : Attributes :=
  attrs.alter key fun
    | some (.ids targets) => some (.ids (targets.push target))
    | _ => some (.ids #[target])

/-- Adds a handle at the end of the list under a key unless the list holds it already. -/
def pushNew (attrs : Attributes) (key : AttrKey) (target : ItemId) : Attributes :=
  attrs.alter key fun
    | some (.ids targets) =>
      some (.ids (if targets.contains target then targets else targets.push target))
    | _ => some (.ids #[target])

/-- Every handle in the attributes, key by key. -/
def targets (attrs : Attributes) : List ItemId :=
  attrs.toList.flatMap (fun entry => entry.2.targets)

/-- The attributes with every handle sent through `f`; see `AttrValue.remap`. -/
def remap (attrs : Attributes) (f : ItemId → Option ItemId) : Attributes :=
  ⟨attrs.slots.map (fun slot => slot.bind (AttrValue.remap f))⟩

@[simp] theorem get?_remap (attrs : Attributes) (f : ItemId → Option ItemId) (key : AttrKey) :
    (attrs.remap f).get? key = (attrs.get? key).bind (AttrValue.remap f) := by
  simp [remap, get?]

end Attributes

end CodeAtlas
