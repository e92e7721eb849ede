/-
# The item index

An index holds the items of one load.  It may be layered over a base index: then it numbers its
items after those of the base and shows the items of the base as its own.  A base item that is
changed through the upper index is copied into the upper layer, under its handle; the base keeps
the item as it was.

Items are found by owner, kind and name through a registry that lists handles in the order in
which the items were registered.
-/
import CodeAtlas.Index.Error

namespace CodeAtlas

/-! ## The registry -/

/-- What an item is found by: its owner, its kind and its name. -/
structure ItemKey where
  parent : Option ItemId
  kind : ItemKind
  name : String
deriving DecidableEq, Repr

namespace ItemKey

instance : Ord ItemKey :=
  ⟨compareLex (compareOn ItemKey.kind) (compareLex (compareOn ItemKey.name) (compareOn ItemKey.parent))⟩

instance : Std.TransOrd ItemKey :=
  inferInstanceAs (Std.TransCmp (compareLex (compareOn ItemKey.kind)
    (compareLex (compareOn ItemKey.name) (compareOn ItemKey.parent))))

instance : Std.LawfulEqOrd ItemKey where
  eq_of_compare {a b} h := by
    have h' : (compareLex (compareOn ItemKey.kind)
      (compareLex (compareOn ItemKey.name) (compareOn ItemKey.parent))) a b = .eq := h
    simp only [compareLex_eq_eq, compareOn, Std.compare_eq_iff_eq] at h'
    cases a; cases b; simp_all

end ItemKey

/-- What items of any owner are found by: kind and name. -/
structure NameKey where
  kind : ItemKind
  name : String
deriving DecidableEq, Repr

namespace NameKey

instance : Ord NameKey :=
  ⟨compareLex (compareOn NameKey.kind) (compareOn NameKey.name)⟩

instance : Std.TransOrd NameKey :=
  inferInstanceAs (Std.TransCmp (compareLex (compareOn NameKey.kind) (compareOn NameKey.name)))

instance : Std.LawfulEqOrd NameKey where
  eq_of_compare {a b} h := by
    have h' : (compareLex (compareOn NameKey.kind) (compareOn NameKey.name)) a b = .eq := h
    simp only [compareLex_eq_eq, compareOn, Std.compare_eq_iff_eq] at h'
    cases a; cases b; simp_all

end NameKey

/-- Handles by key and by name, each list in order of registration. -/
structure Registry where
  byKey : Std.TreeMap ItemKey (Array ItemId)
  byName : Std.TreeMap NameKey (Array ItemId)

namespace Registry

/-- Nothing is registered. -/
def empty : Registry :=
  ⟨∅, ∅⟩

/-- Adds a handle at the end of a list that may not exist yet. -/
def pushTo (id : ItemId) : Option (Array ItemId) → Option (Array ItemId)
  | some ids => some (ids.push id)
  | none => some #[id]

/-- Registers an item under its owner, kind and name. -/
def add (registry : Registry) (item : Item) : Registry where
  byKey := registry.byKey.alter ⟨item.parent, item.kind, item.name⟩ (pushTo item.id)
  byName := registry.byName.alter ⟨item.kind, item.name⟩ (pushTo item.id)

/-- The handles registered under a key. -/
def withKey (registry : Registry) (key : ItemKey) : List ItemId :=
  (registry.byKey.getD key #[]).toList

/-- The handles registered under a kind and name. -/
def withName (registry : Registry) (key : NameKey) : List ItemId :=
  (registry.byName.getD key #[]).toList

end Registry

/-! ## Layers -/

/-- One layer: the items it made, by number, and its changed copies of items of the layers below. -/
structure Layer where
  generation : Nat
  firstRaw : UInt32
  items : Std.TreeMap UInt32 Item
  source : IdSource
  shadows : Std.TreeMap ItemId Item
  registry : Registry

namespace Layer

/-- A layer without items that numbers from `firstRaw` on. -/
def startingAt (generation : Nat) (firstRaw : UInt32) : Layer where
  generation := generation
  firstRaw := firstRaw
  items := ∅
  source := ⟨firstRaw⟩
  shadows := ∅
  registry := .empty

/-- The handles of the items this layer made, by increasing number. -/
def ids (layer : Layer) : List ItemId :=
  layer.items.values.map Item.id

/-- Puts an item under its number, which is never handed out again; numbers below the first of the
layer are ignored. -/
def store (layer : Layer) (item : Item) : Layer :=
  if item.id.raw < layer.firstRaw then layer
  else
    { layer with
      items := layer.items.insert item.id.raw item
      source := layer.source.reserve item.id.raw }

end Layer

/-! ## Reading through a stack of layers, uppermost first -/

namespace Layers

/-- The item a handle names. -/
def get? : List Layer → ItemId → Option Item
  | [], _ => none
  | layer :: below, id =>
    if id.generation = layer.generation then layer.items[id.raw]?
    else
      match layer.shadows[id]? with
      | some item => some item
      | none => get? below id

/-- The handle of a number. -/
def resolveRaw : List Layer → UInt32 → Option ItemId
  | [], _ => none
  | layer :: below, raw =>
    if layer.firstRaw ≤ raw then
      if layer.items.contains raw then some ⟨raw, layer.generation⟩ else none
    else resolveRaw below raw

/-- Every handle, by increasing number. -/
def ids : List Layer → List ItemId
  | [] => []
  | layer :: below => ids below ++ layer.ids

/-- The number of items. -/
def size : List Layer → Nat
  | [] => 0
  | layer :: below => size below + layer.items.size

/-- The first handle registered under a key in the uppermost layer that has one. -/
def findItem : List Layer → ItemKey → Option ItemId
  | [], _ => none
  | layer :: below, key =>
    match (layer.registry.withKey key).head? with
    | some id => some id
    | none => findItem below key

/-- Every handle registered under a key, those of lower layers first. -/
def findAll : List Layer → ItemKey → List ItemId
  | [], _ => []
  | layer :: below, key =>
    ((layer.registry.withKey key).foldl insertNew (findAll below key).toArray).toList

/-- Every handle registered under a kind and name, those of lower layers first. -/
def findByName : List Layer → NameKey → List ItemId
  | [], _ => []
  | layer :: below, key => findByName below key ++ layer.registry.withName key

end Layers

/-! ## The index -/

/-- An index: its own layer and the layers of its base, uppermost first. -/
structure Index where
  top : Layer
  below : List Layer

namespace Index

/-- An index without items and without a base. -/
def empty (generation : Nat) : Index where
  top := .startingAt generation 0
  below := []

/-- All layers, uppermost first. -/
def layers (index : Index) : List Layer :=
  index.top :: index.below

/-- An index over a base.  It numbers its items after those of the base. -/
def onBase (generation : Nat) (base : Index) : Index where
  top := .startingAt generation base.top.source.next
  below := base.layers

/-- The base of an index. -/
def base? (index : Index) : Option Index :=
  match index.below with
  | [] => none
  | top :: below => some ⟨top, below⟩

/-- The generation that marks the handles this index makes. -/
def generation (index : Index) : Nat :=
  index.top.generation

/-- The number the next item gets. -/
def nextRaw (index : Index) : UInt32 :=
  index.top.source.next

/-- The item a handle names; none for a handle made outside this index and its bases. -/
def get? (index : Index) (id : ItemId) : Option Item :=
  Layers.get? index.layers id

/-- Whether a handle names an item. -/
def contains (index : Index) (id : ItemId) : Bool :=
  (index.get? id).isSome

/-- The handle of a number. -/
def resolveRaw (index : Index) (raw : UInt32) : Option ItemId :=
  Layers.resolveRaw index.layers raw

/-- Every handle, by increasing number. -/
def ids (index : Index) : List ItemId :=
  Layers.ids index.layers

/-- Every item, by increasing number. -/
def items (index : Index) : List Item :=
  index.ids.filterMap index.get?

/-- The number of items. -/
def size (index : Index) : Nat :=
  Layers.size index.layers

/-- The items of a kind, by increasing number. -/
def itemsOfKind (index : Index) (kind : ItemKind) : List Item :=
  index.items.filter (fun item => item.kind == kind)

/-! ### Looking items up -/

/-- The first item registered under an owner, a name and a kind. -/
def findItem (index : Index) (parent : Option ItemId) (name : String) (kind : ItemKind) :
    Option ItemId :=
  Layers.findItem index.layers ⟨parent, kind, name⟩

/-- All items registered under an owner, a name and a kind; overloads share these. -/
def findAll (index : Index) (parent : Option ItemId) (name : String) (kind : ItemKind) :
    List ItemId :=
  Layers.findAll index.layers ⟨parent, kind, name⟩

/-- All items registered under a kind and a name, whatever their owner. -/
def findByName (index : Index) (kind : ItemKind) (name : String) : List ItemId :=
  Layers.findByName index.layers ⟨kind, name⟩

/-! ### Changing items -/

/-- Changes the item a handle names.  An item of the base is copied into the upper layer first.  A
handle without an item changes nothing. -/
def modify (index : Index) (id : ItemId) (f : Item → Item) : Index :=
  if id.generation = index.top.generation then
    { index with top.items := index.top.items.modify id.raw f }
  else if index.top.shadows.contains id then
    { index with top.shadows := index.top.shadows.modify id f }
  else
    match Layers.get? index.below id with
    | some item => { index with top.shadows := index.top.shadows.insert id (f item) }
    | none => index

/-- Puts an item under its number without registering it. -/
def store (index : Index) (item : Item) : Index :=
  { index with top := index.top.store item }

/-- Hands out a handle. -/
def allocate (index : Index) : ItemId × Index :=
  let (raw, source) := index.top.source.draw
  (⟨raw, index.top.generation⟩, { index with top.source := source })

/-- Registers an item of the index under its owner, kind and name. -/
def register (index : Index) (id : ItemId) : Index :=
  match index.get? id with
  | some item =>
    { index with top.registry := index.top.registry.add { item with id := id } }
  | none => index

/-- Registers the items of the upper layer anew, by increasing number. -/
def rebuildRegistry (index : Index) : Index :=
  { index with top.registry := index.top.items.values.foldl Registry.add .empty }

/-- Puts an item without an owner under a chosen number.  It is found by name only once the
registry is rebuilt. -/
def insertRaw (index : Index) (raw : UInt32) (name : String) (kind : ItemKind) :
    Except GraphError (ItemId × Index) :=
  if raw < index.top.firstRaw then
    .error (.numberTooSmall raw index.top.firstRaw)
  else
    let id : ItemId := ⟨raw, index.top.generation⟩
    if index.contains id then .error (.numberTaken raw)
    else .ok (id, index.store (.fresh id name kind none))

/-- Copies an item of the base into the upper layer, where it can be changed.  Any other handle
leaves the index as it is. -/
def copyUp (index : Index) (id : ItemId) : Index :=
  if id.generation = index.top.generation || index.top.shadows.contains id then index
  else
    match Layers.get? index.below id with
    | some item => { index with top.shadows := index.top.shadows.insert id item }
    | none => index

/-- Links a child and its parent both ways; the index after a refusal is kept.  A child that has an
owner already is copied up and left as it is, and linking it to that owner again is no error. -/
def linkParent (index : Index) (child parent : ItemId) : Except GraphError Unit × Index :=
  if !index.contains parent then (.error (.unknownParent parent), index)
  else
    match index.get? child with
    | none => (.error (.unknownChild child), index)
    | some item =>
      match item.parent with
      | some owner =>
        (if owner = parent then .ok () else .error (.alreadyOwned child owner), index.copyUp child)
      | none =>
        let linked := index.modify child (fun item => { item with parent := some parent })
        (.ok (),
          linked.modify parent (fun item => { item with children := item.children.push child }))

/-- Links a child and its parent both ways. -/
def setParent (index : Index) (child parent : ItemId) : Except GraphError Index :=
  match index.linkParent child parent with
  | (.ok _, linked) => .ok linked
  | (.error error, _) => .error error

/-- Records that `source` depends on `target`, both ways.  The flag tells whether the dependency is
new; an item never depends on itself, and both ends have to be known. -/
def addDependency (index : Index) (source target : ItemId) : Bool × Index :=
  if source = target || !index.contains source || !index.contains target then (false, index)
  else
    let known := ((index.get? source).map (fun item => item.dependencies.contains target)).getD true
    let index := index.modify source
      (fun item => { item with dependencies := insertNew item.dependencies target })
    let index := index.modify target
      (fun item => { item with incoming := insertNew item.incoming source })
    (!known, index)

/-- Takes a dependency out, both ways.  The flag tells whether there was one. -/
def removeDependency (index : Index) (source target : ItemId) : Bool × Index :=
  let known := ((index.get? source).map (fun item => item.dependencies.contains target)).getD false
  let index := index.modify source
    (fun item => { item with dependencies := item.dependencies.erase target })
  let index := index.modify target
    (fun item => { item with incoming := item.incoming.erase source })
  (known, index)

/-- Registers a copy of an item of any index under a fresh handle.  The copy still holds the old
handles. -/
def adopt (index : Index) (item : Item) : ItemId × Index :=
  let (id, index) := index.allocate
  (id, index.store { item with id := id })

end Index

end CodeAtlas
