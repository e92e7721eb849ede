/-
# Indices that grow

Loading only ever adds items and changes items in place.  Such changes keep an index sound as long as
the upper layer has numbers left; what was in the index keeps its name, its kind and its owner, and
projects keep their flags.
-/
import CodeAtlas.Proofs.Index.WellFormed
import Mathlib.Algebra.Group.Nat.Defs

namespace CodeAtlas

/-! ## Changes of one item -/

/-- A change of an item that leaves its handle, name, kind and owner alone. -/
def Item.KeepsPlace (f : Item → Item) : Prop :=
  ∀ item, (f item).id = item.id ∧ (f item).name = item.name ∧ (f item).kind = item.kind ∧
    (f item).parent = item.parent

theorem Item.attributeIds_fresh (id : ItemId) (name : String) (kind : ItemKind)
    (parent : Option ItemId) : (Item.fresh id name kind parent).attributeIds = [] := by
  have hempty : Attributes.empty.targets = [] := by decide
  exact hempty

namespace Index

variable {index a b c : Index}

/-! ## Room for more items -/

/-- The upper layer has numbers left. -/
def HasRoom (index : Index) : Prop :=
  index.top.firstRaw.toNat + index.top.items.size < 2 ^ 32

/-- The upper layer begins where it began and has not lost items. -/
def Grown (a b : Index) : Prop :=
  b.top.firstRaw = a.top.firstRaw ∧ a.top.items.size ≤ b.top.items.size

theorem Grown.refl (index : Index) : Grown index index :=
  ⟨rfl, Nat.le_refl _⟩

theorem Grown.trans (hab : Grown a b) (hbc : Grown b c) : Grown a c :=
  ⟨hbc.1.trans hab.1, Nat.le_trans hab.2 hbc.2⟩

theorem Grown.hasRoom (h : Grown a b) (hroom : b.HasRoom) : a.HasRoom := by
  rw [HasRoom] at hroom ⊢
  rw [h.1] at hroom
  have := h.2
  omega

/-- A sound index whose upper layer has used a number for each of its items. -/
structure Live (index : Index) : Prop where
  sound : index.Sound
  first_le : index.top.firstRaw ≤ index.nextRaw
  counted : index.nextRaw.toNat ≤ index.top.firstRaw.toNat + index.top.items.size

/-- The layers are in order and the next number is above all that are in use. -/
structure Tallied (index : Index) : Prop where
  stacked : index.IsStacked
  numbered : ∀ id ∈ index.ids, id.raw < index.nextRaw
  first_le : index.top.firstRaw ≤ index.nextRaw

theorem Live.tallied (h : index.Live) : index.Tallied :=
  ⟨h.sound.stacked, h.sound.numbered, h.first_le⟩

/-- What stays the same when an index grows. -/
structure Extends (a b : Index) : Prop where
  keeps : ∀ {id : ItemId} {item : Item}, a.get? id = some item →
    ∃ later, b.get? id = some later ∧ later.name = item.name ∧ later.kind = item.kind ∧
      later.parent = item.parent ∧ (item.kind = .project →
        later.isThirdParty = item.isThirdParty ∧ later.isPseudo = item.isPseudo)
  finds : ∀ {parent : Option ItemId} {name : String} {kind : ItemKind} {id : ItemId},
    kind ≠ .method → a.findItem parent name kind = some id →
    b.findItem parent name kind = some id

theorem Extends.refl (index : Index) : Extends index index :=
  ⟨fun {_ item} hget => ⟨item, hget, rfl, rfl, rfl, fun _ => ⟨rfl, rfl⟩⟩, fun _ hfind => hfind⟩

theorem Extends.trans (hab : Extends a b) (hbc : Extends b c) : Extends a c := by
  refine ⟨?_, fun hkind hfind => hbc.finds hkind (hab.finds hkind hfind)⟩
  intro id item hget
  obtain ⟨middle, hmiddle, hname, hkind, hparent, hflags⟩ := hab.keeps hget
  obtain ⟨later, hlater, hname', hkind', hparent', hflags'⟩ := hbc.keeps hmiddle
  refine ⟨later, hlater, hname'.trans hname, hkind'.trans hkind, hparent'.trans hparent, ?_⟩
  intro hproject
  obtain ⟨hthird, hpseudo⟩ := hflags hproject
  obtain ⟨hthird', hpseudo'⟩ := hflags' (hkind.trans hproject)
  exact ⟨hthird'.trans hthird, hpseudo'.trans hpseudo⟩

theorem Extends.isKind (h : Extends a b) {id : ItemId} {kind : ItemKind} (hid : a.IsKind id kind) :
    b.IsKind id kind := by
  obtain ⟨item, hget, hkind⟩ := hid
  obtain ⟨later, hlater, _, hkind', _⟩ := h.keeps hget
  exact ⟨later, hlater, hkind'.trans hkind⟩

/-! ## Changing an item in place -/

/-- What a change of an item leaves alone: layers below, numbering, registry and number of items. -/
theorem books_modify (index : Index) (id : ItemId) (f : Item → Item) :
    (index.modify id f).below = index.below ∧
      (index.modify id f).top.firstRaw = index.top.firstRaw ∧
      (index.modify id f).top.source = index.top.source ∧
      (index.modify id f).top.registry = index.top.registry ∧
      (index.modify id f).top.items.size = index.top.items.size := by
  rw [modify]
  split
  · exact ⟨rfl, rfl, rfl, rfl, Std.TreeMap.size_modify⟩
  · split
    · exact ⟨rfl, rfl, rfl, rfl, rfl⟩
    · split <;> exact ⟨rfl, rfl, rfl, rfl, rfl⟩

theorem grown_modify (index : Index) (id : ItemId) (f : Item → Item) :
    Grown index (index.modify id f) := by
  obtain ⟨_, hfirst, _, _, hsize⟩ := books_modify index id f
  exact ⟨hfirst, Nat.le_of_eq hsize.symm⟩

theorem nextRaw_modify (index : Index) (id : ItemId) (f : Item → Item) :
    (index.modify id f).nextRaw = index.nextRaw := by
  rw [nextRaw, nextRaw, (books_modify index id f).2.2.1]

theorem lists_modify (index : Index) (id other : ItemId) (f : Item → Item) (key : ItemKey) :
    (index.modify id f).Lists key other ↔ index.Lists key other := by
  obtain ⟨hbelow, _, _, hregistry, _⟩ := books_modify index id f
  simp only [Lists, layers, List.mem_cons, exists_eq_or_imp, hbelow, hregistry]

theorem listsName_modify (index : Index) (id other : ItemId) (f : Item → Item) (key : NameKey) :
    (index.modify id f).ListsName key other ↔ index.ListsName key other := by
  obtain ⟨hbelow, _, _, hregistry, _⟩ := books_modify index id f
  simp only [ListsName, layers, List.mem_cons, exists_eq_or_imp, hbelow, hregistry]

@[simp] theorem findItem_modify (index : Index) (id : ItemId) (f : Item → Item)
    (parent : Option ItemId) (name : String) (kind : ItemKind) :
    (index.modify id f).findItem parent name kind = index.findItem parent name kind := by
  obtain ⟨hbelow, _, _, hregistry, _⟩ := books_modify index id f
  rw [findItem, findItem, layers, layers, Layers.findItem, Layers.findItem, hbelow, hregistry]

/-- The item after a change in place. -/
theorem exists_of_get?_modify {f : Item → Item} (hf : Item.KeepsPlace f) {id other : ItemId}
    {item : Item} (h : (index.modify id f).get? other = some item) :
    ∃ before, index.get? other = some before ∧ before.name = item.name ∧
      before.kind = item.kind ∧ before.parent = item.parent ∧
      (item = before ∨ other = id ∧ item = f before) := by
  rw [get?_modify] at h
  split at h
  · rename_i hid
    subst hid
    obtain ⟨before, hget, rfl⟩ := Option.map_eq_some_iff.1 h
    obtain ⟨_, hname, hkind, hparent⟩ := hf before
    exact ⟨before, hget, hname.symm, hkind.symm, hparent.symm, Or.inr ⟨rfl, rfl⟩⟩
  · exact ⟨item, h, rfl, rfl, rfl, Or.inl rfl⟩

/-- A change in place extends the index, unless it changes the flags of a project. -/
theorem extends_modify {f : Item → Item} (hf : Item.KeepsPlace f) (id : ItemId)
    (hflags : ∀ item, index.get? id = some item → item.kind = .project →
      (f item).isThirdParty = item.isThirdParty ∧ (f item).isPseudo = item.isPseudo) :
    Extends index (index.modify id f) := by
  refine ⟨?_, fun _ hfind => by rw [findItem_modify, hfind]⟩
  intro other item hget
  rw [get?_modify]
  by_cases hid : other = id
  · subst hid
    obtain ⟨_, hname, hkind, hparent⟩ := hf item
    rw [if_pos rfl, hget]
    exact ⟨f item, rfl, hname, hkind, hparent, hflags item hget⟩
  · rw [if_neg hid]
    exact ⟨item, hget, rfl, rfl, rfl, fun _ => ⟨rfl, rfl⟩⟩

theorem isKind_modify_iff {f : Item → Item} (hf : Item.KeepsPlace f) {id other : ItemId}
    {kind : ItemKind} : (index.modify id f).IsKind other kind ↔ index.IsKind other kind := by
  constructor
  · rintro ⟨item, hget, hkind⟩
    obtain ⟨before, hbefore, _, hkind', _⟩ := exists_of_get?_modify hf hget
    exact ⟨before, hbefore, hkind'.trans hkind⟩
  · rintro ⟨item, hget, hkind⟩
    by_cases hid : other = id
    · subst hid
      exact ⟨f item, by rw [get?_modify, if_pos rfl, hget]; rfl, (hf item).2.2.1.trans hkind⟩
    · exact ⟨item, by rw [get?_modify, if_neg hid, hget], hkind⟩

theorem placed_modify {f : Item → Item} (hf : Item.KeepsPlace f) {id : ItemId}
    {before item : Item} (hkind : before.kind = item.kind) (hparent : before.parent = item.parent)
    (h : index.Placed before) : (index.modify id f).Placed item := by
  rw [Placed] at h ⊢
  rw [hparent, hkind] at h
  cases howner : item.parent with
  | none => simpa [howner] using h
  | some owner =>
    simp only [howner] at h ⊢
    obtain ⟨ownerItem, hget, hcontain⟩ := h
    obtain ⟨later, hlater, hkind'⟩ := (isKind_modify_iff hf).2 ⟨ownerItem, hget, rfl⟩
    exact ⟨later, hlater, hkind' ▸ hcontain⟩

/-- A change in place keeps an index sound when the attributes it sets are classes. -/
theorem Sound.modify (h : index.Sound) {f : Item → Item} (hf : Item.KeepsPlace f) (id : ItemId)
    (htyped : ∀ item target, index.get? id = some item → target ∈ (f item).attributeIds →
      target ∈ item.attributeIds ∨ index.IsKind target .class) : (index.modify id f).Sound where
  stacked := isStacked_modify h.stacked id (fun item => (hf item).1)
  numbered := by
    rw [ids_modify h.stacked id (fun item => (hf item).1), nextRaw_modify]
    exact h.numbered
  placed := by
    intro other item hget
    obtain ⟨before, hbefore, _, hkind, hparent, _⟩ := exists_of_get?_modify hf hget
    exact placed_modify hf hkind hparent (h.placed hbefore)
  typed := by
    intro other target item hget htarget
    rw [isKind_modify_iff hf]
    obtain ⟨before, hbefore, _, _, _, rfl | ⟨rfl, rfl⟩⟩ := exists_of_get?_modify hf hget
    · exact h.typed hbefore htarget
    · rcases htyped before target hbefore htarget with hold | hnew
      · exact h.typed hbefore hold
      · exact hnew
  listed := by
    intro key other hlists
    obtain ⟨item, hget, hkey⟩ := h.listed ((lists_modify ..).1 hlists)
    by_cases hid : other = id
    · subst hid
      obtain ⟨_, hname, hkind, hparent⟩ := hf item
      exact ⟨f item, by rw [get?_modify, if_pos rfl, hget]; rfl, by rw [hname, hkind, hparent, hkey]⟩
    · exact ⟨item, by rw [get?_modify, if_neg hid, hget], hkey⟩
  listedName := by
    intro key other hlists
    obtain ⟨item, hget, hkey⟩ := h.listedName ((listsName_modify ..).1 hlists)
    by_cases hid : other = id
    · subst hid
      obtain ⟨_, hname, hkind, _⟩ := hf item
      exact ⟨f item, by rw [get?_modify, if_pos rfl, hget]; rfl, by rw [hname, hkind, hkey]⟩
    · exact ⟨item, by rw [get?_modify, if_neg hid, hget], hkey⟩
  project_found := by
    intro other item hget hproject
    obtain ⟨before, hbefore, hname, hkind, _⟩ := exists_of_get?_modify hf hget
    rw [findItem_modify, ← hname]
    exact h.project_found hbefore (hkind.trans hproject)

theorem Live.modify (h : index.Live) {f : Item → Item} (hf : Item.KeepsPlace f) (id : ItemId)
    (htyped : ∀ item target, index.get? id = some item → target ∈ (f item).attributeIds →
      target ∈ item.attributeIds ∨ index.IsKind target .class) : (index.modify id f).Live := by
  obtain ⟨_, hfirst, _, _, hsize⟩ := books_modify index id f
  refine ⟨h.sound.modify hf id htyped, ?_, ?_⟩
  · rw [hfirst, nextRaw_modify]
    exact h.first_le
  · rw [hfirst, nextRaw_modify, hsize]
    exact h.counted

/-! ## Creating an item -/

/-- The handle that the next item gets. -/
def nextId (index : Index) : ItemId :=
  ⟨index.nextRaw, index.top.generation⟩

/-- The index with a new item that its owner does not list and the registry does not know yet. -/
def stored (index : Index) (parent : Option ItemId) (name : String) (kind : ItemKind) : Index :=
  index.allocate.2.store (.fresh index.nextId name kind parent)

/-- The index with a new item that the registry does not know yet. -/
def linked (index : Index) (parent : Option ItemId) (name : String) (kind : ItemKind) : Index :=
  match parent with
  | some owner => (index.stored parent name kind).modify owner
      (fun item => { item with children := item.children.push index.nextId })
  | none => index.stored parent name kind

theorem insertItem_eq (index : Index) (parent : Option ItemId) (name : String) (kind : ItemKind) :
    index.insertItem parent name kind =
      (index.nextId, (index.linked parent name kind).register index.nextId) := by
  cases parent <;> rfl

theorem keepsPlace_dependencies (f : Array ItemId → Array ItemId) :
    Item.KeepsPlace (fun item => { item with dependencies := f item.dependencies }) :=
  fun _ => ⟨rfl, rfl, rfl, rfl⟩

theorem keepsPlace_incoming (g : Array ItemId → Array ItemId) :
    Item.KeepsPlace (fun item => { item with incoming := g item.incoming }) :=
  fun _ => ⟨rfl, rfl, rfl, rfl⟩

theorem get?_nextId (h : index.Tallied) : index.get? index.nextId = none := by
  cases hget : index.get? index.nextId with
  | none => rfl
  | some item => exact absurd (h.numbered _ (mem_ids_of_get? h.stacked hget)) (UInt32.lt_irrefl _)

theorem fits_nextId (h : index.Tallied) : index.allocate.2.Fits index.nextId :=
  ⟨rfl, h.first_le⟩

theorem get?_stored (h : index.Tallied) (parent : Option ItemId) (name : String) (kind : ItemKind)
    (other : ItemId) :
    (index.stored parent name kind).get? other =
      if other = index.nextId then some (.fresh index.nextId name kind parent)
      else index.get? other := by
  rw [stored, get?_store (fits_nextId h), (sameItems_allocate index).get?_eq]
  rfl

/-- The items after a new one was created. -/
theorem get?_insertItem (h : index.Tallied) {parent : Option ItemId}
    (hparent : parent ≠ some index.nextId) (name : String) (kind : ItemKind) (other : ItemId) :
    (index.insertItem parent name kind).2.get? other =
      if other = index.nextId then some (.fresh index.nextId name kind parent)
      else if parent = some other then (index.get? other).map
        (fun item => { item with children := item.children.push index.nextId })
      else index.get? other := by
  rw [insertItem_eq, (sameItems_register _ _).get?_eq]
  cases parent with
  | none => simp [linked, get?_stored h]
  | some owner =>
    have howner : owner ≠ index.nextId := fun heq => hparent (by rw [heq])
    simp only [linked, get?_modify, get?_stored h, if_neg howner]
    by_cases hother : other = owner
    · subst hother
      simp [howner]
    · rw [if_neg hother, if_neg (fun heq => hother (Option.some.inj heq).symm)]

theorem books_register (index : Index) (id : ItemId) :
    (index.register id).below = index.below ∧
      (index.register id).top.firstRaw = index.top.firstRaw ∧
      (index.register id).top.source = index.top.source ∧
      (index.register id).top.items = index.top.items := by
  rw [register]
  split <;> exact ⟨rfl, rfl, rfl, rfl⟩

theorem books_linked (index : Index) (parent : Option ItemId) (name : String) (kind : ItemKind) :
    (index.linked parent name kind).below = (index.stored parent name kind).below ∧
      (index.linked parent name kind).top.firstRaw = (index.stored parent name kind).top.firstRaw ∧
      (index.linked parent name kind).top.source = (index.stored parent name kind).top.source ∧
      (index.linked parent name kind).top.registry =
        (index.stored parent name kind).top.registry ∧
      (index.linked parent name kind).top.items.size =
        (index.stored parent name kind).top.items.size := by
  cases parent with
  | none => exact ⟨rfl, rfl, rfl, rfl, rfl⟩
  | some owner => exact books_modify _ _ _

theorem grown_store (index : Index) (item : Item) : Grown index (index.store item) := by
  rw [store, Layer.store]
  split
  · exact Grown.refl index
  · exact ⟨rfl, Std.TreeMap.size_le_size_insert⟩

theorem grown_insertItem (index : Index) (parent : Option ItemId) (name : String)
    (kind : ItemKind) : Grown index (index.insertItem parent name kind).2 := by
  obtain ⟨_, hfirst, _, hitems⟩ := books_register (index.linked parent name kind) index.nextId
  obtain ⟨_, hfirst', _, _, hsize⟩ := books_linked index parent name kind
  have hstore : Grown index (index.stored parent name kind) :=
    grown_store index.allocate.2 (.fresh index.nextId name kind parent)
  rw [insertItem_eq, Grown, hfirst, hfirst', hitems, hsize]
  exact hstore

/-- The number and the size of the upper layer after a new item was stored. -/
theorem books_stored (h : index.Tallied) (parent : Option ItemId) (name : String) (kind : ItemKind) :
    (index.stored parent name kind).below = index.below ∧
      (index.stored parent name kind).top.firstRaw = index.top.firstRaw ∧
      (index.stored parent name kind).nextRaw = index.nextRaw + 1 ∧
      (index.stored parent name kind).top.registry = index.top.registry ∧
      (index.stored parent name kind).top.items.size = index.top.items.size + 1 := by
  have htop : (index.stored parent name kind).top = _ := top_store (fits_nextId h)
  have hfree : ¬ index.nextRaw ∈ index.top.items := by
    have hnone : index.top.items[index.nextRaw]? = none := by
      have hget := get?_nextId h
      have hgen : index.nextId.generation = index.top.generation := rfl
      rwa [get?, layers, Layers.get?, if_pos hgen] at hget
    rw [Std.TreeMap.mem_iff_isSome_getElem?, hnone]
    simp
  refine ⟨rfl, ?_, ?_, ?_, ?_⟩
  · rw [htop]
    rfl
  · rw [nextRaw, htop]
    exact ite_self (index.nextRaw + 1)
  · rw [htop]
    rfl
  · rw [htop]
    exact (Std.TreeMap.size_insert).trans (if_neg hfree)

/-- The registry after a new item was created. -/
theorem books_insertItem (h : index.Tallied) {parent : Option ItemId}
    (hparent : parent ≠ some index.nextId) (name : String) (kind : ItemKind) :
    (index.insertItem parent name kind).2.below = index.below ∧
      (index.insertItem parent name kind).2.top.firstRaw = index.top.firstRaw ∧
      (index.insertItem parent name kind).2.nextRaw = index.nextRaw + 1 ∧
      (index.insertItem parent name kind).2.top.registry =
        index.top.registry.add (.fresh index.nextId name kind parent) ∧
      (index.insertItem parent name kind).2.top.items.size = index.top.items.size + 1 := by
  obtain ⟨hbelow, hfirst, hsource, hitems⟩ :=
    books_register (index.linked parent name kind) index.nextId
  obtain ⟨hbelow', hfirst', hsource', hregistry', hsize'⟩ := books_linked index parent name kind
  obtain ⟨hbelow'', hfirst'', hnext'', hregistry'', hsize''⟩ := books_stored h parent name kind
  have hget := get?_insertItem h hparent name kind index.nextId
  rw [insertItem_eq, (sameItems_register _ _).get?_eq, if_pos rfl] at hget
  rw [insertItem_eq]
  refine ⟨hbelow.trans (hbelow'.trans hbelow''), hfirst.trans (hfirst'.trans hfirst''), ?_, ?_, ?_⟩
  · rw [nextRaw, hsource, hsource']
    exact hnext''
  · simp only [register, hget]
    rw [hregistry', hregistry'']
    rfl
  · rw [hitems, hsize', hsize'']

theorem lists_insertItem (h : index.Tallied) {parent : Option ItemId}
    (hparent : parent ≠ some index.nextId) {name : String} {kind : ItemKind} {key : ItemKey}
    {id : ItemId} (hlists : (index.insertItem parent name kind).2.Lists key id) :
    index.Lists key id ∨ key = ⟨parent, kind, name⟩ ∧ id = index.nextId := by
  obtain ⟨hbelow, _, _, hregistry, _⟩ := books_insertItem h hparent name kind
  obtain ⟨layer, hlayer, hid⟩ := hlists
  rw [layers, hbelow] at hlayer
  rcases List.mem_cons.1 hlayer with rfl | hlayer
  · rw [hregistry, Registry.withKey_add, List.mem_append] at hid
    rcases hid with hold | hnew
    · exact Or.inl ⟨index.top, List.mem_cons_self, hold⟩
    · split at hnew
      · rename_i hkey
        exact Or.inr ⟨hkey.symm, List.mem_singleton.1 hnew⟩
      · simp at hnew
  · exact Or.inl ⟨layer, List.mem_cons_of_mem _ hlayer, hid⟩

theorem listsName_insertItem (h : index.Tallied) {parent : Option ItemId}
    (hparent : parent ≠ some index.nextId) {name : String} {kind : ItemKind} {key : NameKey}
    {id : ItemId} (hlists : (index.insertItem parent name kind).2.ListsName key id) :
    index.ListsName key id ∨ key = ⟨kind, name⟩ ∧ id = index.nextId := by
  obtain ⟨hbelow, _, _, hregistry, _⟩ := books_insertItem h hparent name kind
  obtain ⟨layer, hlayer, hid⟩ := hlists
  rw [layers, hbelow] at hlayer
  rcases List.mem_cons.1 hlayer with rfl | hlayer
  · rw [hregistry, Registry.withName_add, List.mem_append] at hid
    rcases hid with hold | hnew
    · exact Or.inl ⟨index.top, List.mem_cons_self, hold⟩
    · split at hnew
      · rename_i hkey
        exact Or.inr ⟨hkey.symm, List.mem_singleton.1 hnew⟩
      · simp at hnew
  · exact Or.inl ⟨layer, List.mem_cons_of_mem _ hlayer, hid⟩

/-- A new item is found by its owner, name and kind where nothing was found before, and whatever was
found by others still is. -/
theorem findItem_insertItem (h : index.Tallied) {parent : Option ItemId}
    (hparent : parent ≠ some index.nextId) (name : String) (kind : ItemKind)
    (parent' : Option ItemId) (name' : String) (kind' : ItemKind) :
    (index.insertItem parent name kind).2.findItem parent' name' kind' =
      if parent = parent' ∧ kind = kind' ∧ name = name' then
        ((index.top.registry.withKey ⟨parent', kind', name'⟩ ++ [index.nextId]).head?)
      else index.findItem parent' name' kind' := by
  obtain ⟨hbelow, _, _, hregistry, _⟩ := books_insertItem h hparent name kind
  rw [findItem, findItem, layers, layers, hbelow, Layers.findItem, Layers.findItem, hregistry,
    Registry.withKey_add]
  have hkey : (⟨(Item.fresh index.nextId name kind parent).parent,
      (Item.fresh index.nextId name kind parent).kind,
      (Item.fresh index.nextId name kind parent).name⟩ : ItemKey) = ⟨parent', kind', name'⟩ ↔
        parent = parent' ∧ kind = kind' ∧ name = name' := by
    simp [Item.fresh]
  simp only [hkey]
  by_cases hsame : parent = parent' ∧ kind = kind' ∧ name = name'
  · rw [if_pos hsame, if_pos hsame]
    cases index.top.registry.withKey ⟨parent', kind', name'⟩ <;> rfl
  · rw [if_neg hsame, if_neg hsame, List.append_nil]

/-- Where nothing was found, the new item is. -/
theorem findItem_insertItem_self (h : index.Tallied) {parent : Option ItemId}
    (hparent : parent ≠ some index.nextId) {name : String} {kind : ItemKind}
    (hnone : index.findItem parent name kind = none) :
    (index.insertItem parent name kind).2.findItem parent name kind = some index.nextId := by
  rw [findItem_insertItem h hparent, if_pos ⟨rfl, rfl, rfl⟩]
  have hempty : index.top.registry.withKey ⟨parent, kind, name⟩ = [] := by
    rw [findItem, layers, Layers.findItem] at hnone
    cases hkey : index.top.registry.withKey ⟨parent, kind, name⟩ with
    | nil => rfl
    | cons first rest => simp [hkey] at hnone
  rw [hempty]
  rfl

/-- What the index says about the owner of a new item. -/
def CanTake (index : Index) (parent : Option ItemId) (kind : ItemKind) : Prop :=
  match parent with
  | none => kind = .project
  | some owner => ∃ ownerItem, index.get? owner = some ownerItem ∧
      ownerItem.kind.canContain kind = true

theorem CanTake.ne_nextId (h : index.Tallied) {parent : Option ItemId} {kind : ItemKind}
    (htake : index.CanTake parent kind) : parent ≠ some index.nextId := by
  rintro rfl
  obtain ⟨ownerItem, hget, _⟩ := htake
  rw [get?_nextId h] at hget
  exact absurd hget (by simp)

/-- The item that stands under a handle after a new one was created. -/
theorem exists_of_get?_insertItem (h : index.Tallied) {parent : Option ItemId}
    (hparent : parent ≠ some index.nextId) {name : String} {kind : ItemKind} {other : ItemId}
    {item : Item} (hget : (index.insertItem parent name kind).2.get? other = some item) :
    (other = index.nextId ∧ item = .fresh index.nextId name kind parent) ∨
      ∃ before, index.get? other = some before ∧ item.name = before.name ∧
        item.kind = before.kind ∧ item.parent = before.parent ∧
        item.attributes = before.attributes := by
  rw [get?_insertItem h hparent] at hget
  split at hget
  · rename_i hother
    exact Or.inl ⟨hother, (Option.some.inj hget).symm⟩
  · split at hget
    · obtain ⟨before, hbefore, rfl⟩ := Option.map_eq_some_iff.1 hget
      exact Or.inr ⟨before, hbefore, rfl, rfl, rfl, rfl⟩
    · exact Or.inr ⟨item, hget, rfl, rfl, rfl, rfl⟩

theorem extends_insertItem (h : index.Tallied) {parent : Option ItemId}
    (hparent : parent ≠ some index.nextId) {name : String} {kind : ItemKind}
    (hnew : kind = .method ∨ index.findItem parent name kind = none) :
    Extends index (index.insertItem parent name kind).2 := by
  refine ⟨?_, ?_⟩
  · intro id item hget
    have hne : id ≠ index.nextId := by
      rintro rfl
      rw [get?_nextId h] at hget
      exact absurd hget (by simp)
    rw [get?_insertItem h hparent, if_neg hne]
    split
    · rw [hget]
      exact ⟨_, rfl, rfl, rfl, rfl, fun _ => ⟨rfl, rfl⟩⟩
    · exact ⟨item, hget, rfl, rfl, rfl, fun _ => ⟨rfl, rfl⟩⟩
  · intro parent' name' kind' id hkind hfind
    rw [findItem_insertItem h hparent]
    split
    · rename_i hsame
      obtain ⟨rfl, rfl, rfl⟩ := hsame
      rcases hnew with hmethod | hnone
      · exact absurd hmethod hkind
      · rw [hnone] at hfind
        exact absurd hfind (by simp)
    · exact hfind

theorem isStacked_insertItem (h : index.Tallied) (parent : Option ItemId) (name : String)
    (kind : ItemKind) : (index.insertItem parent name kind).2.IsStacked := by
  rw [insertItem_eq]
  refine (sameItems_register _ _).isStacked ?_
  have hstored : (index.stored parent name kind).IsStacked :=
    isStacked_store ((sameItems_allocate index).isStacked h.stacked) (fits_nextId h)
  cases parent with
  | none => exact hstored
  | some owner => exact isStacked_modify hstored owner (fun _ => rfl)

/-- What stands in its place stands there when another item was created. -/
theorem placed_insertItem {parent : Option ItemId} {name : String} {kind : ItemKind}
    (hext : Extends index (index.insertItem parent name kind).2) {item : Item}
    (hitem : index.Placed item) : (index.insertItem parent name kind).2.Placed item := by
  rw [Placed] at hitem ⊢
  cases howner : item.parent with
  | none => simpa [howner] using hitem
  | some owner =>
    simp only [howner] at hitem ⊢
    obtain ⟨ownerItem, hget, hcontain⟩ := hitem
    obtain ⟨later, hlater, hkind⟩ := hext.isKind ⟨ownerItem, hget, rfl⟩
    exact ⟨later, hlater, hkind ▸ hcontain⟩

/-- A new item takes the next number, if there is one. -/
theorem toNat_nextRaw_insertItem (h : index.Tallied) {parent : Option ItemId}
    (hparent : parent ≠ some index.nextId) (name : String) (kind : ItemKind)
    (hnumber : index.nextRaw.toNat + 1 < 2 ^ 32) :
    (index.insertItem parent name kind).2.nextRaw.toNat = index.nextRaw.toNat + 1 := by
  obtain ⟨_, _, hnext, _, _⟩ := books_insertItem h hparent name kind
  rw [hnext, UInt32.toNat_add]
  exact Nat.mod_eq_of_lt hnumber

theorem Tallied.insertItem (h : index.Tallied) {parent : Option ItemId}
    (hparent : parent ≠ some index.nextId) (name : String) (kind : ItemKind)
    (hnumber : index.nextRaw.toNat + 1 < 2 ^ 32) :
    (index.insertItem parent name kind).2.Tallied := by
  have hstacked := isStacked_insertItem h parent name kind
  obtain ⟨_, hfirst, _, _, _⟩ := books_insertItem h hparent name kind
  have hnext := toNat_nextRaw_insertItem h hparent name kind hnumber
  refine ⟨hstacked, ?_, ?_⟩
  · intro id hid
    obtain ⟨item, hget⟩ := exists_get?_of_mem_ids hstacked hid
    rw [UInt32.lt_iff_toNat_lt, hnext]
    rcases exists_of_get?_insertItem h hparent hget with ⟨rfl, _⟩ | ⟨before, hbefore, _⟩
    · exact Nat.lt_succ_self _
    · have := UInt32.lt_iff_toNat_lt.1 (h.numbered id (mem_ids_of_get? h.stacked hbefore))
      omega
  · rw [hfirst, UInt32.le_iff_toNat_le, hnext]
    have := UInt32.le_iff_toNat_le.1 h.first_le
    omega

/-- Where there was room for one more item, there was a number for it. -/
theorem Live.number_of_insertItem (h : index.Live) {parent : Option ItemId}
    (hparent : parent ≠ some index.nextId) {name : String} {kind : ItemKind}
    (hroom : (index.insertItem parent name kind).2.HasRoom) :
    index.nextRaw.toNat + 1 < 2 ^ 32 := by
  obtain ⟨_, hfirst, _, _, hsize⟩ := books_insertItem h.tallied hparent name kind
  have hcounted := h.counted
  rw [HasRoom, hfirst, hsize] at hroom
  omega

section InsertItem

variable {parent : Option ItemId} {name : String} {kind : ItemKind}

theorem placed_of_get?_insertItem (h : index.Live) (htake : index.CanTake parent kind)
    (hext : Extends index (index.insertItem parent name kind).2) {id : ItemId} {item : Item}
    (hget : (index.insertItem parent name kind).2.get? id = some item) :
    (index.insertItem parent name kind).2.Placed item := by
  refine placed_insertItem hext ?_
  rcases exists_of_get?_insertItem h.tallied (htake.ne_nextId h.tallied) hget with
    ⟨rfl, rfl⟩ | ⟨before, hbefore, _, hkind, howner, _⟩
  · cases parent <;> exact htake
  · rw [Placed, howner, hkind]
    exact h.sound.placed hbefore

theorem typed_insertItem (h : index.Live) (hparent : parent ≠ some index.nextId)
    (hext : Extends index (index.insertItem parent name kind).2) {id target : ItemId} {item : Item}
    (hget : (index.insertItem parent name kind).2.get? id = some item)
    (htarget : target ∈ item.attributeIds) :
    (index.insertItem parent name kind).2.IsKind target .class := by
  rcases exists_of_get?_insertItem h.tallied hparent hget with
    ⟨rfl, rfl⟩ | ⟨before, hbefore, _, _, _, hattributes⟩
  · rw [Item.attributeIds_fresh] at htarget
    exact absurd htarget (by simp)
  · rw [Item.attributeIds, hattributes] at htarget
    exact hext.isKind (h.sound.typed hbefore htarget)

/-- Only a project stands without an owner, so a new one is found by its name. -/
theorem project_found_insertItem (h : index.Live) (htake : index.CanTake parent kind)
    (hnew : kind = .method ∨ index.findItem parent name kind = none) {id : ItemId} {item : Item}
    (hget : (index.insertItem parent name kind).2.get? id = some item)
    (hproject : item.kind = .project) :
    (index.insertItem parent name kind).2.findItem none item.name .project = some id := by
  have hparent := htake.ne_nextId h.tallied
  rcases exists_of_get?_insertItem h.tallied hparent hget with
    ⟨rfl, rfl⟩ | ⟨before, hbefore, hname, hkind, _⟩
  · obtain rfl : kind = .project := hproject
    have hroot : parent = none := by
      cases parent with
      | none => rfl
      | some owner =>
        obtain ⟨ownerItem, _, hcontain⟩ := htake
        cases hkind : ownerItem.kind <;> simp [hkind, ItemKind.canContain] at hcontain
    subst hroot
    exact findItem_insertItem_self h.tallied hparent (hnew.resolve_left (by simp))
  · rw [hname]
    exact (extends_insertItem h.tallied hparent hnew).finds (by simp)
      (h.sound.project_found hbefore (hkind.symm.trans hproject))

end InsertItem

theorem Live.insertItem (h : index.Live) {parent : Option ItemId} {name : String} {kind : ItemKind}
    (htake : index.CanTake parent kind)
    (hnew : kind = .method ∨ index.findItem parent name kind = none)
    (hroom : (index.insertItem parent name kind).2.HasRoom) :
    (index.insertItem parent name kind).2.Live := by
  have hparent := htake.ne_nextId h.tallied
  have hext := extends_insertItem h.tallied hparent hnew
  have hnumber := h.number_of_insertItem hparent hroom
  have htallied := h.tallied.insertItem hparent name kind hnumber
  have hself : (index.insertItem parent name kind).2.get? index.nextId =
      some (.fresh index.nextId name kind parent) := by
    rw [get?_insertItem h.tallied hparent, if_pos rfl]
  refine ⟨⟨htallied.stacked, htallied.numbered, placed_of_get?_insertItem h htake hext,
    typed_insertItem h hparent hext, ?_, ?_, project_found_insertItem h htake hnew⟩,
    htallied.first_le, ?_⟩
  · intro key id hlists
    rcases lists_insertItem h.tallied hparent hlists with hold | ⟨rfl, rfl⟩
    · obtain ⟨item, hget, hkey⟩ := h.sound.listed hold
      obtain ⟨later, hlater, hname, hkind, howner, _⟩ := hext.keeps hget
      exact ⟨later, hlater, by rw [hname, hkind, howner, hkey]⟩
    · exact ⟨_, hself, rfl⟩
  · intro key id hlists
    rcases listsName_insertItem h.tallied hparent hlists with hold | ⟨rfl, rfl⟩
    · obtain ⟨item, hget, hkey⟩ := h.sound.listedName hold
      obtain ⟨later, hlater, hname, hkind, _⟩ := hext.keeps hget
      exact ⟨later, hlater, by rw [hname, hkind, hkey]⟩
    · exact ⟨_, hself, rfl⟩
  · obtain ⟨_, hfirst, _, _, hsize⟩ := books_insertItem h.tallied hparent name kind
    have hcounted := h.counted
    rw [toNat_nextRaw_insertItem h.tallied hparent name kind hnumber, hfirst, hsize]
    omega

end Index

end CodeAtlas
