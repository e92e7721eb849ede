/-
# Well-formed and sound indices

In a well-formed index the layers are in order, every handle that an item holds names an item, owners
and members name each other, so do the two ends of a dependency, and the registry lists the items by
increasing number.

In a sound index every item has an owner of the right kind, every attribute names a class, and the
registry finds items by the owner, kind and name that they have.  Soundness is kept by the
elementary changes, as long as there are numbers left.
-/
import CodeAtlas.Index.Factory
import CodeAtlas.Proofs.Index.Changes

namespace CodeAtlas.Index

/-- Every link of the index has both its ends, and the registry lists the items by increasing
number. -/
structure WellFormed (index : Index) : Prop where
  stacked : index.IsStacked
  resolves : ∀ {id target : ItemId} {item : Item}, index.get? id = some item →
    target ∈ item.referencedIds → index.contains target
  parent_iff_child : ∀ {id owner : ItemId} {item ownerItem : Item}, index.get? id = some item →
    index.get? owner = some ownerItem → (item.parent = some owner ↔ id ∈ ownerItem.children)
  dependency_iff_incoming : ∀ {source target : ItemId} {sourceItem targetItem : Item},
    index.get? source = some sourceItem → index.get? target = some targetItem →
    (target ∈ sourceItem.dependencies ↔ source ∈ targetItem.incoming)
  children_nodup : ∀ {id : ItemId} {item : Item}, index.get? id = some item →
    item.children.toList.Nodup
  dependencies_nodup : ∀ {id : ItemId} {item : Item}, index.get? id = some item →
    item.dependencies.toList.Nodup
  incoming_nodup : ∀ {id : ItemId} {item : Item}, index.get? id = some item →
    item.incoming.toList.Nodup
  findAll_eq : ∀ (parent : Option ItemId) (name : String) (kind : ItemKind),
    index.findAll parent name kind = (index.items.filter
      (fun item => item.parent = parent ∧ item.kind = kind ∧ item.name = name)).map Item.id
  findByName_eq : ∀ (kind : ItemKind) (name : String),
    index.findByName kind name =
      (index.items.filter (fun item => item.kind = kind ∧ item.name = name)).map Item.id

variable {index : Index}

/-! ## An index without a base -/

theorem mem_items_iff (h : index.IsStacked) {item : Item} :
    item ∈ index.items ↔ index.get? item.id = some item := by
  rw [items, List.mem_filterMap]
  constructor
  · rintro ⟨id, _, hget⟩
    rwa [id_of_get? h hget]
  · intro hget
    exact ⟨item.id, mem_ids_of_get? h hget, hget⟩

/-- The handles of the items are the handles of the index. -/
theorem map_id_items (h : index.IsStacked) : index.items.map Item.id = index.ids := by
  have hids : ∀ id ∈ index.ids, (index.get? id).map Item.id = some id := by
    intro id hid
    obtain ⟨item, hget⟩ := exists_get?_of_mem_ids h hid
    rw [hget, Option.map_some, id_of_get? h hget]
  rw [items, List.map_filterMap]
  have hmap : index.ids.filterMap (fun id => (index.get? id).map Item.id) =
      index.ids.filterMap some := List.filterMap_congr hids
  rw [hmap, List.filterMap_some]

/-- The items that satisfy a test, by increasing number. -/
theorem map_id_filter_items (h : index.IsStacked) (test : Item → Bool) :
    (index.items.filter test).map Item.id =
      index.ids.filter (fun id => (index.get? id).any test) := by
  rw [← map_id_items h, List.filter_map]
  refine congrArg (List.map Item.id) (List.filter_congr (fun item hitem => ?_))
  rw [Function.comp_apply, (mem_items_iff h).1 hitem, Option.any_some]

/-- Without a base, the items are those of the only layer. -/
theorem items_eq_values (h : index.IsStacked) (hbelow : index.below = []) :
    index.items = index.top.items.values := by
  have hlayers : Layers.Stacked (index.top :: index.below) := h
  cases hlayers with
  | cons numbered _ _ _ =>
    have hids : index.ids = index.top.items.values.map Item.id := by
      rw [ids, layers, hbelow]
      rfl
    have hget : ∀ item ∈ index.top.items.values, index.get? item.id = some item := by
      intro item hitem
      obtain ⟨raw, hraw⟩ := Layer.mem_values_iff.1 hitem
      rw [get?, layers, Layers.get?, numbered.id_eq hraw, if_pos rfl, hraw]
    rw [items, hids, List.filterMap_map]
    have hsome : index.top.items.values.filterMap (index.get? ∘ Item.id) =
        index.top.items.values.filterMap some := List.filterMap_congr hget
    rw [hsome, List.filterMap_some]

/-- A rebuilt registry finds every item by owner, kind and name, by increasing number. -/
theorem findAll_rebuildRegistry (h : index.IsStacked) (hbelow : index.below = [])
    (parent : Option ItemId) (name : String) (kind : ItemKind) :
    index.rebuildRegistry.findAll parent name kind = (index.items.filter
      (fun item => item.parent = parent ∧ item.kind = kind ∧ item.name = name)).map Item.id := by
  have hlayers : index.rebuildRegistry.layers = [index.rebuildRegistry.top] := by
    rw [layers, (sameItems_rebuildRegistry index).below_eq, hbelow]
  have hregistry : index.rebuildRegistry.top.registry.withKey ⟨parent, kind, name⟩ =
      (index.items.filter
        (fun item => item.parent = parent ∧ item.kind = kind ∧ item.name = name)).map Item.id := by
    rw [items_eq_values h hbelow]
    refine (Registry.withKey_foldl_add _ _ _).trans ?_
    rw [Registry.withKey_empty, List.nil_append]
    simp only [ItemKey.mk.injEq]
  have hnodup : ((index.items.filter
      (fun item => item.parent = parent ∧ item.kind = kind ∧ item.name = name)).map Item.id).Nodup := by
    refine List.Nodup.sublist (List.Sublist.map Item.id List.filter_sublist) ?_
    rw [map_id_items h]
    exact ids_nodup h
  rw [findAll, hlayers, Layers.findAll, Layers.findAll, hregistry, toList_foldl_insertNew]
  exact newIn_eq_self hnodup

/-- A rebuilt registry finds every item by kind and name, by increasing number. -/
theorem findByName_rebuildRegistry (h : index.IsStacked) (hbelow : index.below = [])
    (kind : ItemKind) (name : String) :
    index.rebuildRegistry.findByName kind name =
      (index.items.filter (fun item => item.kind = kind ∧ item.name = name)).map Item.id := by
  have hlayers : index.rebuildRegistry.layers = [index.rebuildRegistry.top] := by
    rw [layers, (sameItems_rebuildRegistry index).below_eq, hbelow]
  rw [findByName, hlayers, Layers.findByName, Layers.findByName, items_eq_values h hbelow]
  refine (Registry.withName_foldl_add _ _ _).trans ?_
  rw [Registry.withName_empty, List.nil_append]
  simp only [NameKey.mk.injEq]

/-- Without a base, the first item under an owner, a name and a kind is the first of all. -/
theorem findItem_eq_head? (hbelow : index.below = []) (parent : Option ItemId) (name : String)
    (kind : ItemKind) :
    index.findItem parent name kind = (index.findAll parent name kind).head? := by
  rw [findItem, findAll, layers, hbelow, Layers.findItem, Layers.findAll, toList_foldl_insertNew]
  cases index.top.registry.withKey ⟨parent, kind, name⟩ <;> rfl

/-- An index without a base is well-formed once its registry is rebuilt, if its links are: a check
of finitely many items. -/
theorem wellFormed_rebuildRegistry (h : index.IsStacked) (hbelow : index.below = [])
    (hlinks : ∀ item ∈ index.items, (∀ target ∈ item.referencedIds, index.contains target) ∧
      item.children.toList.Nodup ∧ item.dependencies.toList.Nodup ∧ item.incoming.toList.Nodup)
    (hinverse : ∀ item ∈ index.items, ∀ other ∈ index.items,
      (item.parent = some other.id ↔ item.id ∈ other.children) ∧
        (other.id ∈ item.dependencies ↔ item.id ∈ other.incoming)) :
    index.rebuildRegistry.WellFormed := by
  have hsame := sameItems_rebuildRegistry index
  have hmem : ∀ {id : ItemId} {item : Item}, index.rebuildRegistry.get? id = some item →
      item ∈ index.items ∧ item.id = id := by
    intro id item hget
    rw [hsame.get?_eq] at hget
    have hid := id_of_get? h hget
    exact ⟨(mem_items_iff h).2 (by rw [hid, hget]), hid⟩
  refine ⟨hsame.isStacked h, ?_, ?_, ?_, ?_, ?_, ?_, ?_, ?_⟩
  · intro id target item hget htarget
    rw [contains, hsame.get?_eq]
    exact (hlinks item (hmem hget).1).1 target htarget
  · intro id owner item ownerItem hget hgetOwner
    obtain ⟨hitem, rfl⟩ := hmem hget
    obtain ⟨hownerItem, rfl⟩ := hmem hgetOwner
    exact (hinverse item hitem ownerItem hownerItem).1
  · intro source target sourceItem targetItem hget hgetTarget
    obtain ⟨hitem, rfl⟩ := hmem hget
    obtain ⟨htargetItem, rfl⟩ := hmem hgetTarget
    exact (hinverse sourceItem hitem targetItem htargetItem).2
  · intro id item hget
    exact (hlinks item (hmem hget).1).2.1
  · intro id item hget
    exact (hlinks item (hmem hget).1).2.2.1
  · intro id item hget
    exact (hlinks item (hmem hget).1).2.2.2
  · exact findAll_rebuildRegistry h hbelow
  · exact findByName_rebuildRegistry h hbelow

end CodeAtlas.Index

namespace CodeAtlas

/-! ## What the registry lists -/

namespace Layers

variable {layers : List Layer} {key : ItemKey}

theorem exists_layer_of_mem_findAll {id : ItemId} (h : id ∈ findAll layers key) :
    ∃ layer ∈ layers, id ∈ layer.registry.withKey key := by
  induction layers with
  | nil => simp [findAll] at h
  | cons layer below ih =>
    rw [findAll, mem_foldl_insertNew] at h
    rcases h with hbelow | hlayer
    · obtain ⟨lower, hlower, hid⟩ := ih hbelow
      exact ⟨lower, List.mem_cons_of_mem _ hlower, hid⟩
    · exact ⟨layer, List.mem_cons_self, hlayer⟩

/-- What is found is listed. -/
theorem mem_findAll_of_findItem {id : ItemId} (h : findItem layers key = some id) :
    id ∈ findAll layers key := by
  induction layers with
  | nil => simp [findItem] at h
  | cons layer below ih =>
    rw [findItem] at h
    rw [findAll, mem_foldl_insertNew]
    cases hhead : (layer.registry.withKey key).head? with
    | some first =>
      simp only [hhead, Option.some.injEq] at h
      exact Or.inr (List.mem_of_mem_head? (h ▸ hhead))
    | none =>
      simp only [hhead] at h
      exact Or.inl (ih h)

/-- Nothing is found exactly when nothing is listed. -/
theorem findItem_eq_none_iff : findItem layers key = none ↔ findAll layers key = [] := by
  induction layers with
  | nil => simp [findItem, findAll]
  | cons layer below ih =>
    rw [findItem, findAll]
    cases hkey : layer.registry.withKey key with
    | nil => exact ih
    | cons first rest =>
      have hfirst : first ∈ ((first :: rest).foldl insertNew (findAll below key).toArray).toList :=
        mem_foldl_insertNew.2 (Or.inr List.mem_cons_self)
      exact iff_of_false (by simp) (List.ne_nil_of_mem hfirst)

end Layers

namespace Index

variable {index : Index}

/-- A handle is registered under an owner, a kind and a name in some layer. -/
def Lists (index : Index) (key : ItemKey) (id : ItemId) : Prop :=
  ∃ layer ∈ index.layers, id ∈ layer.registry.withKey key

/-- A handle is registered under a kind and a name in some layer. -/
def ListsName (index : Index) (key : NameKey) (id : ItemId) : Prop :=
  ∃ layer ∈ index.layers, id ∈ layer.registry.withName key

theorem lists_of_findItem {parent : Option ItemId} {name : String} {kind : ItemKind} {id : ItemId}
    (h : index.findItem parent name kind = some id) : index.Lists ⟨parent, kind, name⟩ id :=
  Layers.exists_layer_of_mem_findAll (Layers.mem_findAll_of_findItem h)

theorem lists_of_mem_findAll {parent : Option ItemId} {name : String} {kind : ItemKind}
    {id : ItemId} (h : id ∈ index.findAll parent name kind) :
    index.Lists ⟨parent, kind, name⟩ id :=
  Layers.exists_layer_of_mem_findAll h

/-! ## Soundness -/

/-- The handle of an item of a kind. -/
def IsKind (index : Index) (id : ItemId) (kind : ItemKind) : Prop :=
  ∃ item, index.get? id = some item ∧ item.kind = kind

/-- An item has an owner that may own it; projects have none. -/
def Placed (index : Index) (item : Item) : Prop :=
  match item.parent with
  | none => item.kind = .project
  | some owner => ∃ ownerItem, index.get? owner = some ownerItem ∧
      ownerItem.kind.canContain item.kind = true

/-- The links of the items and the entries of the registry are of the right kinds, and there is a
number for the next item. -/
structure Sound (index : Index) : Prop where
  stacked : index.IsStacked
  numbered : ∀ id ∈ index.ids, id.raw < index.nextRaw
  placed : ∀ {id : ItemId} {item : Item}, index.get? id = some item → index.Placed item
  typed : ∀ {id target : ItemId} {item : Item}, index.get? id = some item →
    target ∈ item.attributeIds → index.IsKind target .class
  listed : ∀ {key : ItemKey} {id : ItemId}, index.Lists key id →
    ∃ item, index.get? id = some item ∧ (⟨item.parent, item.kind, item.name⟩ : ItemKey) = key
  listedName : ∀ {key : NameKey} {id : ItemId}, index.ListsName key id →
    ∃ item, index.get? id = some item ∧ (⟨item.kind, item.name⟩ : NameKey) = key
  project_found : ∀ {id : ItemId} {item : Item}, index.get? id = some item →
    item.kind = .project → index.findItem none item.name .project = some id

/-- What is found by owner, name and kind has them. -/
theorem Sound.get?_of_findItem (h : index.Sound) {parent : Option ItemId} {name : String}
    {kind : ItemKind} {id : ItemId} (hfind : index.findItem parent name kind = some id) :
    ∃ item, index.get? id = some item ∧ item.parent = parent ∧ item.kind = kind ∧
      item.name = name := by
  obtain ⟨item, hget, hkey⟩ := h.listed (lists_of_findItem hfind)
  simp only [ItemKey.mk.injEq] at hkey
  exact ⟨item, hget, hkey.1, hkey.2.1, hkey.2.2⟩

theorem Sound.isKind_of_findItem (h : index.Sound) {parent : Option ItemId} {name : String}
    {kind : ItemKind} {id : ItemId} (hfind : index.findItem parent name kind = some id) :
    index.IsKind id kind := by
  obtain ⟨item, hget, _, hkind, _⟩ := h.get?_of_findItem hfind
  exact ⟨item, hget, hkind⟩

theorem Sound.isKind_of_mem_findAll (h : index.Sound) {parent : Option ItemId} {name : String}
    {kind : ItemKind} {id : ItemId} (hmem : id ∈ index.findAll parent name kind) :
    index.IsKind id kind := by
  obtain ⟨item, hget, hkey⟩ := h.listed (lists_of_mem_findAll hmem)
  simp only [ItemKey.mk.injEq] at hkey
  exact ⟨item, hget, hkey.2.1⟩

/-- A class stands in a package. -/
theorem Sound.exists_package (h : index.Sound) {id : ItemId} {item : Item}
    (hget : index.get? id = some item) (hkind : item.kind = .class) :
    ∃ package, item.parent = some package ∧ index.IsKind package .package := by
  have hplaced := h.placed hget
  rw [Placed] at hplaced
  cases hparent : item.parent with
  | none =>
    simp only [hparent, hkind] at hplaced
    exact absurd hplaced (by simp)
  | some package =>
    simp only [hparent, hkind] at hplaced
    obtain ⟨owner, howner, hcontain⟩ := hplaced
    refine ⟨package, rfl, owner, howner, ?_⟩
    cases hkind' : owner.kind <;> simp_all [ItemKind.canContain]

end Index

end CodeAtlas
