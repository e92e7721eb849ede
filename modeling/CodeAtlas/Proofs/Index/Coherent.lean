/-
# Coherent indices

In a coherent index items are numbered without gaps, owners and members name each other, so do the
two ends of a dependency, every owner may own what it owns, and the registry lists the items by
increasing number.  Nothing is said about attributes, which can hold any handle.  An index without
items is coherent, and so is every index that comes from a coherent one by changing attributes,
creating an item that its owner may own, or recording or removing a dependency.
-/
import CodeAtlas.Proofs.Index.Ancestors
import CodeAtlas.Proofs.Index.Growth
import CodeAtlas.Proofs.Index.Operations
import CodeAtlas.Proofs.Index.Start

namespace CodeAtlas

/-! ## Numbers of a stack -/

/-- The handle of a number is the listed handle with that number. -/
theorem Layers.resolveRaw_eq_some_iff {layers : List Layer} (h : Stacked layers) {raw : UInt32}
    {id : ItemId} : resolveRaw layers raw = some id ↔ id ∈ ids layers ∧ id.raw = raw := by
  induction h with
  | nil => simp [resolveRaw, ids]
  | @cons layer below numbered above _ _ ih =>
    rw [resolveRaw, ids, List.mem_append, Layer.mem_ids_iff numbered]
    by_cases hfirst : layer.firstRaw ≤ raw
    · rw [if_pos hfirst, Std.TreeMap.contains_eq_isSome_getElem?]
      have hbelow : id.raw = raw → id ∉ ids below := by
        rintro rfl hmem
        exact UInt32.not_lt.2 hfirst (above id hmem).2
      by_cases hsome : (layer.items[raw]?).isSome = true
      · rw [if_pos hsome, Option.some.injEq]
        constructor
        · rintro rfl
          exact ⟨Or.inr ⟨rfl, hsome⟩, rfl⟩
        · rintro ⟨hmem | ⟨hgen, _⟩, hraw⟩
          · exact absurd hmem (hbelow hraw)
          · cases id
            simp_all
      · rw [if_neg hsome]
        constructor
        · simp
        · rintro ⟨hmem | ⟨_, hmem⟩, rfl⟩
          · exact absurd hmem (hbelow rfl)
          · exact absurd hmem hsome
    · rw [if_neg hfirst, ih]
      constructor
      · rintro ⟨hmem, hraw⟩
        exact ⟨Or.inl hmem, hraw⟩
      · rintro ⟨hmem | ⟨_, hmem⟩, rfl⟩
        · exact ⟨hmem, rfl⟩
        · obtain ⟨item, hitem⟩ := Option.isSome_iff_exists.1 hmem
          exact absurd (numbered.first_le hitem) hfirst

namespace Index

variable {index a b c : Index}

theorem resolveRaw_eq_some_iff (h : index.IsStacked) {raw : UInt32} {id : ItemId} :
    index.resolveRaw raw = some id ↔ id ∈ index.ids ∧ id.raw = raw :=
  Layers.resolveRaw_eq_some_iff h

/-! ## What coherence asks for -/

/-- An item and one that it lists as its own. -/
def Owns (index : Index) (owner id : ItemId) : Prop :=
  ∃ item, index.get? owner = some item ∧ id ∈ item.children

/-- An item and one that it depends on. -/
def DependsOn (index : Index) (source target : ItemId) : Prop :=
  ∃ item, index.get? source = some item ∧ target ∈ item.dependencies

/-- An item and one that depends on it. -/
def IsNeededBy (index : Index) (target source : ItemId) : Prop :=
  ∃ item, index.get? target = some item ∧ source ∈ item.incoming

/-- Whether a handle names an item with an owner, a kind and a name. -/
def bears (index : Index) (key : ItemKey) (id : ItemId) : Bool :=
  (index.get? id).any (fun item => (⟨item.parent, item.kind, item.name⟩ : ItemKey) = key)

/-- Whether a handle names an item with a kind and a name. -/
def bearsName (index : Index) (key : NameKey) (id : ItemId) : Bool :=
  (index.get? id).any (fun item => (⟨item.kind, item.name⟩ : NameKey) = key)

/-- Items are numbered from zero on, without gaps. -/
structure Counted (index : Index) : Prop extends index.Tallied where
  next_eq : index.nextRaw.toNat = index.size

/-- The registry lists the items by increasing number.  Methods apart, an item is found by owner,
name and kind. -/
structure Registered (index : Index) : Prop where
  findAll_eq : ∀ (parent : Option ItemId) (name : String) (kind : ItemKind),
    index.findAll parent name kind = index.ids.filter (index.bears ⟨parent, kind, name⟩)
  findByName_eq : ∀ (kind : ItemKind) (name : String),
    index.findByName kind name = index.ids.filter (index.bearsName ⟨kind, name⟩)
  findItem_eq : ∀ (parent : Option ItemId) (name : String) (kind : ItemKind), kind ≠ .method →
    index.findItem parent name kind = (index.ids.filter (index.bears ⟨parent, kind, name⟩)).head?

/-- Every item is in its place, and owners and members name each other. -/
structure Owned (index : Index) : Prop where
  placed : ∀ {id : ItemId} {item : Item}, index.get? id = some item → index.Placed item
  parent_iff : ∀ {id owner : ItemId}, index.HasParent id owner ↔ index.Owns owner id
  children_nodup : ∀ {id : ItemId} {item : Item}, index.get? id = some item →
    item.children.toList.Nodup

/-- The two ends of a dependency name each other and are different. -/
structure Linked (index : Index) : Prop where
  depends_iff : ∀ {source target : ItemId},
    index.DependsOn source target ↔ index.IsNeededBy target source
  irrefl : ∀ {id : ItemId}, ¬ index.DependsOn id id
  dependencies_nodup : ∀ {id : ItemId} {item : Item}, index.get? id = some item →
    item.dependencies.toList.Nodup
  incoming_nodup : ∀ {id : ItemId} {item : Item}, index.get? id = some item →
    item.incoming.toList.Nodup

/-- An index whose numbers, registry, owners and dependencies are in order. -/
structure Coherent (index : Index) : Prop where
  counted : index.Counted
  registered : index.Registered
  owned : index.Owned
  linked : index.Linked

/-- Owners that list their members are items. -/
theorem Owned.ownersKnown (h : index.Owned) : index.OwnersKnown := by
  intro id owner hparent
  obtain ⟨ownerItem, hget, _⟩ := h.parent_iff.1 hparent
  exact Option.isSome_iff_exists.2 ⟨ownerItem, hget⟩

theorem Coherent.stacked (h : index.Coherent) : index.IsStacked :=
  h.counted.stacked

theorem Coherent.tallied (h : index.Coherent) : index.Tallied :=
  h.counted.toTallied

/-! ## Changing an item in place -/

theorem size_modify (index : Index) (id : ItemId) (f : Item → Item) :
    (index.modify id f).size = index.size := by
  obtain ⟨hbelow, _, _, _, hsize⟩ := books_modify index id f
  rw [size, size, layers, layers, Layers.size, Layers.size, hbelow, hsize]

theorem generation_modify (index : Index) (id : ItemId) (f : Item → Item) :
    (index.modify id f).generation = index.generation := by
  rw [generation, generation, modify]
  split
  · rfl
  · split
    · rfl
    · split <;> rfl

theorem findAll_modify (index : Index) (id : ItemId) (f : Item → Item) (parent : Option ItemId)
    (name : String) (kind : ItemKind) :
    (index.modify id f).findAll parent name kind = index.findAll parent name kind := by
  obtain ⟨hbelow, _, _, hregistry, _⟩ := books_modify index id f
  rw [findAll, findAll, layers, layers, Layers.findAll, Layers.findAll, hbelow, hregistry]

theorem findByName_modify (index : Index) (id : ItemId) (f : Item → Item) (kind : ItemKind)
    (name : String) :
    (index.modify id f).findByName kind name = index.findByName kind name := by
  obtain ⟨hbelow, _, _, hregistry, _⟩ := books_modify index id f
  rw [findByName, findByName, layers, layers, Layers.findByName, Layers.findByName, hbelow,
    hregistry]

/-- Two indices that no lookup tells apart and that hand out the same numbers. -/
structure AnswersAlike (a b : Index) : Prop where
  get?_eq : ∀ id, b.get? id = a.get? id
  ids_eq : b.ids = a.ids
  findItem_eq : ∀ parent name kind, b.findItem parent name kind = a.findItem parent name kind
  findAll_eq : ∀ parent name kind, b.findAll parent name kind = a.findAll parent name kind
  findByName_eq : ∀ kind name, b.findByName kind name = a.findByName kind name
  nextRaw_eq : b.nextRaw = a.nextRaw
  generation_eq : b.generation = a.generation
  below_eq : b.below = a.below

theorem AnswersAlike.refl (index : Index) : AnswersAlike index index :=
  ⟨fun _ => rfl, rfl, fun _ _ _ => rfl, fun _ _ _ => rfl, fun _ _ => rfl, rfl, rfl, rfl⟩

/-- A change in place is noticed by the items only. -/
theorem answersAlike_modify {id : ItemId} {f : Item → Item}
    (hget : ∀ other, (index.modify id f).get? other = index.get? other)
    (hids : (index.modify id f).ids = index.ids) : AnswersAlike index (index.modify id f) where
  get?_eq := hget
  ids_eq := hids
  findItem_eq := findItem_modify index id f
  findAll_eq := findAll_modify index id f
  findByName_eq := findByName_modify index id f
  nextRaw_eq := nextRaw_modify index id f
  generation_eq := generation_modify index id f
  below_eq := below_modify index id f

/-- A test of the item under a handle that a change leaves alone. -/
theorem any_get?_modify {f : Item → Item} {test : Item → Bool}
    (htest : ∀ item, test (f item) = test item) (index : Index) (id other : ItemId) :
    ((index.modify id f).get? other).any test = (index.get? other).any test := by
  rw [get?_modify]
  split
  · rename_i hid
    subst hid
    cases index.get? other <;> simp [htest]
  · rfl

theorem bears_modify {f : Item → Item} (hf : Item.KeepsPlace f) (index : Index) (id : ItemId)
    (key : ItemKey) : (index.modify id f).bears key = index.bears key := by
  funext other
  refine any_get?_modify (fun item => ?_) index id other
  obtain ⟨_, hname, hkind, hparent⟩ := hf item
  rw [hname, hkind, hparent]

theorem bearsName_modify {f : Item → Item} (hf : Item.KeepsPlace f) (index : Index) (id : ItemId)
    (key : NameKey) : (index.modify id f).bearsName key = index.bearsName key := by
  funext other
  refine any_get?_modify (fun item => ?_) index id other
  obtain ⟨_, hname, hkind, _⟩ := hf item
  rw [hname, hkind]

theorem Tallied.modify (h : index.Tallied) {f : Item → Item} (hf : Item.KeepsPlace f)
    (id : ItemId) : (index.modify id f).Tallied where
  stacked := isStacked_modify h.stacked id (fun item => (hf item).1)
  numbered := by
    rw [ids_modify h.stacked id (fun item => (hf item).1), nextRaw_modify]
    exact h.numbered
  first_le := by
    rw [(books_modify index id f).2.1, nextRaw_modify]
    exact h.first_le

theorem Counted.modify (h : index.Counted) {f : Item → Item} (hf : Item.KeepsPlace f)
    (id : ItemId) : (index.modify id f).Counted where
  toTallied := h.toTallied.modify hf id
  next_eq := by rw [nextRaw_modify, size_modify, h.next_eq]

theorem Registered.modify (h : index.Registered) (hstacked : index.IsStacked) {f : Item → Item}
    (hf : Item.KeepsPlace f) (id : ItemId) : (index.modify id f).Registered := by
  have hids := ids_modify hstacked id (fun item => (hf item).1)
  refine ⟨?_, ?_, ?_⟩
  · intro parent name kind
    rw [findAll_modify, hids, bears_modify hf, h.findAll_eq]
  · intro kind name
    rw [findByName_modify, hids, bearsName_modify hf, h.findByName_eq]
  · intro parent name kind hkind
    rw [findItem_modify, hids, bears_modify hf, h.findItem_eq parent name kind hkind]

/-- A property of the item under a handle that a change leaves alone. -/
theorem exists_get?_modify_iff {f : Item → Item} {holds : Item → Prop}
    (hholds : ∀ item, holds (f item) ↔ holds item) (id other : ItemId) :
    (∃ item, (index.modify id f).get? other = some item ∧ holds item) ↔
      ∃ item, index.get? other = some item ∧ holds item := by
  rw [get?_modify]
  split
  · rename_i hid
    subst hid
    cases index.get? other <;> simp [hholds]
  · rfl

theorem Owned.modify (h : index.Owned) {f : Item → Item} (hf : Item.KeepsPlace f)
    (hchildren : ∀ item, (f item).children = item.children) (id : ItemId) :
    (index.modify id f).Owned := by
  refine ⟨?_, ?_, ?_⟩
  · intro other item hget
    obtain ⟨before, hbefore, _, hkind, hparent, _⟩ := exists_of_get?_modify hf hget
    exact placed_modify hf hkind hparent (h.placed hbefore)
  · intro other owner
    have hleft : (index.modify id f).HasParent other owner ↔ index.HasParent other owner :=
      exists_get?_modify_iff (fun item => by rw [(hf item).2.2.2]) id other
    have hright : (index.modify id f).Owns owner other ↔ index.Owns owner other :=
      exists_get?_modify_iff (fun item => by rw [hchildren]) id owner
    rw [hleft, hright, h.parent_iff]
  · intro other item hget
    obtain ⟨before, hbefore, _, _, _, rfl | ⟨rfl, rfl⟩⟩ := exists_of_get?_modify hf hget
    · exact h.children_nodup hbefore
    · rw [hchildren]
      exact h.children_nodup hbefore

theorem Linked.modify (h : index.Linked) {f : Item → Item}
    (hdependencies : ∀ item, (f item).dependencies = item.dependencies)
    (hincoming : ∀ item, (f item).incoming = item.incoming) (id : ItemId) :
    (index.modify id f).Linked := by
  have hdepends : ∀ {source target : ItemId},
      (index.modify id f).DependsOn source target ↔ index.DependsOn source target :=
    exists_get?_modify_iff (fun item => by rw [hdependencies]) id _
  have hneeded : ∀ {target source : ItemId},
      (index.modify id f).IsNeededBy target source ↔ index.IsNeededBy target source :=
    exists_get?_modify_iff (fun item => by rw [hincoming]) id _
  refine ⟨?_, ?_, ?_, ?_⟩
  · intro source target
    rw [hdepends, hneeded, h.depends_iff]
  · intro other
    rw [hdepends]
    exact h.irrefl
  · intro other item hget
    rw [get?_modify] at hget
    split at hget
    · obtain ⟨before, hbefore, rfl⟩ := Option.map_eq_some_iff.1 hget
      rw [hdependencies]
      exact h.dependencies_nodup hbefore
    · exact h.dependencies_nodup hget
  · intro other item hget
    rw [get?_modify] at hget
    split at hget
    · obtain ⟨before, hbefore, rfl⟩ := Option.map_eq_some_iff.1 hget
      rw [hincoming]
      exact h.incoming_nodup hbefore
    · exact h.incoming_nodup hget

/-! ## Creating an item -/

theorem contains_insertItem (h : index.Tallied) {parent : Option ItemId}
    (hparent : parent ≠ some index.nextId) (name : String) (kind : ItemKind) (other : ItemId) :
    (index.insertItem parent name kind).2.contains other ↔
      index.contains other ∨ other = index.nextId := by
  rw [contains, contains, get?_insertItem h hparent]
  by_cases hother : other = index.nextId
  · simp [hother]
  · rw [if_neg hother]
    split <;> simp [hother]

/-- A new item is listed last. -/
theorem ids_insertItem (h : index.Tallied) {parent : Option ItemId}
    (hparent : parent ≠ some index.nextId) (name : String) (kind : ItemKind) :
    (index.insertItem parent name kind).2.ids = index.ids ++ [index.nextId] := by
  have hstacked := isStacked_insertItem h parent name kind
  refine eq_of_sorted (ids_pairwise hstacked) ?_ (fun id => ?_)
  · rw [List.pairwise_append]
    refine ⟨ids_pairwise h.stacked, List.pairwise_singleton _ _, ?_⟩
    intro id hid other hother
    rw [List.mem_singleton.1 hother]
    exact h.numbered id hid
  · rw [mem_ids_iff hstacked, contains_insertItem h hparent, List.mem_append, List.mem_singleton,
      mem_ids_iff h.stacked]

theorem size_insertItem (h : index.Tallied) {parent : Option ItemId}
    (hparent : parent ≠ some index.nextId) (name : String) (kind : ItemKind) :
    (index.insertItem parent name kind).2.size = index.size + 1 := by
  rw [← length_ids, ← length_ids, ids_insertItem h hparent, List.length_append]
  rfl

theorem generation_insertItem (index : Index) (parent : Option ItemId) (name : String)
    (kind : ItemKind) : (index.insertItem parent name kind).2.generation = index.generation := by
  have hstored : (index.stored parent name kind).generation = index.generation := by
    show (index.allocate.2.top.store _).generation = index.top.generation
    rw [Layer.store]
    split <;> rfl
  rw [insertItem_eq, generation, (sameItems_register _ _).generation_eq]
  cases parent with
  | none => exact hstored
  | some owner => exact (generation_modify _ _ _).trans hstored

theorem findAll_insertItem (h : index.Tallied) {parent : Option ItemId}
    (hparent : parent ≠ some index.nextId) (name : String) (kind : ItemKind) (key : ItemKey)
    (hnew : index.nextId ∉ index.findAll key.parent key.name key.kind) :
    (index.insertItem parent name kind).2.findAll key.parent key.name key.kind =
      index.findAll key.parent key.name key.kind ++
        if (⟨parent, kind, name⟩ : ItemKey) = key then [index.nextId] else [] := by
  obtain ⟨hbelow, _, _, hregistry, _⟩ := books_insertItem h hparent name kind
  have hkey : (⟨(Item.fresh index.nextId name kind parent).parent,
      (Item.fresh index.nextId name kind parent).kind,
      (Item.fresh index.nextId name kind parent).name⟩ : ItemKey) = ⟨parent, kind, name⟩ := rfl
  rw [findAll, layers, hbelow, Layers.findAll, hregistry, Registry.withKey_add, hkey,
    List.foldl_append]
  split
  · rw [List.foldl_cons, List.foldl_nil]
    exact toList_insertNew_of_notMem hnew
  · rw [List.append_nil]
    rfl

theorem findByName_insertItem (h : index.Tallied) {parent : Option ItemId}
    (hparent : parent ≠ some index.nextId) (name : String) (kind : ItemKind) (key : NameKey) :
    (index.insertItem parent name kind).2.findByName key.kind key.name =
      index.findByName key.kind key.name ++
        if (⟨kind, name⟩ : NameKey) = key then [index.nextId] else [] := by
  obtain ⟨hbelow, _, _, hregistry, _⟩ := books_insertItem h hparent name kind
  rw [findByName, layers, hbelow, Layers.findByName, hregistry, Registry.withName_add,
    ← List.append_assoc]
  rfl

/-- The items after a new one was created, as far as a test goes that does not look at members. -/
theorem any_get?_insertItem (h : index.Tallied) {parent : Option ItemId}
    (hparent : parent ≠ some index.nextId) (name : String) (kind : ItemKind) (test : Item → Bool)
    (htest : ∀ item id, test { item with children := item.children.push id } = test item)
    (other : ItemId) :
    ((index.insertItem parent name kind).2.get? other).any test =
      if other = index.nextId then test (.fresh index.nextId name kind parent)
      else (index.get? other).any test := by
  rw [get?_insertItem h hparent]
  split
  · rfl
  · split
    · cases index.get? other <;> simp [htest]
    · rfl

/-- Filtering the handles by a test of their items, after a new item was created. -/
theorem filter_ids_insertItem (h : index.Tallied) {parent : Option ItemId}
    (hparent : parent ≠ some index.nextId) (name : String) (kind : ItemKind) (test : Item → Bool)
    (htest : ∀ item id, test { item with children := item.children.push id } = test item) :
    (index.insertItem parent name kind).2.ids.filter
        (fun id => ((index.insertItem parent name kind).2.get? id).any test) =
      index.ids.filter (fun id => (index.get? id).any test) ++
        if test (.fresh index.nextId name kind parent) then [index.nextId] else [] := by
  have hany := any_get?_insertItem h hparent name kind test htest
  rw [ids_insertItem h hparent, List.filter_append]
  congr 1
  · refine List.filter_congr (fun id hid => ?_)
    rw [hany, if_neg]
    rintro rfl
    exact UInt32.lt_irrefl _ (h.numbered _ hid)
  · rw [List.filter_cons, hany, if_pos rfl, List.filter_nil]

theorem Counted.insertItem (h : index.Counted) {parent : Option ItemId}
    (hparent : parent ≠ some index.nextId) (name : String) (kind : ItemKind)
    (hroom : (index.insertItem parent name kind).2.size < 2 ^ 32) :
    (index.insertItem parent name kind).2.Counted := by
  have hsize := size_insertItem h.toTallied hparent name kind
  have hnumber : index.nextRaw.toNat + 1 < 2 ^ 32 := by
    rw [h.next_eq, ← hsize]
    exact hroom
  refine ⟨h.toTallied.insertItem hparent name kind hnumber, ?_⟩
  rw [toNat_nextRaw_insertItem h.toTallied hparent name kind hnumber, hsize, h.next_eq]

theorem Registered.insertItem (h : index.Registered) (htallied : index.Tallied)
    {parent : Option ItemId} (hparent : parent ≠ some index.nextId) {name : String}
    {kind : ItemKind} (hnew : kind = .method ∨ index.findItem parent name kind = none) :
    (index.insertItem parent name kind).2.Registered := by
  have hnext : index.nextId ∉ index.ids := fun hmem =>
    UInt32.lt_irrefl _ (htallied.numbered _ hmem)
  have hfilter : ∀ key : ItemKey, (index.insertItem parent name kind).2.ids.filter
      ((index.insertItem parent name kind).2.bears key) = index.ids.filter (index.bears key) ++
        if (⟨parent, kind, name⟩ : ItemKey) = key then [index.nextId] else [] := by
    intro key
    have hlisted := filter_ids_insertItem htallied hparent name kind
      (fun item => (⟨item.parent, item.kind, item.name⟩ : ItemKey) = key) (fun _ _ => rfl)
    simp only [decide_eq_true_eq] at hlisted
    exact hlisted
  refine ⟨?_, ?_, ?_⟩
  · intro parent' name' kind'
    have hold := h.findAll_eq parent' name' kind'
    rw [findAll_insertItem htallied hparent name kind ⟨parent', kind', name'⟩, hold, hfilter]
    rw [hold]
    exact fun hmem => hnext (List.mem_filter.1 hmem).1
  · intro kind' name'
    have hlisted := filter_ids_insertItem htallied hparent name kind
      (fun item => (⟨item.kind, item.name⟩ : NameKey) = ⟨kind', name'⟩) (fun _ _ => rfl)
    simp only [decide_eq_true_eq] at hlisted
    rw [findByName_insertItem htallied hparent name kind ⟨kind', name'⟩, h.findByName_eq]
    exact hlisted.symm
  · intro parent' name' kind' hkind'
    rw [findItem_insertItem htallied hparent, hfilter]
    by_cases hkey : parent = parent' ∧ kind = kind' ∧ name = name'
    · obtain ⟨rfl, rfl, rfl⟩ := hkey
      have hnone := hnew.resolve_left hkind'
      have hself := findItem_insertItem_self htallied hparent hnone
      rw [findItem_insertItem htallied hparent] at hself
      have hempty : index.ids.filter (index.bears ⟨parent, kind, name⟩) = [] := by
        rw [h.findItem_eq parent name kind hkind'] at hnone
        exact List.head?_eq_none_iff.1 hnone
      rw [hself, hempty]
      simp
    · rw [if_neg hkey, h.findItem_eq parent' name' kind' hkind', if_neg]
      · rw [List.append_nil]
      · simpa using hkey

/-- What holds of the items after a new one was created, if it does not depend on members. -/
theorem exists_get?_insertItem_iff (h : index.Tallied) {parent : Option ItemId}
    (hparent : parent ≠ some index.nextId) {name : String} {kind : ItemKind} {holds : Item → Prop}
    (hholds : ∀ item id, holds { item with children := item.children.push id } ↔ holds item)
    (other : ItemId) :
    (∃ item, (index.insertItem parent name kind).2.get? other = some item ∧ holds item) ↔
      (∃ item, index.get? other = some item ∧ holds item) ∨
        other = index.nextId ∧ holds (.fresh index.nextId name kind parent) := by
  rw [get?_insertItem h hparent]
  by_cases hother : other = index.nextId
  · subst hother
    simp [get?_nextId h]
  · rw [if_neg hother]
    split
    · cases index.get? other <;> simp [hholds, hother]
    · simp [hother]

/-- The members after a new item was created: the owner got the new item. -/
theorem owns_insertItem_iff (h : index.Tallied) {parent : Option ItemId} {kind : ItemKind}
    (htake : index.CanTake parent kind) {name : String} {owner id : ItemId} :
    (index.insertItem parent name kind).2.Owns owner id ↔
      index.Owns owner id ∨ id = index.nextId ∧ parent = some owner := by
  have hparent := htake.ne_nextId h
  rw [Owns, Owns, get?_insertItem h hparent]
  by_cases howner : owner = index.nextId
  · subst howner
    simp [get?_nextId h, Item.fresh, hparent]
  · rw [if_neg howner]
    by_cases hchosen : parent = some owner
    · subst hchosen
      obtain ⟨item, hget, _⟩ := htake
      simp [hget]
    · simp [hchosen]

theorem Owned.insertItem (h : index.Owned) (htallied : index.Tallied) {parent : Option ItemId}
    {name : String} {kind : ItemKind} (htake : index.CanTake parent kind)
    (hnew : kind = .method ∨ index.findItem parent name kind = none) :
    (index.insertItem parent name kind).2.Owned := by
  have hparent := htake.ne_nextId htallied
  have hext := extends_insertItem htallied hparent hnew
  refine ⟨?_, ?_, ?_⟩
  · intro id item hget
    rcases exists_of_get?_insertItem htallied hparent hget with
      ⟨rfl, rfl⟩ | ⟨before, hbefore, _, hkind, howner, _⟩
    · have hfresh : index.Placed (.fresh index.nextId name kind parent) := by
        cases parent <;> exact htake
      exact placed_insertItem hext hfresh
    · refine placed_insertItem hext ?_
      have hplaced := h.placed hbefore
      rw [Placed, howner, hkind]
      exact hplaced
  · intro id owner
    have hleft : (index.insertItem parent name kind).2.HasParent id owner ↔
        index.HasParent id owner ∨ id = index.nextId ∧ parent = some owner :=
      exists_get?_insertItem_iff htallied hparent (fun _ _ => Iff.rfl) id
    rw [hleft, owns_insertItem_iff htallied htake, h.parent_iff]
  · intro id item hget
    rw [get?_insertItem htallied hparent] at hget
    split at hget
    · obtain rfl := Option.some.inj hget
      exact List.nodup_nil
    · split at hget
      · obtain ⟨before, hbefore, rfl⟩ := Option.map_eq_some_iff.1 hget
        rw [Array.toList_push, List.nodup_append]
        refine ⟨h.children_nodup hbefore, by simp, ?_⟩
        rintro child hchild _ hlast rfl
        -- a member that is listed already names its owner, so it is not the new item
        obtain rfl := List.mem_singleton.1 hlast
        obtain ⟨_, hchosen, _⟩ := h.parent_iff.2 ⟨before, hbefore, Array.mem_toList_iff.1 hchild⟩
        rw [get?_nextId htallied] at hchosen
        exact absurd hchosen (by simp)
      · exact h.children_nodup hget

theorem Linked.insertItem (h : index.Linked) (htallied : index.Tallied) {parent : Option ItemId}
    (hparent : parent ≠ some index.nextId) (name : String) (kind : ItemKind) :
    (index.insertItem parent name kind).2.Linked := by
  have hdepends : ∀ {source target : ItemId},
      (index.insertItem parent name kind).2.DependsOn source target ↔
        index.DependsOn source target := by
    intro source target
    have hiff := @exists_get?_insertItem_iff index htallied parent hparent name kind
      (fun item => target ∈ item.dependencies) (fun _ _ => Iff.rfl) source
    exact hiff.trans (or_iff_left (by simp [Item.fresh]))
  have hneeded : ∀ {target source : ItemId},
      (index.insertItem parent name kind).2.IsNeededBy target source ↔
        index.IsNeededBy target source := by
    intro target source
    have hiff := @exists_get?_insertItem_iff index htallied parent hparent name kind
      (fun item => source ∈ item.incoming) (fun _ _ => Iff.rfl) target
    exact hiff.trans (or_iff_left (by simp [Item.fresh]))
  have hkept : ∀ {id : ItemId} {item : Item},
      (index.insertItem parent name kind).2.get? id = some item →
        item.dependencies.toList.Nodup ∧ item.incoming.toList.Nodup := by
    intro id item hget
    rw [get?_insertItem htallied hparent] at hget
    split at hget
    · obtain rfl := Option.some.inj hget
      exact ⟨List.nodup_nil, List.nodup_nil⟩
    · split at hget
      · obtain ⟨before, hbefore, rfl⟩ := Option.map_eq_some_iff.1 hget
        have hdependencies := h.dependencies_nodup hbefore
        have hincoming := h.incoming_nodup hbefore
        exact ⟨hdependencies, hincoming⟩
      · exact ⟨h.dependencies_nodup hget, h.incoming_nodup hget⟩
  refine ⟨?_, ?_, fun hget => (hkept hget).1, fun hget => (hkept hget).2⟩
  · intro source target
    rw [hdepends, hneeded, h.depends_iff]
  · intro id
    rw [hdepends]
    exact h.irrefl

/-- A new item keeps an index coherent if its owner may own it and, methods apart, nothing else has
its owner, name and kind. -/
theorem Coherent.insertItem (h : index.Coherent) {parent : Option ItemId} {name : String}
    {kind : ItemKind} (htake : index.CanTake parent kind)
    (hnew : kind = .method ∨ index.findItem parent name kind = none)
    (hroom : (index.insertItem parent name kind).2.size < 2 ^ 32) :
    (index.insertItem parent name kind).2.Coherent :=
  have hparent := htake.ne_nextId h.tallied
  ⟨h.counted.insertItem hparent name kind hroom, h.registered.insertItem h.tallied hparent hnew,
    h.owned.insertItem h.tallied htake hnew, h.linked.insertItem h.tallied hparent name kind⟩

/-! ## Dependencies -/

/-- What holds of the items after one of them was changed. -/
theorem exists_get?_modify {f : Item → Item} {holds : Item → Prop} (id other : ItemId) :
    (∃ item, (index.modify id f).get? other = some item ∧ holds item) ↔
      ∃ item, index.get? other = some item ∧ holds (if other = id then f item else item) := by
  rw [get?_modify]
  split
  · rename_i hid
    subst hid
    cases index.get? other <;> simp
  · rfl

/-- The index with both ends of a dependency changed: the source in what it depends on, the target
in what depends on it. -/
def relink (index : Index) (source target : ItemId) (f g : Array ItemId → Array ItemId) : Index :=
  (index.modify source (fun item => { item with dependencies := f item.dependencies })).modify
    target (fun item => { item with incoming := g item.incoming })

section Relink

variable {source target : ItemId} {f g : Array ItemId → Array ItemId}

theorem dependsOn_relink_iff {x y : ItemId} :
    (index.relink source target f g).DependsOn x y ↔
      ∃ item, index.get? x = some item ∧
        y ∈ if x = source then f item.dependencies else item.dependencies := by
  have hsecond : (index.relink source target f g).DependsOn x y ↔ (index.modify source
      (fun item => { item with dependencies := f item.dependencies })).DependsOn x y :=
    @exists_get?_modify_iff _ (fun item => { item with incoming := g item.incoming })
      (fun item => y ∈ item.dependencies) (fun _ => Iff.rfl) target x
  rw [hsecond, DependsOn, exists_get?_modify]
  by_cases hx : x = source <;> simp only [hx, if_true, if_false]

theorem isNeededBy_relink_iff {x y : ItemId} :
    (index.relink source target f g).IsNeededBy y x ↔
      ∃ item, index.get? y = some item ∧
        x ∈ if y = target then g item.incoming else item.incoming := by
  have hsecond : (index.relink source target f g).IsNeededBy y x ↔ ∃ item,
      (index.modify source (fun item => { item with dependencies := f item.dependencies })).get? y =
        some item ∧ x ∈ if y = target then g item.incoming else item.incoming := by
    rw [IsNeededBy, relink, exists_get?_modify]
    by_cases hy : y = target <;> simp only [hy, if_true, if_false]
  rw [hsecond]
  exact @exists_get?_modify_iff _ (fun item => { item with dependencies := f item.dependencies })
    (fun item => x ∈ if y = target then g item.incoming else item.incoming) (fun _ => Iff.rfl)
    source y

/-- Changing both ends of a dependency keeps an index coherent when both ends change alike. -/
theorem Coherent.relink (h : index.Coherent)
    (hiff : ∀ {x y : ItemId}, (index.relink source target f g).DependsOn x y ↔
      (index.relink source target f g).IsNeededBy y x)
    (hirrefl : ∀ {x : ItemId}, ¬ (index.relink source target f g).DependsOn x x)
    (hf : ∀ ids : Array ItemId, ids.toList.Nodup → (f ids).toList.Nodup)
    (hg : ∀ ids : Array ItemId, ids.toList.Nodup → (g ids).toList.Nodup) :
    (index.relink source target f g).Coherent := by
  have hsource := keepsPlace_dependencies f
  have htarget := keepsPlace_incoming g
  have hcounted := h.counted.modify hsource source
  refine ⟨hcounted.modify htarget target,
    (h.registered.modify h.stacked hsource source).modify hcounted.stacked htarget target,
    (h.owned.modify hsource (fun _ => rfl) source).modify htarget (fun _ => rfl) target,
    hiff, hirrefl, ?_, ?_⟩
  · intro id item hget
    have hold : ∀ {before : Item}, (index.modify source
        (fun item => { item with dependencies := f item.dependencies })).get? id = some before →
          before.dependencies.toList.Nodup := by
      intro before hbefore
      obtain ⟨first, hfirst, _, _, _, rfl | ⟨_, rfl⟩⟩ := exists_of_get?_modify hsource hbefore
      · exact h.linked.dependencies_nodup hfirst
      · exact hf _ (h.linked.dependencies_nodup hfirst)
    obtain ⟨before, hbefore, _, _, _, rfl | ⟨_, rfl⟩⟩ := exists_of_get?_modify htarget hget
    · exact hold hbefore
    · have hnodup := hold hbefore
      exact hnodup
  · intro id item hget
    have hold : ∀ {before : Item}, (index.modify source
        (fun item => { item with dependencies := f item.dependencies })).get? id = some before →
          before.incoming.toList.Nodup := by
      intro before hbefore
      obtain ⟨first, hfirst, _, _, _, rfl | ⟨_, rfl⟩⟩ := exists_of_get?_modify hsource hbefore
      · exact h.linked.incoming_nodup hfirst
      · have hnodup := h.linked.incoming_nodup hfirst
        exact hnodup
    obtain ⟨before, hbefore, _, _, _, rfl | ⟨_, rfl⟩⟩ := exists_of_get?_modify htarget hget
    · exact hold hbefore
    · exact hg _ (hold hbefore)

end Relink

theorem mem_insertNew_iff {ids : Array ItemId} {id other : ItemId} :
    other ∈ insertNew ids id ↔ other ∈ ids ∨ other = id := by
  rw [← Array.mem_toList_iff, mem_insertNew, Array.mem_toList_iff]

theorem toList_erase (ids : Array ItemId) (id : ItemId) :
    (ids.erase id).toList = ids.toList.erase id :=
  congrArg Array.toList (@List.erase_toArray _ _ ids.toList id)

theorem mem_erase_iff {ids : Array ItemId} (h : ids.toList.Nodup) {id other : ItemId} :
    other ∈ ids.erase id ↔ other ∈ ids ∧ other ≠ id := by
  rw [← Array.mem_toList_iff, toList_erase, h.mem_erase_iff, Array.mem_toList_iff, and_comm]

theorem Coherent.addDependency (h : index.Coherent) (source target : ItemId) :
    (index.addDependency source target).2.Coherent := by
  rw [Index.addDependency]
  split
  · exact h
  · rename_i hends
    simp only [Bool.or_eq_true, decide_eq_true_eq, Bool.not_eq_true', not_or,
      Bool.not_eq_false] at hends
    obtain ⟨⟨hne, hsource⟩, htarget⟩ := hends
    obtain ⟨sourceItem, hsourceItem⟩ := Option.isSome_iff_exists.1 hsource
    obtain ⟨targetItem, htargetItem⟩ := Option.isSome_iff_exists.1 htarget
    have hdepends : ∀ {x y : ItemId}, (index.relink source target (insertNew · target)
        (insertNew · source)).DependsOn x y ↔ index.DependsOn x y ∨ x = source ∧ y = target := by
      intro x y
      rw [dependsOn_relink_iff]
      by_cases hx : x = source
      · subst hx
        simp [DependsOn, hsourceItem, mem_insertNew_iff]
      · simp [DependsOn, hx]
    have hneeded : ∀ {y x : ItemId}, (index.relink source target (insertNew · target)
        (insertNew · source)).IsNeededBy y x ↔ index.IsNeededBy y x ∨ x = source ∧ y = target := by
      intro y x
      rw [isNeededBy_relink_iff]
      by_cases hy : y = target
      · subst hy
        simp [IsNeededBy, htargetItem, mem_insertNew_iff]
      · simp [IsNeededBy, hy]
    refine h.relink ?_ ?_ (fun _ => nodup_insertNew) (fun _ => nodup_insertNew)
    · intro x y
      rw [hdepends, hneeded, h.linked.depends_iff]
    · intro x
      rw [hdepends]
      rintro (hself | ⟨rfl, rfl⟩)
      · exact h.linked.irrefl hself
      · exact hne rfl

theorem Coherent.removeDependency (h : index.Coherent) (source target : ItemId) :
    (index.removeDependency source target).2.Coherent := by
  have hdepends : ∀ {x y : ItemId}, (index.relink source target (·.erase target)
      (·.erase source)).DependsOn x y ↔ index.DependsOn x y ∧ ¬ (x = source ∧ y = target) := by
    intro x y
    rw [dependsOn_relink_iff]
    by_cases hx : x = source
    · subst hx
      cases hget : index.get? x with
      | none => simp [DependsOn, hget]
      | some item => simp [DependsOn, hget, mem_erase_iff (h.linked.dependencies_nodup hget)]
    · simp [DependsOn, hx]
  have hneeded : ∀ {y x : ItemId}, (index.relink source target (·.erase target)
      (·.erase source)).IsNeededBy y x ↔ index.IsNeededBy y x ∧ ¬ (x = source ∧ y = target) := by
    intro y x
    rw [isNeededBy_relink_iff]
    by_cases hy : y = target
    · subst hy
      cases hget : index.get? y with
      | none => simp [IsNeededBy, hget]
      | some item => simp [IsNeededBy, hget, mem_erase_iff (h.linked.incoming_nodup hget)]
    · simp [IsNeededBy, hy]
  have herase : ∀ (id : ItemId) (ids : Array ItemId), ids.toList.Nodup →
      (ids.erase id).toList.Nodup := by
    intro id ids hnodup
    rw [toList_erase]
    exact hnodup.erase id
  refine h.relink ?_ ?_ (herase target) (herase source)
  · intro x y
    rw [hdepends, hneeded, h.linked.depends_iff]
  · intro x
    rw [hdepends]
    exact fun hself => h.linked.irrefl hself.1

/-! ## Where an index starts -/

theorem coherent_empty (generation : Nat) : (empty generation).Coherent := by
  have hnone : ∀ {id : ItemId} {item : Item}, ¬ (empty generation).get? id = some item := by
    intro id item hget
    simp [get?_empty] at hget
  have hids : (empty generation).ids = [] := rfl
  have hkey := withKey_startingAt generation 0
  have hname := withName_startingAt generation 0
  refine ⟨⟨⟨isStacked_empty generation, by simp [hids], UInt32.le_refl _⟩, rfl⟩,
    ⟨fun parent name kind => ?_, fun kind name => ?_, fun parent name kind _ => ?_⟩,
    ⟨fun hget => absurd hget hnone, ?_, fun hget => absurd hget hnone⟩,
    ⟨?_, ?_, fun hget => absurd hget hnone, fun hget => absurd hget hnone⟩⟩
  · rw [hids, List.filter_nil]
    show (((Layer.startingAt generation 0).registry.withKey _).foldl insertNew #[]).toList = []
    rw [hkey]
    rfl
  · rw [hids, List.filter_nil]
    exact hname ⟨kind, name⟩
  · rw [hids, List.filter_nil, findItem, layers]
    show Layers.findItem [Layer.startingAt generation 0] ⟨parent, kind, name⟩ = none
    rw [Layers.findItem, hkey]
    rfl
  · intro id owner
    constructor <;> (rintro ⟨_, hget, _⟩; exact absurd hget hnone)
  · intro source target
    constructor <;> (rintro ⟨_, hget, _⟩; exact absurd hget hnone)
  · rintro id ⟨_, hget, _⟩
    exact absurd hget hnone

theorem Owned.congr (h : b.Owned) (hget : ∀ id, a.get? id = b.get? id) : a.Owned where
  placed := by
    intro id item hitem
    rw [hget] at hitem
    have hplaced := h.placed hitem
    simp only [Placed, hget] at hplaced ⊢
    exact hplaced
  parent_iff := by
    intro id owner
    simp only [HasParent, Owns, hget]
    exact h.parent_iff
  children_nodup := fun hitem => h.children_nodup ((hget _).symm.trans hitem)

theorem Linked.congr (h : b.Linked) (hget : ∀ id, a.get? id = b.get? id) : a.Linked where
  depends_iff := by
    intro source target
    simp only [DependsOn, IsNeededBy, hget]
    exact h.depends_iff
  irrefl := by
    intro id
    simp only [DependsOn, hget]
    exact h.irrefl
  dependencies_nodup := fun hitem => h.dependencies_nodup ((hget _).symm.trans hitem)
  incoming_nodup := fun hitem => h.incoming_nodup ((hget _).symm.trans hitem)

theorem Tallied.onBase {base : Index} {generation : Nat} (h : base.Tallied)
    (hnew : ∀ id ∈ base.ids, id.generation ≠ generation) : (onBase generation base).Tallied := by
  have hids : (Index.onBase generation base).ids = base.ids := List.append_nil (Layers.ids base.layers)
  refine ⟨isStacked_onBase h.stacked (fun id hid => ⟨hnew id hid, h.numbered id hid⟩), ?_,
    UInt32.le_refl _⟩
  rw [hids]
  exact h.numbered

theorem Registered.onBase {base : Index} {generation : Nat} (h : base.Registered)
    (hstacked : base.IsStacked) (hnew : ∀ id ∈ base.ids, id.generation ≠ generation) :
    (onBase generation base).Registered := by
  have hget := get?_onBase hstacked hnew
  have hids : (Index.onBase generation base).ids = base.ids := List.append_nil (Layers.ids base.layers)
  have hlayers : (Index.onBase generation base).layers =
      .startingAt generation base.top.source.next :: base.layers := rfl
  have hbears : ∀ key, (Index.onBase generation base).bears key = base.bears key := by
    intro key
    funext id
    rw [bears, bears, hget]
  have hbearsName : ∀ key, (Index.onBase generation base).bearsName key = base.bearsName key := by
    intro key
    funext id
    rw [bearsName, bearsName, hget]
  refine ⟨?_, ?_, ?_⟩
  · intro parent name kind
    rw [hids, hbears, ← h.findAll_eq, findAll, hlayers, Layers.findAll, withKey_startingAt]
    rfl
  · intro kind name
    rw [hids, hbearsName, ← h.findByName_eq, findByName, hlayers, Layers.findByName,
      withName_startingAt, List.append_nil]
    rfl
  · intro parent name kind hkind
    rw [hids, hbears, ← h.findItem_eq parent name kind hkind, findItem_onBase]

/-- An index of a new generation over a coherent base is coherent. -/
theorem coherent_onBase {base : Index} {generation : Nat} (h : base.Coherent)
    (hnew : ∀ id ∈ base.ids, id.generation ≠ generation) : (onBase generation base).Coherent := by
  have hget := get?_onBase h.stacked hnew
  have hids : (onBase generation base).ids = base.ids := List.append_nil (Layers.ids base.layers)
  refine ⟨⟨h.tallied.onBase hnew, ?_⟩, h.registered.onBase h.stacked hnew, h.owned.congr hget,
    h.linked.congr hget⟩
  rw [← length_ids, hids, length_ids]
  exact h.counted.next_eq

end Index

end CodeAtlas
