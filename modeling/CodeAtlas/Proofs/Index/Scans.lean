/-
# Lookups are scans

What the registry finds under an owner, a name and a kind, or under a kind and a name, is what a scan
of all items finds: the items that bear these, each once, by increasing number.  In an index that
was built by operations and layers this holds at every moment.  An index without a base may also be
given items under chosen numbers and owners by hand, as when it is read from a file; there it holds
once the registry is rebuilt.
-/
import CodeAtlas.Proofs.Index.Durable
import CodeAtlas.Proofs.Index.Reachable
import CodeAtlas.Proofs.Index.WellFormed

namespace CodeAtlas.Index

variable {index : Index}

/-- The items of an index are listed by increasing number, and its lookups find what a scan of them
finds. -/
structure ListsItems (index : Index) : Prop where
  get?_iff : ∀ (id : ItemId) (item : Item),
    index.get? id = some item ↔ item ∈ index.items ∧ item.id = id
  increasing : index.items.Pairwise (fun a b => a.id.raw < b.id.raw)
  findAll_eq : ∀ (parent : Option ItemId) (name : String) (kind : ItemKind),
    index.findAll parent name kind = (index.items.filter
      (fun item => item.parent = parent ∧ item.kind = kind ∧ item.name = name)).map Item.id
  findByName_eq : ∀ (kind : ItemKind) (name : String),
    index.findByName kind name =
      (index.items.filter (fun item => item.kind = kind ∧ item.name = name)).map Item.id
  findAll_increasing : ∀ (parent : Option ItemId) (name : String) (kind : ItemKind),
    (index.findAll parent name kind).Pairwise (fun a b => a.raw < b.raw)
  findByName_increasing : ∀ (kind : ItemKind) (name : String),
    (index.findByName kind name).Pairwise (fun a b => a.raw < b.raw)

theorem items_increasing (h : index.IsStacked) :
    index.items.Pairwise (fun a b => a.id.raw < b.id.raw) := by
  have hids := ids_pairwise h
  rwa [← map_id_items h, List.pairwise_map] at hids

/-- A scan finds handles by increasing number, so none twice. -/
theorem map_id_filter_increasing (h : index.IsStacked) (test : Item → Bool) :
    ((index.items.filter test).map Item.id).Pairwise (fun a b => a.raw < b.raw) :=
  List.pairwise_map.2 ((items_increasing h).sublist List.filter_sublist)

theorem listsItems_of_lookups (h : index.IsStacked)
    (hall : ∀ (parent : Option ItemId) (name : String) (kind : ItemKind),
      index.findAll parent name kind = (index.items.filter
        (fun item => item.parent = parent ∧ item.kind = kind ∧ item.name = name)).map Item.id)
    (hname : ∀ (kind : ItemKind) (name : String), index.findByName kind name =
      (index.items.filter (fun item => item.kind = kind ∧ item.name = name)).map Item.id) :
    index.ListsItems where
  get?_iff := by
    intro id item
    constructor
    · intro hget
      have hid := id_of_get? h hget
      exact ⟨(mem_items_iff h).2 (hid ▸ hget), hid⟩
    · rintro ⟨hmem, rfl⟩
      exact (mem_items_iff h).1 hmem
  increasing := items_increasing h
  findAll_eq := hall
  findByName_eq := hname
  findAll_increasing := by
    intro parent name kind
    rw [hall]
    exact map_id_filter_increasing h _
  findByName_increasing := by
    intro kind name
    rw [hname]
    exact map_id_filter_increasing h _

/-- A registry that lists the handles by increasing number lists the items. -/
theorem Coherent.listsItems (h : index.Coherent) : index.ListsItems := by
  refine listsItems_of_lookups h.stacked (fun parent name kind => ?_) (fun kind name => ?_)
  · rw [h.registered.findAll_eq, map_id_filter_items h.stacked]
    refine List.filter_congr (fun id _ => ?_)
    rw [bears]
    simp only [ItemKey.mk.injEq]
  · rw [h.registered.findByName_eq, map_id_filter_items h.stacked]
    refine List.filter_congr (fun id _ => ?_)
    rw [bearsName]
    simp only [NameKey.mk.injEq]

/-! ## Without a base -/

/-- An index without a base whose items stand under their own numbers. -/
structure IsFlat (index : Index) : Prop where
  stacked : index.IsStacked
  below_eq : index.below = []

theorem isFlat_empty (generation : Nat) : (empty generation).IsFlat :=
  ⟨isStacked_empty generation, rfl⟩

theorem lifelong_isFlat : Lifelong IsFlat where
  modify := fun id hid h => ⟨isStacked_modify h.stacked id hid, (below_modify _ id _).trans h.below_eq⟩
  store := by
    intro index item hgeneration h
    refine ⟨?_, h.below_eq⟩
    by_cases hraw : item.id.raw < index.top.firstRaw
    · -- the layer takes no such number
      rw [Index.store, Layer.store, if_pos hraw]
      exact h.stacked
    · exact isStacked_store h.stacked ⟨hgeneration, UInt32.not_lt.1 hraw⟩
  books := fun hsame h => ⟨hsame.isStacked h.stacked, hsame.below_eq.trans h.below_eq⟩

/-- The indices without a base that come about by operations, by putting items under chosen numbers,
by linking items to owners and by rebuilding the registry, in any order. -/
inductive Patched : Index → Prop
  | empty (generation : Nat) : Patched (Index.empty generation)
  | operation {index : Index} (operation : Operation ItemId) (h : Patched index) :
      Patched (operation.run index).2
  | insertRaw {index after : Index} {raw : UInt32} {name : String} {kind : ItemKind} {id : ItemId}
      (hinsert : index.insertRaw raw name kind = .ok (id, after)) (h : Patched index) :
      Patched after
  | setParent {index after : Index} {child parent : ItemId}
      (hset : index.setParent child parent = .ok after) (h : Patched index) : Patched after
  | rebuildRegistry {index : Index} (h : Patched index) : Patched index.rebuildRegistry

theorem Patched.isFlat (h : index.Patched) : index.IsFlat := by
  induction h with
  | empty generation => exact isFlat_empty generation
  | operation operation _ ih => exact lifelong_isFlat.enduring.lasting.sturdy.run operation ih
  | insertRaw hinsert _ ih => exact lifelong_isFlat.enduring.lasting.insertRaw ih hinsert
  | setParent hset _ ih => exact lifelong_isFlat.enduring.lasting.setParent ih hset
  | rebuildRegistry _ ih => exact lifelong_isFlat.books (sameItems_rebuildRegistry _) ih

theorem IsFlat.listsItems_rebuildRegistry (h : index.IsFlat) :
    index.rebuildRegistry.ListsItems := by
  have hsame := sameItems_rebuildRegistry index
  have hitems : index.rebuildRegistry.items = index.items := by
    rw [items, items, hsame.ids_eq]
    exact congrArg (List.filterMap · index.ids) (funext hsame.get?_eq)
  refine listsItems_of_lookups (hsame.isStacked h.stacked) ?_ ?_
  · intro parent name kind
    rw [hitems]
    exact findAll_rebuildRegistry h.stacked h.below_eq parent name kind
  · intro kind name
    rw [hitems]
    exact findByName_rebuildRegistry h.stacked h.below_eq kind name

/-! ## What lookups find -/

/-- Lookups find what a scan finds: in every index that operations and layers lead to, and in every
index without a base, however it was put together, once its registry is rebuilt. -/
theorem lookups_eq_scans :
    (∀ index : Index, index.Reachable → index.size < 2 ^ 32 → index.ListsItems) ∧
      ∀ index : Index, index.Patched → index.rebuildRegistry.ListsItems :=
  ⟨fun _ hreachable hroom => (hreachable.coherent hroom).listsItems,
    fun _ hpatched => hpatched.isFlat.listsItems_rebuildRegistry⟩

/-- A project and a package that were put under chosen numbers and linked by hand. -/
def handmadeApp : Index :=
  let packaged := ((empty 1).store (.fresh ⟨4, 1⟩ "p" .package none)).store
    (.fresh ⟨2, 1⟩ "app" .project none)
  (packaged.modify ⟨4, 1⟩ (fun item => { item with parent := some ⟨2, 1⟩ })).modify ⟨2, 1⟩
    (fun item => { item with children := item.children.push ⟨4, 1⟩ })

theorem patched_handmadeApp : handmadeApp.Patched := by
  have hpackage : (empty 1).insertRaw 4 "p" .package =
      .ok (⟨4, 1⟩, (empty 1).store (.fresh ⟨4, 1⟩ "p" .package none)) := rfl
  have hproject : ((empty 1).store (.fresh ⟨4, 1⟩ "p" .package none)).insertRaw 2 "app" .project =
      .ok (⟨2, 1⟩, ((empty 1).store (.fresh ⟨4, 1⟩ "p" .package none)).store
        (.fresh ⟨2, 1⟩ "app" .project none)) := rfl
  have hlink : (((empty 1).store (.fresh ⟨4, 1⟩ "p" .package none)).store
      (.fresh ⟨2, 1⟩ "app" .project none)).setParent ⟨4, 1⟩ ⟨2, 1⟩ = .ok handmadeApp := rfl
  exact .setParent hlink (.insertRaw hproject (.insertRaw hpackage (.empty 1)))

theorem lookups_eq_scans_apps :
    layeredApp.ListsItems ∧ handmadeApp.rebuildRegistry.ListsItems :=
  ⟨lookups_eq_scans.1 layeredApp reachable_layeredApp (by decide +kernel),
    lookups_eq_scans.2 handmadeApp patched_handmadeApp⟩

end CodeAtlas.Index
