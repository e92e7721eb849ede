/-
# What a change does to an index

Each elementary change of an index in terms of the items that its handles name: changing an item
changes that item only, storing an item adds it under its handle, and the other changes leave all
items alone.  The layers stay in order.
-/
import CodeAtlas.Proofs.Index.Layers
import CodeAtlas.Proofs.Index.Registry

namespace CodeAtlas

/-! ## Changes of one layer -/

namespace Layer

variable {layer : Layer}

theorem Numbered.modify (h : layer.Numbered) (raw : UInt32) {f : Item → Item}
    (hid : ∀ item, (f item).id = item.id) :
    ({ layer with items := layer.items.modify raw f } : Layer).Numbered := by
  constructor
  · intro other item hitem
    simp only [Std.TreeMap.getElem?_modify, Std.compare_eq_iff_eq] at hitem
    split at hitem
    · rename_i hraw
      obtain ⟨old, hold, rfl⟩ := Option.map_eq_some_iff.1 hitem
      rw [hid, h.id_eq hold, hraw]
    · exact h.id_eq hitem
  · intro other item hitem
    simp only [Std.TreeMap.getElem?_modify, Std.compare_eq_iff_eq] at hitem
    split at hitem
    · rename_i hraw
      obtain ⟨old, hold, rfl⟩ := Option.map_eq_some_iff.1 hitem
      exact hraw ▸ h.first_le hold
    · exact h.first_le hitem

/-- A layer stores an item of its generation under its number, or not at all. -/
theorem Numbered.store (h : layer.Numbered) {item : Item}
    (hgeneration : item.id.generation = layer.generation) : (layer.store item).Numbered := by
  rw [Layer.store]
  split
  · exact h
  · rename_i hfirst
    constructor
    · intro raw other hother
      simp only [Std.TreeMap.getElem?_insert, Std.compare_eq_iff_eq] at hother
      split at hother
      · rename_i hraw
        cases hother
        rw [← hraw, ← hgeneration]
      · exact h.id_eq hother
    · intro raw other hother
      simp only [Std.TreeMap.getElem?_insert, Std.compare_eq_iff_eq] at hother
      split at hother
      · rename_i hraw
        exact hraw ▸ UInt32.not_lt.1 hfirst
      · exact h.first_le hother

end Layer

namespace Index

variable {index : Index}

/-! ## Indices with the same handles -/

/-- Indices whose layers are in order list the same handles when they know the same ones. -/
theorem ids_eq_of_contains {a b : Index} (ha : a.IsStacked) (hb : b.IsStacked)
    (h : ∀ id, a.contains id = b.contains id) : a.ids = b.ids := by
  refine eq_of_sorted (ids_pairwise ha) (ids_pairwise hb) (fun id => ?_)
  rw [mem_ids_iff ha, mem_ids_iff hb, h]

/-! ## Empty indices -/

theorem numbered_startingAt (generation : Nat) (firstRaw : UInt32) :
    (Layer.startingAt generation firstRaw).Numbered := by
  have hitems : ∀ raw : UInt32, (Layer.startingAt generation firstRaw).items[raw]? = none :=
    fun _ => Std.TreeMap.getElem?_emptyc
  constructor <;>
  · intro raw item hitem
    simp [hitems] at hitem

/-- A layer without items fits on any stack it numbers after. -/
theorem stacked_startingAt {below : List Layer} (h : Layers.Stacked below) {generation : Nat}
    {firstRaw : UInt32}
    (hnew : ∀ id ∈ Layers.ids below, id.generation ≠ generation ∧ id.raw < firstRaw) :
    Layers.Stacked (.startingAt generation firstRaw :: below) := by
  have hshadows : ∀ id : ItemId, (Layer.startingAt generation firstRaw).shadows[id]? = none :=
    fun _ => Std.TreeMap.getElem?_emptyc
  refine .cons (numbered_startingAt generation firstRaw) hnew (fun hitem => ?_) h
  simp [hshadows] at hitem

theorem isStacked_empty (generation : Nat) : (empty generation).IsStacked :=
  stacked_startingAt .nil (by simp [Layers.ids])

/-- An index over a base is in order when its generation is new and the base has no number from the
next one on. -/
theorem isStacked_onBase {base : Index} (h : base.IsStacked) {generation : Nat}
    (hnew : ∀ id ∈ base.ids, id.generation ≠ generation ∧ id.raw < base.nextRaw) :
    (onBase generation base).IsStacked :=
  stacked_startingAt h hnew

/-! ## Changing an item -/

/-- Changing an item changes what its handle names and nothing else. -/
theorem get?_modify (index : Index) (id other : ItemId) (f : Item → Item) :
    (index.modify id f).get? other =
      if other = id then (index.get? id).map f else index.get? other := by
  rw [modify]
  split
  · -- an item of the upper layer
    rename_i hgen
    by_cases hid : other = id
    · subst hid
      simp [get?, layers, Layers.get?, hgen]
    · rw [if_neg hid]
      by_cases hother : other.generation = index.top.generation
      · have hraw : id.raw ≠ other.raw := by
          intro hraw
          apply hid
          cases other
          cases id
          simp_all
        simp [get?, layers, Layers.get?, hother, Std.TreeMap.getElem?_modify, hraw]
      · simp [get?, layers, Layers.get?, hother]
  · rename_i hgen
    split
    · -- a copy that is there already
      rename_i hshadow
      obtain ⟨item, hitem⟩ : ∃ item, index.top.shadows[id]? = some item := by
        rw [Std.TreeMap.contains_eq_isSome_getElem?] at hshadow
        exact Option.isSome_iff_exists.1 hshadow
      by_cases hid : other = id
      · subst hid
        simp [get?, layers, Layers.get?, hgen, hitem]
      · rw [if_neg hid]
        by_cases hother : other.generation = index.top.generation
        · simp [get?, layers, Layers.get?, hother]
        · simp [get?, layers, Layers.get?, hother, Std.TreeMap.getElem?_modify, Ne.symm hid]
    · rename_i hshadow
      have hnone : index.top.shadows[id]? = none := by
        rw [Std.TreeMap.contains_eq_isSome_getElem?, Bool.not_eq_true] at hshadow
        exact Option.isSome_eq_false_iff.1 hshadow |> Option.isNone_iff_eq_none.1
      have hget : index.get? id = Layers.get? index.below id := by
        simp [get?, layers, Layers.get?, hgen, hnone]
      cases hbelow : Layers.get? index.below id with
      | none =>
        by_cases hid : other = id
        · subst hid
          simp [hget, hbelow]
        · simp [hid]
      | some item =>
        by_cases hid : other = id
        · subst hid
          simp [get?, layers, Layers.get?, hgen, hnone, hbelow]
        · rw [if_neg hid]
          by_cases hother : other.generation = index.top.generation
          · simp [get?, layers, Layers.get?, hother]
          · simp [get?, layers, Layers.get?, hother, Std.TreeMap.getElem?_insert, Ne.symm hid]

@[simp] theorem contains_modify (index : Index) (id other : ItemId) (f : Item → Item) :
    (index.modify id f).contains other = index.contains other := by
  rw [contains, contains, get?_modify]
  split
  · rename_i h
    rw [h, Option.isSome_map]
  · rfl

theorem isStacked_modify (h : index.IsStacked) (id : ItemId) {f : Item → Item}
    (hid : ∀ item, (f item).id = item.id) : (index.modify id f).IsStacked := by
  have hlayers : Layers.Stacked (index.top :: index.below) := h
  cases hlayers with
  | cons numbered above shadows rest =>
    rw [modify]
    split
    · exact .cons (numbered.modify id.raw hid) above shadows rest
    · split
      · refine .cons ⟨numbered.id_eq, numbered.first_le⟩ above ?_ rest
        intro other item hitem
        simp only [Std.TreeMap.getElem?_modify, Std.compare_eq_iff_eq] at hitem
        split at hitem
        · rename_i hother
          obtain ⟨old, hold, rfl⟩ := Option.map_eq_some_iff.1 hitem
          obtain ⟨hold_id, hmem⟩ := shadows hold
          exact ⟨by rw [hid, hold_id, hother], hother ▸ hmem⟩
        · exact shadows hitem
      · split
        · rename_i old hold
          refine .cons ⟨numbered.id_eq, numbered.first_le⟩ above ?_ rest
          intro other item hitem
          simp only [Std.TreeMap.getElem?_insert, Std.compare_eq_iff_eq] at hitem
          split at hitem
          · rename_i hother
            cases hitem
            refine ⟨by rw [hid, Layers.id_of_get? rest hold, hother], ?_⟩
            exact (Layers.mem_ids_iff rest).2 (by rw [← hother, hold]; rfl)
          · exact shadows hitem
        · exact h

theorem ids_modify (h : index.IsStacked) (id : ItemId) {f : Item → Item}
    (hid : ∀ item, (f item).id = item.id) : (index.modify id f).ids = index.ids :=
  ids_eq_of_contains (isStacked_modify h id hid) h (fun other => contains_modify index id other f)

/-- Changing every item of a list without repetition changes just those. -/
theorem get?_foldl_modify {ids : List ItemId} (hnodup : ids.Nodup) (index : Index) (f : Item → Item)
    (other : ItemId) :
    (ids.foldl (fun index id => index.modify id f) index).get? other =
      if other ∈ ids then (index.get? other).map f else index.get? other := by
  induction ids generalizing index with
  | nil => simp
  | cons first rest ih =>
    obtain ⟨hout, hrest⟩ := List.nodup_cons.1 hnodup
    rw [List.foldl_cons, ih hrest, get?_modify]
    by_cases hfirst : other = first
    · subst hfirst
      simp [hout]
    · simp [hfirst]

theorem isStacked_foldl_modify (h : index.IsStacked) (ids : List ItemId) {f : Item → Item}
    (hid : ∀ item, (f item).id = item.id) :
    (ids.foldl (fun index id => index.modify id f) index).IsStacked := by
  induction ids generalizing index with
  | nil => exact h
  | cons first rest ih => exact ih (isStacked_modify h first hid)

theorem below_modify (index : Index) (id : ItemId) (f : Item → Item) :
    (index.modify id f).below = index.below := by
  rw [modify]
  split
  · rfl
  · split
    · rfl
    · split <;> rfl

theorem below_foldl_modify (index : Index) (ids : List ItemId) (f : Item → Item) :
    (ids.foldl (fun index id => index.modify id f) index).below = index.below := by
  induction ids generalizing index with
  | nil => rfl
  | cons first rest ih => rw [List.foldl_cons, ih, below_modify]

/-! ## Copying an item up -/

/-- Copying an item up is changing it into itself, if anything. -/
theorem copyUp_cases (index : Index) (id : ItemId) :
    index.copyUp id = index ∨ index.copyUp id = index.modify id (fun item => item) := by
  rw [copyUp, modify]
  by_cases hgeneration : id.generation = index.top.generation
  · exact Or.inl (by simp [hgeneration])
  · by_cases hshadow : index.top.shadows.contains id
    · exact Or.inl (by simp [hshadow])
    · refine Or.inr ?_
      simp [hgeneration, hshadow]

/-- An item of the upper layer is not copied. -/
theorem copyUp_of_generation {id : ItemId} (h : id.generation = index.generation) :
    index.copyUp id = index := by
  rw [copyUp, if_pos]
  exact Bool.or_eq_true_iff.2 (Or.inl (decide_eq_true h))

/-! ## Storing an item -/

/-- A handle that the upper layer of the index can store. -/
def Fits (index : Index) (id : ItemId) : Prop :=
  id.generation = index.top.generation ∧ index.top.firstRaw ≤ id.raw

theorem top_store {item : Item} (h : index.Fits item.id) :
    (index.store item).top = { index.top with
      items := index.top.items.insert item.id.raw item
      source := index.top.source.reserve item.id.raw } := by
  rw [store, Layer.store, if_neg (UInt32.not_lt.2 h.2)]

/-- Storing an item puts it under its handle and changes no other. -/
theorem get?_store {item : Item} (h : index.Fits item.id) (other : ItemId) :
    (index.store item).get? other = if other = item.id then some item else index.get? other := by
  have hlayers : (index.store item).layers = (index.store item).top :: index.below := rfl
  rw [get?, hlayers, top_store h, get?, layers, Layers.get?, Layers.get?]
  by_cases hgen : other.generation = index.top.generation
  · simp only [hgen, if_true, Std.TreeMap.getElem?_insert, Std.compare_eq_iff_eq]
    by_cases hraw : item.id.raw = other.raw
    · have heq : other = item.id := by
        rcases hitem : item.id with ⟨raw, generation⟩
        rcases other with ⟨raw', generation'⟩
        simp_all [Fits]
      rw [if_pos hraw, if_pos heq]
    · rw [if_neg hraw, if_neg (fun heq => hraw (by rw [heq]))]
  · rw [if_neg hgen, if_neg hgen, if_neg (fun heq => hgen (by rw [heq]; exact h.1))]

theorem isStacked_store (h : index.IsStacked) {item : Item} (hfits : index.Fits item.id) :
    (index.store item).IsStacked := by
  have hlayers : Layers.Stacked (index.top :: index.below) := h
  cases hlayers with
  | cons numbered above shadows rest =>
    have hnumbered := numbered.store hfits.1
    have hstore : (index.store item).layers = index.top.store item :: index.below := rfl
    rw [IsStacked, hstore]
    rw [Layer.store, if_neg (UInt32.not_lt.2 hfits.2)] at hnumbered ⊢
    exact .cons hnumbered above shadows rest

/-! ## Numbering and registering -/

/-- Two indices that differ in numbering and registry only. -/
structure SameItems (a b : Index) : Prop where
  below_eq : a.below = b.below
  generation_eq : a.top.generation = b.top.generation
  firstRaw_eq : a.top.firstRaw = b.top.firstRaw
  items_eq : a.top.items = b.top.items
  shadows_eq : a.top.shadows = b.top.shadows

namespace SameItems

theorem get?_eq {a b : Index} (h : SameItems a b) (id : ItemId) : a.get? id = b.get? id := by
  rw [Index.get?, Index.get?, layers, layers, Layers.get?, Layers.get?, h.below_eq,
    h.generation_eq, h.items_eq, h.shadows_eq]

theorem numbered {a b : Index} (h : SameItems a b) (hb : b.top.Numbered) : a.top.Numbered := by
  constructor
  · rw [h.items_eq, h.generation_eq]
    exact hb.id_eq
  · rw [h.items_eq, h.firstRaw_eq]
    exact hb.first_le

theorem isStacked {a b : Index} (h : SameItems a b) (hb : b.IsStacked) : a.IsStacked := by
  have hlayers : Layers.Stacked (b.top :: b.below) := hb
  cases hlayers with
  | cons numbered above shadows rest =>
    have ha : Layers.Stacked (a.top :: a.below) := by
      refine .cons (h.numbered numbered) ?_ ?_ (h.below_eq ▸ rest)
      · rw [h.below_eq, h.generation_eq, h.firstRaw_eq]
        exact above
      · rw [h.below_eq, h.shadows_eq]
        exact shadows
    exact ha

theorem ids_eq {a b : Index} (h : SameItems a b) : a.ids = b.ids := by
  rw [Index.ids, Index.ids, layers, layers, Layers.ids, Layers.ids, h.below_eq, Layer.ids,
    Layer.ids, h.items_eq]

end SameItems

theorem sameItems_allocate (index : Index) : SameItems index.allocate.2 index :=
  ⟨rfl, rfl, rfl, rfl, rfl⟩

theorem sameItems_register (index : Index) (id : ItemId) : SameItems (index.register id) index := by
  rw [register]
  split <;> exact ⟨rfl, rfl, rfl, rfl, rfl⟩

theorem sameItems_rebuildRegistry (index : Index) : SameItems index.rebuildRegistry index :=
  ⟨rfl, rfl, rfl, rfl, rfl⟩

end Index

end CodeAtlas
