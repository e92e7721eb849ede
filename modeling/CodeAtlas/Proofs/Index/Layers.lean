/-
# Reading a stack of layers

A stack of layers is in order when every layer keeps its items under their own numbers, numbers
after all layers below it, and copies only items that the layers below show.  Then the handles it
lists are exactly the handles that name an item, by strictly increasing number, and every item
stands under its own handle.
-/
import CodeAtlas.Index.Basic
import Mathlib.Data.List.Basic
import Mathlib.Data.List.Pairwise

namespace CodeAtlas

/-- The values of a map are those of its entries, in the order of the keys. -/
theorem treeMap_values_eq {α β : Type} {cmp : α → α → Ordering} (map : Std.TreeMap α β cmp) :
    map.values = map.toList.map Prod.snd := by
  have h : map.values = map.foldr (fun _ value rest => value :: rest) [] := rfl
  rw [h, Std.TreeMap.foldr_eq_foldr_toList]
  induction map.toList with
  | nil => rfl
  | cons entry rest ih => simp [ih]

theorem nodup_of_sorted {ids : List ItemId} (h : ids.Pairwise (fun a b => a.raw < b.raw)) :
    ids.Nodup := by
  refine h.imp ?_
  rintro a b hlt rfl
  exact UInt32.lt_irrefl _ hlt

/-- Lists of handles by increasing number are equal when they have the same members. -/
theorem eq_of_sorted {ids others : List ItemId} (h : ids.Pairwise (fun a b => a.raw < b.raw))
    (hothers : others.Pairwise (fun a b => a.raw < b.raw))
    (hmem : ∀ id, id ∈ ids ↔ id ∈ others) : ids = others := by
  have hperm : ids.Perm others :=
    (List.perm_ext_iff_of_nodup (nodup_of_sorted h) (nodup_of_sorted hothers)).2 hmem
  refine hperm.eq_of_pairwise ?_ h hothers
  intro a b _ _ hab hba
  exact absurd (UInt32.lt_trans hab hba) (UInt32.lt_irrefl _)

/-! ## One layer -/

/-- The items a layer made stand under their own numbers, none below its first number. -/
structure Layer.Numbered (layer : Layer) : Prop where
  id_eq : ∀ {raw : UInt32} {item : Item}, layer.items[raw]? = some item →
    item.id = ⟨raw, layer.generation⟩
  first_le : ∀ {raw : UInt32} {item : Item}, layer.items[raw]? = some item → layer.firstRaw ≤ raw

namespace Layer

/-- The items of a layer are the values of its map, wherever they stand. -/
theorem mem_values_iff {layer : Layer} {item : Item} :
    item ∈ layer.items.values ↔ ∃ raw : UInt32, layer.items[raw]? = some item := by
  rw [treeMap_values_eq, List.mem_map]
  constructor
  · rintro ⟨⟨raw, item⟩, hmem, rfl⟩
    exact ⟨raw, Std.TreeMap.mem_toList_iff_getElem?_eq_some.1 hmem⟩
  · rintro ⟨raw, hraw⟩
    exact ⟨(raw, item), Std.TreeMap.mem_toList_iff_getElem?_eq_some.2 hraw, rfl⟩

/-- The handles of a numbered layer are its generation with the numbers in use. -/
theorem mem_ids_iff {layer : Layer} (h : layer.Numbered) {id : ItemId} :
    id ∈ layer.ids ↔ id.generation = layer.generation ∧ (layer.items[id.raw]?).isSome := by
  rw [ids, List.mem_map]
  constructor
  · rintro ⟨item, hitem, rfl⟩
    obtain ⟨raw, hraw⟩ := mem_values_iff.1 hitem
    rw [h.id_eq hraw]
    exact ⟨rfl, by rw [hraw]; rfl⟩
  · rintro ⟨hgen, hsome⟩
    obtain ⟨item, hitem⟩ := Option.isSome_iff_exists.1 hsome
    refine ⟨item, mem_values_iff.2 ⟨id.raw, hitem⟩, ?_⟩
    rw [h.id_eq hitem, ← hgen]

/-- A layer lists its handles by increasing number. -/
theorem ids_pairwise {layer : Layer} (h : layer.Numbered) :
    layer.ids.Pairwise (fun a b => a.raw < b.raw) := by
  rw [ids, treeMap_values_eq, List.map_map, List.pairwise_map]
  refine Std.TreeMap.ordered_keys_toList.imp_of_mem ?_
  rintro ⟨raw, item⟩ ⟨raw', item'⟩ hmem hmem' hlt
  rw [Std.TreeMap.mem_toList_iff_getElem?_eq_some] at hmem hmem'
  simp only [Function.comp_apply, h.id_eq hmem, h.id_eq hmem']
  exact Std.compare_eq_lt.1 hlt

theorem length_ids (layer : Layer) : layer.ids.length = layer.items.size := by
  rw [ids, List.length_map, treeMap_values_eq, List.length_map, Std.TreeMap.length_toList]

end Layer

/-! ## Stacks -/

namespace Layers

/-- A stack of layers, uppermost first, in which every layer numbers after those below it, marks
its handles by a generation of its own and copies only items of the layers below. -/
inductive Stacked : List Layer → Prop
  | nil : Stacked []
  | cons {layer : Layer} {below : List Layer} (numbered : layer.Numbered)
      (above : ∀ id ∈ ids below, id.generation ≠ layer.generation ∧ id.raw < layer.firstRaw)
      (shadows : ∀ {id : ItemId} {item : Item}, layer.shadows[id]? = some item →
        item.id = id ∧ id ∈ ids below)
      (rest : Stacked below) : Stacked (layer :: below)

/-- A handle is listed exactly when it names an item. -/
theorem mem_ids_iff {layers : List Layer} (h : Stacked layers) {id : ItemId} :
    id ∈ ids layers ↔ (get? layers id).isSome := by
  induction h with
  | nil => simp [ids, get?]
  | @cons layer below numbered above shadows _ ih =>
    rw [ids, List.mem_append, Layer.mem_ids_iff numbered, get?]
    by_cases hgen : id.generation = layer.generation
    · rw [if_pos hgen]
      constructor
      · rintro (hbelow | ⟨_, hsome⟩)
        · exact absurd hgen (above id hbelow).1
        · exact hsome
      · exact fun hsome => Or.inr ⟨hgen, hsome⟩
    · rw [if_neg hgen]
      cases hshadow : layer.shadows[id]? with
      | some item => simp [(shadows hshadow).2]
      | none => simp [hgen, ih]

/-- Every item stands under its own handle. -/
theorem id_of_get? {layers : List Layer} (h : Stacked layers) {id : ItemId} {item : Item}
    (hget : get? layers id = some item) : item.id = id := by
  induction h with
  | nil => simp [get?] at hget
  | @cons layer below numbered above shadows _ ih =>
    rw [get?] at hget
    split at hget
    · rename_i hgen
      rw [numbered.id_eq hget, ← hgen]
    · split at hget
      · rename_i hshadow
        cases hget
        exact (shadows hshadow).1
      · exact ih hget

/-- Handles are listed by strictly increasing number, the layers below first. -/
theorem ids_pairwise {layers : List Layer} (h : Stacked layers) :
    (ids layers).Pairwise (fun a b => a.raw < b.raw) := by
  induction h with
  | nil => exact List.Pairwise.nil
  | @cons layer below numbered above _ _ ih =>
    rw [ids, List.pairwise_append]
    refine ⟨ih, Layer.ids_pairwise numbered, ?_⟩
    intro a ha b hb
    obtain ⟨_, hsome⟩ := (Layer.mem_ids_iff numbered).1 hb
    obtain ⟨item, hitem⟩ := Option.isSome_iff_exists.1 hsome
    exact UInt32.lt_of_lt_of_le (above a ha).2 (numbered.first_le hitem)

theorem length_ids (layers : List Layer) : (ids layers).length = size layers := by
  induction layers with
  | nil => rfl
  | cons layer below ih => rw [ids, List.length_append, ih, Layer.length_ids, size]

end Layers

/-! ## Indices -/

namespace Index

/-- The layers of an index are in order. -/
def IsStacked (index : Index) : Prop :=
  Layers.Stacked index.layers

variable {index : Index}

theorem mem_ids_iff (h : index.IsStacked) {id : ItemId} : id ∈ index.ids ↔ index.contains id :=
  Layers.mem_ids_iff h

theorem mem_ids_of_get? (h : index.IsStacked) {id : ItemId} {item : Item}
    (hget : index.get? id = some item) : id ∈ index.ids :=
  (mem_ids_iff h).2 (by rw [contains, hget]; rfl)

theorem exists_get?_of_mem_ids (h : index.IsStacked) {id : ItemId} (hmem : id ∈ index.ids) :
    ∃ item, index.get? id = some item :=
  Option.isSome_iff_exists.1 ((mem_ids_iff h).1 hmem)

theorem id_of_get? (h : index.IsStacked) {id : ItemId} {item : Item}
    (hget : index.get? id = some item) : item.id = id :=
  Layers.id_of_get? h hget

theorem ids_pairwise (h : index.IsStacked) : index.ids.Pairwise (fun a b => a.raw < b.raw) :=
  Layers.ids_pairwise h

theorem ids_nodup (h : index.IsStacked) : index.ids.Nodup :=
  nodup_of_sorted (ids_pairwise h)

theorem length_ids (index : Index) : index.ids.length = index.size :=
  Layers.length_ids index.layers

end Index

end CodeAtlas
