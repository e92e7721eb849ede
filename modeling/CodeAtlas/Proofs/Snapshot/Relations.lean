/-
# The relations of an index

The relations that are written for an index whose links lead to items and are named at both ends.  The
relations of one item and one kind stand together and in order, and every relation can be read after
those before it: none makes an item depend on itself or gives it a second owner.
-/
import CodeAtlas.Proofs.Snapshot.Restore
import Mathlib.Data.List.Nodup

namespace CodeAtlas

/-- A list of lists of which all but one are empty. -/
theorem flatMap_eq_of_unique {α β : Type} {list : List α} {f : α → List β} {value : α}
    (hnodup : list.Nodup) (hvalue : value ∈ list)
    (hempty : ∀ other ∈ list, other ≠ value → f other = []) : list.flatMap f = f value := by
  induction list with
  | nil => simp at hvalue
  | cons first rest ih =>
    obtain ⟨hout, hrest⟩ := List.nodup_cons.1 hnodup
    rw [List.flatMap_cons]
    rcases List.mem_cons.1 hvalue with rfl | hin
    · have hnil : rest.flatMap f = [] := by
        rw [List.flatMap_eq_nil_iff]
        intro other hother
        exact hempty other (List.mem_cons_of_mem _ hother) (fun heq => hout (heq ▸ hother))
      rw [hnil, List.append_nil]
    · have hfirst : f first = [] :=
        hempty first List.mem_cons_self (fun heq => hout (heq ▸ hin))
      rw [hfirst, List.nil_append,
        ih hrest hin (fun other hother => hempty other (List.mem_cons_of_mem _ hother))]

namespace RelKind

theorem mem_all (kind : RelKind) : kind ∈ all := by
  cases kind <;> decide

theorem nodup_all : all.Nodup := by
  decide

theorem length_targets_of_isSingle {kind : RelKind} (h : kind.isSingle = true) (item : Item) :
    (kind.targets item).length ≤ 1 := by
  have hone : ∀ option : Option ItemId, option.toList.length ≤ 1 := by
    rintro (_ | id) <;> simp
  cases kind <;> first | exact hone _ | simp [isSingle] at h

theorem nodup_targets_of_isSingle {kind : RelKind} (h : kind.isSingle = true) (item : Item) :
    (kind.targets item).Nodup := by
  match hlist : kind.targets item, length_targets_of_isSingle h item with
  | [], _ => exact List.nodup_nil
  | [id], _ => exact List.nodup_singleton id
  | _ :: _ :: _, hlength => simp at hlength

end RelKind

/-! ## The relations of one item -/

namespace Relation

variable {item : Item}

theorem mem_ofItem_iff {relation : Relation} : relation ∈ ofItem item ↔
    relation.source = item.id.raw ∧
      ∃ target ∈ relation.kind.targets item, target.raw = relation.target := by
  rw [ofItem, List.mem_flatMap]
  constructor
  · rintro ⟨kind, _, hmem⟩
    obtain ⟨target, htarget, rfl⟩ := List.mem_map.1 hmem
    exact ⟨rfl, target, htarget, rfl⟩
  · rintro ⟨hsource, target, htarget, hraw⟩
    refine ⟨relation.kind, relation.kind.mem_all, List.mem_map.2 ⟨target, htarget, ?_⟩⟩
    rw [← hsource, hraw]

/-- The relations of one kind stand together, in the order of the item's list. -/
theorem filter_ofItem (item : Item) (kind : RelKind) :
    (ofItem item).filter (fun relation => relation.kind = kind) =
      (kind.targets item).map (fun target => ⟨item.id.raw, target.raw, kind⟩) := by
  rw [ofItem, List.filter_flatMap, flatMap_eq_of_unique RelKind.nodup_all kind.mem_all]
  · rw [List.filter_eq_self]
    intro relation hrelation
    obtain ⟨_, _, rfl⟩ := List.mem_map.1 hrelation
    simp
  · intro other _ hne
    rw [List.filter_eq_nil_iff]
    intro relation hrelation
    obtain ⟨_, _, rfl⟩ := List.mem_map.1 hrelation
    simpa using hne

end Relation

namespace Index

variable {index : Index} {item : Item}

/-! ## Where relations lead -/

/-- Handles of items are told apart by their numbers. -/
theorem eq_of_raw_eq (h : index.IsStacked) {id other : ItemId} (hid : index.contains id)
    (hother : index.contains other) (hraw : id.raw = other.raw) : id = other := by
  have hfirst := (resolveRaw_eq_some_iff h).2 ⟨(mem_ids_iff h).2 hid, hraw⟩
  have hsecond := (resolveRaw_eq_some_iff h).2 ⟨(mem_ids_iff h).2 hother, rfl⟩
  exact Option.some.inj (hfirst.symm.trans hsecond)

theorem mem_attributeIds_of_mem_targets {kind : RelKind} {key : AttrKey}
    (hkey : kind.key? = some key) {target : ItemId} (htarget : target ∈ kind.targets item) :
    target ∈ item.attributeIds := by
  rw [RelKind.targets_eq_held hkey] at htarget
  cases hslot : item.attributes.get? key with
  | none =>
    rw [hslot] at htarget
    simp [RelKind.held] at htarget
  | some value =>
    rw [hslot] at htarget
    exact Item.mem_attributeIds_iff.2 ⟨key, value, hslot, RelKind.mem_targets_of_mem_held htarget⟩

/-- An index whose links lead to items.  Owners and members name each other, and so do the two ends
of a dependency; only parameter lists name an item twice. -/
structure Tied (index : Index) : Prop where
  stacked : index.IsStacked
  contains_target : ∀ {item : Item}, item ∈ index.items → ∀ {kind : RelKind} {target : ItemId},
    target ∈ kind.targets item → index.contains target
  nodup_targets : ∀ {item : Item}, item ∈ index.items → ∀ {kind : RelKind}, kind ≠ .paramType →
    (kind.targets item).Nodup
  parent_iff : ∀ {id owner : ItemId}, index.HasParent id owner ↔ index.Owns owner id
  depends_iff : ∀ {source target : ItemId},
    index.DependsOn source target ↔ index.IsNeededBy target source
  irrefl : ∀ {id : ItemId}, ¬ index.DependsOn id id

theorem Sealed.contains_target (h : index.Sealed) (hitem : item ∈ index.items) {kind : RelKind}
    {target : ItemId} (htarget : target ∈ kind.targets item) : index.contains target := by
  have hget := (mem_items_iff h.coherent.stacked).1 hitem
  cases hkey : kind.key? with
  | some key =>
    exact (h.attributed item.id item hget).allows target
      (mem_attributeIds_of_mem_targets hkey htarget)
  | none =>
    refine h.coherent.consistent.resolves item.id item hget target ?_
    obtain rfl | rfl := RelKind.eq_of_key?_eq_none hkey
    · exact List.mem_append_left _ (List.mem_append_left _ (List.mem_append_right _ htarget))
    · exact List.mem_append_left _ (List.mem_append_right _ htarget)

theorem Sealed.nodup_targets (h : index.Sealed) (hitem : item ∈ index.items) {kind : RelKind}
    (hkind : kind ≠ .paramType) : (kind.targets item).Nodup := by
  have hget := (mem_items_iff h.coherent.stacked).1 hitem
  by_cases hsingle : kind.isSingle = true
  · exact RelKind.nodup_targets_of_isSingle hsingle item
  · cases hkey : kind.key? with
    | none =>
      obtain rfl | rfl := RelKind.eq_of_key?_eq_none hkey
      · exact h.coherent.owned.children_nodup hget
      · exact h.coherent.linked.dependencies_nodup hget
    | some key =>
      have hmany : key.holdsMany = true := by
        cases kind <;> simp_all [RelKind.key?, RelKind.isSingle] <;> subst hkey <;> rfl
      rw [RelKind.targets_eq_held hkey]
      rcases hslot : item.attributes.get? key with _ | _ | targets | _
      · simp [RelKind.held]
      · simp [RelKind.held, hsingle]
      · simp only [RelKind.held, hsingle]
        exact (h.attributed item.id item hget).nodup key targets hmany hslot
      · simp [RelKind.held]

theorem Sealed.tied (h : index.Sealed) : index.Tied where
  stacked := h.coherent.stacked
  contains_target := fun hitem _ _ => h.contains_target hitem
  nodup_targets := fun hitem _ => h.nodup_targets hitem
  parent_iff := h.coherent.owned.parent_iff
  depends_iff := h.coherent.linked.depends_iff
  irrefl := h.coherent.linked.irrefl

/-- The relations that are written for an index. -/
def relations (index : Index) : List Relation :=
  index.items.flatMap Relation.ofItem

theorem mem_relations_iff {relation : Relation} : relation ∈ index.relations ↔
    ∃ item ∈ index.items, item.id.raw = relation.source ∧
      ∃ target ∈ relation.kind.targets item, target.raw = relation.target := by
  rw [relations, List.mem_flatMap]
  refine exists_congr (fun item => and_congr_right (fun _ => ?_))
  rw [Relation.mem_ofItem_iff, eq_comm]

/-- The item of a handle. -/
theorem exists_item_of_contains (h : index.IsStacked) {id : ItemId} (hid : index.contains id) :
    ∃ item ∈ index.items, item.id = id := by
  obtain ⟨item, hget⟩ := Option.isSome_iff_exists.1 hid
  have heq := id_of_get? h hget
  exact ⟨item, (mem_items_iff h).2 (heq.symm ▸ hget), heq⟩

theorem contains_of_mem_items (h : index.IsStacked) (hitem : item ∈ index.items) :
    index.contains item.id := by
  rw [contains, (mem_items_iff h).1 hitem]
  rfl

/-- Both ends of a relation are items. -/
theorem Tied.exists_ends (h : index.Tied) {relation : Relation}
    (hrelation : relation ∈ index.relations) :
    (∃ item ∈ index.items, item.id.raw = relation.source) ∧
      ∃ item ∈ index.items, item.id.raw = relation.target := by
  obtain ⟨source, hsource, hraw, target, htarget, htargetRaw⟩ := mem_relations_iff.1 hrelation
  obtain ⟨other, hother, rfl⟩ :=
    exists_item_of_contains h.stacked (h.contains_target hsource htarget)
  exact ⟨⟨source, hsource, hraw⟩, other, hother, htargetRaw⟩

/-- The relations that lead to an item are links of items to it. -/
theorem Tied.mem_relations_iff_target (h : index.Tied) (hitem : item ∈ index.items)
    {raw : UInt32} {kind : RelKind} : ⟨raw, item.id.raw, kind⟩ ∈ index.relations ↔
      ∃ source ∈ index.items, source.id.raw = raw ∧ item.id ∈ kind.targets source := by
  rw [mem_relations_iff]
  refine exists_congr (fun source => and_congr_right (fun hsource => and_congr_right (fun _ => ?_)))
  constructor
  · rintro ⟨target, htarget, hraw⟩
    have heq : target = item.id := eq_of_raw_eq h.stacked
      (h.contains_target hsource htarget) (contains_of_mem_items h.stacked hitem) hraw
    rwa [← heq]
  · exact fun htarget => ⟨item.id, htarget, rfl⟩

theorem nodup_items (h : index.IsStacked) : index.items.Nodup := by
  refine List.Nodup.of_map Item.id ?_
  rw [map_id_items h]
  exact ids_nodup h

theorem eq_of_mem_items (h : index.IsStacked) {other : Item} (hitem : item ∈ index.items)
    (hother : other ∈ index.items) (hraw : item.id.raw = other.id.raw) : item = other := by
  have hid := eq_of_raw_eq h (contains_of_mem_items h hitem) (contains_of_mem_items h hother) hraw
  rw [mem_items_iff h] at hitem hother
  exact Option.some.inj (hitem.symm.trans (hid ▸ hother))

/-- The relations of an item and a kind stand in the order of the item's list. -/
theorem filter_relations (h : index.IsStacked) (hitem : item ∈ index.items) (kind : RelKind) :
    index.relations.filter (fun relation => relation.source = item.id.raw ∧ relation.kind = kind) =
      (kind.targets item).map (fun target => ⟨item.id.raw, target.raw, kind⟩) := by
  rw [relations, List.filter_flatMap, flatMap_eq_of_unique (nodup_items h) hitem,
    ← Relation.filter_ofItem]
  · refine List.filter_congr (fun relation hrelation => ?_)
    simp [(Relation.mem_ofItem_iff.1 hrelation).1]
  · intro other hother hne
    rw [List.filter_eq_nil_iff]
    intro relation hrelation hboth
    rw [decide_eq_true_iff, (Relation.mem_ofItem_iff.1 hrelation).1] at hboth
    exact hne (eq_of_mem_items h hother hitem hboth.1)

/-- What is read from the relations of an item and a kind is the item's list. -/
theorem Tied.gather_relations (h : index.Tied) (hitem : item ∈ index.items) (kind : RelKind)
    (generation : Nat) :
    kind.gather ((index.relations.filter
      (fun relation => relation.source = item.id.raw ∧ relation.kind = kind)).map
        (fun relation => ⟨relation.target, generation⟩)) =
      (kind.targets item).map (fun target => ⟨target.raw, generation⟩) := by
  rw [filter_relations h.stacked hitem, List.map_map]
  refine RelKind.gather_eq_self (fun hsingle => ?_) (fun hne => ?_)
  · rw [List.length_map]
    exact RelKind.length_targets_of_isSingle hsingle item
  · refine (h.nodup_targets hitem hne).map_on (fun target htarget other hother heq => ?_)
    exact eq_of_raw_eq h.stacked (h.contains_target hitem htarget) (h.contains_target hitem hother)
      (ItemId.mk.inj heq).1

/-! ## The order of relations -/

/-- No item is listed by two owners. -/
theorem Tied.owner_unique (h : index.Tied) {owner other id : ItemId}
    (howner : index.Owns owner id) (hother : index.Owns other id) : owner = other := by
  obtain ⟨item, hitem, hparent⟩ := h.parent_iff.2 howner
  obtain ⟨same, hsame, hparent'⟩ := h.parent_iff.2 hother
  obtain rfl := Option.some.inj (hitem.symm.trans hsame)
  exact Option.some.inj (hparent.symm.trans hparent')

theorem Tied.pairwise_ofItem (h : index.Tied) (hitem : item ∈ index.items) :
    (Relation.ofItem item).Pairwise (fun earlier later => earlier.kind = .child →
      later.kind = .child → earlier.target ≠ later.target) := by
  rw [Relation.ofItem, List.pairwise_flatMap]
  refine ⟨fun kind _ => List.pairwise_map.2 ?_, RelKind.nodup_all.imp (fun {kind other} hne => ?_)⟩
  · by_cases hkind : kind = .child
    · have hnodup : (kind.targets item).Nodup := h.nodup_targets hitem (by simp [hkind])
      refine hnodup.imp_of_mem (fun {target other} htarget hother hne _ _ hraw => hne ?_)
      exact eq_of_raw_eq h.stacked (h.contains_target hitem htarget)
        (h.contains_target hitem hother) hraw
    · exact List.pairwise_of_forall (fun _ _ hfirst => absurd hfirst hkind)
  · intro earlier hearlier later hlater hfirst hlast
    obtain ⟨_, _, rfl⟩ := List.mem_map.1 hearlier
    obtain ⟨_, _, rfl⟩ := List.mem_map.1 hlater
    exact absurd (hfirst.trans hlast.symm) hne

/-- No two relations give an owner to one item. -/
theorem Tied.pairwise_relations (h : index.Tied) : index.relations.Pairwise
    (fun earlier later => earlier.kind = .child → later.kind = .child →
      earlier.target ≠ later.target) := by
  rw [relations, List.pairwise_flatMap]
  refine ⟨fun item hitem => h.pairwise_ofItem hitem, ?_⟩
  refine (nodup_items h.stacked).imp_of_mem (fun {item other} hitem hother hne => ?_)
  -- a child of both items would have two owners
  intro earlier hearlier later hlater hfirst hlast hraw
  rw [Relation.mem_ofItem_iff] at hearlier hlater
  obtain ⟨_, child, hchild, hchildRaw⟩ := hearlier
  obtain ⟨_, same, hsame, hsameRaw⟩ := hlater
  obtain rfl : child = same := eq_of_raw_eq h.stacked (h.contains_target hitem hchild)
    (h.contains_target hother hsame) (by rw [hchildRaw, hsameRaw, hraw])
  rw [hfirst] at hchild
  rw [hlast] at hsame
  have hid : item.id = other.id := h.owner_unique
    ⟨item, (mem_items_iff h.stacked).1 hitem, Array.mem_toList_iff.1 hchild⟩
    ⟨other, (mem_items_iff h.stacked).1 hother, Array.mem_toList_iff.1 hsame⟩
  exact hne (eq_of_mem_items h.stacked hitem hother (by rw [hid]))

/-- No item is written to depend on itself. -/
theorem Tied.isLoop_eq_false (h : index.Tied) {relation : Relation}
    (hrelation : relation ∈ index.relations) : relation.isLoop = false := by
  rw [Relation.isLoop, decide_eq_false_iff_not]
  rintro ⟨hkind, hraw⟩
  obtain ⟨item, hitem, hsource, target, htarget, htargetRaw⟩ := mem_relations_iff.1 hrelation
  have heq : target = item.id := eq_of_raw_eq h.stacked (h.contains_target hitem htarget)
    (contains_of_mem_items h.stacked hitem) (by rw [htargetRaw, hsource, hraw])
  rw [hkind, heq] at htarget
  exact h.irrefl ⟨item, (mem_items_iff h.stacked).1 hitem, Array.mem_toList_iff.1 htarget⟩

end Index

end CodeAtlas
