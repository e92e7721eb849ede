/-
# Pruned indices are in order

Pruning numbers the copies from zero on and drops a link only together with one of its ends that
nothing kept needs.  The links and attributes of the new index are therefore in order again.
-/
import CodeAtlas.Proofs.Index.Sealing
import CodeAtlas.Proofs.Prune.Faithful

namespace CodeAtlas.Index

variable {index : Index} {generation : Nat}

/-! ## Two ways to say that links are in order -/

/-- An item with the owner, kind and name of a key. -/
theorem filter_bears_eq (h : index.IsStacked) (parent : Option ItemId) (name : String)
    (kind : ItemKind) : index.ids.filter (index.bears ⟨parent, kind, name⟩) =
      (index.items.filter
        (fun item => item.parent = parent ∧ item.kind = kind ∧ item.name = name)).map Item.id := by
  rw [map_id_filter_items h]
  refine List.filter_congr (fun id _ => ?_)
  simp only [bears, ItemKey.mk.injEq]

theorem filter_bearsName_eq (h : index.IsStacked) (kind : ItemKind) (name : String) :
    index.ids.filter (index.bearsName ⟨kind, name⟩) =
      (index.items.filter (fun item => item.kind = kind ∧ item.name = name)).map Item.id := by
  rw [map_id_filter_items h]
  refine List.filter_congr (fun id _ => ?_)
  simp only [bearsName, NameKey.mk.injEq]

theorem contains_of_get? {id : ItemId} {item : Item} (h : index.get? id = some item) :
    index.contains id := by
  rw [contains, h]
  rfl

theorem Sealed.wellFormed (h : index.Sealed) : index.WellFormed where
  stacked := h.coherent.stacked
  resolves := by
    intro id target item hget htarget
    have hlinks := h.coherent.consistent.resolves id item hget target
    rw [Item.referencedIds, List.mem_append] at htarget
    rcases htarget with hlink | hattribute
    · exact hlinks hlink
    · exact (h.attributed id item hget).allows target hattribute
  parent_iff_child := by
    intro id owner item ownerItem hget howner
    have hiff : index.HasParent id owner ↔ index.Owns owner id := h.coherent.owned.parent_iff
    simpa only [HasParent, Owns, hget, howner, Option.some.injEq, exists_eq_left'] using hiff
  dependency_iff_incoming := by
    intro source target item targetItem hget htarget
    have hiff : index.DependsOn source target ↔ index.IsNeededBy target source :=
      h.coherent.linked.depends_iff
    simpa only [DependsOn, IsNeededBy, hget, htarget, Option.some.injEq, exists_eq_left'] using hiff
  children_nodup := h.coherent.owned.children_nodup
  dependencies_nodup := h.coherent.linked.dependencies_nodup
  incoming_nodup := h.coherent.linked.incoming_nodup
  findAll_eq parent name kind :=
    (h.coherent.registered.findAll_eq parent name kind).trans
      (filter_bears_eq h.coherent.stacked parent name kind)
  findByName_eq kind name :=
    (h.coherent.registered.findByName_eq kind name).trans
      (filter_bearsName_eq h.coherent.stacked kind name)

/-- A well-formed index without a base finds items by increasing number. -/
theorem WellFormed.registered (h : index.WellFormed) (hbelow : index.below = []) :
    index.Registered where
  findAll_eq parent name kind := by
    rw [h.findAll_eq, filter_bears_eq h.stacked]
  findByName_eq kind name := by
    rw [h.findByName_eq, filter_bearsName_eq h.stacked]
  findItem_eq parent name kind _ := by
    rw [findItem_eq_head? hbelow, h.findAll_eq, filter_bears_eq h.stacked]

theorem WellFormed.exists_get? (h : index.WellFormed) {id : ItemId} {item : Item}
    (hget : index.get? id = some item) (target : ItemId) (htarget : target ∈ item.parent.toList ++
      item.children.toList ++ item.dependencies.toList ++ item.incoming.toList) :
    ∃ targetItem, index.get? target = some targetItem :=
  Option.isSome_iff_exists.1 (h.resolves hget (List.mem_append_left _ htarget))

theorem WellFormed.owned (h : index.WellFormed)
    (hplaced : ∀ {id : ItemId} {item : Item}, index.get? id = some item → index.Placed item) :
    index.Owned where
  placed := hplaced
  parent_iff := by
    intro id owner
    constructor
    · rintro ⟨item, hget, hparent⟩
      obtain ⟨ownerItem, howner⟩ := h.exists_get? hget owner (by simp [hparent])
      exact ⟨ownerItem, howner, (h.parent_iff_child hget howner).1 hparent⟩
    · rintro ⟨ownerItem, howner, hchild⟩
      obtain ⟨item, hget⟩ := h.exists_get? howner id (by simp [hchild])
      exact ⟨item, hget, (h.parent_iff_child hget howner).2 hchild⟩
  children_nodup := h.children_nodup

theorem WellFormed.linked (h : index.WellFormed) (hirrefl : ∀ {id : ItemId}, ¬ index.DependsOn id id) :
    index.Linked where
  depends_iff := by
    intro source target
    constructor
    · rintro ⟨item, hget, hdependency⟩
      obtain ⟨targetItem, htarget⟩ := h.exists_get? hget target (by simp [hdependency])
      exact ⟨targetItem, htarget, (h.dependency_iff_incoming hget htarget).1 hdependency⟩
    · rintro ⟨targetItem, htarget, hincoming⟩
      obtain ⟨item, hget⟩ := h.exists_get? htarget source (by simp [hincoming])
      exact ⟨item, hget, (h.dependency_iff_incoming hget htarget).2 hincoming⟩
  irrefl := hirrefl
  dependencies_nodup := h.dependencies_nodup
  incoming_nodup := h.incoming_nodup

/-! ## The numbers of the copies -/

theorem books_foldl_modify (index : Index) (ids : List ItemId) (f : Item → Item) :
    (ids.foldl (fun index id => index.modify id f) index).top.firstRaw = index.top.firstRaw ∧
      (ids.foldl (fun index id => index.modify id f) index).nextRaw = index.nextRaw := by
  induction ids generalizing index with
  | nil => exact ⟨rfl, rfl⟩
  | cons first rest ih =>
    obtain ⟨hfirst, hnext⟩ := ih (index.modify first f)
    exact ⟨hfirst.trans (books_modify index first f).2.1,
      hnext.trans (nextRaw_modify index first f)⟩

theorem nextRaw_prune (h : index.IsStacked) (generation : Nat) :
    (index.prune generation).index.nextRaw =
      UInt32.ofNat (index.prune generation).renamed.length := by
  rw [index_prune h]
  refine (books_foldl_modify _ _ _).2.trans ?_
  exact (adoptAll_keptIds h generation).2.next_eq

theorem firstRaw_prune (h : index.IsStacked) (generation : Nat) :
    (index.prune generation).index.top.firstRaw = 0 := by
  rw [index_prune h]
  refine (books_foldl_modify _ _ _).1.trans ?_
  exact (adoptAll_keptIds h generation).2.firstRaw_eq

theorem length_renamed_le_size (h : index.IsStacked) (generation : Nat) :
    (index.prune generation).renamed.length ≤ index.size := by
  have hfst := congrArg List.length (adoptAll_keptIds h generation).1
  rw [List.length_map] at hfst
  rw [hfst, ← length_ids]
  exact List.length_filter_le _ _

theorem counted_prune (h : index.IsStacked) (hroom : index.size < 2 ^ 32) (generation : Nat) :
    (index.prune generation).index.Counted := by
  have hlength : (index.prune generation).renamed.length < 2 ^ 32 :=
    Nat.lt_of_le_of_lt (length_renamed_le_size h generation) hroom
  have hnext : (index.prune generation).index.nextRaw.toNat =
      (index.prune generation).renamed.length := by
    rw [nextRaw_prune h, UInt32.toNat_ofNat_of_lt' hlength]
  refine ⟨⟨isStacked_prune h generation, fun id hid => ?_, ?_⟩, ?_⟩
  · rw [ids_prune h] at hid
    obtain ⟨entry, hentry, rfl⟩ := List.mem_map.1 hid
    have hraw : entry.2.raw.toNat ∈ (index.prune generation).renamed.map
        (fun entry => entry.2.raw.toNat) := List.mem_map_of_mem hentry
    rw [renamed_raw_eq h, List.mem_range] at hraw
    rwa [UInt32.lt_iff_toNat_lt, hnext]
  · rw [firstRaw_prune h]
    exact UInt32.zero_le
  · rw [hnext, ← length_ids, ids_prune h, List.length_map]

/-! ## Owners, dependencies and attributes of the copies -/

theorem placed_prune (h : index.Sealed) {new : ItemId} {copy : Item}
    (hcopy : (index.prune generation).index.get? new = some copy) :
    (index.prune generation).index.Placed copy := by
  have hwell := h.wellFormed
  obtain ⟨old, item, hnew, hget, hcopied⟩ := exists_isCopy hwell hcopy
  have hplaced := h.coherent.owned.placed hget
  rw [Placed] at hplaced ⊢
  cases hparent : item.parent with
  | none =>
    rw [hcopied.parent_eq_none_iff.2 hparent]
    simp only [hparent] at hplaced
    exact hcopied.kind_eq.trans hplaced
  | some owner =>
    simp only [hparent] at hplaced
    obtain ⟨ownerItem, howner, hcontain⟩ := hplaced
    obtain ⟨newOwner, hnewOwner⟩ := Option.isSome_iff_exists.1
      (isSome_rename?_of_forward hwell hnew hget (Or.inl hparent))
    have hinj := rename?_inj h.coherent.stacked generation
    rw [(hcopied.parent_eq_some_iff hinj hnewOwner).2 hparent]
    refine ⟨_, get?_prune_of_rename? h.coherent.stacked hnewOwner howner, ?_⟩
    rw [hcopied.kind_eq]
    exact hcontain

theorem not_dependsOn_self_prune (h : index.Sealed) {new : ItemId} :
    ¬ (index.prune generation).index.DependsOn new new := by
  rintro ⟨copy, hcopy, hdependency⟩
  obtain ⟨old, item, hnew, hget, hcopied⟩ := exists_isCopy h.wellFormed hcopy
  rw [← Array.mem_toList_iff, eq_filterMap_of_map_some hcopied.dependencies_eq,
    mem_filterMap_rename? (rename?_inj h.coherent.stacked generation) hnew] at hdependency
  exact h.coherent.linked.irrefl ⟨item, hget, Array.mem_toList_iff.1 hdependency⟩

theorem attributed_prune (h : index.Sealed) (generation : Nat) :
    (index.prune generation).index.Attributed := by
  intro new copy hcopy
  refine ⟨fun target htarget => ?_, fun key targets hkey htargets => ?_⟩
  · exact (wellFormed_prune h.wellFormed generation).resolves hcopy (List.mem_append_right _ htarget)
  · obtain ⟨old, item, hnew, hget, hcopied⟩ := exists_isCopy h.wellFormed hcopy
    have hrel := hcopied.attributes_eq key
    rw [htargets] at hrel
    generalize hslot : item.attributes.get? key = slot at hrel
    cases hrel with
    | some hrenamed =>
      cases hrenamed with
      | ids hids =>
        rw [eq_filterMap_of_map_some hids]
        exact nodup_filterMap_rename? h.coherent.stacked
          ((h.attributed old item hget).nodup key _ hkey hslot)

/-- Pruning keeps links and attributes in order. -/
theorem Sealed.prune (h : index.Sealed) (generation : Nat) :
    (index.prune generation).index.Sealed := by
  have hwell := wellFormed_prune h.wellFormed generation
  exact ⟨⟨counted_prune h.coherent.stacked h.size_lt generation,
    hwell.registered (below_prune h.coherent.stacked generation),
    hwell.owned (placed_prune h), hwell.linked (not_dependsOn_self_prune h)⟩,
    attributed_prune h generation⟩

/-- The owners of two copies are the same only if those of their items are. -/
theorem parent_eq_of_isCopy (h : index.IsStacked) {item copy other otherCopy : Item}
    (hcopy : item.IsCopy (index.prune generation).rename? copy)
    (hother : other.IsCopy (index.prune generation).rename? otherCopy)
    (hparent : copy.parent = otherCopy.parent) : item.parent = other.parent := by
  have hrenamed := hother.parent_eq
  rw [← hparent, hcopy.parent_eq] at hrenamed
  cases hitem : item.parent with
  | none =>
    rw [hitem, Option.map_none] at hrenamed
    exact (Option.map_eq_none_iff.1 hrenamed.symm).symm
  | some owner =>
    obtain ⟨new, hnew⟩ : ∃ new, (index.prune generation).rename? owner = some new := by
      have hfirst := hcopy.parent_eq
      rw [hitem, Option.map_some] at hfirst
      obtain ⟨new, _, hnew⟩ := Option.map_eq_some_iff.1 hfirst
      exact ⟨new, hnew.symm⟩
    rw [hitem, Option.map_some, hnew] at hrenamed
    obtain ⟨owner', howner', hnew'⟩ := Option.map_eq_some_iff.1 hrenamed.symm
    rw [howner', rename?_inj h generation _ _ _ hnew hnew']

theorem distinct_prune (h : index.Orderly) (generation : Nat) :
    (index.prune generation).index.Distinct := by
  intro key hkey new new' hnew hnew'
  obtain ⟨copy, hcopy, hbears⟩ := Option.any_eq_true _ _ |>.1 hnew
  obtain ⟨copy', hcopy', hbears'⟩ := Option.any_eq_true _ _ |>.1 hnew'
  obtain ⟨old, item, hold, hget, hcopied⟩ := exists_isCopy h.wellFormed hcopy
  obtain ⟨old', item', hold', hget', hcopied'⟩ := exists_isCopy h.wellFormed hcopy'
  rw [decide_eq_true_iff] at hbears hbears'
  obtain ⟨hparent, hkind, hname⟩ := ItemKey.mk.inj (hbears.trans hbears'.symm)
  have hsame := parent_eq_of_isCopy h.coherent.stacked hcopied hcopied' hparent
  rw [hcopied.kind_eq, hcopied'.kind_eq] at hkind
  rw [hcopied.name_eq, hcopied'.name_eq] at hname
  have holds : old = old' := by
    refine h.distinct ⟨item.parent, item.kind, item.name⟩ ?_ old old' ?_ ?_
    · rw [← hcopied.kind_eq]
      rwa [← hbears] at hkey
    · rw [bears, hget]
      simp
    · rw [bears, hget', hsame, hkind, hname]
      simp
  rw [holds, hold'] at hold
  exact (Option.some.inj hold).symm

/-- Pruning keeps items told apart by their keys. -/
theorem Orderly.prune (h : index.Orderly) (generation : Nat) :
    (index.prune generation).index.Orderly :=
  ⟨h.toSealed.prune generation, distinct_prune h generation⟩

end CodeAtlas.Index
