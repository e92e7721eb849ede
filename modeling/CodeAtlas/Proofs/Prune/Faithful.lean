/-
# The pruned index

What pruning makes of a well-formed index.  Everything that a kept item needs is kept with it, so
its owner, its dependencies and its attributes are renamed without loss; its members and its
dependents are those that are kept.  The new index is well-formed again, and it finds what the old
one finds.
-/
import CodeAtlas.Proofs.Index.WellFormed
import CodeAtlas.Proofs.Prune.Decision

namespace CodeAtlas

/-! ## Copies -/

/-- A value with each of its handles renamed. -/
inductive AttrValue.Renamed (rename? : ItemId → Option ItemId) : AttrValue → AttrValue → Prop
  | id {old new : ItemId} (hnew : rename? old = some new) : Renamed rename? (.id old) (.id new)
  | ids {old new : Array ItemId} (hnew : new.toList.map some = old.toList.map rename?) :
      Renamed rename? (.ids old) (.ids new)
  | flag {value : Bool} : Renamed rename? (.flag value) (.flag value)

/-- An item whose links are those of another one, renamed: nothing of what it needs is lost, and of
its members and dependents those remain that have a new handle, in the same order. -/
structure Item.IsCopy (rename? : ItemId → Option ItemId) (old new : Item) : Prop where
  id_eq : rename? old.id = some new.id
  name_eq : new.name = old.name
  kind_eq : new.kind = old.kind
  flag_eq : ∀ key, new.attributes.flag key = old.attributes.flag key
  parent_eq : new.parent.map some = old.parent.map rename?
  dependencies_eq : new.dependencies.toList.map some = old.dependencies.toList.map rename?
  attributes_eq : ∀ key, Option.Rel (AttrValue.Renamed rename?) (old.attributes.get? key)
    (new.attributes.get? key)
  children_eq : new.children.toList = old.children.toList.filterMap rename?
  incoming_eq : new.incoming.toList = old.incoming.toList.filterMap rename?

/-- Where nothing is refused, a list is renamed without loss. -/
theorem map_some_filterMap {rename? : ItemId → Option ItemId} {ids : List ItemId}
    (h : ∀ id ∈ ids, (rename? id).isSome) : (ids.filterMap rename?).map some = ids.map rename? := by
  induction ids with
  | nil => rfl
  | cons first rest ih =>
    obtain ⟨new, hnew⟩ := Option.isSome_iff_exists.1 (h first List.mem_cons_self)
    rw [List.filterMap_cons_some hnew, List.map_cons, List.map_cons, hnew,
      ih (fun id hid => h id (List.mem_cons_of_mem _ hid))]

/-- Where none of its handles is refused, a value is renamed without loss. -/
theorem AttrValue.renamed_remap {rename? : ItemId → Option ItemId} {value : AttrValue}
    (h : ∀ target ∈ value.targets, (rename? target).isSome) :
    ∃ new, value.remap rename? = some new ∧ AttrValue.Renamed rename? value new := by
  cases value with
  | id target =>
    obtain ⟨new, hnew⟩ := Option.isSome_iff_exists.1 (h target (List.mem_singleton.2 rfl))
    exact ⟨.id new, by rw [remap, hnew]; rfl, .id hnew⟩
  | ids targets =>
    refine ⟨.ids (targets.filterMap rename?), rfl, .ids ?_⟩
    rw [Array.toList_filterMap]
    exact map_some_filterMap h
  | flag value => exact ⟨.flag value, rfl, .flag⟩

theorem Attributes.flag_remap (attrs : Attributes) (rename? : ItemId → Option ItemId)
    (key : AttrKey) : (attrs.remap rename?).flag key = attrs.flag key := by
  rw [flag, flag, get?_remap]
  cases attrs.get? key with
  | none => rfl
  | some value =>
    cases value with
    | id target => cases hnew : rename? target <;> simp [AttrValue.remap, hnew]
    | ids targets => rfl
    | flag value => rfl

namespace Index

variable {index : Index} {generation : Nat}

/-- What a kept item needs is kept. -/
theorem isSome_rename?_of_forward (h : index.WellFormed) {old new target : ItemId} {item : Item}
    (hnew : (index.prune generation).rename? old = some new) (hget : index.get? old = some item)
    (hforward : item.parent = some target ∨ target ∈ item.dependencies ∨
      item.HasAttribute target) : ((index.prune generation).rename? target).isSome := by
  have hknown : index.contains target := by
    refine h.resolves hget ?_
    simp only [Item.referencedIds, List.mem_append, Option.mem_toList, Array.mem_toList_iff,
      Item.mem_attributeIds_iff]
    tauto
  rw [isSome_rename?_iff h.stacked]
  refine (retained_closed h.stacked).2.2 old ?_ target (mem_leadsTo_of_forward hget hknown hforward)
  exact (isSome_rename?_iff h.stacked).1 (Option.isSome_iff_exists.2 ⟨new, hnew⟩)

theorem nodup_filterMap_rename? (h : index.IsStacked) {ids : List ItemId} (hnodup : ids.Nodup) :
    (ids.filterMap (index.prune generation).rename?).Nodup :=
  hnodup.filterMap (rename?_inj h generation)

/-- Renaming a kept item of a well-formed index gives a copy. -/
theorem isCopy_remap (h : index.WellFormed) {old new : ItemId} {item : Item}
    (hnew : (index.prune generation).rename? old = some new) (hget : index.get? old = some item) :
    item.IsCopy (index.prune generation).rename?
      ({ item with id := new }.remap (index.prune generation).rename?) where
  id_eq := by rw [id_of_get? h.stacked hget, hnew]; rfl
  name_eq := rfl
  kind_eq := rfl
  flag_eq key := Attributes.flag_remap _ _ _
  parent_eq := by
    show (item.parent.bind _).map some = _
    cases hparent : item.parent with
    | none => rfl
    | some owner =>
      obtain ⟨newOwner, howner⟩ := Option.isSome_iff_exists.1
        (isSome_rename?_of_forward h hnew hget (Or.inl hparent))
      simp [howner]
  dependencies_eq := by
    show ((distinct _).toList).map some = _
    rw [distinct_eq_self (nodup_filterMap_rename? h.stacked (h.dependencies_nodup hget))]
    refine map_some_filterMap (fun target htarget => ?_)
    exact isSome_rename?_of_forward h hnew hget (Or.inr (Or.inl (Array.mem_toList_iff.1 htarget)))
  attributes_eq key := by
    show Option.Rel _ (item.attributes.get? key) ((item.attributes.remap _).get? key)
    rw [Attributes.get?_remap]
    cases hvalue : item.attributes.get? key with
    | none => exact .none
    | some value =>
      obtain ⟨newValue, hremap, hrenamed⟩ := AttrValue.renamed_remap (fun target htarget =>
        isSome_rename?_of_forward h hnew hget (Or.inr (Or.inr ⟨key, value, hvalue, htarget⟩)))
      rw [Option.bind_some, hremap]
      exact .some hrenamed
  children_eq := Array.toList_filterMap ..
  incoming_eq := by
    show (distinct _).toList = _
    rw [distinct_eq_self (nodup_filterMap_rename? h.stacked (h.incoming_nodup hget))]

/-- Every item of the new index is a copy of a kept item. -/
theorem exists_isCopy (h : index.WellFormed) {new : ItemId} {copy : Item}
    (hcopy : (index.prune generation).index.get? new = some copy) :
    ∃ old item, (index.prune generation).rename? old = some new ∧ index.get? old = some item ∧
      item.IsCopy (index.prune generation).rename? copy := by
  obtain ⟨old, item, hnew, hget, rfl⟩ := (get?_prune_eq_some_iff h.stacked).1 hcopy
  exact ⟨old, item, hnew, hget, isCopy_remap h hnew hget⟩

end Index

/-! ## Links -/

section Links

variable {rename? : ItemId → Option ItemId} {old new : Item}

/-- A renamed list has the new handle of what the old list has. -/
theorem mem_filterMap_rename? (hinj : ∀ a b c, rename? a = some c → rename? b = some c → a = b)
    {ids : List ItemId} {id newId : ItemId} (hid : rename? id = some newId) :
    newId ∈ ids.filterMap rename? ↔ id ∈ ids := by
  rw [List.mem_filterMap]
  constructor
  · rintro ⟨other, hmem, hother⟩
    rwa [hinj id other newId hid hother]
  · exact fun hmem => ⟨id, hmem, hid⟩

/-- A list that is renamed without loss is renamed. -/
theorem eq_filterMap_of_map_some {ids newIds : List ItemId}
    (h : newIds.map some = ids.map rename?) : newIds = ids.filterMap rename? := by
  have hfilter := congrArg (List.filterMap id) h
  rwa [List.filterMap_map, List.filterMap_map, Function.id_comp, Function.id_comp,
    List.filterMap_some] at hfilter

theorem Item.IsCopy.parent_eq_none_iff (h : old.IsCopy rename? new) :
    new.parent = none ↔ old.parent = none := by
  have hparent := congrArg Option.isSome h.parent_eq
  rw [Option.isSome_map, Option.isSome_map] at hparent
  rw [← Option.isNone_iff_eq_none, ← Option.isNone_iff_eq_none, ← Option.not_isSome,
    ← Option.not_isSome, hparent]

theorem Item.IsCopy.parent_eq_some_iff (h : old.IsCopy rename? new)
    (hinj : ∀ a b c, rename? a = some c → rename? b = some c → a = b) {owner newOwner : ItemId}
    (howner : rename? owner = some newOwner) :
    new.parent = some newOwner ↔ old.parent = some owner := by
  have hparent := h.parent_eq
  cases hold : old.parent with
  | none => simp_all
  | some other =>
    rw [hold, Option.map_some] at hparent
    obtain ⟨newOther, hnew, hother⟩ := Option.map_eq_some_iff.1 hparent
    rw [hnew, Option.some.injEq, Option.some.injEq]
    constructor
    · rintro rfl
      exact hinj other owner newOther hother.symm howner
    · rintro rfl
      exact Option.some.inj (hother.trans howner)

/-- The handles that a copy holds are new handles. -/
theorem Item.IsCopy.exists_of_mem_referencedIds (h : old.IsCopy rename? new) {target : ItemId}
    (htarget : target ∈ new.referencedIds) : ∃ original, rename? original = some target := by
  simp only [referencedIds, List.mem_append, Option.mem_toList, mem_attributeIds_iff] at htarget
  rcases htarget with (((hparent | hchild) | hdependency) | hincoming) | ⟨key, value, hvalue, hmem⟩
  · have hmap := h.parent_eq
    rw [hparent, Option.map_some] at hmap
    obtain ⟨original, _, horiginal⟩ := Option.map_eq_some_iff.1 hmap.symm
    exact ⟨original, horiginal⟩
  · rw [h.children_eq, List.mem_filterMap] at hchild
    obtain ⟨original, _, horiginal⟩ := hchild
    exact ⟨original, horiginal⟩
  · rw [eq_filterMap_of_map_some h.dependencies_eq, List.mem_filterMap] at hdependency
    obtain ⟨original, _, horiginal⟩ := hdependency
    exact ⟨original, horiginal⟩
  · rw [h.incoming_eq, List.mem_filterMap] at hincoming
    obtain ⟨original, _, horiginal⟩ := hincoming
    exact ⟨original, horiginal⟩
  · have hrel := h.attributes_eq key
    rw [hvalue] at hrel
    obtain ⟨oldValue, hrenamed⟩ : ∃ oldValue, AttrValue.Renamed rename? oldValue value := by
      generalize old.attributes.get? key = oldSlot at hrel
      cases hrel with
      | some hrenamed => exact ⟨_, hrenamed⟩
    cases hrenamed with
    | id hnew =>
      obtain rfl := List.mem_singleton.1 hmem
      exact ⟨_, hnew⟩
    | ids hnew =>
      rw [AttrValue.targets, eq_filterMap_of_map_some hnew, List.mem_filterMap] at hmem
      obtain ⟨original, _, horiginal⟩ := hmem
      exact ⟨original, horiginal⟩
    | flag => simp [AttrValue.targets] at hmem

end Links

namespace Index

variable {index : Index} {generation : Nat}

/-! ## Looking items up -/

/-- The handles of the new index, against those of the old one. -/
theorem ids_prune_eq_filterMap (h : index.IsStacked) :
    (index.prune generation).index.ids = index.ids.filterMap (index.prune generation).rename? := by
  have hkept : index.ids.filterMap (index.prune generation).rename? =
      index.keptIds.filterMap (index.prune generation).rename? := by
    rw [keptIds, List.filterMap_filter]
    refine List.filterMap_congr (fun id _ => ?_)
    split
    · rfl
    · rename_i hout
      refine Option.not_isSome_iff_eq_none.1 (fun hsome => hout ?_)
      exact Std.TreeSet.contains_iff_mem.2 ((isSome_rename?_iff h).1 hsome)
  have hpairs : ∀ entry ∈ (index.prune generation).renamed,
      ((index.prune generation).rename? ∘ Prod.fst) entry = some entry.2 :=
    fun entry hentry => (rename?_eq_some_iff h).2 hentry
  rw [ids_prune h, hkept, ← (adoptAll_keptIds h generation).1, List.filterMap_map,
    List.filterMap_congr hpairs]
  exact (congrFun List.filterMap_eq_map _).symm

/-- The items of the new index are the copies of the kept items, in their order. -/
theorem items_prune (h : index.IsStacked) :
    (index.prune generation).index.items = index.items.filterMap
      (fun item => ((index.prune generation).rename? item.id).map
        (fun new => { item with id := new }.remap (index.prune generation).rename?)) := by
  rw [items, items, ids_prune_eq_filterMap h, List.filterMap_filterMap, List.filterMap_filterMap]
  refine List.filterMap_congr (fun id hid => ?_)
  obtain ⟨item, hget⟩ := exists_get?_of_mem_ids h hid
  rw [hget, Option.bind_some, id_of_get? h hget]
  cases hnew : (index.prune generation).rename? id with
  | none => rfl
  | some new => exact get?_prune_of_rename? h hnew hget

/-- Choosing among the copies is choosing among the originals when the choices agree. -/
theorem map_id_filter_items_prune (h : index.WellFormed) {p q : Item → Bool}
    (hagree : ∀ item copy, item ∈ index.items →
      item.IsCopy (index.prune generation).rename? copy → p copy = q item) :
    ((index.prune generation).index.items.filter p).map Item.id =
      ((index.items.filter q).map Item.id).filterMap (index.prune generation).rename? := by
  rw [items_prune h.stacked, List.filter_filterMap, List.map_filterMap, List.filterMap_map,
    List.filterMap_filter]
  refine List.filterMap_congr (fun item hitem => ?_)
  have hget := (mem_items_iff h.stacked).1 hitem
  simp only [Function.comp_apply]
  cases hnew : (index.prune generation).rename? item.id with
  | none => simp
  | some new =>
    have hchoice := hagree item _ hitem (isCopy_remap h hnew hget)
    rw [Option.map_some, Option.filter_some, hchoice]
    cases q item <;> rfl

theorem findAll_prune_eq (h : index.WellFormed) (parent : Option ItemId) (name : String)
    (kind : ItemKind) :
    (index.prune generation).index.findAll parent name kind =
      ((index.prune generation).index.items.filter
        (fun item => item.parent = parent ∧ item.kind = kind ∧ item.name = name)).map Item.id := by
  have hflat := below_prune h.stacked generation
  have hstacked := isStacked_prune h.stacked generation
  rw [index_prune h.stacked] at hflat hstacked ⊢
  exact findAll_rebuildRegistry hstacked hflat parent name kind

theorem findByName_prune_eq (h : index.WellFormed) (kind : ItemKind) (name : String) :
    (index.prune generation).index.findByName kind name =
      ((index.prune generation).index.items.filter
        (fun item => item.kind = kind ∧ item.name = name)).map Item.id := by
  have hflat := below_prune h.stacked generation
  have hstacked := isStacked_prune h.stacked generation
  rw [index_prune h.stacked] at hflat hstacked ⊢
  exact findByName_rebuildRegistry hstacked hflat kind name

/-! ## Well-formedness -/

theorem wellFormed_prune (h : index.WellFormed) (generation : Nat) :
    (index.prune generation).index.WellFormed where
  stacked := isStacked_prune h.stacked generation
  resolves := by
    intro id target copy hcopy htarget
    obtain ⟨_, _, _, _, hcopied⟩ := exists_isCopy h hcopy
    exact (contains_prune_iff h.stacked).2 (hcopied.exists_of_mem_referencedIds htarget)
  parent_iff_child := by
    intro id owner copy ownerCopy hcopy hownerCopy
    obtain ⟨old, item, hnew, hget, hcopied⟩ := exists_isCopy h hcopy
    obtain ⟨oldOwner, ownerItem, hnewOwner, hgetOwner, hcopiedOwner⟩ := exists_isCopy h hownerCopy
    have hinj := rename?_inj h.stacked generation
    rw [hcopied.parent_eq_some_iff hinj hnewOwner, h.parent_iff_child hget hgetOwner,
      ← Array.mem_toList_iff, ← Array.mem_toList_iff, hcopiedOwner.children_eq,
      mem_filterMap_rename? hinj hnew]
  dependency_iff_incoming := by
    intro source target copy targetCopy hcopy htargetCopy
    obtain ⟨old, item, hnew, hget, hcopied⟩ := exists_isCopy h hcopy
    obtain ⟨oldTarget, targetItem, hnewTarget, hgetTarget, hcopiedTarget⟩ :=
      exists_isCopy h htargetCopy
    have hinj := rename?_inj h.stacked generation
    rw [← Array.mem_toList_iff, ← Array.mem_toList_iff,
      eq_filterMap_of_map_some hcopied.dependencies_eq, hcopiedTarget.incoming_eq,
      mem_filterMap_rename? hinj hnewTarget, mem_filterMap_rename? hinj hnew,
      Array.mem_toList_iff, Array.mem_toList_iff, h.dependency_iff_incoming hget hgetTarget]
  children_nodup := by
    intro id copy hcopy
    obtain ⟨_, _, _, hget, hcopied⟩ := exists_isCopy h hcopy
    rw [hcopied.children_eq]
    exact nodup_filterMap_rename? h.stacked (h.children_nodup hget)
  dependencies_nodup := by
    intro id copy hcopy
    obtain ⟨_, _, _, hget, hcopied⟩ := exists_isCopy h hcopy
    rw [eq_filterMap_of_map_some hcopied.dependencies_eq]
    exact nodup_filterMap_rename? h.stacked (h.dependencies_nodup hget)
  incoming_nodup := by
    intro id copy hcopy
    obtain ⟨_, _, _, hget, hcopied⟩ := exists_isCopy h hcopy
    rw [hcopied.incoming_eq]
    exact nodup_filterMap_rename? h.stacked (h.incoming_nodup hget)
  findAll_eq := findAll_prune_eq h
  findByName_eq := findByName_prune_eq h

/-- Pruning a well-formed index gives a well-formed index without any old handle.  Its items are
copies of the kept ones, and every search finds the copies of what it found before, in the same
order. -/
theorem prune_faithful (h : index.WellFormed) (generation : Nat)
    (hfresh : ∀ id ∈ index.ids, id.generation ≠ generation) :
    (index.prune generation).index.WellFormed ∧
      (∀ new copy, (index.prune generation).index.get? new = some copy →
        ∀ target ∈ new :: copy.referencedIds, ¬ index.contains target) ∧
      (∀ new copy, (index.prune generation).index.get? new = some copy →
        ∃ old item, (index.prune generation).rename? old = some new ∧
          index.get? old = some item) ∧
      (∀ old new, (index.prune generation).rename? old = some new →
        ∃ item copy, index.get? old = some item ∧
          (index.prune generation).index.get? new = some copy ∧
          item.IsCopy (index.prune generation).rename? copy) ∧
      (∀ name kind, (index.prune generation).index.findAll none name kind =
        (index.findAll none name kind).filterMap (index.prune generation).rename?) ∧
      (∀ old new, (index.prune generation).rename? old = some new → ∀ name kind,
        (index.prune generation).index.findAll (some new) name kind =
          (index.findAll (some old) name kind).filterMap (index.prune generation).rename?) ∧
      (∀ kind name, (index.prune generation).index.findByName kind name =
        (index.findByName kind name).filterMap (index.prune generation).rename?) := by
  refine ⟨wellFormed_prune h generation, ?_, ?_, ?_, ?_, ?_, ?_⟩
  · intro new copy hcopy target htarget hold
    obtain ⟨old, item, hnew, hget, hcopied⟩ := exists_isCopy h hcopy
    obtain ⟨original, horiginal⟩ : ∃ original,
        (index.prune generation).rename? original = some target := by
      rcases List.mem_cons.1 htarget with rfl | htarget
      · exact ⟨old, hnew⟩
      · exact hcopied.exists_of_mem_referencedIds htarget
    refine hfresh target ((mem_ids_iff h.stacked).2 hold) ?_
    have hmem := List.mem_map_of_mem (f := Prod.snd) ((rename?_eq_some_iff h.stacked).1 horiginal)
    rw [renamed_snd_eq h.stacked] at hmem
    obtain ⟨place, _, rfl⟩ := List.mem_map.1 hmem
    rfl
  · intro new copy hcopy
    obtain ⟨old, item, hnew, hget, _⟩ := exists_isCopy h hcopy
    exact ⟨old, item, hnew, hget⟩
  · intro old new hnew
    obtain ⟨item, hget⟩ := exists_get?_of_rename? h.stacked hnew
    exact ⟨item, _, hget, get?_prune_of_rename? h.stacked hnew hget, isCopy_remap h hnew hget⟩
  · intro name kind
    rw [findAll_prune_eq h, h.findAll_eq]
    refine map_id_filter_items_prune h (fun item copy _ hcopied => ?_)
    rw [hcopied.name_eq, hcopied.kind_eq]
    simp only [hcopied.parent_eq_none_iff]
  · intro old new hnew name kind
    rw [findAll_prune_eq h, h.findAll_eq]
    refine map_id_filter_items_prune h (fun item copy _ hcopied => ?_)
    rw [hcopied.name_eq, hcopied.kind_eq]
    simp only [hcopied.parent_eq_some_iff (rename?_inj h.stacked generation) hnew]
  · intro kind name
    rw [findByName_prune_eq h, h.findByName_eq]
    refine map_id_filter_items_prune h (fun item copy _ hcopied => ?_)
    rw [hcopied.name_eq, hcopied.kind_eq]

/-- A project that uses one of two packages of a third-party project. -/
def appBesideLib : Index :=
  let lib := { (Item.fresh ⟨0, 0⟩ "lib" .project none).setFlag .thirdParty true with
    children := #[⟨1, 0⟩, ⟨2, 0⟩] }
  let util := { Item.fresh ⟨1, 0⟩ "util" .package (some ⟨0, 0⟩) with incoming := #[⟨3, 0⟩] }
  let spare := Item.fresh ⟨2, 0⟩ "spare" .package (some ⟨0, 0⟩)
  let app := { Item.fresh ⟨3, 0⟩ "app" .project none with dependencies := #[⟨1, 0⟩] }
  ([lib, util, spare, app].foldl store (empty 0)).rebuildRegistry

theorem appBesideLib_wellFormed : appBesideLib.WellFormed := by
  refine wellFormed_rebuildRegistry ?_ rfl (by decide +kernel) (by decide +kernel)
  refine isStacked_store (isStacked_store (isStacked_store (isStacked_store
    (isStacked_empty 0) ?_) ?_) ?_) ?_
  all_goals exact ⟨rfl, by decide⟩

theorem prune_appBesideLib :
    appBesideLib.WellFormed ∧ (∀ id ∈ appBesideLib.ids, id.generation ≠ 1) ∧
      (appBesideLib.prune 1).index.WellFormed ∧ (appBesideLib.prune 1).index.size = 3 := by
  have hfresh : ∀ id ∈ appBesideLib.ids, id.generation ≠ 1 := by decide +kernel
  exact ⟨appBesideLib_wellFormed, hfresh, (prune_faithful appBesideLib_wellFormed 1 hfresh).1,
    by decide +kernel⟩

end Index

end CodeAtlas
