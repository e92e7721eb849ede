/-
# The pruned index lies in the one it comes from

Pruning gives every item it keeps a new name, with everything the item needs, and the new index finds
what the old one finds as far as it was kept.  Items are told apart by owner, kind and name, methods
excepted, so no other item is found in the place of one that was dropped.  The flags that a load sets
in the end change nothing of this, and neither do they add to what pruning keeps.
-/
import CodeAtlas.Proofs.Index.Embedding
import CodeAtlas.Proofs.Prune.FirstParty
import CodeAtlas.Proofs.Prune.Sealed

namespace CodeAtlas

/-! ## Copies as images -/

section Copies

variable {rename? : ItemId → Option ItemId} {item copy : Item}

theorem sends?_of_map_some {found found' : Option ItemId}
    (h : found'.map some = found.map rename?) : Sends? rename? found found' := by
  cases found with
  | none =>
    rw [Option.map_none, Option.map_eq_none_iff] at h
    rw [h]
    exact .none
  | some id =>
    obtain ⟨new, rfl, hnew⟩ := Option.map_eq_some_iff.1 h
    exact .some hnew.symm

theorem forall₂_of_map_some {ids ids' : List ItemId} (h : ids'.map some = ids.map rename?) :
    List.Forall₂ (Sends rename?) ids ids' := by
  rw [← List.forall₂_eq_eq_eq, List.forall₂_map_left_iff, List.forall₂_map_right_iff] at h
  exact h.flip.imp (fun _ _ hnew => hnew.symm)

theorem Item.IsCopy.rel_id? (h : item.IsCopy rename? copy) (key : AttrKey) :
    Sends? rename? (item.attributes.id? key) (copy.attributes.id? key) := by
  have hrel := h.attributes_eq key
  rw [Attributes.id?, Attributes.id?]
  generalize item.attributes.get? key = value at hrel
  generalize copy.attributes.get? key = value' at hrel
  cases hrel with
  | none => exact .none
  | some hrenamed =>
    cases hrenamed with
    | id hnew => exact .some hnew
    | ids _ => exact .none
    | flag => exact .none

theorem Item.IsCopy.forall₂_ids? (h : item.IsCopy rename? copy) (key : AttrKey) :
    List.Forall₂ (Sends rename?) ((item.attributes.ids? key).getD #[]).toList
      ((copy.attributes.ids? key).getD #[]).toList := by
  have hrel := h.attributes_eq key
  rw [Attributes.ids?, Attributes.ids?]
  generalize item.attributes.get? key = value at hrel
  generalize copy.attributes.get? key = value' at hrel
  cases hrel with
  | none => exact .nil
  | some hrenamed =>
    cases hrenamed with
    | id _ => exact .nil
    | ids hnew => exact forall₂_of_map_some hnew
    | flag => exact .nil

theorem Item.paramTypes_eq (item : Item) :
    item.paramTypes = ((item.attributes.ids? .paramTypes).getD #[]).toList := by
  rw [paramTypes, paramTypes?]
  cases item.attributes.ids? .paramTypes <;> rfl

/-- A copy has the owner and the types of its item. -/
theorem Item.IsCopy.isImage (h : item.IsCopy rename? copy) : item.IsImage rename? copy where
  name_eq := h.name_eq
  kind_eq := h.kind_eq
  parent := sends?_of_map_some h.parent_eq
  superclass := h.rel_id? .superclass
  superinterfaces := h.forall₂_ids? .superinterfaces
  returnType := h.rel_id? .returnType
  fieldType := h.rel_id? .fieldType
  paramCount_eq := by
    rw [paramTypes_eq, paramTypes_eq]
    exact (h.forall₂_ids? .paramTypes).length_eq.symm

end Copies

/-! ## Items and their flags -/

/-- The same item, but for the flag of third-party items.  Projects keep that, too. -/
structure Item.Reflagged (item flagged : Item) : Prop where
  name_eq : flagged.name = item.name
  kind_eq : flagged.kind = item.kind
  parent_eq : flagged.parent = item.parent
  children_eq : flagged.children = item.children
  dependencies_eq : flagged.dependencies = item.dependencies
  incoming_eq : flagged.incoming = item.incoming
  get?_eq : ∀ {key : AttrKey}, key ≠ .thirdParty →
    flagged.attributes.get? key = item.attributes.get? key
  hasAttribute : ∀ {target : ItemId}, flagged.HasAttribute target → item.HasAttribute target
  flag_eq : item.kind = .project → flagged.isThirdParty = item.isThirdParty

namespace Item

theorem reflagged_self (item : Item) : item.Reflagged item :=
  ⟨rfl, rfl, rfl, rfl, rfl, rfl, fun _ => rfl, fun htarget => htarget, fun _ => rfl⟩

theorem reflagged_setFlag {item : Item} (hkind : item.kind ≠ .project) :
    item.Reflagged (item.setFlag .thirdParty true) where
  name_eq := rfl
  kind_eq := rfl
  parent_eq := rfl
  children_eq := rfl
  dependencies_eq := rfl
  incoming_eq := rfl
  get?_eq hkey := by rw [setFlag, set, Attributes.get?_set, if_neg (Ne.symm hkey)]
  hasAttribute htarget :=
    mem_attributeIds_iff.1 (mem_attributeIds_setFlag (mem_attributeIds_iff.2 htarget))
  flag_eq hproject := absurd hproject hkind

namespace Reflagged

variable {item flagged : Item}

theorem id?_eq (h : item.Reflagged flagged) {key : AttrKey} (hkey : key ≠ .thirdParty) :
    flagged.attributes.id? key = item.attributes.id? key := by
  rw [Attributes.id?, Attributes.id?, h.get?_eq hkey]

theorem ids?_eq (h : item.Reflagged flagged) {key : AttrKey} (hkey : key ≠ .thirdParty) :
    flagged.attributes.ids? key = item.attributes.ids? key := by
  rw [Attributes.ids?, Attributes.ids?, h.get?_eq hkey]

/-- Flags do not matter for images. -/
theorem isImage {rename? : ItemId → Option ItemId} {image flagged' : Item}
    (h : item.Reflagged flagged) (h' : image.Reflagged flagged') (himage : item.IsImage rename? image) :
    flagged.IsImage rename? flagged' := by
  refine ⟨?_, ?_, ?_, ?_, ?_, ?_, ?_, ?_⟩
  · rw [h.name_eq, h'.name_eq, himage.name_eq]
  · rw [h.kind_eq, h'.kind_eq, himage.kind_eq]
  · rw [h.parent_eq, h'.parent_eq]
    exact himage.parent
  · rw [superclass, superclass, h.id?_eq (by decide), h'.id?_eq (by decide)]
    exact himage.superclass
  · rw [superinterfaces, superinterfaces, h.ids?_eq (by decide), h'.ids?_eq (by decide)]
    exact himage.superinterfaces
  · rw [returnType, returnType, h.id?_eq (by decide), h'.id?_eq (by decide)]
    exact himage.returnType
  · rw [fieldType, fieldType, h.id?_eq (by decide), h'.id?_eq (by decide)]
    exact himage.fieldType
  · rw [paramTypes, paramTypes, paramTypes?, paramTypes?, h.ids?_eq (by decide),
      h'.ids?_eq (by decide)]
    exact himage.paramCount_eq

end Reflagged

end Item

namespace Index

variable {index : Index}

/-! ## Looking up what was kept -/

section Pruned

variable (generation : Nat)

/-- What is found under the new name of an owner is what was found under the old one. -/
theorem findAll_prune (h : index.WellFormed) {owner new : Option ItemId}
    (howner : Sends? (index.prune generation).rename? owner new) (name : String) (kind : ItemKind) :
    (index.prune generation).index.findAll new name kind =
      (index.findAll owner name kind).filterMap (index.prune generation).rename? := by
  rw [findAll_prune_eq h, h.findAll_eq]
  refine map_id_filter_items_prune h (fun item copy _ hcopy => decide_eq_decide.2 ?_)
  rw [hcopy.kind_eq, hcopy.name_eq]
  refine and_congr_left (fun _ => ?_)
  cases howner with
  | none => exact hcopy.parent_eq_none_iff
  | some hsends => exact hcopy.parent_eq_some_iff (rename?_inj h.stacked generation) hsends

/-- At most one item is found by owner, name and kind, methods excepted. -/
theorem Orderly.findAll_eq_toList (h : index.Orderly) (owner : Option ItemId) (name : String)
    {kind : ItemKind} (hkind : kind ≠ .method) :
    index.findAll owner name kind = (index.findItem owner name kind).toList := by
  have hregistered := h.coherent.registered
  rw [hregistered.findItem_eq owner name kind hkind, ← hregistered.findAll_eq owner name kind]
  have hbears : ∀ id ∈ index.findAll owner name kind, index.bears ⟨owner, kind, name⟩ id = true := by
    intro id hid
    rw [hregistered.findAll_eq] at hid
    exact (List.mem_filter.1 hid).2
  have hnodup : (index.findAll owner name kind).Nodup := by
    rw [hregistered.findAll_eq]
    exact (ids_nodup h.coherent.stacked).filter _
  cases hfound : index.findAll owner name kind with
  | nil => rfl
  | cons first rest =>
    cases rest with
    | nil => rfl
    | cons second rest =>
      rw [hfound] at hbears hnodup
      have hsame := h.distinct _ hkind first second (hbears first List.mem_cons_self)
        (hbears second (List.mem_cons_of_mem _ List.mem_cons_self))
      simp [hsame] at hnodup

theorem Orderly.findItem_prune (h : index.Orderly) {owner new : Option ItemId}
    (howner : Sends? (index.prune generation).rename? owner new) (name : String) {kind : ItemKind}
    (hkind : kind ≠ .method) :
    (index.prune generation).index.findItem new name kind =
      (index.findItem owner name kind).bind (index.prune generation).rename? := by
  have hlists := findAll_prune generation h.wellFormed howner name kind
  rw [(h.prune generation).findAll_eq_toList new name hkind,
    h.findAll_eq_toList owner name hkind] at hlists
  cases hfound : index.findItem owner name kind with
  | none =>
    rw [hfound] at hlists
    exact Option.toList_eq_nil_iff.1 hlists
  | some id =>
    rw [hfound, Option.toList_some] at hlists
    rw [Option.bind_some]
    cases hid : (index.prune generation).rename? id with
    | none =>
      rw [List.filterMap_cons_none hid] at hlists
      exact Option.toList_eq_nil_iff.1 hlists
    | some newId =>
      rw [List.filterMap_cons_some hid] at hlists
      exact Option.toList_eq_singleton_iff.1 hlists

theorem findPackages_prune (h : index.WellFormed) (name : String) :
    (index.prune generation).index.findByName .package name =
      (index.findByName .package name).filterMap (index.prune generation).rename? := by
  rw [findByName_prune_eq h, h.findByName_eq]
  refine map_id_filter_items_prune h (fun item copy _ hcopy => decide_eq_decide.2 ?_)
  rw [hcopy.kind_eq, hcopy.name_eq]

/-- A pruned index lies in the one it comes from. -/
theorem Orderly.embeds_prune (h : index.Orderly) :
    index.Embeds (index.prune generation).rename? (index.prune generation).index where
  coherent := h.coherent
  source := h.walkable
  target := (h.prune generation).walkable
  injective {a b new} := rename?_inj h.coherent.stacked generation a b new
  image {id new} hnew := by
    obtain ⟨item, hget⟩ := exists_get?_of_rename? h.coherent.stacked hnew
    exact ⟨item, _, hget, get?_prune_of_rename? h.coherent.stacked hnew hget,
      (isCopy_remap h.wellFormed hnew hget).isImage⟩
  findItem_eq howner name _ hkind := h.findItem_prune generation howner name hkind
  findMethods_eq hnew name := findAll_prune generation h.wellFormed (.some hnew) name .method
  findPackages_eq name := findPackages_prune generation h.wellFormed name

end Pruned

/-! ## Flagging members in the end -/

theorem reflagged_propagateThirdParty (h : index.IsStacked) {id : ItemId} {item : Item}
    (hget : index.get? id = some item) :
    ∃ flagged, index.propagateThirdParty.2.get? id = some flagged ∧ item.Reflagged flagged := by
  rw [get?_propagateThirdParty h, hget]
  split
  · rename_i hmem
    have hkind : item.kind ≠ .project := fun hproject =>
      not_mem_unflagged_of_project h hget hproject hmem
    exact ⟨_, rfl, Item.reflagged_setFlag hkind⟩
  · exact ⟨item, rfl, item.reflagged_self⟩

theorem contains_propagateThirdParty (h : index.IsStacked) (id : ItemId) :
    index.propagateThirdParty.2.contains id = index.contains id := by
  rw [contains, contains, get?_propagateThirdParty h]
  split
  · exact Option.isSome_map
  · rfl

theorem exists_reflagged (h : index.IsStacked) {id : ItemId} {flagged : Item}
    (hget : index.propagateThirdParty.2.get? id = some flagged) :
    ∃ item, index.get? id = some item ∧ item.Reflagged flagged := by
  have hin := contains_of_get? hget
  rw [contains_propagateThirdParty h] at hin
  obtain ⟨item, hitem⟩ := Option.isSome_iff_exists.1 hin
  obtain ⟨other, hother, hreflagged⟩ := reflagged_propagateThirdParty h hitem
  obtain rfl := Option.some.inj (hget.symm.trans hother)
  exact ⟨item, hitem, hreflagged⟩

section Lookups

variable (index : Index) (owner : Option ItemId) (name : String) (kind : ItemKind)

theorem findItem_propagateThirdParty :
    index.propagateThirdParty.2.findItem owner name kind = index.findItem owner name kind := by
  rw [propagateThirdParty]
  generalize index.unflagged = ids
  induction ids generalizing index with
  | nil => rfl
  | cons first rest ih => exact (ih _).trans (findItem_modify ..)

theorem findAll_propagateThirdParty :
    index.propagateThirdParty.2.findAll owner name kind = index.findAll owner name kind := by
  rw [propagateThirdParty]
  generalize index.unflagged = ids
  induction ids generalizing index with
  | nil => rfl
  | cons first rest ih => exact (ih _).trans (findAll_modify ..)

theorem findByName_propagateThirdParty :
    index.propagateThirdParty.2.findByName kind name = index.findByName kind name := by
  rw [propagateThirdParty]
  generalize index.unflagged = ids
  induction ids generalizing index with
  | nil => rfl
  | cons first rest ih => exact (ih _).trans (findByName_modify ..)

end Lookups

/-- Flags do not matter for how one index lies in another. -/
theorem Embeds.propagateThirdParty {rename? : ItemId → Option ItemId} {a b : Index}
    (h : a.Embeds rename? b) (ha : a.Orderly) (hb : b.Orderly) :
    a.propagateThirdParty.2.Embeds rename? b.propagateThirdParty.2 where
  coherent := ha.propagateThirdParty.coherent
  source := ha.propagateThirdParty.walkable
  target := hb.propagateThirdParty.walkable
  injective := h.injective
  image {id new} hnew := by
    obtain ⟨item, image, hget, hget', himage⟩ := h.image hnew
    obtain ⟨flagged, hflagged, hitem⟩ := reflagged_propagateThirdParty ha.coherent.stacked hget
    obtain ⟨flagged', hflagged', himage'⟩ := reflagged_propagateThirdParty hb.coherent.stacked hget'
    exact ⟨flagged, flagged', hflagged, hflagged', hitem.isImage himage' himage⟩
  findItem_eq howner name kind hkind := by
    rw [findItem_propagateThirdParty, findItem_propagateThirdParty, h.findItem_eq howner name kind hkind]
  findMethods_eq hnew name := by
    rw [findAll_propagateThirdParty, findAll_propagateThirdParty, h.findMethods_eq hnew name]
  findPackages_eq name := by
    rw [findByName_propagateThirdParty, findByName_propagateThirdParty, h.findPackages_eq name]

/-! ## Flags and what is kept -/

section Ways

variable {stops : Item → Prop} (hstops : ∀ {item flagged : Item},
  item.Reflagged flagged → (stops flagged ↔ stops item))

include hstops in
/-- Flags do not matter for the ways up. -/
theorem FirstAbove.propagate (h : index.IsStacked) {id : ItemId} {found : Item}
    (hfirst : index.FirstAbove stops id found) :
    ∃ flagged, found.Reflagged flagged ∧ index.propagateThirdParty.2.FirstAbove stops id flagged :=
  hfirst.exists_related (reflagged_propagateThirdParty h) (fun hsame => hsame.parent_eq) hstops

include hstops in
theorem exists_firstAbove_of_propagate (h : index.IsStacked) {id : ItemId} {flagged : Item}
    (hfirst : index.propagateThirdParty.2.FirstAbove stops id flagged) :
    ∃ found, found.Reflagged flagged ∧ index.FirstAbove stops id found :=
  @FirstAbove.exists_related _ _ stops (fun flagged item => item.Reflagged flagged)
    (exists_reflagged h) (fun hsame => hsame.parent_eq.symm) (fun hsame => (hstops hsame).symm) _ _
    hfirst

end Ways

/-- Whose members are flagged was third-party before. -/
theorem ownedByThirdParty_propagate_iff (h : index.IsStacked) {id : ItemId} :
    index.propagateThirdParty.2.OwnedByThirdParty id ↔ index.OwnedByThirdParty id := by
  constructor
  · rintro ⟨flagged, hends, hkind, hflag⟩
    obtain ⟨top, hreflagged, hfirst⟩ := exists_firstAbove_of_propagate
      (fun hreflagged => by rw [hreflagged.parent_eq]) h (endsAt_iff_firstAbove.1 hends)
    have hproject := hreflagged.kind_eq.symm.trans hkind
    exact ⟨top, endsAt_iff_firstAbove.2 hfirst, hproject,
      (hreflagged.flag_eq hproject).symm.trans hflag⟩
  · rintro ⟨top, hends, hkind, hflag⟩
    obtain ⟨flagged, hreflagged, hfirst⟩ := (endsAt_iff_firstAbove.1 hends).propagate
      (fun hreflagged => by rw [hreflagged.parent_eq]) h
    exact ⟨flagged, endsAt_iff_firstAbove.2 hfirst, hreflagged.kind_eq.trans hkind,
      (hreflagged.flag_eq hkind).trans hflag⟩

/-- The nearest project is flagged exactly when it was before. -/
theorem inFlaggedProject_propagate_iff (h : index.IsStacked) {id : ItemId} :
    index.propagateThirdParty.2.InFlaggedProject id ↔ index.InFlaggedProject id := by
  constructor
  · rintro ⟨flagged, hfirst, hflag⟩
    obtain ⟨project, hreflagged, hproject⟩ := exists_firstAbove_of_propagate
      (fun hreflagged => by rw [hreflagged.kind_eq]) h hfirst
    exact ⟨project, hproject, (hreflagged.flag_eq hproject.stops).symm.trans hflag⟩
  · rintro ⟨project, hfirst, hflag⟩
    obtain ⟨flagged, hreflagged, hflagged⟩ :=
      hfirst.propagate (fun hreflagged => by rw [hreflagged.kind_eq]) h
    exact ⟨flagged, hflagged, (hreflagged.flag_eq hfirst.stops).trans hflag⟩

/-- Flagging members adds nothing to what pruning keeps. -/
theorem retained_of_propagate (h : index.Orderly) {id : ItemId}
    (hid : id ∈ index.propagateThirdParty.2.retained) : id ∈ index.retained := by
  have hstacked := h.coherent.stacked
  have hclosed := (isLeast_retained hstacked).1
  have hleast := (isLeast_retained h.propagateThirdParty.coherent.stacked).2
  refine @hleast {id | id ∈ index.retained} ⟨?_, ?_, ?_⟩ id hid
  · intro id hin hfirst
    rw [contains_propagateThirdParty hstacked] at hin
    rw [ownedByThirdParty_propagate_iff hstacked] at hfirst
    exact hclosed.first_party hin hfirst
  · intro id target flagged hid hget hfirst hin hrefers
    obtain ⟨item, hitem, hreflagged⟩ := exists_reflagged hstacked hget
    rw [contains_propagateThirdParty hstacked] at hin
    rw [ownedByThirdParty_propagate_iff hstacked] at hfirst
    rw [hreflagged.parent_eq, hreflagged.children_eq, hreflagged.dependencies_eq,
      hreflagged.incoming_eq] at hrefers
    exact hclosed.of_first_party hid hitem hfirst hin
      (hrefers.imp_right (Or.imp_right (Or.imp_right (Or.imp_right hreflagged.hasAttribute))))
  · intro id target flagged hid hget hthird hin hrefers
    obtain ⟨item, hitem, hreflagged⟩ := exists_reflagged hstacked hget
    rw [contains_propagateThirdParty hstacked] at hin
    rw [ownedByThirdParty_propagate_iff hstacked] at hthird
    rw [hreflagged.parent_eq, hreflagged.dependencies_eq] at hrefers
    exact hclosed.of_third_party hid hitem hthird hin
      (hrefers.imp_right (Or.imp_right hreflagged.hasAttribute))

end Index

end CodeAtlas
