/-
# Pruning a pruned index

Who owns an item is decided at the top of its parent chain, and a kept item keeps its owners.  So the
copies of first-party items are first-party again, and what they need is kept with them: pruning a
pruned index finds nothing to leave behind and gives every item its old number.
-/
import CodeAtlas.Proofs.Index.Relabel
import CodeAtlas.Proofs.Prune.Faithful

namespace CodeAtlas

/-- The handle of the same number in another generation. -/
def ItemId.reissue (generation : Nat) (id : ItemId) : ItemId :=
  ⟨id.raw, generation⟩

/-! ## Renaming without loss -/

section Renaming

variable {rename? : ItemId → Option ItemId} {f : ItemId → ItemId}

theorem AttrValue.remap_eq_map {value : AttrValue}
    (h : ∀ target ∈ value.targets, rename? target = some (f target)) :
    value.remap rename? = some (value.map f) := by
  cases value with
  | id target => rw [remap, h target (List.mem_singleton_self target)]; rfl
  | ids targets =>
    refine congrArg (fun ids => some (AttrValue.ids ids)) (Array.ext' ?_)
    rw [Array.toList_filterMap, Array.toList_map]
    exact List.filterMap_eq_map_iff_forall_eq_some.2 h
  | flag value => rfl

theorem Attributes.remap_eq_map {attrs : Attributes}
    (h : ∀ key value, attrs.get? key = some value →
      ∀ target ∈ value.targets, rename? target = some (f target)) :
    attrs.remap rename? = attrs.map f := by
  refine eq_of_get? (fun key => ?_)
  rw [get?_remap, get?_map]
  cases hvalue : attrs.get? key with
  | none => rfl
  | some value => exact AttrValue.remap_eq_map (h key value hvalue)

/-- An item none of whose handles is refused is renamed like any other. -/
theorem Item.remap_eq_map {item : Item}
    (h : ∀ target ∈ item.referencedIds, rename? target = some (f target))
    (hdependencies : (item.dependencies.toList.filterMap rename?).Nodup)
    (hincoming : (item.incoming.toList.filterMap rename?).Nodup) :
    { item with id := f item.id }.remap rename? = item.map f := by
  simp only [referencedIds, List.mem_append, or_imp, forall_and] at h
  obtain ⟨⟨⟨⟨hparent, hchildren⟩, hdepends⟩, hneeded⟩, hattributes⟩ := h
  have hlist : ∀ ids : Array ItemId, (∀ id ∈ ids.toList, rename? id = some (f id)) →
      (ids.toList.filterMap rename?).toArray = ids.map f := by
    intro ids hids
    rw [List.filterMap_eq_map_iff_forall_eq_some.2 hids, ← Array.toList_map]
  unfold remap map
  congr 1
  · cases howner : item.parent with
    | none => rfl
    | some owner => exact hparent owner (by rw [howner]; exact List.mem_singleton_self owner)
  · refine Array.ext' ?_
    rw [Array.toList_filterMap, Array.toList_map]
    exact List.filterMap_eq_map_iff_forall_eq_some.2 hchildren
  · rw [distinct_eq_self hdependencies]
    exact hlist item.dependencies hdepends
  · rw [distinct_eq_self hincoming]
    exact hlist item.incoming hneeded
  · refine Attributes.remap_eq_map (fun key value hvalue target htarget => ?_)
    exact hattributes target (mem_attributeIds_iff.2 ⟨key, value, hvalue, htarget⟩)

end Renaming

/-! ## Links of copies -/

section Copies

variable {rename? : ItemId → Option ItemId} {old new : Item} {target newTarget : ItemId}

theorem Item.IsCopy.mem_children (h : old.IsCopy rename? new)
    (htarget : rename? target = some newTarget) (hmem : target ∈ old.children) :
    newTarget ∈ new.children := by
  rw [← Array.mem_toList_iff, h.children_eq, List.mem_filterMap]
  exact ⟨target, Array.mem_toList_iff.2 hmem, htarget⟩

theorem Item.IsCopy.mem_incoming (h : old.IsCopy rename? new)
    (htarget : rename? target = some newTarget) (hmem : target ∈ old.incoming) :
    newTarget ∈ new.incoming := by
  rw [← Array.mem_toList_iff, h.incoming_eq, List.mem_filterMap]
  exact ⟨target, Array.mem_toList_iff.2 hmem, htarget⟩

theorem Item.IsCopy.mem_dependencies (h : old.IsCopy rename? new)
    (htarget : rename? target = some newTarget) (hmem : target ∈ old.dependencies) :
    newTarget ∈ new.dependencies := by
  rw [← Array.mem_toList_iff, eq_filterMap_of_map_some h.dependencies_eq, List.mem_filterMap]
  exact ⟨target, Array.mem_toList_iff.2 hmem, htarget⟩

theorem AttrValue.Renamed.mem_targets {value newValue : AttrValue}
    (h : AttrValue.Renamed rename? value newValue) (htarget : rename? target = some newTarget)
    (hmem : target ∈ value.targets) : newTarget ∈ newValue.targets := by
  cases h with
  | id hnew =>
    obtain rfl := List.mem_singleton.1 hmem
    exact List.mem_singleton.2 (Option.some.inj (htarget.symm.trans hnew))
  | ids hnew =>
    rw [targets, eq_filterMap_of_map_some hnew, List.mem_filterMap]
    exact ⟨target, hmem, htarget⟩
  | flag => simp [targets] at hmem

theorem Item.IsCopy.hasAttribute (h : old.IsCopy rename? new)
    (htarget : rename? target = some newTarget) (hhas : old.HasAttribute target) :
    new.HasAttribute newTarget := by
  obtain ⟨key, value, hvalue, hmem⟩ := hhas
  have hrel := h.attributes_eq key
  rw [hvalue] at hrel
  generalize hslot : new.attributes.get? key = slot at hrel
  cases hrel with
  | some hrenamed => exact ⟨key, _, hslot, hrenamed.mem_targets htarget hmem⟩

end Copies

namespace Index

variable {index : Index} {generation : Nat}

/-! ## Whose the copies are -/

/-- The copy of a kept item, under its new handle. -/
theorem exists_copy (h : index.WellFormed) {old new : ItemId} {item : Item}
    (hnew : (index.prune generation).rename? old = some new) (hget : index.get? old = some item) :
    ∃ copy, (index.prune generation).index.get? new = some copy ∧
      item.IsCopy (index.prune generation).rename? copy :=
  ⟨_, get?_prune_of_rename? h.stacked hnew hget, isCopy_remap h hnew hget⟩

section Ways

variable {stops : Item → Prop} (hstops : ∀ {item copy : Item},
  item.IsCopy (index.prune generation).rename? copy → (stops copy ↔ stops item))

include hstops in
/-- The way up from a copy is the copy of the way up from its item. -/
theorem firstAbove_prune (h : index.WellFormed) {old new : ItemId} {found : Item}
    (hnew : (index.prune generation).rename? old = some new)
    (hfirst : index.FirstAbove stops old found) :
    ∃ copy, (index.prune generation).index.FirstAbove stops new copy ∧
      found.IsCopy (index.prune generation).rename? copy := by
  induction hfirst generalizing new with
  | here hget hfound =>
    obtain ⟨copy, hcopy, hcopied⟩ := exists_copy h hnew hget
    exact ⟨copy, .here hcopy ((hstops hcopied).2 hfound), hcopied⟩
  | above hget hgoes hparent _ ih =>
    obtain ⟨newOwner, howner⟩ := Option.isSome_iff_exists.1
      (isSome_rename?_of_forward h hnew hget (Or.inl hparent))
    obtain ⟨copy, hcopy, hcopied⟩ := exists_copy h hnew hget
    obtain ⟨found, hfound, hfoundCopied⟩ := ih howner
    have hinj := rename?_inj h.stacked generation
    exact ⟨found, .above hcopy (fun hcopyStops => hgoes ((hstops hcopied).1 hcopyStops))
      ((hcopied.parent_eq_some_iff hinj howner).2 hparent) hfound, hfoundCopied⟩

include hstops in
theorem exists_firstAbove_of_prune (h : index.WellFormed) {old new : ItemId} {copy : Item}
    (hnew : (index.prune generation).rename? old = some new)
    (hfirst : (index.prune generation).index.FirstAbove stops new copy) :
    ∃ found, index.FirstAbove stops old found ∧
      found.IsCopy (index.prune generation).rename? copy := by
  have hinj := rename?_inj h.stacked generation
  induction hfirst generalizing old with
  | here hcopy hfound =>
    obtain ⟨other, item, hother, hget, hcopied⟩ := exists_isCopy h hcopy
    obtain rfl := hinj _ _ _ hother hnew
    exact ⟨item, .here hget ((hstops hcopied).1 hfound), hcopied⟩
  | @above _ newOwner copy _ hcopy hgoes hparent _ ih =>
    obtain ⟨other, item, hother, hget, hcopied⟩ := exists_isCopy h hcopy
    obtain rfl := hinj _ _ _ hother hnew
    have hrefers : newOwner ∈ copy.referencedIds := by
      simp only [Item.referencedIds, List.mem_append, Option.mem_toList]
      exact Or.inl (Or.inl (Or.inl (Or.inl hparent)))
    obtain ⟨owner, howner⟩ := hcopied.exists_of_mem_referencedIds hrefers
    obtain ⟨found, hfound, hfoundCopied⟩ := ih howner
    exact ⟨found, .above hget (fun hitemStops => hgoes ((hstops hcopied).2 hitemStops))
      ((hcopied.parent_eq_some_iff hinj howner).1 hparent) hfound, hfoundCopied⟩

end Ways

/-- A copy is third-party exactly when its item is. -/
theorem ownedByThirdParty_prune_iff (h : index.WellFormed) {old new : ItemId}
    (hnew : (index.prune generation).rename? old = some new) :
    (index.prune generation).index.OwnedByThirdParty new ↔ index.OwnedByThirdParty old := by
  constructor
  · rintro ⟨copy, hends, hkind, hflag⟩
    obtain ⟨top, htop, hcopied⟩ := exists_firstAbove_of_prune
      (fun hcopied => hcopied.parent_eq_none_iff) h hnew (endsAt_iff_firstAbove.1 hends)
    exact ⟨top, endsAt_iff_firstAbove.2 htop, hcopied.kind_eq.symm.trans hkind,
      (hcopied.flag_eq .thirdParty).symm.trans hflag⟩
  · rintro ⟨top, hends, hkind, hflag⟩
    obtain ⟨copy, hcopy, hcopied⟩ := firstAbove_prune
      (fun hcopied => hcopied.parent_eq_none_iff) h hnew (endsAt_iff_firstAbove.1 hends)
    exact ⟨copy, endsAt_iff_firstAbove.2 hcopy, hcopied.kind_eq.trans hkind,
      (hcopied.flag_eq .thirdParty).trans hflag⟩

/-- The nearest project of a copy is flagged exactly when that of its item is. -/
theorem inFlaggedProject_prune_iff (h : index.WellFormed) {old new : ItemId}
    (hnew : (index.prune generation).rename? old = some new) :
    (index.prune generation).index.InFlaggedProject new ↔ index.InFlaggedProject old := by
  constructor
  · rintro ⟨copy, hfirst, hflag⟩
    obtain ⟨project, hproject, hcopied⟩ := exists_firstAbove_of_prune
      (fun hcopied => by rw [hcopied.kind_eq]) h hnew hfirst
    exact ⟨project, hproject, (hcopied.flag_eq .thirdParty).symm.trans hflag⟩
  · rintro ⟨project, hfirst, hflag⟩
    obtain ⟨copy, hcopy, hcopied⟩ := firstAbove_prune
      (fun hcopied => by rw [hcopied.kind_eq]) h hnew hfirst
    exact ⟨copy, hcopy, (hcopied.flag_eq .thirdParty).trans hflag⟩

/-! ## Nothing more to leave behind -/

/-- The items whose copies are kept again obey the rules of keeping: whatever leads from an item to
another leads from copy to copy. -/
theorem isClosed_kept_again (h : index.WellFormed) (generation : Nat) :
    index.IsClosed {old | ∃ new, (index.prune generation).rename? old = some new ∧
      new ∈ (index.prune generation).index.retained} := by
  have hwell := wellFormed_prune h generation
  have hclosed := (isLeast_retained h.stacked).1
  have hagain := (isLeast_retained hwell.stacked).1
  have hinj := rename?_inj h.stacked generation
  have hrename : ∀ {id : ItemId}, id ∈ index.retained →
      ∃ new, (index.prune generation).rename? id = some new := fun hid =>
    Option.isSome_iff_exists.1 ((isSome_rename?_iff h.stacked).2 hid)
  have hretained : ∀ {id new : ItemId}, (index.prune generation).rename? id = some new →
      id ∈ index.retained := fun hnew =>
    (isSome_rename?_iff h.stacked).1 (Option.isSome_iff_exists.2 ⟨_, hnew⟩)
  refine ⟨?_, ?_, ?_⟩
  · intro id hin hfirst
    obtain ⟨new, hnew⟩ := hrename (hclosed.first_party hin hfirst)
    refine ⟨new, hnew, hagain.first_party ((contains_prune_iff h.stacked).2 ⟨id, hnew⟩) ?_⟩
    rwa [ownedByThirdParty_prune_iff h hnew]
  · rintro id target item ⟨new, hnew, hkept⟩ hget hfirst hin hrefers
    obtain ⟨newTarget, htarget⟩ :=
      hrename (hclosed.of_first_party (hretained hnew) hget hfirst hin hrefers)
    obtain ⟨copy, hcopy, hcopied⟩ := exists_copy h hnew hget
    refine ⟨newTarget, htarget, hagain.of_first_party hkept hcopy ?_
      ((contains_prune_iff h.stacked).2 ⟨target, htarget⟩) ?_⟩
    · rwa [ownedByThirdParty_prune_iff h hnew]
    · rcases hrefers with hparent | hchild | hdependency | hincoming | hattribute
      · exact Or.inl ((hcopied.parent_eq_some_iff hinj htarget).2 hparent)
      · exact Or.inr (Or.inl (hcopied.mem_children htarget hchild))
      · exact Or.inr (Or.inr (Or.inl (hcopied.mem_dependencies htarget hdependency)))
      · exact Or.inr (Or.inr (Or.inr (Or.inl (hcopied.mem_incoming htarget hincoming))))
      · exact Or.inr (Or.inr (Or.inr (Or.inr (hcopied.hasAttribute htarget hattribute))))
  · rintro id target item ⟨new, hnew, hkept⟩ hget hthird hin hrefers
    obtain ⟨newTarget, htarget⟩ :=
      hrename (hclosed.of_third_party (hretained hnew) hget hthird hin hrefers)
    obtain ⟨copy, hcopy, hcopied⟩ := exists_copy h hnew hget
    refine ⟨newTarget, htarget, hagain.of_third_party hkept hcopy ?_
      ((contains_prune_iff h.stacked).2 ⟨target, htarget⟩) ?_⟩
    · rwa [ownedByThirdParty_prune_iff h hnew]
    · rcases hrefers with hparent | hdependency | hattribute
      · exact Or.inl ((hcopied.parent_eq_some_iff hinj htarget).2 hparent)
      · exact Or.inr (Or.inl (hcopied.mem_dependencies htarget hdependency))
      · exact Or.inr (Or.inr (hcopied.hasAttribute htarget hattribute))

/-- Every item of a pruned index would be kept again. -/
theorem mem_retained_prune (h : index.WellFormed) {new : ItemId}
    (hin : (index.prune generation).index.contains new) :
    new ∈ (index.prune generation).index.retained := by
  obtain ⟨old, hnew⟩ := (contains_prune_iff h.stacked).1 hin
  have hold := (isSome_rename?_iff h.stacked).1 (Option.isSome_iff_exists.2 ⟨new, hnew⟩)
  obtain ⟨other, hother, hkept⟩ :=
    (isLeast_retained h.stacked).2 (isClosed_kept_again h generation) hold
  obtain rfl := Option.some.inj (hnew.symm.trans hother)
  exact hkept

theorem keptIds_prune (h : index.WellFormed) (generation : Nat) :
    (index.prune generation).index.keptIds = (index.prune generation).index.ids := by
  have hstacked := isStacked_prune h.stacked generation
  refine List.filter_eq_self.2 (fun new hnew => Std.TreeSet.contains_iff_mem.2 ?_)
  exact mem_retained_prune h ((mem_ids_iff hstacked).1 hnew)

/-! ## The same items under the same numbers -/

/-- Pruning again lists the handles against those of the same numbers. -/
theorem renamed_prune_prune (h : index.WellFormed) (generation next : Nat) :
    ((index.prune generation).index.prune next).renamed =
      (index.prune generation).index.ids.map (fun id => (id, id.reissue next)) := by
  have hstacked := isStacked_prune h.stacked generation
  have hfst := (adoptAll_keptIds hstacked next).1
  rw [keptIds_prune h] at hfst
  have hsnd := renamed_snd_eq hstacked next
  have hlength : ((index.prune generation).index.prune next).renamed.length =
      (index.prune generation).renamed.length := by
    have hlengths := congrArg List.length hfst
    rwa [ids_prune h.stacked, List.length_map, List.length_map] at hlengths
  have hnumbers : (index.prune generation).index.ids.map (ItemId.reissue next) =
      (List.range (index.prune generation).renamed.length).map (handleAt next) := by
    rw [ids_prune h.stacked, renamed_snd_eq h.stacked, List.map_map]
    rfl
  rw [hlength, ← hnumbers] at hsnd
  rw [List.zip_of_prod hfst hsnd, List.map_prod_left_eq_zip]

theorem rename?_prune_prune (h : index.WellFormed) (generation next : Nat) {id : ItemId}
    (hin : (index.prune generation).index.contains id) :
    ((index.prune generation).index.prune next).rename? id = some (id.reissue next) := by
  have hstacked := isStacked_prune h.stacked generation
  rw [rename?_eq_some_iff hstacked, renamed_prune_prune h]
  exact List.mem_map_of_mem ((mem_ids_iff hstacked).2 hin)

/-- The copy of a copy is the copy with its handles reissued. -/
theorem remap_prune_prune (h : index.WellFormed) (next : Nat) {id : ItemId} {copy : Item}
    (hcopy : (index.prune generation).index.get? id = some copy) :
    { copy with id := copy.id.reissue next }.remap
      ((index.prune generation).index.prune next).rename? = copy.map (ItemId.reissue next) := by
  have hwell := wellFormed_prune h generation
  refine Item.remap_eq_map (fun target htarget => ?_) ?_ ?_
  · exact rename?_prune_prune h generation next (hwell.resolves hcopy htarget)
  · exact nodup_filterMap_rename? hwell.stacked (hwell.dependencies_nodup hcopy)
  · exact nodup_filterMap_rename? hwell.stacked (hwell.incoming_nodup hcopy)

/-- The handles of a pruned index are of its own generation. -/
theorem reissue_of_contains_prune (h : index.WellFormed) {id : ItemId}
    (hin : (index.prune generation).index.contains id) : id.reissue generation = id := by
  have hmem := (mem_ids_iff (isStacked_prune h.stacked generation)).2 hin
  rw [ids_prune h.stacked, renamed_snd_eq h.stacked] at hmem
  obtain ⟨place, _, rfl⟩ := List.mem_map.1 hmem
  rfl

/-- Pruning a pruned index leaves nothing behind.  The new index holds the items of the pruned one,
in their order and under their numbers: only the generation of the handles is another. -/
theorem prune_prune (h : index.WellFormed) (generation next : Nat) :
    ((index.prune generation).index.prune next).removed = 0 ∧
      ((index.prune generation).index.prune next).index.items =
        (index.prune generation).index.items.map (Item.map (ItemId.reissue next)) ∧
      ∀ raw : UInt32, ((index.prune generation).index.prune next).index.get? ⟨raw, next⟩ =
        ((index.prune generation).index.get? ⟨raw, generation⟩).map
          (Item.map (ItemId.reissue next)) := by
  have hwell := wellFormed_prune h generation
  refine ⟨?_, ?_, fun raw => ?_⟩
  · show (index.prune generation).index.ids.length -
      ((index.prune generation).index.prune next).renamed.length = 0
    rw [renamed_prune_prune h, List.length_map, Nat.sub_self]
  · rw [items_prune hwell.stacked]
    refine List.filterMap_eq_map_iff_forall_eq_some.2 (fun copy hcopy => ?_)
    have hget := (mem_items_iff hwell.stacked).1 hcopy
    rw [rename?_prune_prune h generation next (Option.isSome_iff_exists.2 ⟨copy, hget⟩),
      Option.map_some, remap_prune_prune h next hget]
  · cases hget : (index.prune generation).index.get? ⟨raw, generation⟩ with
    | some copy =>
      have hid := id_of_get? hwell.stacked hget
      have hrename := rename?_prune_prune h generation next
        (Option.isSome_iff_exists.2 ⟨copy, hget⟩)
      have hagain := get?_prune_of_rename? hwell.stacked hrename hget
      rw [← hid, remap_prune_prune h next hget] at hagain
      rw [Option.map_some, ← hagain, hid]
      rfl
    | none =>
      rw [Option.map_none, ← Option.not_isSome_iff_eq_none]
      intro hsome
      obtain ⟨id, hrename⟩ := (contains_prune_iff hwell.stacked).1 hsome
      obtain ⟨copy, hcopy⟩ := exists_get?_of_rename? hwell.stacked hrename
      have hin : (index.prune generation).index.contains id := Option.isSome_iff_exists.2 ⟨copy, hcopy⟩
      have hsame := hrename.symm.trans (rename?_prune_prune h generation next hin)
      have hraw : raw = id.raw := congrArg ItemId.raw (Option.some.inj hsame)
      rw [← reissue_of_contains_prune h hin, ItemId.reissue, ← hraw, hget] at hcopy
      exact absurd hcopy (by simp)

theorem prune_prune_appBesideLib :
    appBesideLib.WellFormed ∧ (appBesideLib.prune 1).removed = 1 ∧
      ((appBesideLib.prune 1).index.prune 2).removed = 0 ∧
      ((appBesideLib.prune 1).index.prune 2).index.items =
        (appBesideLib.prune 1).index.items.map (Item.map (ItemId.reissue 2)) := by
  obtain ⟨hremoved, hitems, -⟩ := prune_prune appBesideLib_wellFormed 1 2
  exact ⟨appBesideLib_wellFormed, by decide +kernel, hremoved, hitems⟩

end Index

end CodeAtlas
