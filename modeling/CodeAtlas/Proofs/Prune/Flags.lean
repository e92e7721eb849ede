/-
# Flagging before and after pruning

Flagging asks for the nearest project on the way up from an item, pruning for the end of its parent
chain.  The two differ where a project has an owner: the members of a project that is not flagged
itself stay unflagged below a flagged one.  Flagging never flags a project, and a kept item keeps its
owners, so both answers are the same for the copies and after flagging.  Members can therefore be
flagged before pruning or after it, and flagging them again finds nothing to do.
-/
import CodeAtlas.Proofs.Prune.Embedding
import CodeAtlas.Proofs.Prune.Idempotent

namespace CodeAtlas

/-! ## Flags of one item -/

namespace Item

/-- What marks a third-party item, if anything, is a flag and not a handle. -/
def MarksByFlag (item : Item) : Prop :=
  ∀ value, item.attributes.get? .thirdParty = some value → value.targets = []

/-- Two items that lead to the same items. -/
structure LeadsAlike (item other : Item) : Prop where
  parent_eq : other.parent = item.parent
  children_eq : other.children = item.children
  dependencies_eq : other.dependencies = item.dependencies
  incoming_eq : other.incoming = item.incoming
  hasAttribute_iff : ∀ target, other.HasAttribute target ↔ item.HasAttribute target

theorem LeadsAlike.symm {item other : Item} (h : item.LeadsAlike other) : other.LeadsAlike item where
  parent_eq := h.parent_eq.symm
  children_eq := h.children_eq.symm
  dependencies_eq := h.dependencies_eq.symm
  incoming_eq := h.incoming_eq.symm
  hasAttribute_iff target := (h.hasAttribute_iff target).symm

/-- Setting a flag that holds changes nothing. -/
theorem setFlag_of_flag {item : Item} {key : AttrKey} (h : item.attributes.flag key = true) :
    item.setFlag key true = item := by
  have hattributes : item.attributes.set key (.flag true) = item.attributes := by
    refine Attributes.eq_of_get? (fun other => ?_)
    rw [Attributes.get?_set]
    split
    · rename_i hkey
      subst hkey
      unfold Attributes.flag at h
      split at h
      · rename_i value hslot
        rw [hslot, h]
      · simp at h
    · rfl
  rw [setFlag, set, hattributes]

@[simp] theorem isThirdParty_setFlag (item : Item) : (item.setFlag .thirdParty true).isThirdParty := by
  rw [isThirdParty, Attributes.flag, setFlag, set, Attributes.get?_set, if_pos rfl]

/-- A flag is set before handles are renamed or after that. -/
theorem remap_setFlag (item : Item) (rename? : ItemId → Option ItemId) (key : AttrKey)
    (value : Bool) : (item.setFlag key value).remap rename? = (item.remap rename?).setFlag key value := by
  have hattributes : (item.attributes.set key (.flag value)).remap rename? =
      (item.attributes.remap rename?).set key (.flag value) := by
    refine Attributes.eq_of_get? (fun other => ?_)
    rw [Attributes.get?_remap, Attributes.get?_set, Attributes.get?_set, Attributes.get?_remap]
    split <;> rfl
  unfold setFlag set remap
  rw [← hattributes]

end Item

namespace Setting

/-- Nothing that can be set puts a handle in the place of the mark. -/
theorem marksByFlag_apply {item : Item} (h : item.MarksByFlag) (setting : Setting ItemId) :
    (setting.apply item).MarksByFlag := by
  intro value hvalue
  cases setting with
  | one key target =>
    have hkey : key.1 ≠ .thirdParty := fun heq => by simpa [heq, AttrKey.holdsOne] using key.2
    rw [apply, Item.setId, Item.set, Attributes.get?_set, if_neg hkey] at hvalue
    exact h value hvalue
  | member key target =>
    have hkey : key.1 ≠ .thirdParty := fun heq => by simpa [heq, AttrKey.holdsMany] using key.2
    rw [apply, Item.pushNew, Attributes.pushNew, Attributes.get?_alter, if_neg hkey] at hvalue
    exact h value hvalue
  | params types =>
    rw [apply, Item.setParamTypes, Item.set, Attributes.get?_set, if_neg (by simp)] at hvalue
    exact h value hvalue
  | flag key flagged =>
    rw [apply, Item.setFlag, Item.set, Attributes.get?_set] at hvalue
    split at hvalue
    · obtain rfl := Option.some.inj hvalue
      rfl
    · exact h value hvalue

theorem marksByFlag_applyAll {item : Item} (h : item.MarksByFlag)
    (settings : List (Setting ItemId)) : (applyAll settings item).MarksByFlag := by
  induction settings generalizing item with
  | nil => exact h
  | cons setting rest ih => exact ih (marksByFlag_apply h setting)

end Setting

namespace Index

variable {index : Index} {generation : Nat}

/-! ## Indices that operations build -/

/-- The mark of every third-party item is a flag. -/
def MarksByFlag (index : Index) : Prop :=
  ∀ (id : ItemId) (item : Item), index.get? id = some item → item.MarksByFlag

theorem MarksByFlag.of_attributes {a b : Index} (h : a.MarksByFlag)
    (hfrom : ∀ id item, b.get? id = some item → item.attributes = .empty ∨
      ∃ before, a.get? id = some before ∧ item.attributes = before.attributes) :
    b.MarksByFlag := by
  intro id item hget value hvalue
  rcases hfrom id item hget with hempty | ⟨before, hbefore, hattributes⟩
  · rw [hempty] at hvalue
    simp [Attributes.get?, Attributes.empty] at hvalue
  · exact h id before hbefore value (hattributes ▸ hvalue)

theorem MarksByFlag.relink (h : index.MarksByFlag) (source target : ItemId)
    (f g : Array ItemId → Array ItemId) : (index.relink source target f g).MarksByFlag := by
  refine h.of_attributes (fun id item hget => Or.inr ?_)
  rw [Index.relink] at hget
  obtain ⟨middle, hmiddle, hlast⟩ := exists_attributes_of_get?_modify (by exact fun _ => rfl) hget
  obtain ⟨before, hbefore, hfirst⟩ :=
    exists_attributes_of_get?_modify (by exact fun _ => rfl) hmiddle
  exact ⟨before, hbefore, hlast.trans hfirst⟩

theorem Change.marksByFlag {a b : Index} {allowed : ItemId → Prop} (h : Change allowed a b)
    (ha : a.Coherent) (hmarks : a.MarksByFlag) : b.MarksByFlag := by
  cases h with
  | set id settings _ =>
    intro other item hget
    rw [get?_modify] at hget
    split at hget
    · rename_i hid
      obtain ⟨before, hbefore, rfl⟩ := Option.map_eq_some_iff.1 hget
      exact Setting.marksByFlag_applyAll (hmarks id before hbefore) settings
    · exact hmarks other item hget
  | insert htake hnew =>
    refine hmarks.of_attributes (fun id item hget => ?_)
    rcases exists_of_get?_insertItem ha.tallied (htake.ne_nextId ha.tallied) hget with
      ⟨_, rfl⟩ | ⟨before, hbefore, _, _, _, hattributes⟩
    · exact Or.inl rfl
    · exact Or.inr ⟨before, hbefore, hattributes⟩
  | addDependency source target =>
    rw [Index.addDependency]
    split
    · exact hmarks
    · exact hmarks.relink source target (insertNew · target) (insertNew · source)
  | removeDependency source target =>
    exact hmarks.relink source target (·.erase target) (·.erase source)

theorem Evolves.marksByFlag {a b : Index} {allowed : ItemId → Prop} (h : Evolves allowed a b)
    (ha : a.Coherent) (hmarks : a.MarksByFlag) (hroom : b.size < 2 ^ 32) : b.MarksByFlag := by
  induction h with
  | refl => exact hmarks
  | tail hbefore hchange ih =>
    have hless := Nat.lt_of_le_of_lt hchange.continues.size_le hroom
    exact hchange.marksByFlag (Evolves.coherent hbefore ha hless) (ih hless)

theorem ClosedStep.marksByFlag {a b : Index} (h : ClosedStep a b) (ha : a.Coherent)
    (hmarks : a.MarksByFlag) (hroom : b.size < 2 ^ 32) : b.MarksByFlag := by
  cases h with
  | operation _ => exact (ha.evolves_run _ hroom).marksByFlag ha hmarks hroom
  | layer hnew =>
    have hget := get?_onBase ha.stacked (generation_ne_of_mem_ids ha.stacked hnew)
    exact fun id item hitem => hmarks id item ((hget id).symm.trans hitem)

/-- What operations and layers build, recording items of the index only, is marked by flags. -/
theorem ClosedReachable.marksByFlag (h : index.ClosedReachable) (hroom : index.size < 2 ^ 32) :
    index.MarksByFlag := by
  obtain ⟨generation, hsteps⟩ := h
  induction hsteps with
  | refl => exact fun id item hget => absurd hget (by simp [get?_empty])
  | tail hbefore hstep ih =>
    have hless := Nat.lt_of_le_of_lt hstep.step.size_le hroom
    have hcoherent := (ClosedReachable.isSealed ⟨generation, hbefore⟩ hless).coherent
    exact hstep.marksByFlag hcoherent (ih hless) hroom

/-! ## What gets flagged -/

/-- What gets flagged: the members of third-party projects that are not flagged yet. -/
theorem mem_unflagged_iff (h : index.IsStacked) {id : ItemId} : id ∈ index.unflagged ↔
    ∃ item, index.get? id = some item ∧ item.isThirdParty = false ∧ index.inThirdParty id = true := by
  rw [unflagged, List.mem_map]
  constructor
  · rintro ⟨item, hmem, rfl⟩
    obtain ⟨hitem, htest⟩ := List.mem_filter.1 hmem
    rw [Bool.and_eq_true, Bool.not_eq_true'] at htest
    exact ⟨item, (mem_items_iff h).1 hitem, htest⟩
  · rintro ⟨item, hget, hflag, hthird⟩
    have hid := id_of_get? h hget
    refine ⟨item, List.mem_filter.2 ⟨(mem_items_iff h).2 (by rw [hid, hget]), ?_⟩, hid⟩
    rw [Bool.and_eq_true, Bool.not_eq_true', hid]
    exact ⟨hflag, hthird⟩

/-- Flagging sets the flag of the members of third-party projects and changes nothing else. -/
theorem get?_propagateThirdParty_eq_map (h : index.IsStacked) (id : ItemId) :
    index.propagateThirdParty.2.get? id = (index.get? id).map (fun item =>
      if index.inThirdParty id then item.setFlag .thirdParty true else item) := by
  rw [get?_propagateThirdParty h]
  cases hget : index.get? id with
  | none => simp
  | some item =>
    have hmem : id ∈ index.unflagged ↔
        item.isThirdParty = false ∧ index.inThirdParty id = true := by
      rw [mem_unflagged_iff h]
      simp [hget]
    rw [Option.map_some, Option.map_some]
    by_cases hthird : index.inThirdParty id = true
    · rw [if_pos hthird]
      by_cases hflag : item.isThirdParty = true
      · rw [if_neg (fun hnew => by simp [(hmem.1 hnew).1] at hflag), Item.setFlag_of_flag hflag]
      · rw [if_pos (hmem.2 ⟨by simpa using hflag, hthird⟩)]
    · rw [if_neg hthird, if_neg (fun hnew => hthird (hmem.1 hnew).2)]

/-! ## What flagging leaves alone -/

theorem isStacked_propagateThirdParty (h : index.IsStacked) :
    index.propagateThirdParty.2.IsStacked :=
  isStacked_foldl_modify h index.unflagged (fun _ => rfl)

theorem ids_propagateThirdParty (h : index.IsStacked) :
    index.propagateThirdParty.2.ids = index.ids :=
  ids_eq_of_contains (isStacked_propagateThirdParty h) h (contains_propagateThirdParty h)

/-- A member leads to the same items after it is flagged: no attribute is lost. -/
theorem leadsAlike_propagateThirdParty (h : index.IsStacked)
    (hmarks : index.MarksByFlag) {id : ItemId} {item flagged : Item}
    (hget : index.get? id = some item)
    (hflagged : index.propagateThirdParty.2.get? id = some flagged) : item.LeadsAlike flagged := by
  obtain ⟨other, hother, hsame⟩ := reflagged_propagateThirdParty h hget
  obtain rfl := Option.some.inj (hflagged.symm.trans hother)
  refine ⟨hsame.parent_eq, hsame.children_eq, hsame.dependencies_eq, hsame.incoming_eq,
    fun target => ⟨hsame.hasAttribute, ?_⟩⟩
  rintro ⟨key, value, hvalue, htarget⟩
  -- the mark holds no handle, and the other attributes are as they were
  have hkey : key ≠ .thirdParty := by
    rintro rfl
    rw [hmarks id item hget _ hvalue] at htarget
    simp at htarget
  exact ⟨key, value, (hsame.get?_eq hkey).trans hvalue, htarget⟩

/-- The rules of keeping look at nothing but owners and at what items lead to. -/
theorem IsClosed.of_leadsAlike {a b : Index} {kept : Set ItemId} (h : a.IsClosed kept)
    (hin : ∀ id, b.contains id = a.contains id)
    (hthird : ∀ id, b.OwnedByThirdParty id ↔ a.OwnedByThirdParty id)
    (hitem : ∀ {id : ItemId} {item : Item}, b.get? id = some item →
      ∃ other, a.get? id = some other ∧ other.LeadsAlike item) : b.IsClosed kept := by
  refine ⟨?_, ?_, ?_⟩
  · intro id hknown hfirst
    rw [hin] at hknown
    exact h.first_party hknown (fun hother => hfirst ((hthird id).2 hother))
  · intro id target item hid hget hfirst hknown hrefers
    obtain ⟨other, hother, halike⟩ := hitem hget
    rw [halike.parent_eq, halike.children_eq, halike.dependencies_eq, halike.incoming_eq,
      halike.hasAttribute_iff] at hrefers
    rw [hin] at hknown
    rw [hthird] at hfirst
    exact h.of_first_party hid hother hfirst hknown hrefers
  · intro id target item hid hget howned hknown hrefers
    obtain ⟨other, hother, halike⟩ := hitem hget
    rw [halike.parent_eq, halike.dependencies_eq, halike.hasAttribute_iff] at hrefers
    rw [hin] at hknown
    exact h.of_third_party hid hother ((hthird id).1 howned) hknown hrefers

/-- The rules of keeping are the same before and after. -/
theorem isClosed_propagateThirdParty_iff (h : index.IsStacked) (hmarks : index.MarksByFlag)
    {kept : Set ItemId} :
    index.propagateThirdParty.2.IsClosed kept ↔ index.IsClosed kept := by
  have hin := contains_propagateThirdParty h
  have hthird : ∀ id, index.propagateThirdParty.2.OwnedByThirdParty id ↔
      index.OwnedByThirdParty id := fun _ => ownedByThirdParty_propagate_iff h
  constructor
  · intro hclosed
    refine hclosed.of_leadsAlike (fun id => (hin id).symm) (fun id => (hthird id).symm)
      (fun hget => ?_)
    obtain ⟨flagged, hflagged, -⟩ := reflagged_propagateThirdParty h hget
    exact ⟨flagged, hflagged, (leadsAlike_propagateThirdParty h hmarks hget hflagged).symm⟩
  · intro hclosed
    refine hclosed.of_leadsAlike hin hthird (fun hflagged => ?_)
    obtain ⟨item, hget, -⟩ := exists_reflagged h hflagged
    exact ⟨item, hget, leadsAlike_propagateThirdParty h hmarks hget hflagged⟩

/-- So the same items are kept. -/
theorem keptIds_propagateThirdParty (h : index.IsStacked) (hmarks : index.MarksByFlag) :
    index.propagateThirdParty.2.keptIds = index.keptIds := by
  have hclosed : {kept : Set ItemId | index.propagateThirdParty.2.IsClosed kept} =
      {kept : Set ItemId | index.IsClosed kept} :=
    Set.ext (fun _ => isClosed_propagateThirdParty_iff h hmarks)
  have hleast := isLeast_retained (isStacked_propagateThirdParty h)
  rw [hclosed] at hleast
  have hretained := hleast.unique (isLeast_retained h)
  unfold keptIds
  rw [ids_propagateThirdParty h]
  refine List.filter_congr (fun id _ => ?_)
  rw [Bool.eq_iff_iff, Std.TreeSet.contains_iff_mem, Std.TreeSet.contains_iff_mem]
  exact Set.ext_iff.1 hretained id

/-- What is kept decides the new handles. -/
theorem renamed_eq_of_keptIds {a b : Index} (ha : a.IsStacked) (hb : b.IsStacked)
    (h : a.keptIds = b.keptIds) (generation : Nat) :
    (a.prune generation).renamed = (b.prune generation).renamed := by
  have hfst := (adoptAll_keptIds ha generation).1
  rw [h, ← (adoptAll_keptIds hb generation).1] at hfst
  have hlength : (a.prune generation).renamed.length = (b.prune generation).renamed.length := by
    have hlengths := congrArg List.length hfst
    rwa [List.length_map, List.length_map] at hlengths
  have hsnd : (a.prune generation).renamed.map Prod.snd =
      (b.prune generation).renamed.map Prod.snd := by
    rw [renamed_snd_eq ha, renamed_snd_eq hb, hlength]
  rw [List.zip_of_prod hfst hsnd, ← List.zip_of_prod rfl rfl]

/-! ## Pruning and flagging in either order -/

theorem rename?_propagateThirdParty (h : index.IsStacked) (hmarks : index.MarksByFlag)
    (generation : Nat) :
    (index.propagateThirdParty.2.prune generation).rename? = (index.prune generation).rename? := by
  funext old
  unfold Pruned.rename?
  rw [renamed_eq_of_keptIds (isStacked_propagateThirdParty h) h
    (keptIds_propagateThirdParty h hmarks)]

/-- The copy of a flagged item is the flagged copy of the item. -/
theorem get?_prune_propagateThirdParty (h : index.WellFormed) (hmarks : index.MarksByFlag)
    (generation : Nat) (new : ItemId) :
    (index.propagateThirdParty.2.prune generation).index.get? new =
      (index.prune generation).index.propagateThirdParty.2.get? new := by
  have hstacked := isStacked_propagateThirdParty h.stacked
  have hpruned := isStacked_prune h.stacked generation
  have hrename := rename?_propagateThirdParty h.stacked hmarks generation
  rw [get?_propagateThirdParty_eq_map hpruned]
  cases hcopy : (index.prune generation).index.get? new with
  | none =>
    rw [Option.map_none, ← Option.not_isSome_iff_eq_none]
    intro hsome
    obtain ⟨old, hold⟩ := (contains_prune_iff hstacked).1 hsome
    rw [hrename] at hold
    have hin := (contains_prune_iff h.stacked).2 ⟨old, hold⟩
    rw [contains, hcopy] at hin
    simp at hin
  | some copy =>
    obtain ⟨old, item, hold, hget, rfl⟩ := (get?_prune_eq_some_iff h.stacked).1 hcopy
    have hflagged := get?_propagateThirdParty_eq_map h.stacked old
    have hsame : (index.prune generation).index.inThirdParty new = index.inThirdParty old := by
      rw [Bool.eq_iff_iff, inThirdParty_iff hpruned, inThirdParty_iff h.stacked]
      exact inFlaggedProject_prune_iff h hold
    rw [hget, Option.map_some] at hflagged
    have hstill : (index.propagateThirdParty.2.prune generation).rename? old = some new := by
      rw [hrename]
      exact hold
    rw [Option.map_some, hsame, get?_prune_of_rename? hstacked hstill hflagged, hrename]
    cases index.inThirdParty old with
    | true => exact congrArg some (Item.remap_setFlag { item with id := new } _ _ _)
    | false => rfl

/-- Flagging tells how many items it flags. -/
theorem propagateThirdParty_fst (h : index.IsStacked) :
    index.propagateThirdParty.1 = (index.items.filter (fun item =>
      !item.isThirdParty && (index.propagateThirdParty.2.get? item.id).any Item.isThirdParty)).length := by
  show (index.unflagged).length = _
  rw [unflagged, List.length_map]
  refine congrArg List.length (List.filter_congr (fun item hmem => ?_))
  have hnow := get?_propagateThirdParty_eq_map h item.id
  rw [(mem_items_iff h).1 hmem, Option.map_some] at hnow
  rw [hnow, Option.any_some]
  cases hthird : index.inThirdParty item.id <;> cases hflag : item.isThirdParty <;> simp [hflag]

/-- Flagging again finds none. -/
theorem propagateThirdParty_propagateThirdParty_fst (h : index.IsStacked) :
    index.propagateThirdParty.2.propagateThirdParty.1 = 0 := by
  have hstacked := isStacked_propagateThirdParty h
  show index.propagateThirdParty.2.unflagged.length = 0
  rw [List.length_eq_zero_iff, List.eq_nil_iff_forall_not_mem]
  intro id hmem
  obtain ⟨now, hnow, hnot, hthird⟩ := (mem_unflagged_iff hstacked).1 hmem
  rw [inThirdParty_iff hstacked, inFlaggedProject_propagate_iff h, ← inThirdParty_iff h] at hthird
  rw [get?_propagateThirdParty_eq_map h, hthird] at hnow
  obtain ⟨item, -, rfl⟩ := Option.map_eq_some_iff.1 hnow
  simp at hnot

/-- Flagging the members of third-party projects and pruning give the same items in either order.
Flagging changes nothing but flags: afterwards an item is flagged when it was before or when the
nearest project on its way up is, and that is the project at the end of its parent chain where no
project has an owner.  It tells how many items are flagged anew, and flagging again finds none. -/
theorem propagateThirdParty_prune (h : index.WellFormed) (hmarks : index.MarksByFlag)
    (generation : Nat) :
    let flagged := index.propagateThirdParty.2
    (flagged.prune generation).index.items =
        (index.prune generation).index.propagateThirdParty.2.items ∧
      (∀ id, (flagged.prune generation).index.get? id =
        (index.prune generation).index.propagateThirdParty.2.get? id) ∧
      flagged.ids = index.ids ∧
      (∀ id, flagged.get? id = (index.get? id).map (fun item =>
        if index.inThirdParty id then item.setFlag .thirdParty true else item)) ∧
      (∀ parent name kind, flagged.findAll parent name kind = index.findAll parent name kind) ∧
      (∀ kind name, flagged.findByName kind name = index.findByName kind name) ∧
      (∀ id item now, index.get? id = some item → flagged.get? id = some now →
        (now.isThirdParty ↔ item.isThirdParty ∨ index.InFlaggedProject id)) ∧
      ((∀ id item, index.get? id = some item → item.kind = .project → item.parent = none) →
        ∀ id, index.InFlaggedProject id ↔ index.OwnedByThirdParty id) ∧
      index.propagateThirdParty.1 = (index.items.filter (fun item =>
        !item.isThirdParty && (flagged.get? item.id).any Item.isThirdParty)).length ∧
      flagged.propagateThirdParty.1 = 0 := by
  intro flagged
  have hstacked := isStacked_propagateThirdParty h.stacked
  have hget := get?_prune_propagateThirdParty h hmarks generation
  have hflagged := get?_propagateThirdParty_eq_map h.stacked
  refine ⟨?_, hget, ids_propagateThirdParty h.stacked, hflagged, findAll_propagateThirdParty index,
    fun kind name => findByName_propagateThirdParty index name kind, ?_,
    fun hroots => inFlaggedProject_iff_ownedByThirdParty (hroots _ _),
    propagateThirdParty_fst h.stacked, propagateThirdParty_propagateThirdParty_fst h.stacked⟩
  · have hids : (flagged.prune generation).index.ids =
        (index.prune generation).index.propagateThirdParty.2.ids := by
      refine ids_eq_of_contains (isStacked_prune hstacked generation)
        (isStacked_propagateThirdParty (isStacked_prune h.stacked generation)) (fun id => ?_)
      rw [contains, contains, hget]
    rw [items, items, hids]
    exact List.filterMap_congr (fun id _ => hget id)
  · intro id item now hitem hnow
    have hset := hnow.symm.trans (hflagged id)
    rw [hitem, Option.map_some, Option.some.injEq] at hset
    rw [hset, ← inThirdParty_iff h.stacked]
    cases index.inThirdParty id <;> simp

/-- A check of finitely many items tells whether the marks are flags. -/
theorem marksByFlag_of_items (h : index.IsStacked) (hitems : ∀ item ∈ index.items,
    ∀ value ∈ item.attributes.get? .thirdParty, value.targets = []) : index.MarksByFlag := by
  intro id item hget value hvalue
  have hmem : item ∈ index.items := (mem_items_iff h).2 (by rw [id_of_get? h hget, hget])
  exact hitems item hmem value hvalue

/-- Of the third-party project, its two packages get flagged, and one of them is left behind. -/
theorem propagateThirdParty_prune_appBesideLib :
    appBesideLib.WellFormed ∧ appBesideLib.MarksByFlag ∧ appBesideLib.propagateThirdParty.1 = 2 ∧
      (appBesideLib.propagateThirdParty.2.prune 1).index.items =
        (appBesideLib.prune 1).index.propagateThirdParty.2.items ∧
      (appBesideLib.prune 1).index.propagateThirdParty.1 = 1 ∧
      appBesideLib.propagateThirdParty.2.propagateThirdParty.1 = 0 := by
  have hmarks := marksByFlag_of_items appBesideLib_wellFormed.stacked (by decide +kernel)
  obtain ⟨hitems, -, -, -, -, -, -, -, -, hagain⟩ :=
    propagateThirdParty_prune appBesideLib_wellFormed hmarks 1
  exact ⟨appBesideLib_wellFormed, hmarks, by decide +kernel, hitems, by decide +kernel, hagain⟩

/-! ## A project that belongs to another -/

/-- A project with a package, linked under a third-party project. -/
def appUnderLib : Index :=
  let lib := { (Item.fresh ⟨0, 0⟩ "lib" .project none).setFlag .thirdParty true with
    children := #[⟨1, 0⟩] }
  let app := { Item.fresh ⟨1, 0⟩ "app" .project (some ⟨0, 0⟩) with children := #[⟨2, 0⟩] }
  let util := Item.fresh ⟨2, 0⟩ "util" .package (some ⟨1, 0⟩)
  ([lib, app, util].foldl store (empty 0)).rebuildRegistry

theorem appUnderLib_wellFormed : appUnderLib.WellFormed := by
  refine wellFormed_rebuildRegistry ?_ rfl (by decide +kernel) (by decide +kernel)
  refine isStacked_store (isStacked_store (isStacked_store (isStacked_empty 0) ?_) ?_) ?_
  all_goals exact ⟨rfl, by decide⟩

/-- The project at the top of the package's parent chain is flagged, but the nearest one is not, and
the package stays as it is. -/
theorem not_flagged_appUnderLib :
    appUnderLib.WellFormed ∧ appUnderLib.MarksByFlag ∧ appUnderLib.OwnedByThirdParty ⟨2, 0⟩ ∧
      appUnderLib.propagateThirdParty.1 = 0 ∧
      ¬ ∀ id item now, appUnderLib.get? id = some item →
        appUnderLib.propagateThirdParty.2.get? id = some now →
        (now.isThirdParty ↔ item.isThirdParty ∨ appUnderLib.OwnedByThirdParty id) := by
  have hstacked := appUnderLib_wellFormed.stacked
  have howned : appUnderLib.OwnedByThirdParty ⟨2, 0⟩ :=
    (ownedByThirdParty_iff hstacked _).1 (by decide +kernel)
  refine ⟨appUnderLib_wellFormed, marksByFlag_of_items hstacked (by decide +kernel), howned,
    by decide +kernel, fun hall => ?_⟩
  have hunflagged : (appUnderLib.propagateThirdParty.2.get? ⟨2, 0⟩).any
      (fun now => !now.isThirdParty) := by
    decide +kernel
  obtain ⟨now, hnow, hflag⟩ := (Option.any_eq_true _ _).1 hunflagged
  obtain ⟨item, hitem, -⟩ := exists_reflagged hstacked hnow
  rw [(hall _ item now hitem hnow).2 (Or.inr howned)] at hflag
  simp at hflag

end Index

end CodeAtlas
