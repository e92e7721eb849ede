/-
# How far walks along links go

The bounded walks to an owner of a given kind and through the supertypes of a class end before their
bound is reached: owners stand in different heights, and every level of supertypes has a class that
was not seen before.  What they find does therefore not depend on the size of the index.
-/
import CodeAtlas.Proofs.Index.Sealing

namespace CodeAtlas.Index

variable {index : Index}

/-- What the walks rely on: every item is in its place, and supertypes are items. -/
structure Walkable (index : Index) : Prop where
  stacked : index.IsStacked
  placed : ∀ {id : ItemId} {item : Item}, index.get? id = some item → index.Placed item
  supertypes : ∀ {id target : ItemId}, target ∈ index.directSupertypes id → index.contains target

theorem Sealed.walkable (h : index.Sealed) : index.Walkable where
  stacked := h.coherent.stacked
  placed := h.coherent.owned.placed
  supertypes := by
    intro id target htarget
    rw [directSupertypes] at htarget
    split at htarget
    · rename_i item hget
      rcases List.mem_append.1 htarget with hsuper | hinterface
      · exact h.contains_of_id? hget (Option.mem_toList.1 hsuper)
      · rw [Item.superinterfaces] at hinterface
        cases hslot : item.attributes.ids? .superinterfaces with
        | none => simp [hslot] at hinterface
        | some targets =>
          rw [hslot, Option.getD_some, Array.mem_toList_iff] at hinterface
          exact h.contains_of_ids? hget hslot hinterface
    · simp at htarget

/-! ## Owners -/

/-- The parent of an item stands one step above it. -/
theorem Walkable.exists_parent (h : index.Walkable) {id owner : ItemId} {item : Item}
    (hget : index.get? id = some item) (hparent : item.parent = some owner) :
    ∃ ownerItem, index.get? owner = some ownerItem ∧
      item.kind.height = ownerItem.kind.height + 1 := by
  have hplaced := h.placed hget
  rw [Placed] at hplaced
  simp only [hparent] at hplaced
  obtain ⟨ownerItem, howner, hcontain⟩ := hplaced
  exact ⟨ownerItem, howner, ItemKind.height_of_canContain hcontain⟩

/-- The walk to an owner needs no more steps than the item has owners. -/
theorem Walkable.ownerWithin_eq (h : index.Walkable) (kind : ItemKind) {id : ItemId} {item : Item}
    (hget : index.get? id = some item) {m n : Nat} (hm : item.kind.height < m)
    (hn : item.kind.height < n) : index.ownerWithin kind m id = index.ownerWithin kind n id := by
  induction m generalizing id item n with
  | zero => omega
  | succ m ih =>
    obtain ⟨n, rfl⟩ : ∃ k, n = k + 1 := ⟨n - 1, by omega⟩
    rw [ownerWithin, ownerWithin, hget]
    dsimp only
    split
    · rfl
    · cases hparent : item.parent with
      | none => rfl
      | some owner =>
        obtain ⟨ownerItem, howner, hheight⟩ := h.exists_parent hget hparent
        exact ih howner (by omega) (by omega)

/-- An item and its owners are different items of the index. -/
theorem Walkable.exists_owners (h : index.Walkable) {id : ItemId} {item : Item}
    (hget : index.get? id = some item) :
    ∃ owners : List ItemId, owners.Nodup ∧ owners.length = item.kind.height + 1 ∧
      ∀ owner ∈ owners, ∃ ownerItem, index.get? owner = some ownerItem ∧
        ownerItem.kind.height ≤ item.kind.height := by
  generalize hn : item.kind.height = n
  induction n generalizing id item with
  | zero => exact ⟨[id], by simp, rfl, fun owner howner =>
      ⟨item, List.mem_singleton.1 howner ▸ hget, Nat.le_of_eq hn⟩⟩
  | succ n ih =>
    have hplaced := h.placed hget
    rw [Placed] at hplaced
    cases hparent : item.parent with
    | none =>
      simp only [hparent] at hplaced
      rw [hplaced] at hn
      simp [ItemKind.height] at hn
    | some owner =>
      obtain ⟨ownerItem, howner, hheight⟩ := h.exists_parent hget hparent
      obtain ⟨owners, hnodup, hlength, howners⟩ := ih howner (by omega)
      refine ⟨id :: owners, List.nodup_cons.2 ⟨fun hmem => ?_, hnodup⟩, by simp [hlength], ?_⟩
      · obtain ⟨other, hother, hless⟩ := howners id hmem
        obtain rfl := Option.some.inj (hget.symm.trans hother)
        omega
      · intro other hother
        rcases List.mem_cons.1 hother with rfl | hother
        · exact ⟨item, hget, Nat.le_of_eq hn⟩
        · obtain ⟨otherItem, hotherItem, hless⟩ := howners other hother
          exact ⟨otherItem, hotherItem, by omega⟩

theorem Walkable.height_lt_size (h : index.Walkable) {id : ItemId} {item : Item}
    (hget : index.get? id = some item) : item.kind.height < index.size := by
  obtain ⟨owners, hnodup, hlength, howners⟩ := h.exists_owners hget
  have hsub : owners ⊆ index.ids := by
    intro owner howner
    obtain ⟨ownerItem, hownerItem, _⟩ := howners owner howner
    exact mem_ids_of_get? h.stacked hownerItem
  have hle := (hnodup.subperm hsub).length_le
  rw [hlength, length_ids] at hle
  omega

/-- Four steps lead to every owner there is. -/
theorem Walkable.ownerOfKind_eq (h : index.Walkable) (kind : ItemKind) {id : ItemId} {item : Item}
    (hget : index.get? id = some item) :
    index.ownerOfKind kind id = index.ownerWithin kind 4 id := by
  have hsize := h.height_lt_size hget
  have hheight := item.kind.height_le
  exact h.ownerWithin_eq kind hget (by omega) (by omega)

/-- So does the walk that collects a qualified name. -/
theorem Walkable.qualifiedNameWithin_eq (h : index.Walkable) {id : ItemId} {item : Item}
    (hget : index.get? id = some item) {m n : Nat} (hm : item.kind.height < m)
    (hn : item.kind.height < n) :
    index.qualifiedNameWithin m id = index.qualifiedNameWithin n id := by
  induction m generalizing id item n with
  | zero => omega
  | succ m ih =>
    obtain ⟨n, rfl⟩ : ∃ k, n = k + 1 := ⟨n - 1, by omega⟩
    have howner : item.parent.bind (index.qualifiedNameWithin m) =
        item.parent.bind (index.qualifiedNameWithin n) := by
      cases hparent : item.parent with
      | none => rfl
      | some owner =>
        obtain ⟨ownerItem, howner, hheight⟩ := h.exists_parent hget hparent
        exact ih howner (by omega) (by omega)
    rw [qualifiedNameWithin, qualifiedNameWithin, hget]
    dsimp only
    rw [howner]

theorem Walkable.qualifiedName_eq (h : index.Walkable) {id : ItemId} {item : Item}
    (hget : index.get? id = some item) :
    index.qualifiedName id = index.qualifiedNameWithin 4 id := by
  have hsize := h.height_lt_size hget
  have hheight := item.kind.height_le
  exact h.qualifiedNameWithin_eq hget (by omega) (by omega)

/-! ## Supertypes -/

theorem mem_nextLevel_iff {seen level : List ItemId} {target : ItemId} :
    target ∈ index.nextLevel seen level ↔
      (∃ id ∈ level, target ∈ index.directSupertypes id) ∧ target ∉ seen := by
  rw [nextLevel, Array.mem_toList_iff, mem_distinct, List.mem_filter, List.mem_flatMap]
  simp

/-- A class and any of its supertypes, over any number of links. -/
def Inherits (index : Index) : ItemId → ItemId → Prop :=
  Relation.ReflTransGen (fun lower upper => upper ∈ index.directSupertypes lower)

/-- Only items have supertypes. -/
theorem directSupertypes_eq_nil {id : ItemId} (hid : ¬ index.contains id) :
    index.directSupertypes id = [] := by
  rw [Index.contains, Option.not_isSome_iff_eq_none] at hid
  rw [directSupertypes, hid]

/-- Every handle that names an item is listed. -/
def IsListed (index : Index) : Prop :=
  ∀ id, index.contains id → id ∈ index.ids

theorem IsStacked.isListed (h : index.IsStacked) : index.IsListed :=
  fun _ => (mem_ids_iff h).2

/-- The walk through the supertypes above a level, without a bound: it goes on until it finds no new
one. -/
inductive Climbs (index : Index) : List ItemId → List ItemId → List ItemId → Prop
  | stop {seen level : List ItemId} (hnext : index.nextLevel seen level = []) :
      Climbs index seen level []
  | climb {seen level above : List ItemId} (hnext : index.nextLevel seen level ≠ [])
      (habove : Climbs index (seen ++ index.nextLevel seen level) (index.nextLevel seen level) above) :
      Climbs index seen level (index.nextLevel seen level ++ above)

theorem Climbs.unique {seen level above other : List ItemId} (h : index.Climbs seen level above)
    (hother : index.Climbs seen level other) : above = other := by
  induction h generalizing other with
  | stop hnext =>
    cases hother with
    | stop _ => rfl
    | climb hmore _ => exact absurd hnext hmore
  | climb hnext _ ih =>
    cases hother with
    | stop hnone => exact absurd hnone hnext
    | climb _ habove => rw [ih habove]

/-- The number of items that were not seen. -/
def unseen (index : Index) (seen : List ItemId) : Nat :=
  (index.ids.filter (fun id => !seen.contains id)).length

theorem unseen_le_size (index : Index) (seen : List ItemId) : index.unseen seen ≤ index.size := by
  rw [unseen, ← length_ids]
  exact List.length_filter_le _ _

/-- A level with an item leaves fewer items unseen. -/
theorem unseen_append_lt (h : index.IsListed) {seen level : List ItemId} {target : ItemId}
    (hmem : target ∈ index.nextLevel seen level) (hitem : index.contains target) :
    index.unseen (seen ++ index.nextLevel seen level) < index.unseen seen := by
  have hsub : index.ids.filter
      (fun id => !(seen ++ index.nextLevel seen level).contains id) =
        (index.ids.filter (fun id => !seen.contains id)).filter
          (fun id => !(index.nextLevel seen level).contains id) := by
    rw [List.filter_filter]
    refine List.filter_congr (fun id _ => ?_)
    simp [Bool.and_comm]
  rw [unseen, unseen, hsub]
  refine List.length_filter_lt_length_iff_exists.2 ⟨target, ?_, by simp [hmem]⟩
  exact List.mem_filter.2 ⟨h target hitem, by simpa using (mem_nextLevel_iff.1 hmem).2⟩

/-- Above a level without items there is nothing. -/
theorem nextLevel_eq_nil {level : List ItemId} (hlevel : ∀ id ∈ level, ¬ index.contains id)
    (seen : List ItemId) : index.nextLevel seen level = [] := by
  refine List.eq_nil_iff_forall_not_mem.2 (fun target hmem => ?_)
  obtain ⟨⟨id, hid, htarget⟩, _⟩ := mem_nextLevel_iff.1 hmem
  rw [directSupertypes_eq_nil (hlevel id hid)] at htarget
  exact absurd htarget List.not_mem_nil

theorem supertypesAbove_eq_nil {seen level : List ItemId} (hnext : index.nextLevel seen level = [])
    (steps : Nat) : index.supertypesAbove steps seen level = [] := by
  cases steps with
  | zero => rfl
  | succ steps =>
    rw [supertypesAbove, hnext]
    rfl

/-- The walk through the supertypes needs no more levels than there are items unseen. -/
theorem climbs_supertypesAbove (h : index.IsListed) {steps : Nat} {seen : List ItemId}
    (hsteps : index.unseen seen < steps) (level : List ItemId) :
    index.Climbs seen level (index.supertypesAbove steps seen level) := by
  induction steps generalizing seen level with
  | zero => omega
  | succ steps ih =>
    rw [supertypesAbove]
    split
    · rename_i hempty
      exact .stop (List.isEmpty_iff.1 hempty)
    · rename_i hnext
      refine .climb (fun hnone => hnext (List.isEmpty_iff.2 hnone)) ?_
      -- handles without an item are never among the unseen, but they lead no further
      by_cases hitem : ∃ target ∈ index.nextLevel seen level, index.contains target
      · obtain ⟨target, hmem, hitem⟩ := hitem
        have hless := unseen_append_lt h hmem hitem
        exact ih (by omega) _
      · push Not at hitem
        have hlast := nextLevel_eq_nil (by simpa using hitem) (seen ++ index.nextLevel seen level)
        rw [supertypesAbove_eq_nil hlast]
        exact .stop hlast

theorem climbs_of_size_lt (h : index.IsListed) (id : ItemId) {steps : Nat}
    (hsteps : index.size < steps) :
    index.Climbs [id] [id] (index.supertypesAbove steps [id] [id]) := by
  have hle := index.unseen_le_size [id]
  exact climbs_supertypesAbove h (by omega) [id]

theorem climbs_supertypes (h : index.IsListed) (id : ItemId) :
    index.Climbs [id] [id] (index.supertypes id) :=
  climbs_of_size_lt h id (Nat.lt_succ_self _)

theorem supertypes_eq (h : index.IsListed) (id : ItemId) {steps : Nat}
    (hsteps : index.size < steps) : index.supertypes id = index.supertypesAbove steps [id] [id] :=
  (climbs_supertypes h id).unique (climbs_of_size_lt h id hsteps)

/-- Whatever the walk finds has a way down to the level where it began. -/
theorem Climbs.exists_of_mem {seen level above : List ItemId} {target : ItemId}
    (h : index.Climbs seen level above) (htarget : target ∈ above) :
    ∃ id ∈ level, index.Inherits id target := by
  induction h with
  | stop _ => exact absurd htarget List.not_mem_nil
  | climb _ _ ih =>
    rcases List.mem_append.1 htarget with hnext | habove
    · obtain ⟨⟨id, hid, hstep⟩, _⟩ := mem_nextLevel_iff.1 hnext
      exact ⟨id, hid, .single hstep⟩
    · obtain ⟨middle, hmiddle, hway⟩ := ih habove
      obtain ⟨⟨id, hid, hstep⟩, _⟩ := mem_nextLevel_iff.1 hmiddle
      exact ⟨id, hid, .head hstep hway⟩

/-- The walk leaves no supertype out: what was seen and what is found have no supertypes but these. -/
theorem Climbs.closed {seen level above : List ItemId} (h : index.Climbs seen level above)
    (hseen : ∀ id ∈ seen, id ∉ level → ∀ target ∈ index.directSupertypes id, target ∈ seen) :
    ∀ id ∈ seen ++ above, ∀ target ∈ index.directSupertypes id, target ∈ seen ++ above := by
  -- one level further up, only the new level has supertypes that were not seen
  have hlevel : ∀ {seen level : List ItemId},
      (∀ id ∈ seen, id ∉ level → ∀ target ∈ index.directSupertypes id, target ∈ seen) →
      ∀ id ∈ seen ++ index.nextLevel seen level, id ∉ index.nextLevel seen level →
        ∀ target ∈ index.directSupertypes id, target ∈ seen ++ index.nextLevel seen level := by
    intro seen level hseen id hid hlast target htarget
    have hold := (List.mem_append.1 hid).resolve_right hlast
    by_cases hbefore : target ∈ seen
    · exact List.mem_append_left _ hbefore
    · refine List.mem_append_right _ (mem_nextLevel_iff.2 ⟨⟨id, ?_, htarget⟩, hbefore⟩)
      by_contra hnot
      exact hbefore (hseen id hold hnot target htarget)
  induction h with
  | stop hnext =>
    have hlast := hlevel hseen
    rw [hnext] at hlast
    simpa using hlast
  | climb _ _ ih =>
    rw [← List.append_assoc]
    exact ih (hlevel hseen)

/-- The walk through the supertypes of a class finds all of them and nothing else. -/
theorem mem_withSupertypes_iff (h : index.IsListed) {id target : ItemId} :
    target ∈ index.withSupertypes id ↔ index.Inherits id target := by
  have hclimbs := climbs_supertypes h id
  constructor
  · intro hmem
    rcases List.mem_cons.1 hmem with rfl | habove
    · exact .refl
    · obtain ⟨start, hstart, hway⟩ := hclimbs.exists_of_mem habove
      rwa [List.mem_singleton.1 hstart] at hway
  · have hclosed := hclimbs.closed (fun other hother hnot => absurd hother hnot)
    intro hway
    induction hway with
    | refl => exact List.mem_cons_self
    | tail _ hstep ih => exact hclosed _ ih _ hstep

end CodeAtlas.Index
