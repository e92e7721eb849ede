/-
# What pruning keeps

The worklist of pruning computes the least set of handles that contains every item of a first-party
project and is closed under the rules of keeping: an item of a first-party project leads to
everything it refers to, an item of a third-party project to its owner, its dependencies and its
attributes.

The loop invariant says that everything known is kept, that what a kept item leads to is kept once
the item has left the worklist, and that nothing outside a closed set is ever added.
-/
import CodeAtlas.Proofs.Index.Ancestors
import Mathlib.Data.List.Induction
import Mathlib.Order.Bounds.Basic

namespace CodeAtlas

/-- Some attribute of the item holds the handle. -/
def Item.HasAttribute (item : Item) (target : ItemId) : Prop :=
  ∃ key value, item.attributes.get? key = some value ∧ target ∈ value.targets

theorem AttrKey.mem_all (key : AttrKey) : key ∈ AttrKey.all := by
  cases key <;> decide

/-- The handles in the attributes, key by key. -/
theorem Item.mem_attributeIds_iff {item : Item} {target : ItemId} :
    target ∈ item.attributeIds ↔ item.HasAttribute target := by
  simp only [attributeIds, Attributes.targets, Attributes.toList, List.mem_flatMap,
    List.mem_filterMap, Option.map_eq_some_iff, HasAttribute]
  constructor
  · rintro ⟨_, ⟨key, _, value, hvalue, rfl⟩, htarget⟩
    exact ⟨key, value, hvalue, htarget⟩
  · rintro ⟨key, value, hvalue, htarget⟩
    exact ⟨(key, value), ⟨key, AttrKey.mem_all key, value, hvalue, rfl⟩, htarget⟩

namespace Index

variable {index : Index}

/-- A set of handles that pruning may keep: it has every item of a first-party project, with every
existing owner, member, dependency, dependent and attribute of its first-party items and every
existing owner, dependency and attribute of its third-party items. -/
structure IsClosed (index : Index) (kept : Set ItemId) : Prop where
  first_party : ∀ {id : ItemId}, index.contains id → ¬ index.OwnedByThirdParty id → id ∈ kept
  of_first_party : ∀ {id target : ItemId} {item : Item}, id ∈ kept → index.get? id = some item →
    ¬ index.OwnedByThirdParty id → index.contains target →
    (item.parent = some target ∨ target ∈ item.children ∨ target ∈ item.dependencies ∨
      target ∈ item.incoming ∨ item.HasAttribute target) → target ∈ kept
  of_third_party : ∀ {id target : ItemId} {item : Item}, id ∈ kept → index.get? id = some item →
    index.OwnedByThirdParty id → index.contains target →
    (item.parent = some target ∨ target ∈ item.dependencies ∨ item.HasAttribute target) →
    target ∈ kept

/-! ## One step -/

/-- What a first-party item leads to. -/
theorem mem_leadsTo_of_first_party (h : index.IsStacked) {id target : ItemId} {item : Item}
    (hget : index.get? id = some item) (hfirst : ¬ index.OwnedByThirdParty id) :
    target ∈ index.leadsTo id ↔ index.contains target ∧
      (item.parent = some target ∨ target ∈ item.children ∨ target ∈ item.dependencies ∨
        target ∈ item.incoming ∨ item.HasAttribute target) := by
  rw [← ownedByThirdParty_iff h, Bool.not_eq_true] at hfirst
  simp only [leadsTo, hget, hfirst, Bool.false_eq_true, if_false, List.mem_filter,
    Item.referencedIds, List.mem_append, Option.mem_toList, Array.mem_toList_iff,
    Item.mem_attributeIds_iff, or_assoc]
  exact And.comm

/-- What a third-party item leads to. -/
theorem mem_leadsTo_of_third_party (h : index.IsStacked) {id target : ItemId} {item : Item}
    (hget : index.get? id = some item) (hthird : index.OwnedByThirdParty id) :
    target ∈ index.leadsTo id ↔ index.contains target ∧
      (item.parent = some target ∨ target ∈ item.dependencies ∨ item.HasAttribute target) := by
  rw [← ownedByThirdParty_iff h] at hthird
  simp only [leadsTo, hget, hthird, if_true, List.mem_filter, List.mem_append, Option.mem_toList,
    Array.mem_toList_iff, Item.mem_attributeIds_iff, or_assoc]
  exact And.comm

/-- Whoever it is, an item leads to its owner, its dependencies and its attributes. -/
theorem mem_leadsTo_of_forward {id target : ItemId} {item : Item}
    (hget : index.get? id = some item) (hknown : index.contains target)
    (hforward : item.parent = some target ∨ target ∈ item.dependencies ∨
      item.HasAttribute target) : target ∈ index.leadsTo id := by
  rw [leadsTo, hget]
  refine List.mem_filter.2 ⟨?_, hknown⟩
  rw [← Item.mem_attributeIds_iff] at hforward
  split <;>
    simp only [Item.referencedIds, List.mem_append, Option.mem_toList, Array.mem_toList_iff] <;>
    tauto

/-- An item leads to existing items only. -/
theorem contains_of_mem_leadsTo {id target : ItemId} (h : target ∈ index.leadsTo id) :
    index.contains target := by
  rw [leadsTo] at h
  split at h
  · simp at h
  · exact (List.mem_filter.1 h).2

theorem mem_firstParty_iff (h : index.IsStacked) {id : ItemId} :
    id ∈ index.firstParty ↔ index.contains id ∧ ¬ index.OwnedByThirdParty id := by
  rw [firstParty, List.mem_filter, mem_ids_iff h, ← ownedByThirdParty_iff h]
  simp

/-- The rules of keeping, in terms of the steps that pruning takes. -/
theorem isClosed_iff (h : index.IsStacked) {kept : Set ItemId}
    (hknown : ∀ id ∈ kept, index.contains id) :
    index.IsClosed kept ↔ (∀ id ∈ index.firstParty, id ∈ kept) ∧
      ∀ id ∈ kept, ∀ target ∈ index.leadsTo id, target ∈ kept := by
  constructor
  · intro hclosed
    refine ⟨fun id hid => ?_, fun id hid target htarget => ?_⟩
    · obtain ⟨hcontains, hfirst⟩ := (mem_firstParty_iff h).1 hid
      exact hclosed.first_party hcontains hfirst
    · obtain ⟨item, hget⟩ := Option.isSome_iff_exists.1 (hknown id hid)
      by_cases hthird : index.OwnedByThirdParty id
      · obtain ⟨hcontains, hrefers⟩ := (mem_leadsTo_of_third_party h hget hthird).1 htarget
        exact hclosed.of_third_party hid hget hthird hcontains hrefers
      · obtain ⟨hcontains, hrefers⟩ := (mem_leadsTo_of_first_party h hget hthird).1 htarget
        exact hclosed.of_first_party hid hget hthird hcontains hrefers
  · rintro ⟨hfirst, hsteps⟩
    refine ⟨?_, ?_, ?_⟩
    · intro id hcontains hparty
      exact hfirst id ((mem_firstParty_iff h).2 ⟨hcontains, hparty⟩)
    · intro id target item hid hget hparty hcontains hrefers
      exact hsteps id hid target
        ((mem_leadsTo_of_first_party h hget hparty).2 ⟨hcontains, hrefers⟩)
    · intro id target item hid hget hparty hcontains hrefers
      exact hsteps id hid target
        ((mem_leadsTo_of_third_party h hget hparty).2 ⟨hcontains, hrefers⟩)

/-! ## Adding to the set -/

/-- What adding handles to a set gives: the larger set and the handles that are new to it. -/
structure Added (kept : Std.TreeSet ItemId) (ids : List ItemId)
    (result : Std.TreeSet ItemId × List ItemId) : Prop where
  mem_iff : ∀ id, id ∈ result.1 ↔ id ∈ kept ∨ id ∈ ids
  new_iff : ∀ id, id ∈ result.2 ↔ id ∈ ids ∧ id ∉ kept
  nodup : result.2.Nodup
  size_eq : result.1.size = kept.size + result.2.length

theorem added_addAll (kept : Std.TreeSet ItemId) (ids : List ItemId) :
    Added kept ids (addAll kept ids) := by
  induction ids using List.reverseRecOn with
  | nil => exact ⟨by simp [addAll], by simp [addAll], by simp [addAll], by simp [addAll]⟩
  | append_singleton ids last ih =>
    have hfold : addAll kept (ids ++ [last]) =
        if (addAll kept ids).1.contains last then addAll kept ids
        else ((addAll kept ids).1.insert last, last :: (addAll kept ids).2) := by
      rw [addAll, List.foldl_append]
      rfl
    rw [hfold]
    split
    · -- `last` was there or came with `ids`
      rename_i hlast
      rw [Std.TreeSet.contains_iff_mem, ih.mem_iff] at hlast
      refine ⟨fun id => ?_, fun id => ?_, ih.nodup, ih.size_eq⟩
      · rw [ih.mem_iff, List.mem_append, List.mem_singleton]
        constructor
        · tauto
        · rintro (hid | hid | rfl)
          · exact Or.inl hid
          · exact Or.inr hid
          · exact hlast
      · rw [ih.new_iff, List.mem_append, List.mem_singleton]
        constructor
        · tauto
        · rintro ⟨hid | rfl, hout⟩
          · exact ⟨hid, hout⟩
          · exact ⟨hlast.resolve_left hout, hout⟩
    · rename_i hlast
      have hout : last ∉ (addAll kept ids).1 := fun hmem => hlast (Std.TreeSet.contains_iff_mem.2 hmem)
      have hout' := hout
      rw [ih.mem_iff, not_or] at hout'
      refine ⟨fun id => ?_, fun id => ?_, ?_, ?_⟩
      · rw [Std.TreeSet.mem_insert, Std.compare_eq_iff_eq, ih.mem_iff, List.mem_append,
          List.mem_singleton, eq_comm]
        tauto
      · rw [List.mem_cons, ih.new_iff, List.mem_append, List.mem_singleton]
        constructor
        · rintro (rfl | ⟨hid, hnot⟩)
          · exact ⟨Or.inr rfl, hout'.1⟩
          · exact ⟨Or.inl hid, hnot⟩
        · rintro ⟨hid | rfl, hnot⟩
          · exact Or.inr ⟨hid, hnot⟩
          · exact Or.inl rfl
      · refine List.nodup_cons.2 ⟨fun hmem => ?_, ih.nodup⟩
        exact hout'.2 ((ih.new_iff last).1 hmem).1
      · rw [Std.TreeSet.size_insert, if_neg (by simpa using hlast), ih.size_eq, List.length_cons]
        omega

/-- A set of existing handles is no larger than the index. -/
theorem size_le_of_known (h : index.IsStacked) {kept : Std.TreeSet ItemId}
    (hknown : ∀ id ∈ kept, index.contains id) : kept.size ≤ index.size := by
  have hnodup : kept.toList.Nodup := by
    refine Std.TreeSet.distinct_toList.imp ?_
    rintro a b hne rfl
    exact hne Std.ReflOrd.compare_self
  have hsub : kept.toList ⊆ index.ids := by
    intro id hid
    exact (mem_ids_iff h).2 (hknown id (Std.TreeSet.mem_toList.1 hid))
  have hlen := (List.subperm_of_subset hnodup hsub).length_le
  rwa [Std.TreeSet.length_toList, length_ids] at hlen

/-! ## The worklist -/

/-- The invariant of the worklist: what waits is kept, only existing items are kept, and what a
kept item leads to is kept unless the item still waits. -/
structure Underway (index : Index) (kept : Std.TreeSet ItemId) (work : List ItemId) : Prop where
  mem_of_work : ∀ id ∈ work, id ∈ kept
  known : ∀ id ∈ kept, index.contains id
  settled : ∀ id ∈ kept, id ∈ work ∨ ∀ target ∈ index.leadsTo id, target ∈ kept

/-- Following one handle keeps the invariant. -/
theorem Underway.step {kept : Std.TreeSet ItemId} {id : ItemId} {work : List ItemId}
    (h : index.Underway kept (id :: work)) :
    index.Underway (addAll kept (index.leadsTo id)).1
      ((addAll kept (index.leadsTo id)).2 ++ work) := by
  have hadded := added_addAll kept (index.leadsTo id)
  refine ⟨fun other hother => ?_, fun other hother => ?_, fun other hother => ?_⟩
  · rw [hadded.mem_iff]
    rcases List.mem_append.1 hother with hnew | hwork
    · exact Or.inr ((hadded.new_iff other).1 hnew).1
    · exact Or.inl (h.mem_of_work other (List.mem_cons_of_mem _ hwork))
  · rcases (hadded.mem_iff other).1 hother with hkept | hled
    · exact h.known other hkept
    · exact contains_of_mem_leadsTo hled
  · by_cases hkept : other ∈ kept
    · rcases h.settled other hkept with hwork | hled
      · rcases List.mem_cons.1 hwork with rfl | hwork
        · exact Or.inr (fun target htarget => (hadded.mem_iff target).2 (Or.inr htarget))
        · exact Or.inl (List.mem_append_right _ hwork)
      · exact Or.inr (fun target htarget => (hadded.mem_iff target).2 (Or.inl (hled target htarget)))
    · have hled := ((hadded.mem_iff other).1 hother).resolve_left hkept
      exact Or.inl (List.mem_append_left _ ((hadded.new_iff other).2 ⟨hled, hkept⟩))

theorem closeUnder_cons (steps : Nat) (kept : Std.TreeSet ItemId) (id : ItemId)
    (work : List ItemId) :
    index.closeUnder (steps + 1) kept (id :: work) =
      index.closeUnder steps (addAll kept (index.leadsTo id)).1
        ((addAll kept (index.leadsTo id)).2 ++ work) := rfl

/-- With a step for each item not yet kept and each handle that waits, the loop ends with a set that
is closed under the steps. -/
theorem underway_closeUnder (hstacked : index.IsStacked) {steps : Nat} {kept : Std.TreeSet ItemId}
    {work : List ItemId} (h : index.Underway kept work)
    (henough : work.length + index.size < steps + kept.size) :
    index.Underway (index.closeUnder steps kept work) [] ∧
      ∀ id ∈ kept, id ∈ index.closeUnder steps kept work := by
  induction steps generalizing kept work with
  | zero =>
    have := size_le_of_known hstacked h.known
    omega
  | succ steps ih =>
    cases work with
    | nil => exact ⟨h, fun id hid => hid⟩
    | cons id work =>
      have hadded := added_addAll kept (index.leadsTo id)
      have hmeasure : ((addAll kept (index.leadsTo id)).2 ++ work).length + index.size <
          steps + (addAll kept (index.leadsTo id)).1.size := by
        rw [List.length_append, hadded.size_eq]
        rw [List.length_cons] at henough
        omega
      obtain ⟨hclosed, hsub⟩ := ih h.step hmeasure
      rw [closeUnder_cons]
      exact ⟨hclosed, fun other hother => hsub other ((hadded.mem_iff other).2 (Or.inl hother))⟩

/-- The loop never leaves a set that is closed under the steps. -/
theorem closeUnder_subset {bound : Set ItemId}
    (hbound : ∀ id ∈ bound, ∀ target ∈ index.leadsTo id, target ∈ bound) {steps : Nat}
    {kept : Std.TreeSet ItemId} {work : List ItemId} (hwork : ∀ id ∈ work, id ∈ kept)
    (hkept : ∀ id ∈ kept, id ∈ bound) :
    ∀ id ∈ index.closeUnder steps kept work, id ∈ bound := by
  induction steps generalizing kept work with
  | zero => exact hkept
  | succ steps ih =>
    cases work with
    | nil => exact hkept
    | cons id work =>
      have hadded := added_addAll kept (index.leadsTo id)
      have hid : id ∈ bound := hkept id (hwork id List.mem_cons_self)
      rw [closeUnder_cons]
      refine ih (fun other hother => ?_) (fun other hother => ?_)
      · rw [hadded.mem_iff]
        rcases List.mem_append.1 hother with hnew | hrest
        · exact Or.inr ((hadded.new_iff other).1 hnew).1
        · exact Or.inl (hwork other (List.mem_cons_of_mem _ hrest))
      · rcases (hadded.mem_iff other).1 hother with hmem | hled
        · exact hkept other hmem
        · exact hbound id hid other hled

/-! ## The set that is kept -/

/-- Pruning starts with the first-party items, all of them waiting. -/
theorem underway_start (h : index.IsStacked) :
    index.Underway (addAll ∅ index.firstParty).1 (addAll ∅ index.firstParty).2 := by
  have hadded := added_addAll ∅ index.firstParty
  refine ⟨fun id hid => ?_, fun id hid => ?_, fun id hid => ?_⟩
  · exact (hadded.mem_iff id).2 (Or.inr ((hadded.new_iff id).1 hid).1)
  · have hfirst := ((hadded.mem_iff id).1 hid).resolve_left (by simp)
    exact ((mem_firstParty_iff h).1 hfirst).1
  · have hfirst := ((hadded.mem_iff id).1 hid).resolve_left (by simp)
    exact Or.inl ((hadded.new_iff id).2 ⟨hfirst, by simp⟩)

/-- Only existing items are kept, the first-party items among them, and what a kept item leads to is
kept. -/
theorem retained_closed (h : index.IsStacked) :
    (∀ id ∈ index.retained, index.contains id) ∧ (∀ id ∈ index.firstParty, id ∈ index.retained) ∧
      ∀ id ∈ index.retained, ∀ target ∈ index.leadsTo id, target ∈ index.retained := by
  have hadded := added_addAll ∅ index.firstParty
  have hsize : (addAll ∅ index.firstParty).1.size = (addAll ∅ index.firstParty).2.length := by
    rw [hadded.size_eq, Std.TreeSet.size_emptyc, Nat.zero_add]
  have henough : (addAll ∅ index.firstParty).2.length + index.size <
      index.size + 1 + (addAll ∅ index.firstParty).1.size := by
    rw [hsize]
    omega
  obtain ⟨hend, hsub⟩ := underway_closeUnder h (underway_start h) henough
  refine ⟨hend.known, fun id hid => ?_, fun id hid => ?_⟩
  · exact hsub id ((hadded.mem_iff id).2 (Or.inr hid))
  · exact (hend.settled id hid).resolve_left (by simp)

/-- What is kept is the least set that obeys the rules of keeping. -/
theorem isLeast_retained (h : index.IsStacked) :
    IsLeast {kept : Set ItemId | index.IsClosed kept} {id | id ∈ index.retained} := by
  obtain ⟨hknown, hfirst, hsteps⟩ := retained_closed h
  refine ⟨(isClosed_iff h hknown).2 ⟨hfirst, hsteps⟩, ?_⟩
  intro bound hbound
  -- only the existing handles of `bound` matter, and they obey the rules, too
  have hinner : index.IsClosed {id | id ∈ bound ∧ index.contains id} := by
    refine ⟨?_, ?_, ?_⟩
    · exact fun hcontains hparty => ⟨hbound.first_party hcontains hparty, hcontains⟩
    · intro id target item hid hget hparty hcontains hrefers
      exact ⟨hbound.of_first_party hid.1 hget hparty hcontains hrefers, hcontains⟩
    · intro id target item hid hget hparty hcontains hrefers
      exact ⟨hbound.of_third_party hid.1 hget hparty hcontains hrefers, hcontains⟩
  obtain ⟨hfirst', hsteps'⟩ := (isClosed_iff h (fun _ hid => hid.2)).1 hinner
  have hadded := added_addAll ∅ index.firstParty
  intro id hid
  refine (closeUnder_subset hsteps' (underway_start h).mem_of_work (fun other hother => ?_) id hid).1
  exact hfirst' other (((hadded.mem_iff other).1 hother).resolve_left (by simp))

end Index

end CodeAtlas
