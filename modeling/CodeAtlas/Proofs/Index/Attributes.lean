/-
# Attributes that name items

Operations may record any handle as an attribute.  As long as they record items of the index only,
every attribute of every item names an item, through all operations and layers; and the attributes
that hold different items never hold one twice.
-/
import CodeAtlas.Proofs.Index.Factory
import CodeAtlas.Proofs.Index.Reachable

namespace CodeAtlas

/-! ## The attributes of one item -/

namespace Item

variable {item : Item} {allowed others : ItemId → Prop}

/-- The attributes hold allowed handles, and none twice where they hold different ones. -/
structure Attaches (allowed : ItemId → Prop) (item : Item) : Prop where
  allows : ∀ target ∈ item.attributeIds, allowed target
  nodup : ∀ (key : AttrKey) (targets : Array ItemId), key.holdsMany = true →
    item.attributes.get? key = some (.ids targets) → targets.toList.Nodup

theorem Attaches.mono (h : item.Attaches allowed) (hmono : ∀ id, allowed id → others id) :
    item.Attaches others :=
  ⟨fun target htarget => hmono target (h.allows target htarget), h.nodup⟩

theorem Attaches.congr {other : Item} (h : other.Attaches allowed)
    (hattributes : item.attributes = other.attributes) : item.Attaches allowed := by
  refine ⟨?_, ?_⟩
  · rw [attributeIds, hattributes]
    exact h.allows
  · rw [hattributes]
    exact h.nodup

theorem attaches_of_empty (hattributes : item.attributes = .empty) : item.Attaches allowed := by
  refine ⟨?_, ?_⟩
  · rw [attributeIds, hattributes]
    exact fun target htarget => absurd htarget
      (by simp [Attributes.targets, Attributes.toList, Attributes.get?, Attributes.empty])
  · intro key targets _ htargets
    rw [hattributes] at htargets
    simp [Attributes.get?, Attributes.empty] at htargets

theorem Attaches.pushNew (h : item.Attaches allowed) (key : AttrKey) {target : ItemId}
    (htarget : allowed target) : (item.pushNew key target).Attaches allowed := by
  refine ⟨?_, ?_⟩
  · intro id hid
    rcases mem_attributeIds_pushNew hid with hold | rfl
    · exact h.allows id hold
    · exact htarget
  · intro other targets hother htargets
    have hget : (item.attributes.alter key _).get? other = some (.ids targets) := htargets
    rw [Attributes.get?_alter] at hget
    split at hget
    · rename_i hkey
      subst hkey
      cases hslot : item.attributes.get? key with
      | none =>
        rw [hslot] at hget
        obtain rfl : #[target] = targets := by simpa using hget
        simp
      | some value =>
        rw [hslot] at hget
        cases value with
        | ids before =>
          obtain rfl : insertNew before target = targets := by simpa [insertNew] using hget
          exact nodup_insertNew (h.nodup key before hother hslot)
        | id before =>
          obtain rfl : #[target] = targets := by simpa using hget
          simp
        | flag before =>
          obtain rfl : #[target] = targets := by simpa using hget
          simp
    · exact h.nodup other targets hother hget

theorem Attaches.set (h : item.Attaches allowed) {key : AttrKey} {value : AttrValue}
    (hvalue : ∀ target ∈ value.targets, allowed target)
    (hkey : key.holdsMany = false ∨ ∀ targets, value ≠ .ids targets) :
    (item.set key value).Attaches allowed := by
  refine ⟨?_, ?_⟩
  · intro id hid
    rcases mem_attributeIds_set hid with hold | hnew
    · exact h.allows id hold
    · exact hvalue id hnew
  · intro other targets hother htargets
    have hget : (item.attributes.set key value).get? other = some (.ids targets) := htargets
    rw [Attributes.get?_set] at hget
    split at hget
    · rename_i hsame
      subst hsame
      rcases hkey with hkey | hkey
      · exact absurd hother (by rw [hkey]; simp)
      · exact absurd (Option.some.inj hget) (hkey targets)
    · exact h.nodup other targets hother hget

end Item

namespace Setting

variable {allowed : ItemId → Prop}

theorem attaches_apply {item : Item} (h : item.Attaches allowed) (setting : Setting ItemId)
    (htargets : ∀ target ∈ setting.targets, allowed target) :
    (setting.apply item).Attaches allowed := by
  cases setting with
  | one key target => exact h.set htargets (Or.inr (fun _ => by simp))
  | member key target => exact h.pushNew key.1 (htargets target (List.mem_singleton_self target))
  | params types => exact h.set (by simpa [AttrValue.targets, targets] using htargets) (Or.inl rfl)
  | flag key value => exact h.set (by simp [AttrValue.targets]) (Or.inr (fun _ => by simp))

theorem attaches_applyAll {item : Item} (h : item.Attaches allowed)
    (settings : List (Setting ItemId))
    (htargets : ∀ setting ∈ settings, ∀ target ∈ setting.targets, allowed target) :
    (applyAll settings item).Attaches allowed := by
  induction settings generalizing item with
  | nil => exact h
  | cons setting rest ih =>
    have hfirst := attaches_apply h setting (htargets setting List.mem_cons_self)
    exact ih hfirst (fun other hother => htargets other (List.mem_cons_of_mem _ hother))

end Setting

/-! ## The attributes of all items -/

namespace Index

variable {a b index : Index} {allowed : ItemId → Prop}

/-- Every attribute of every item names an item. -/
def Attributed (index : Index) : Prop :=
  ∀ (id : ItemId) (item : Item), index.get? id = some item →
    item.Attaches (fun target => index.contains target)

/-- Items whose attributes were there before, or that have none. -/
theorem Attributed.of_attributes (h : a.Attributed) (hkeeps : ∀ id, a.contains id → b.contains id)
    (hfrom : ∀ id item, b.get? id = some item → item.attributes = .empty ∨
      ∃ before, a.get? id = some before ∧ item.attributes = before.attributes) :
    b.Attributed := by
  intro id item hget
  rcases hfrom id item hget with hempty | ⟨before, hbefore, hattributes⟩
  · exact Item.attaches_of_empty hempty
  · exact ((h id before hbefore).mono hkeeps).congr hattributes

theorem exists_attributes_of_get?_modify {f : Item → Item}
    (hf : ∀ item, (f item).attributes = item.attributes) {id other : ItemId} {item : Item}
    (hget : (index.modify id f).get? other = some item) :
    ∃ before, index.get? other = some before ∧ item.attributes = before.attributes := by
  rw [get?_modify] at hget
  split at hget
  · rename_i hid
    obtain ⟨before, hbefore, rfl⟩ := Option.map_eq_some_iff.1 hget
    exact ⟨before, hid ▸ hbefore, hf before⟩
  · exact ⟨item, hget, rfl⟩

theorem Attributed.relink (h : index.Attributed) (source target : ItemId)
    (f g : Array ItemId → Array ItemId) : (index.relink source target f g).Attributed := by
  refine h.of_attributes (fun id hid => ?_) (fun id item hget => Or.inr ?_)
  · rw [Index.relink, contains_modify, contains_modify]
    exact hid
  · rw [Index.relink] at hget
    obtain ⟨middle, hmiddle, hlast⟩ := exists_attributes_of_get?_modify (by exact fun _ => rfl) hget
    obtain ⟨before, hbefore, hfirst⟩ :=
      exists_attributes_of_get?_modify (by exact fun _ => rfl) hmiddle
    exact ⟨before, hbefore, hlast.trans hfirst⟩

/-- A change that records items of the index keeps its attributes in order. -/
theorem Change.attributed (h : Change allowed a b) (ha : a.Coherent) (hattributed : a.Attributed)
    (hallowed : ∀ target, allowed target → a.contains target) : b.Attributed := by
  have hkeeps := fun id (hid : a.contains id) => h.continues.keeps hid
  cases h with
  | set id settings htargets =>
    intro other item hget
    rw [get?_modify] at hget
    split at hget
    · rename_i hid
      obtain ⟨before, hbefore, rfl⟩ := Option.map_eq_some_iff.1 hget
      refine (Setting.attaches_applyAll (hattributed id before hbefore) settings ?_).mono hkeeps
      intro setting hsetting target htarget
      exact (htargets setting hsetting target htarget).elim (hallowed target) (fun hin => hin)
    · exact (hattributed other item hget).mono hkeeps
  | insert htake hnew =>
    refine hattributed.of_attributes hkeeps (fun id item hget => ?_)
    rcases exists_of_get?_insertItem ha.tallied (htake.ne_nextId ha.tallied) hget with
      ⟨_, rfl⟩ | ⟨before, hbefore, _, _, _, hattributes⟩
    · exact Or.inl rfl
    · exact Or.inr ⟨before, hbefore, hattributes⟩
  | addDependency source target =>
    rw [Index.addDependency]
    split
    · exact hattributed
    · exact hattributed.relink source target (insertNew · target) (insertNew · source)
  | removeDependency source target =>
    exact hattributed.relink source target (·.erase target) (·.erase source)

theorem Evolves.attributed (h : Evolves allowed a b) (ha : a.Coherent) (hattributed : a.Attributed)
    (hallowed : ∀ target, allowed target → a.contains target) (hroom : b.size < 2 ^ 32) :
    b.Attributed := by
  induction h with
  | refl => exact hattributed
  | tail hbefore hchange ih =>
    have hless := Nat.lt_of_le_of_lt hchange.continues.size_le hroom
    have hmiddle := Evolves.coherent hbefore ha hless
    refine hchange.attributed hmiddle (ih hless) (fun target htarget => ?_)
    exact (Evolves.continues hbefore).keeps (hallowed target htarget)

/-! ## Steps that record items -/

/-- One step that records only items of the index as attributes. -/
inductive ClosedStep : Index → Index → Prop
  | operation {operation : Operation ItemId} {index : Index}
      (hrecorded : ∀ target ∈ operation.recorded, index.contains target) :
      ClosedStep index (operation.run index).2
  | layer {base : Index} {generation : Nat}
      (hnew : ∀ layer ∈ base.layers, layer.generation ≠ generation) :
      ClosedStep base (onBase generation base)

/-- The indices that such steps lead to from an empty one. -/
def ClosedReachable (index : Index) : Prop :=
  ∃ generation, Relation.ReflTransGen ClosedStep (empty generation) index

theorem ClosedStep.step (h : ClosedStep a b) : Step a b := by
  cases h with
  | operation _ => exact .operation _ a
  | layer hnew => exact .layer hnew

theorem attributed_empty (generation : Nat) : (empty generation).Attributed := by
  intro id item hget
  rw [get?_empty] at hget
  exact absurd hget (by simp)

theorem ClosedStep.attributed (h : ClosedStep a b) (ha : a.Coherent) (hattributed : a.Attributed)
    (hroom : b.size < 2 ^ 32) : b.Attributed := by
  cases h with
  | operation hrecorded =>
    exact (ha.evolves_run _ hroom).attributed ha hattributed hrecorded hroom
  | layer hnew =>
    have hget := get?_onBase ha.stacked (generation_ne_of_mem_ids ha.stacked hnew)
    refine hattributed.of_attributes (fun id hid => ?_) (fun id item hitem => Or.inr ?_)
    · rw [contains, hget]
      exact hid
    · exact ⟨item, (hget id).symm.trans hitem, rfl⟩

/-- An index whose links and attributes are in order. -/
structure Sealed (index : Index) : Prop where
  coherent : index.Coherent
  attributed : index.Attributed

/-- What was built by recording items of the index only is in order. -/
theorem ClosedReachable.isSealed (h : index.ClosedReachable) (hroom : index.size < 2 ^ 32) :
    index.Sealed := by
  obtain ⟨generation, hsteps⟩ := h
  induction hsteps with
  | refl => exact ⟨coherent_empty generation, attributed_empty generation⟩
  | tail _ hstep ih =>
    obtain ⟨hcoherent, hattributed⟩ := ih (Nat.lt_of_le_of_lt hstep.step.size_le hroom)
    exact ⟨(hstep.step.coherent hcoherent hroom).1, hstep.attributed hcoherent hattributed hroom⟩

end Index

end CodeAtlas
