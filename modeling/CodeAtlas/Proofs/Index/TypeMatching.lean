/-
# Types match when they are equal up to the wildcard

Comparing two types compares their element types when both are arrays of equal dimensions, and goes on
from there.  Where arrays stand in their places an element type is no array, so the comparison ends
after one such step.  What is left is equality, but for the wildcard: an array class is told by its
element type and its dimensions.

Array classes are made beside their element types, under names that tell both.  No other class has
such a name, as long as none is declared with one, and an element type is never an array itself.
Operations and layers keep all this; the only thing that may not be done is to set an element type by
hand.  Attributes may hold any handles otherwise.
-/
import CodeAtlas.Proofs.Index.Robust

namespace CodeAtlas.Index

variable {a b index : Index}

/-! ## What keeps arrays in their places -/

theorem patterned_empty (generation : Nat) : (empty generation).Patterned := by
  refine ⟨coherent_empty generation, (orderly_empty generation).distinct, fun {id item} hget => ?_⟩
  rw [get?_empty] at hget
  exact absurd hget (by simp)

/-- Arrays stay in their places when items keep what tells them apart and their element types. -/
theorem Patterned.of_keeps (h : a.Patterned) (hcoherent : b.Coherent) (hdistinct : b.Distinct)
    (hkeeps : ∀ {id : ItemId} {item : Item}, a.get? id = some item → ∃ later,
      b.get? id = some later ∧ later.name = item.name ∧ later.kind = item.kind ∧
      later.parent = item.parent ∧ later.arrayBase = item.arrayBase)
    (hshaped : ∀ {id : ItemId} {item : Item}, b.get? id = some item → a.get? id = none →
      b.Shaped item) : b.Patterned := by
  refine ⟨hcoherent, hdistinct, fun {id item} hget => ?_⟩
  cases hbefore : a.get? id with
  | none => exact hshaped hget hbefore
  | some before =>
    obtain ⟨later, hlater, hname, hkind, hparent, hbase⟩ := hkeeps hbefore
    obtain rfl := Option.some.inj (hget.symm.trans hlater)
    have hold := h.shaped hbefore
    rw [Shaped] at hold ⊢
    rw [hbase]
    cases hroot : before.arrayBase with
    | none =>
      simp only [hroot] at hold
      rw [hname, hkind]
      exact hold
    | some root =>
      simp only [hroot] at hold
      obtain ⟨hclass, element, dims, helement, helementClass, helementParent, hnone, hdims, hitem⟩ := hold
      obtain ⟨now, hnow, hnowName, hnowKind, hnowParent, hnowBase⟩ := hkeeps helement
      refine ⟨hkind.trans hclass, now, dims, hnow, hnowKind.trans helementClass, ?_,
        hnowBase.trans hnone, hdims, ?_⟩
      · rw [hnowParent, hparent, helementParent]
      · rw [hnowName, hname, hitem]

theorem Adds.patterned {new : Item} (h : Adds a b new) (ha : a.Patterned) (hshaped : b.Shaped new) :
    b.Patterned := by
  refine ha.of_keeps h.coherent h.distinct (fun {id item} hget => ?_) (fun {id item} hget hnone => ?_)
  · obtain ⟨later, hlater, hgrows⟩ := h.retains.keeps hget
    exact ⟨later, hlater, hgrows.name_eq, hgrows.kind_eq, hgrows.parent_eq, hgrows.arrayBase_eq⟩
  · obtain ⟨_, rfl⟩ := h.eq_new hget hnone
    exact hshaped

/-- Any settings but that of an element type. -/
theorem Patterned.setAll (h : index.Patterned) (id : ItemId) (settings : List (Setting ItemId))
    (hkeys : ∀ setting ∈ settings, setting.key ≠ .arrayBase) :
    (index.modify id (Setting.applyAll settings)).Patterned := by
  have hplace := Setting.keepsPlace_applyAll settings
  refine h.of_keeps (h.coherent.applyAll id settings)
    (h.distinct.of_bears (bears_modify hplace index id)) (fun {other item} hget => ?_)
    (fun {other item} hget hnone => ?_)
  · rw [get?_modify]
    split
    · rename_i hother
      subst hother
      obtain ⟨_, hname, hkind, hparent⟩ := hplace item
      refine ⟨_, by rw [hget]; rfl, hname, hkind, hparent, ?_⟩
      rw [Item.arrayBase, Item.arrayBase, Attributes.id?, Attributes.id?,
        Setting.get?_applyAll_of_ne settings item hkeys]
    · exact ⟨item, hget, rfl, rfl, rfl, rfl⟩
  · obtain ⟨before, hbefore, _⟩ := exists_of_get?_modify hplace hget
    rw [hnone] at hbefore
    exact absurd hbefore (by simp)

theorem robust_patterned : Robust Patterned where
  patterned h := h
  adds hadds h hshaped _ := hadds.patterned h hshaped
  setAll id settings h hkeys _ := h.setAll id settings hkeys
  stays h hcoherent hdistinct hstays := by
    refine h.of_keeps hcoherent hdistinct (fun hget => ?_) (fun hget hnone => ?_)
    · obtain ⟨later, hlater, hstay⟩ := hstays.exists_later hget
      refine ⟨later, hlater, hstay.name_eq, hstay.kind_eq, hstay.parent_eq, ?_⟩
      rw [Item.arrayBase, Item.arrayBase, hstay.attributes_eq]
    · obtain ⟨before, hbefore, _⟩ := hstays.exists_before hget
      rw [hnone] at hbefore
      exact absurd hbefore (by simp)

/-- Whatever else is set, arrays stay in their places. -/
theorem Patterned.run (h : index.Patterned) {operation : Operation ItemId}
    (hkeeps : operation.KeepsArrays) (hroom : (operation.run index).2.size < 2 ^ 32) :
    (operation.run index).2.Patterned := by
  refine hkeeps.run_robust robust_patterned h (fun item setting hset => ?_) hroom
  subst hset
  exact h.setAll item [setting] (fun _ hother => List.mem_singleton.1 hother ▸ hkeeps)

/-! ## Building an index -/

/-- One step: an operation that keeps arrays in their places, or a new layer. -/
inductive ArrayStep : Index → Index → Prop
  | operation {operation : Operation ItemId} {index : Index} (hkeeps : operation.KeepsArrays) :
      ArrayStep index (operation.run index).2
  | layer {base : Index} {generation : Nat}
      (hnew : ∀ layer ∈ base.layers, layer.generation ≠ generation) :
      ArrayStep base (onBase generation base)

theorem ArrayStep.step (h : ArrayStep a b) : Step a b := by
  cases h with
  | operation _ => exact .operation _ a
  | layer hnew => exact .layer hnew

theorem arraySteps_foldl {operations : List (Operation ItemId)}
    (hkeeps : ∀ operation ∈ operations, operation.KeepsArrays) (index : Index) :
    Relation.ReflTransGen ArrayStep index
      (operations.foldl (fun index operation => (operation.run index).2) index) := by
  induction operations generalizing index with
  | nil => exact Relation.ReflTransGen.refl
  | cons first rest ih =>
    exact Relation.ReflTransGen.head (.operation (hkeeps first List.mem_cons_self))
      (ih (fun later hlater => hkeeps later (List.mem_cons_of_mem _ hlater)) _)

/-- In every index that such steps lead to, arrays stand in their places. -/
theorem patterned_of_arraySteps {generation : Nat}
    (h : Relation.ReflTransGen ArrayStep (empty generation) index) (hroom : index.size < 2 ^ 32) :
    index.Patterned := by
  induction h with
  | refl => exact patterned_empty generation
  | tail _ hstep ih =>
    have hbefore := ih (Nat.lt_of_le_of_lt hstep.step.size_le hroom)
    cases hstep with
    | operation hkeeps => exact hbefore.run hkeeps hroom
    | layer hnew => exact robust_patterned.onBase hbefore hnew

/-! ## What a comparison goes through -/

/-- An array class with its dimensions and its element type. -/
def IsArray (index : Index) (id : ItemId) (dims : Nat) (root : ItemId) : Prop :=
  ∃ item, index.get? id = some item ∧ item.arrayBase = some root ∧ item.arrayDims = dims

/-- Comparing a pair of types asks about the next pair: about the element types of two arrays of
equal dimensions that are not alike at sight. -/
def Asks (index : Index) (pair next : ItemId × ItemId) : Prop :=
  ¬ index.Alike pair.1 pair.2 ∧
    ∃ dims, index.IsArray pair.1 dims next.1 ∧ index.IsArray pair.2 dims next.2

/-- A type that is neither the wildcard nor an array of it. -/
def WildcardFree (index : Index) (id : ItemId) : Prop :=
  index.findWildcard ≠ some id ∧
    ∀ (dims : Nat) (root : ItemId), index.IsArray id dims root → index.findWildcard ≠ some root

/-- Matching types is equality up to the wildcard. -/
structure MatchesUpToWildcard (index : Index) : Prop where
  /-- No chain of questions goes on for ever. -/
  wellFounded : WellFounded (fun next pair => index.Asks pair next)
  /-- Two types match if they are alike at sight, or if what is asked next matches: the answer does
  not depend on how deep the comparison may look. -/
  typesMatch_eq : ∀ a b : ItemId, index.typesMatch a b = true ↔
    index.Alike a b ∨ ∃ next, index.Asks (a, b) next ∧ index.typesMatch next.1 next.2 = true
  /-- An array is a class over a class that is no array. -/
  isArray_root : ∀ (id : ItemId) (dims : Nat) (root : ItemId), index.IsArray id dims root →
    dims ≠ 0 ∧ index.IsKind id .class ∧ index.IsKind root .class ∧
      ∀ more other, ¬ index.IsArray root more other
  typesMatch_iff : ∀ a b : ItemId, index.typesMatch a b = true ↔
    a = b ∨ (index.findWildcard = some a ∨ index.findWildcard = some b) ∨
      ∃ dims root other, index.IsArray a dims root ∧ index.IsArray b dims other ∧
        (root = other ∨ index.findWildcard = some root ∨ index.findWildcard = some other)
  refl : ∀ a : ItemId, index.typesMatch a a = true
  comm : ∀ a b : ItemId, index.typesMatch a b = index.typesMatch b a
  typesMatch_iff_eq : ∀ a b : ItemId, index.WildcardFree a → index.WildcardFree b →
    (index.typesMatch a b = true ↔ a = b)
  paramsMatch_iff_eq : ∀ as bs : List ItemId, (∀ a ∈ as, index.WildcardFree a) →
    (∀ b ∈ bs, index.WildcardFree b) → (index.paramsMatch as bs = true ↔ as = bs)

/-! ## Arrays in their places -/

theorem arraysAlike_iff {a b : ItemId} : index.ArraysAlike a b ↔
    ∃ dims root other, index.IsArray a dims root ∧ index.IsArray b dims other ∧
      index.Alike root other := by
  constructor
  · rintro ⟨item, otherItem, root, other, ha, hb, hroot, hother, hdims, halike⟩
    exact ⟨_, root, other, ⟨item, ha, hroot, hdims⟩, ⟨otherItem, hb, hother, rfl⟩, halike⟩
  · rintro ⟨dims, root, other, ⟨item, ha, hroot, hdims⟩, ⟨otherItem, hb, hother, hdims'⟩, halike⟩
    exact ⟨item, otherItem, root, other, ha, hb, hroot, hother, hdims.trans hdims'.symm, halike⟩

/-- An array stands beside its element type, which is no array, under a name that tells both. -/
theorem Patterned.exists_root (h : index.Patterned) {id root : ItemId} {dims : Nat}
    (harray : index.IsArray id dims root) :
    dims ≠ 0 ∧ ∃ element, index.get? root = some element ∧ element.kind = .class ∧
      element.arrayBase = none ∧
      index.Has id element.parent .class (Item.arrayName element.name dims) := by
  obtain ⟨item, hget, hbase, rfl⟩ := harray
  obtain ⟨hkind, element, helement, hclass, hparent, hnone, _, hdims, hname⟩ :=
    h.exists_element hget hbase
  exact ⟨hdims, element, helement, hclass, hnone, item, hget, hparent.symm, hkind, hname⟩

theorem Patterned.not_isArray_root (h : index.Patterned) {id root other : ItemId} {dims more : Nat}
    (harray : index.IsArray id dims root) : ¬ index.IsArray root more other := by
  rintro ⟨item, hget, hbase, _⟩
  obtain ⟨_, element, helement, _, hnone, _⟩ := h.exists_root harray
  obtain rfl := Option.some.inj (hget.symm.trans helement)
  rw [hnone] at hbase
  exact absurd hbase (by simp)

/-- There is one array class of a number of dimensions over an element type. -/
theorem Patterned.array_unique (h : index.Patterned) {id other root : ItemId} {dims : Nat}
    (hid : index.IsArray id dims root) (hother : index.IsArray other dims root) : id = other := by
  obtain ⟨_, element, helement, _, _, hhas⟩ := h.exists_root hid
  obtain ⟨_, element', helement', _, _, hhas'⟩ := h.exists_root hother
  obtain rfl := Option.some.inj (helement.symm.trans helement')
  exact h.distinct _ (show ItemKind.class ≠ .method by decide) id other (has_iff_bears.1 hhas)
    (has_iff_bears.1 hhas')

/-! ## Comparing -/

/-- After one question there is none left. -/
theorem Patterned.wellFounded_asks (h : index.Patterned) :
    WellFounded (fun next pair => index.Asks pair next) := by
  -- the element types of two arrays are no arrays
  have hlast : ∀ {pair next later : ItemId × ItemId}, index.Asks pair next →
      ¬ index.Asks next later := by
    rintro pair next later ⟨_, _, hfirst, _⟩ ⟨_, _, hsecond, _⟩
    exact h.not_isArray_root hfirst hsecond
  refine ⟨fun pair => .intro pair (fun next hnext => .intro next (fun later hlater => ?_))⟩
  exact absurd hlater (hlast hnext)

/-- The comparison without a bound on its depth. -/
theorem Patterned.typesMatch_eq_asks (h : index.Patterned) (a b : ItemId) :
    index.typesMatch a b = true ↔
      index.Alike a b ∨ ∃ next, index.Asks (a, b) next ∧ index.typesMatch next.1 next.2 = true := by
  by_cases halike : index.Alike a b
  · exact iff_of_true (h.typesMatch_iff.2 (Or.inl halike)) (Or.inl halike)
  rw [h.typesMatch_iff, or_iff_right halike, or_iff_right halike, arraysAlike_iff]
  constructor
  · rintro ⟨dims, root, other, ha, hb, hroots⟩
    exact ⟨(root, other), ⟨halike, dims, ha, hb⟩, h.typesMatch_iff.2 (Or.inl hroots)⟩
  · rintro ⟨⟨root, other⟩, ⟨_, dims, ha, hb⟩, hmatch⟩
    refine ⟨dims, root, other, ha, hb, (h.typesMatch_iff.1 hmatch).resolve_right (fun harrays => ?_)⟩
    obtain ⟨_, _, _, hroot, _⟩ := arraysAlike_iff.1 harrays
    exact h.not_isArray_root ha hroot

theorem Patterned.eq_of_typesMatch (h : index.Patterned) {a b : ItemId} (ha : index.WildcardFree a)
    (hb : index.WildcardFree b) (hmatch : index.typesMatch a b = true) : a = b := by
  rcases h.typesMatch_iff.1 hmatch with (heq | hwild | hwild) | harrays
  · exact heq
  · exact absurd hwild ha.1
  · exact absurd hwild hb.1
  · obtain ⟨dims, root, other, harray, hother, heq | hwild | hwild⟩ := arraysAlike_iff.1 harrays
    · subst heq
      exact h.array_unique harray hother
    · exact absurd hwild (ha.2 dims root harray)
    · exact absurd hwild (hb.2 dims other hother)

theorem Patterned.eq_of_paramsMatch (h : index.Patterned) {as bs : List ItemId}
    (has : ∀ a ∈ as, index.WildcardFree a) (hbs : ∀ b ∈ bs, index.WildcardFree b)
    (hmatch : List.Forall₂ (fun a b => index.typesMatch a b = true) as bs) : as = bs := by
  induction hmatch with
  | nil => rfl
  | @cons a b as bs hfirst _ ih =>
    -- both heads are free of the wildcard, so they match only when they are equal
    rw [h.eq_of_typesMatch (has a List.mem_cons_self) (hbs b List.mem_cons_self) hfirst,
      ih (fun a ha => has a (List.mem_cons_of_mem _ ha))
        (fun b hb => hbs b (List.mem_cons_of_mem _ hb))]

theorem Patterned.matchesUpToWildcard (h : index.Patterned) : index.MatchesUpToWildcard where
  wellFounded := h.wellFounded_asks
  typesMatch_eq := h.typesMatch_eq_asks
  isArray_root := by
    intro id dims root harray
    obtain ⟨hdims, element, helement, hkind, _, hhas⟩ := h.exists_root harray
    exact ⟨hdims, hhas.isKind, ⟨element, helement, hkind⟩, fun _ _ => h.not_isArray_root harray⟩
  typesMatch_iff := by
    intro a b
    rw [h.typesMatch_iff, arraysAlike_iff]
    exact or_assoc
  refl := index.typesMatch_refl
  comm := index.typesMatch_comm
  typesMatch_iff_eq := by
    intro a b ha hb
    refine ⟨h.eq_of_typesMatch ha hb, ?_⟩
    rintro rfl
    exact index.typesMatch_refl a
  paramsMatch_iff_eq := by
    intro as bs has hbs
    refine ⟨fun hmatch => h.eq_of_paramsMatch has hbs (paramsMatch_iff.1 hmatch), ?_⟩
    rintro rfl
    exact index.paramsMatch_refl as

/-- In every index that was built by operations and layers, none of which gave a class the name of an
array or set an element type by hand, types match exactly when they are equal up to the wildcard. -/
theorem typesMatch_up_to_wildcard {generation : Nat}
    (h : Relation.ReflTransGen ArrayStep (empty generation) index) (hroom : index.size < 2 ^ 32) :
    index.MatchesUpToWildcard :=
  (patterned_of_arraySteps h hroom).matchesUpToWildcard

/-- Two classes and arrays over them and over the wildcard, in two layers. -/
def arraysApp : Index :=
  let base := [Operation.project "app", .package ⟨0, 1⟩ "p", .class ⟨1, 1⟩ "A", .class ⟨1, 1⟩ "B",
    .arrayClass ⟨2, 1⟩ 2].foldl (fun index operation => (operation.run index).2) (empty 1)
  [Operation.arrayClass ⟨3, 1⟩ 2, .wildcard, .arrayClass ⟨8, 2⟩ 2].foldl
    (fun index operation => (operation.run index).2) (onBase 2 base)

theorem arraySteps_arraysApp : Relation.ReflTransGen ArrayStep (empty 1) arraysApp := by
  refine (arraySteps_foldl (by decide +kernel) (empty 1)).trans
    (Relation.ReflTransGen.head (.layer ?_) (arraySteps_foldl (by decide +kernel) _))
  decide +kernel

theorem typesMatch_up_to_wildcard_arraysApp :
    arraysApp.MatchesUpToWildcard ∧ arraysApp.typesMatch ⟨4, 1⟩ ⟨9, 2⟩ = true ∧
      arraysApp.typesMatch ⟨4, 1⟩ ⟨5, 2⟩ = false :=
  ⟨typesMatch_up_to_wildcard arraySteps_arraysApp (by decide +kernel), by decide +kernel,
    by decide +kernel⟩

end CodeAtlas.Index
