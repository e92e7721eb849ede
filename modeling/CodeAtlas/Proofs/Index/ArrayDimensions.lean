/-
# The dimensions of arrays add up

An array class is named after its element type, with a pair of brackets for each dimension.  Where
arrays stand in their places an element type is no array, so an array over an array is one over its
element type, with the dimensions of both.  Making it in two steps comes to the same as making it in
one, and what was made in two steps is found in one.
-/
import CodeAtlas.Proofs.Index.TypeMatching

namespace CodeAtlas.Index

variable {a b index : Index}

/-! ## Nothing changes -/

/-- Setting an attribute to what it is changes nothing. -/
theorem answersAlike_modify_setId (h : index.IsStacked) {id target : ItemId} {key : AttrKey}
    (hset : ∀ item, index.get? id = some item → item.attributes.id? key = some target) :
    AnswersAlike index (index.modify id (fun item => item.setId key target)) :=
  answersAlike_modify (get?_modify_setId hset) (ids_modify h id (fun _ => rfl))

/-! ## Arrays over classes -/

/-- The shape that an array is made in has the name that the array is told by. -/
theorem Patterned.has_arrayShape (h : index.Patterned) {base root package : ItemId} {dims total : Nat}
    {name : String} (hbase : index.Has base (some package) .class name)
    (hshape : index.arrayShape base dims = (root, total)) :
    ∃ rootName, index.Has root (some package) .class rootName ∧
      Item.arrayName rootName total = Item.arrayName name dims := by
  obtain ⟨item, hget, hparent, hkind, rfl⟩ := hbase
  rw [arrayShape, hget] at hshape
  dsimp only at hshape
  cases hroot : item.arrayBase with
  | none =>
    rw [hroot] at hshape
    obtain ⟨rfl, rfl⟩ := Prod.mk.inj hshape
    exact ⟨item.name, ⟨item, hget, hparent, hkind, rfl⟩, rfl⟩
  | some inner =>
    rw [hroot] at hshape
    obtain ⟨rfl, rfl⟩ := Prod.mk.inj hshape
    obtain ⟨_, element, helement, hclass, helementParent, _, _, _, hname⟩ := h.exists_element hget hroot
    refine ⟨element.name, ⟨element, helement, helementParent.trans hparent, hclass, rfl⟩, ?_⟩
    conv_rhs => rw [hname]
    rw [Item.arrayName_arrayName, Nat.add_comm]

/-- An array class that is there is not made again. -/
theorem Patterned.run_createArrayClass_of_has (h : index.Patterned) {base package id : ItemId}
    {dims : Nat} {name : String} (hbase : index.Has base (some package) .class name)
    (hid : index.Has id (some package) .class (Item.arrayName name dims)) :
    ∃ after, (createArrayClass base dims).run.run index = (.ok id, after) ∧
      AnswersAlike index after := by
  rcases hshape : index.arrayShape base dims with ⟨root, total⟩
  obtain ⟨rootName, hroot, hnames⟩ := h.has_arrayShape hbase hshape
  rw [← hnames] at hid
  rw [run_createArrayClass, hshape]
  by_cases htotal : total = 0
  · subst htotal
    rw [Item.arrayName_zero, ← h.findItem_eq_some_iff (by decide),
      (h.findItem_eq_some_iff (by decide)).2 hroot] at hid
    obtain rfl := Option.some.inj hid
    exact ⟨index, rfl, AnswersAlike.refl index⟩
  · have hrun := run_createArrayOver_of_has hroot (h.coherent.exists_owner hroot) htotal
    rw [h.intern_of_has (by decide) hid] at hrun
    refine ⟨_, hrun, answersAlike_modify_setId h.coherent.stacked (fun item hitem => ?_)⟩
    obtain ⟨rootItem, hrootGet, _⟩ := hroot.isKind
    exact h.arrayBase_of_has hroot hrootGet (h.arrayBase_arrayShape hshape hrootGet) htotal hid hitem

/-- Over a class every array can be made, and it is named after the class. -/
theorem Patterned.exists_createArrayClass (h : index.Patterned) {base package : ItemId}
    {name : String} (hbase : index.Has base (some package) .class name) (dims : Nat)
    (hroom : ((createArrayClass base dims).run.run index).2.size < 2 ^ 32) :
    ∃ id after, (createArrayClass base dims).run.run index = (.ok id, after) ∧ after.Patterned ∧
      Retains index after ∧ after.Has id (some package) .class (Item.arrayName name dims) := by
  have hafter := robust_patterned.keeps_createArrayClass base dims index (fun _ => h) hroom
  rw [run_createArrayClass] at hroom hafter ⊢
  rcases hshape : index.arrayShape base dims with ⟨root, total⟩
  obtain ⟨rootName, hroot, hnames⟩ := h.has_arrayShape hbase hshape
  rw [hshape] at hroom hafter
  dsimp only at hroom hafter ⊢
  rw [← hnames]
  have hsame := Retains.of_get? h.coherent.stacked h.coherent.stacked (fun _ => rfl)
  by_cases htotal : total = 0
  · subst htotal
    rw [Item.arrayName_zero]
    exact ⟨root, index, rfl, h, hsame, hroot⟩
  · have hrun := run_createArrayOver_of_has hroot (h.coherent.exists_owner hroot) htotal
    rcases hintern : intern (some package) (Item.arrayName rootName total) .class index with
      ⟨array, made⟩
    rw [hintern] at hrun
    rw [hrun] at hroom hafter
    obtain ⟨rootItem, hrootGet, _⟩ := hroot.isKind
    obtain ⟨harray, hfound | ⟨hadds, _⟩⟩ := h.arrayed hroot hrootGet
      (h.arrayBase_arrayShape hshape hrootGet) htotal hintern
      (Nat.lt_of_le_of_lt (continues_modify _ _ _).size_le hroom)
    · obtain ⟨hcoherent, _, hget⟩ := hfound
      exact ⟨array, _, hrun, hafter, Retains.of_get? h.coherent.stacked hcoherent.stacked hget, harray⟩
    · exact ⟨array, _, hrun, hafter, hadds.retains, harray⟩

/-- Over anything else no array can be made, and no dimensions leave it as it is. -/
theorem Patterned.run_createArrayClass_of_not_class (h : index.Patterned) {base : ItemId}
    (hbase : ¬ index.IsKind base .class) : ∃ error, ∀ dims,
      (createArrayClass base dims).run.run index =
        if dims = 0 then (.ok base, index) else (.error error, index) := by
  rcases run_classPlace base (.badArrayBase base) index with
    ⟨_, error, hrefused⟩ | ⟨package, name, hhas, _⟩
  · refine ⟨error, fun dims => ?_⟩
    have hshape : index.arrayShape base dims = (base, dims) := by
      rw [arrayShape]
      cases hget : index.get? base with
      | none => rfl
      | some item =>
        dsimp only
        cases hroot : item.arrayBase with
        | none => rfl
        | some root => exact absurd ⟨item, hget, (h.exists_element hget hroot).1⟩ hbase
    rw [run_createArrayClass, hshape, createArrayOver]
    split
    · rfl
    · exact Edit.run_bind_of_error hrefused
  · exact absurd hhas.isKind hbase

/-! ## Two steps and one -/

/-- Making dimensions over an item in two steps comes to the same as making them in one. -/
structure DimensionsAdd (index : Index) (base : ItemId) (m n : Nat) : Prop where
  /-- What was made in two steps is found in one, and nothing changes. -/
  made : ∀ array after,
    (createArrayClass base m >>= fun inner => createArrayClass inner n).run.run index =
      (.ok array, after) → ∃ again,
    (createArrayClass base (m + n)).run.run after = (.ok array, again) ∧ AnswersAlike after again
  /-- Where one of two steps is refused, so is the one. -/
  refused : ∀ error after,
    (createArrayClass base m >>= fun inner => createArrayClass inner n).run.run index =
      (.error error, after) →
    (createArrayClass base (m + n)).run.run index = (.error error, index)

theorem Patterned.dimensionsAdd_of_class (h : index.Patterned) {base : ItemId}
    (hbase : index.IsKind base .class) (m n : Nat)
    (hroom : ((createArrayClass base m >>= fun inner =>
      createArrayClass inner n).run.run index).2.size < 2 ^ 32) :
    index.DimensionsAdd base m n := by
  obtain ⟨package, name, hhas⟩ := h.coherent.exists_package hbase
  have hcontinues : ∀ start id dims, Continues start ((createArrayClass id dims).run.run start).2 :=
    fun start id dims => (durable_continues start).sturdy.createArrayClass id dims start (Continues.refl start)
  -- both steps succeed: the first makes the array over `base`, the second the one over the array
  have hboth : ∃ array after,
      (createArrayClass base m >>= fun inner => createArrayClass inner n).run.run index =
        (.ok array, after) ∧ after.Patterned ∧ after.Has base (some package) .class name ∧
      after.Has array (some package) .class (Item.arrayName name (m + n)) := by
    rcases hfirst : (createArrayClass base m).run.run index with ⟨error | inner, middle⟩
    · rw [Edit.run_bind_of_error hfirst] at hroom
      obtain ⟨_, _, hrun, _⟩ := h.exists_createArrayClass hhas m (by rw [hfirst]; exact hroom)
      rw [hfirst] at hrun
      exact absurd (congrArg Prod.fst hrun) (by simp)
    · rw [Edit.run_bind_of_ok hfirst] at hroom ⊢
      have hless := Nat.lt_of_le_of_lt (hcontinues middle inner n).size_le hroom
      obtain ⟨_, _, hrun, hmiddle, hretains, hinner⟩ :=
        h.exists_createArrayClass hhas m (by rw [hfirst]; exact hless)
      rw [hfirst] at hrun
      obtain ⟨hid, rfl⟩ := Prod.mk.inj hrun
      obtain rfl := Except.ok.inj hid
      obtain ⟨array, after, hsecond, hafter, hlater, harray⟩ :=
        hmiddle.exists_createArrayClass hinner n hroom
      rw [Item.arrayName_arrayName] at harray
      exact ⟨array, after, hsecond, hafter, hlater.has (hretains.has hhas), harray⟩
  obtain ⟨array, after, hrun, hafter, hbaseAfter, harray⟩ := hboth
  refine ⟨fun other last hother => ?_, fun error last hother => ?_⟩
  · rw [hrun] at hother
    obtain ⟨hid, rfl⟩ := Prod.mk.inj hother
    obtain rfl := Except.ok.inj hid
    exact hafter.run_createArrayClass_of_has hbaseAfter harray
  · rw [hrun] at hother
    exact absurd (congrArg Prod.fst hother) (by simp)

theorem Patterned.dimensionsAdd_of_not_class (h : index.Patterned) {base : ItemId}
    (hbase : ¬ index.IsKind base .class) (m n : Nat) : index.DimensionsAdd base m n := by
  obtain ⟨refusal, hall⟩ := h.run_createArrayClass_of_not_class hbase
  have hboth : (createArrayClass base m >>= fun inner => createArrayClass inner n).run.run index =
      if m + n = 0 then (.ok base, index) else (.error refusal, index) := by
    by_cases hm : m = 0
    · subst hm
      rw [Edit.run_bind_of_ok ((hall 0).trans (if_pos rfl)), hall, Nat.zero_add]
    · rw [Edit.run_bind_of_error ((hall m).trans (if_neg hm)), if_neg (by omega)]
  refine ⟨fun array after hrun => ?_, fun error after hrun => ?_⟩
  · rw [hboth] at hrun
    split at hrun
    · rename_i hzero
      obtain ⟨hid, rfl⟩ := Prod.mk.inj hrun
      rw [← Except.ok.inj hid]
      exact ⟨index, (hall _).trans (if_pos hzero), AnswersAlike.refl index⟩
    · exact absurd (congrArg Prod.fst hrun) (by simp)
  · rw [hboth] at hrun
    split at hrun
    · exact absurd (congrArg Prod.fst hrun) (by simp)
    · rename_i hmore
      rw [hall, if_neg hmore, Except.error.inj (congrArg Prod.fst hrun)]

/-- In every index that was built by operations and layers, none of which gave a class the name of an
array or set an element type by hand, the dimensions of arrays add up.  An array stands beside its
element type, which is no array, and its name is that of the element type with a pair of brackets for
each dimension. -/
theorem array_dimensions_additive {generation : Nat}
    (h : Relation.ReflTransGen ArrayStep (empty generation) index) (base : ItemId) (m n : Nat)
    (hroom : ((createArrayClass base m >>= fun inner =>
      createArrayClass inner n).run.run index).2.size < 2 ^ 32) :
    index.DimensionsAdd base m n ∧
      ∀ id item root, index.get? id = some item → item.arrayBase = some root →
        item.kind = .class ∧ ∃ element, index.get? root = some element ∧ element.kind = .class ∧
          element.arrayBase = none ∧ element.parent = item.parent ∧ item.arrayDims ≠ 0 ∧
          item.name = Item.arrayName element.name item.arrayDims := by
  have hcontinues : Continues index ((createArrayClass base m >>= fun inner =>
      createArrayClass inner n).run.run index).2 :=
    ((durable_continues index).sturdy.createArrayClass base m).bind
      (fun inner => (durable_continues index).sturdy.createArrayClass inner n) index (Continues.refl index)
  have hpatterned := patterned_of_arraySteps h (Nat.lt_of_le_of_lt hcontinues.size_le hroom)
  refine ⟨?_, fun id item root hget hroot => ?_⟩
  · by_cases hbase : index.IsKind base .class
    · exact hpatterned.dimensionsAdd_of_class hbase m n hroom
    · exact hpatterned.dimensionsAdd_of_not_class hbase m n
  · obtain ⟨hkind, element, helement, hclass, hparent, hnone, _, hdims, hname⟩ :=
      hpatterned.exists_element hget hroot
    exact ⟨hkind, element, helement, hclass, hnone, hparent, hdims, hname⟩

/-- Three dimensions over a class, and two more over an array of two. -/
theorem array_dimensions_additive_arraysApp :
    arraysApp.DimensionsAdd ⟨2, 1⟩ 1 2 ∧ arraysApp.DimensionsAdd ⟨4, 1⟩ 1 1 := by
  have hfirst := array_dimensions_additive arraySteps_arraysApp ⟨2, 1⟩ 1 2 (by decide +kernel)
  have hsecond := array_dimensions_additive arraySteps_arraysApp ⟨4, 1⟩ 1 1 (by decide +kernel)
  exact ⟨hfirst.1, hsecond.1⟩

end CodeAtlas.Index
