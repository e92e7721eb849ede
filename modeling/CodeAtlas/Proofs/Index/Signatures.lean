/-
# What tells items apart

Methods are told apart by their signatures, everything else by owner, kind and name.  Whether two
signatures match depends on the wildcard and on arrays, which may be created later.  It is settled all
the same: an index that retains the items of another, with their names, owners, signatures and
element types, finds that known types match exactly when they matched before.

For that the names of arrays have to be kept apart.  A class whose name ends in `[]` is an array over
the class whose name is left when all the brackets are taken off, and that class is no array.

Handles of other indices may be recorded in signatures.  They are told by their generations, which
are `foreign`.
-/
import CodeAtlas.Proofs.Index.Sealing
import Mathlib.Data.List.Forall2

namespace CodeAtlas

/-! ## Names of arrays and of nested classes -/

namespace Item

/-- A name that ends in a pair of brackets. -/
def NamesArray (name : String) : Prop :=
  ['[', ']'] <:+ name.toList

instance (name : String) : Decidable (NamesArray name) :=
  inferInstanceAs (Decidable (_ <:+ _))

theorem bracketPairs_eq_zero {name : String} (h : ¬ NamesArray name) :
    bracketPairs name.toList.reverse = 0 := by
  rw [bracketPairs.eq_def]
  split
  · rename_i rest heq
    refine absurd ⟨rest.reverse, ?_⟩ h
    rw [← List.reverse_reverse name.toList, heq]
    simp
  · rfl

@[simp] theorem arrayName_zero (name : String) : arrayName name 0 = name := by
  simp [arrayName]

theorem arrayName_succ (name : String) (dims : Nat) :
    arrayName name (dims + 1) = arrayName name dims ++ "[]" := by
  rw [arrayName, arrayName, List.replicate_succ', String.join_append]
  apply String.toList_inj.1
  simp

theorem arrayName_arrayName (name : String) (dims more : Nat) :
    arrayName (arrayName name dims) more = arrayName name (dims + more) := by
  induction more with
  | zero => rw [arrayName_zero, Nat.add_zero]
  | succ more ih => rw [arrayName_succ, ih, ← Nat.add_assoc, arrayName_succ]

theorem namesArray_arrayName (name : String) {dims : Nat} (hdims : dims ≠ 0) :
    NamesArray (arrayName name dims) := by
  obtain ⟨before, rfl⟩ := Nat.exists_eq_succ_of_ne_zero hdims
  rw [NamesArray, arrayName_succ, String.toList_append]
  exact List.suffix_append _ _

/-- The name of an array tells its dimensions. -/
theorem bracketPairs_arrayName {name : String} (h : ¬ NamesArray name) (dims : Nat) :
    bracketPairs (arrayName name dims).toList.reverse = dims := by
  induction dims with
  | zero =>
    rw [arrayName_zero, bracketPairs_eq_zero h]
  | succ dims ih =>
    rw [arrayName_succ, String.toList_append, List.reverse_append]
    show bracketPairs (']' :: '[' :: (arrayName name dims).toList.reverse) = _
    rw [bracketPairs, ih]

theorem arrayName_inj {name other : String} {dims otherDims : Nat} (hname : ¬ NamesArray name)
    (hother : ¬ NamesArray other) (h : arrayName name dims = arrayName other otherDims) :
    name = other ∧ dims = otherDims := by
  have hdims : dims = otherDims := by
    rw [← bracketPairs_arrayName hname dims, ← bracketPairs_arrayName hother otherDims, h]
  subst hdims
  refine ⟨?_, rfl⟩
  rw [arrayName, arrayName] at h
  apply String.toList_inj.1
  have hlist := congrArg String.toList h
  rw [String.toList_append, String.toList_append] at hlist
  exact List.append_cancel_right hlist

/-- A dotted name whose last part has no dot is cut in one way. -/
theorem dotted_inj {outer other simple otherSimple : String} (hsimple : '.' ∉ simple.toList)
    (hother : '.' ∉ otherSimple.toList)
    (h : outer ++ "." ++ simple = other ++ "." ++ otherSimple) :
    outer = other ∧ simple = otherSimple := by
  have hlist : outer.toList ++ '.' :: simple.toList = other.toList ++ '.' :: otherSimple.toList := by
    simpa [String.toList_append] using congrArg String.toList h
  rcases List.append_eq_append_iff.1 hlist with ⟨middle, hcut, htail⟩ | ⟨middle, hcut, htail⟩
  · cases middle with
    | nil =>
      rw [List.append_nil] at hcut
      exact ⟨String.toList_inj.1 hcut.symm, String.toList_inj.1 (List.cons.inj htail).2⟩
    | cons first rest => exact absurd (by rw [(List.cons.inj htail).2]; simp) hsimple
  · cases middle with
    | nil =>
      rw [List.append_nil] at hcut
      exact ⟨String.toList_inj.1 hcut, String.toList_inj.1 (List.cons.inj htail).2.symm⟩
    | cons first rest => exact absurd (by rw [(List.cons.inj htail).2]; simp) hother

theorem not_namesArray_dotted (outer : String) {simple : String} (h : ¬ NamesArray simple) :
    ¬ NamesArray (outer ++ "." ++ simple) := by
  intro hnames
  have hdot : ('.' :: simple.toList) <:+ (outer ++ "." ++ simple).toList :=
    ⟨outer.toList, by simp [String.toList_append]⟩
  rcases List.suffix_or_suffix_of_suffix hnames hdot with hsuffix | hsuffix
  · rcases List.suffix_cons_iff.1 hsuffix with heq | hsimple
    · exact absurd (List.cons.inj heq).1 (by decide)
    · exact h hsimple
  · exact absurd (hsuffix.subset List.mem_cons_self) (by decide)

/-! ## Items that grow -/

/-- What creating other items leaves of an item. -/
structure Grows (before after : Item) : Prop where
  name_eq : after.name = before.name
  kind_eq : after.kind = before.kind
  parent_eq : after.parent = before.parent
  arrayBase_eq : after.arrayBase = before.arrayBase
  paramTypes_eq : after.paramTypes = before.paramTypes
  outerClass_eq : ∀ {outer : ItemId}, before.outerClass = some outer → after.outerClass = some outer
  innerClasses_subset : ∀ {inner : ItemId}, inner ∈ before.innerClasses → inner ∈ after.innerClasses

theorem Grows.refl (item : Item) : item.Grows item :=
  ⟨rfl, rfl, rfl, rfl, rfl, fun h => h, fun h => h⟩

theorem Grows.trans {first second third : Item} (h : first.Grows second) (h' : second.Grows third) :
    first.Grows third where
  name_eq := h'.name_eq.trans h.name_eq
  kind_eq := h'.kind_eq.trans h.kind_eq
  parent_eq := h'.parent_eq.trans h.parent_eq
  arrayBase_eq := h'.arrayBase_eq.trans h.arrayBase_eq
  paramTypes_eq := h'.paramTypes_eq.trans h.paramTypes_eq
  outerClass_eq := fun houter => h'.outerClass_eq (h.outerClass_eq houter)
  innerClasses_subset := fun hinner => h'.innerClasses_subset (h.innerClasses_subset hinner)

/-- An item that only gets another member. -/
theorem grows_of_attributes {before after : Item} (hname : after.name = before.name)
    (hkind : after.kind = before.kind) (hparent : after.parent = before.parent)
    (hattributes : after.attributes = before.attributes) : before.Grows after := by
  refine ⟨hname, hkind, hparent, ?_, ?_, fun h => ?_, fun h => ?_⟩
  · rw [arrayBase, arrayBase, hattributes]
  · rw [paramTypes, paramTypes, paramTypes?, paramTypes?, hattributes]
  · rwa [outerClass, hattributes]
  · rwa [innerClasses, hattributes]

theorem get?_setId (item : Item) (key other : AttrKey) (target : ItemId) :
    (item.setId key target).attributes.get? other =
      if key = other then some (.id target) else item.attributes.get? other :=
  Attributes.get?_set item.attributes key other (.id target)

theorem id?_setId (item : Item) (key : AttrKey) (target : ItemId) :
    (item.setId key target).attributes.id? key = some target := by
  rw [Attributes.id?, get?_setId, if_pos rfl]

/-- Setting the class around a class for the first time, or to what it is. -/
theorem grows_setOuter {item : Item} {outer : ItemId}
    (h : ∀ other, item.outerClass = some other → other = outer) :
    item.Grows (item.setId .outerClass outer) := by
  refine ⟨rfl, rfl, rfl, ?_, ?_, ?_, ?_⟩
  · rw [arrayBase, arrayBase, Attributes.id?, Attributes.id?, get?_setId, if_neg (by decide)]
  · rw [paramTypes, paramTypes, paramTypes?, paramTypes?, Attributes.ids?, Attributes.ids?, get?_setId,
      if_neg (by decide)]
  · intro other hother
    obtain rfl := h other hother
    exact id?_setId item .outerClass other
  · intro inner hinner
    rwa [innerClasses, Attributes.ids?, get?_setId, if_neg (by decide)]

theorem get?_pushNew (item : Item) {key other : AttrKey} (target : ItemId) (hne : key ≠ other) :
    (item.pushNew key target).attributes.get? other = item.attributes.get? other := by
  rw [pushNew, Attributes.pushNew, Attributes.get?_alter, if_neg hne]

theorem mem_innerClasses_pushNew {item : Item} {inner other : ItemId} :
    other ∈ (item.pushNew .innerClasses inner).innerClasses ↔
      other ∈ item.innerClasses ∨ other = inner := by
  rw [innerClasses, innerClasses, Attributes.ids?, Attributes.ids?, pushNew, Attributes.pushNew,
    Attributes.get?_alter, if_pos rfl]
  rcases item.attributes.get? .innerClasses with _ | (_ | targets | _) <;> simp
  split <;> grind

theorem grows_pushInner (item : Item) (inner : ItemId) :
    item.Grows (item.pushNew .innerClasses inner) := by
  refine ⟨rfl, rfl, rfl, ?_, ?_, ?_, fun h => mem_innerClasses_pushNew.2 (Or.inl h)⟩
  · rw [arrayBase, arrayBase, Attributes.id?, Attributes.id?, get?_pushNew item inner (by decide)]
  · rw [paramTypes, paramTypes, paramTypes?, paramTypes?, Attributes.ids?, Attributes.ids?,
      get?_pushNew item inner (by decide)]
  · intro outer houter
    rwa [outerClass, Attributes.id?, get?_pushNew item inner (by decide)]

theorem paramTypes_setParamTypes (item : Item) (params : List ItemId) :
    (item.setParamTypes params).paramTypes = params := by
  rw [paramTypes, paramTypes?, Attributes.ids?, setParamTypes, set, Attributes.get?_set, if_pos rfl]
  simp

/-! ### Attributes that are set already -/

theorem alter_eq_self {attrs : Attributes} {key : AttrKey} {f : Option AttrValue → Option AttrValue}
    (h : f (attrs.get? key) = attrs.get? key) : attrs.alter key f = attrs := by
  have hslots : (attrs.alter key f).slots = attrs.slots := by
    refine Vector.ext (fun i hi => ?_)
    show ((attrs.slots.set key.index none).set key.index (f (attrs.get? key)))[i] = _
    rw [h, Attributes.get?]
    simp
  exact congrArg Attributes.mk hslots

theorem setId_eq_self {item : Item} {key : AttrKey} {target : ItemId}
    (h : item.attributes.id? key = some target) : item.setId key target = item := by
  have hslot : item.attributes.get? key = some (.id target) := by
    rw [Attributes.id?] at h
    split at h
    · rename_i other hother
      rw [hother, Option.some.inj h]
    · simp at h
  rw [setId, set, Attributes.set, alter_eq_self hslot.symm]

theorem pushInner_eq_self {item : Item} {inner : ItemId} (h : inner ∈ item.innerClasses) :
    item.pushNew .innerClasses inner = item := by
  obtain ⟨targets, hslot, hmem⟩ : ∃ targets,
      item.attributes.get? .innerClasses = some (.ids targets) ∧ inner ∈ targets := by
    rw [innerClasses, Attributes.ids?] at h
    split at h
    · rename_i targets htargets
      exact ⟨targets, htargets, by simpa using h⟩
    · simp at h
  rw [pushNew, Attributes.pushNew, alter_eq_self]
  rw [hslot]
  simp [hmem]

end Item

namespace Index

variable {a b c index : Index} {foreign : Nat → Prop}

/-! ## Items and their keys -/

theorem has_iff_bears {id : ItemId} {parent : Option ItemId} {kind : ItemKind} {name : String} :
    index.Has id parent kind name ↔ index.bears ⟨parent, kind, name⟩ id := by
  rw [Has, bears, Option.any_eq_true]
  simp

/-- Where items are told apart by their keys, what is found is what has the key. -/
theorem Coherent.findItem_eq_some_iff (h : index.Coherent) (hdistinct : index.Distinct)
    {parent : Option ItemId} {name : String} {kind : ItemKind} {id : ItemId} (hkind : kind ≠ .method) :
    index.findItem parent name kind = some id ↔ index.Has id parent kind name := by
  rw [h.registered.findItem_eq parent name kind hkind, has_iff_bears]
  constructor
  · intro hhead
    exact (List.mem_filter.1 (List.mem_of_mem_head? hhead)).2
  · intro hbears
    obtain ⟨item, hget, _⟩ := Option.any_eq_true _ _ |>.1 hbears
    have hmem : id ∈ index.ids.filter (index.bears ⟨parent, kind, name⟩) :=
      List.mem_filter.2 ⟨mem_ids_of_get? h.stacked hget, hbears⟩
    cases hlist : index.ids.filter (index.bears ⟨parent, kind, name⟩) with
    | nil => simp [hlist] at hmem
    | cons first rest =>
      have hfirst : first ∈ index.ids.filter (index.bears ⟨parent, kind, name⟩) := by simp [hlist]
      rw [List.head?_cons, hdistinct _ hkind first id (List.mem_filter.1 hfirst).2 hbears]

/-- The owner of an item is an item. -/
theorem Coherent.exists_owner (h : index.Coherent) {id owner : ItemId} {kind : ItemKind}
    {name : String} (hhas : index.Has id (some owner) kind name) :
    index.CanTake (some owner) kind := by
  obtain ⟨item, hget, hparent, rfl, _⟩ := hhas
  have hplaced := h.owned.placed hget
  rw [Placed, hparent] at hplaced
  exact hplaced

/-- Whatever is no project has an owner that may own it. -/
theorem Coherent.exists_parent (h : index.Coherent) {id : ItemId} {item : Item}
    (hget : index.get? id = some item) (hkind : item.kind ≠ .project) :
    ∃ owner ownerItem, item.parent = some owner ∧ index.get? owner = some ownerItem ∧
      ownerItem.kind.canContain item.kind = true := by
  have hplaced := h.owned.placed hget
  rw [Placed] at hplaced
  cases hparent : item.parent with
  | none =>
    simp only [hparent] at hplaced
    exact absurd hplaced hkind
  | some owner =>
    simp only [hparent] at hplaced
    obtain ⟨ownerItem, howner, hcontain⟩ := hplaced
    exact ⟨owner, ownerItem, rfl, howner, hcontain⟩

/-- A class has a package. -/
theorem Coherent.exists_package (h : index.Coherent) {id : ItemId} (hid : index.IsKind id .class) :
    ∃ package name, index.Has id (some package) .class name := by
  obtain ⟨item, hget, hkind⟩ := hid
  obtain ⟨package, _, hparent, _⟩ := h.exists_parent hget (by rw [hkind]; decide)
  exact ⟨package, item.name, item, hget, hparent, hkind, rfl⟩

/-- An item of the builtin package. -/
def IsBuiltin (index : Index) (id : ItemId) (name : String) : Prop :=
  ∃ project package, index.Has project none .project builtinProject ∧
    index.Has package (some project) .package "" ∧ index.Has id (some package) .class name

theorem Coherent.findBuiltin_eq_some_iff (h : index.Coherent) (hdistinct : index.Distinct)
    {name : String} {id : ItemId} : index.findBuiltin name = some id ↔ index.IsBuiltin id name := by
  have hfind := @Coherent.findItem_eq_some_iff index h hdistinct
  rw [findBuiltin]
  constructor
  · intro hfound
    split at hfound
    · simp at hfound
    · rename_i project hproject
      split at hfound
      · simp at hfound
      · rename_i package hpackage
        exact ⟨project, package, (hfind (by decide)).1 hproject, (hfind (by decide)).1 hpackage,
          (hfind (by decide)).1 hfound⟩
  · rintro ⟨project, package, hproject, hpackage, hid⟩
    rw [(hfind (by decide)).2 hproject]
    simp only
    rw [(hfind (by decide)).2 hpackage]
    exact (hfind (by decide)).2 hid

/-! ## Arrays and nested classes in their places -/

/-- An array stands beside its element type, which is no array, and is named after it; what is no
array is not named like one. -/
def Shaped (index : Index) (item : Item) : Prop :=
  match item.arrayBase with
  | none => item.kind = .class → ¬ Item.NamesArray item.name
  | some root => item.kind = .class ∧ ∃ element dims, index.get? root = some element ∧
      element.kind = .class ∧ element.parent = item.parent ∧ element.arrayBase = none ∧ dims ≠ 0 ∧
      item.name = Item.arrayName element.name dims

/-- The class around a class has its name up to the last dot. -/
def Nested (index : Index) (item : Item) (outer : ItemId) : Prop :=
  ∃ simple outerName, index.Has outer item.parent .class outerName ∧ '.' ∉ simple.toList ∧
    item.name = outerName ++ "." ++ simple

/-- Items are told apart by their keys, and arrays stand in their places. -/
structure Patterned (index : Index) : Prop where
  coherent : index.Coherent
  distinct : index.Distinct
  shaped : ∀ {id : ItemId} {item : Item}, index.get? id = some item → index.Shaped item

theorem Patterned.findItem_eq_some_iff (h : index.Patterned) {parent : Option ItemId} {name : String}
    {kind : ItemKind} {id : ItemId} (hkind : kind ≠ .method) :
    index.findItem parent name kind = some id ↔ index.Has id parent kind name :=
  h.coherent.findItem_eq_some_iff h.distinct hkind

/-- Nested classes stand in their places too, and no handle of this index is foreign. -/
structure Laid (foreign : Nat → Prop) (index : Index) : Prop extends index.Patterned where
  own : ∀ layer ∈ index.layers, ¬ foreign layer.generation
  nested : ∀ {id outer : ItemId} {item : Item}, index.get? id = some item →
    item.outerClass = some outer → index.Nested item outer

theorem Laid.not_foreign (h : index.Laid foreign) {id : ItemId} (hid : index.contains id) :
    ¬ foreign id.generation := by
  obtain ⟨layer, hlayer, hgeneration⟩ := exists_layer_of_mem_ids h.coherent.stacked
    ((mem_ids_iff h.coherent.stacked).2 hid)
  exact hgeneration ▸ h.own layer hlayer

/-- What is an array tells its element type and its dimensions by its name. -/
theorem Patterned.exists_element (h : index.Patterned) {id root : ItemId} {item : Item}
    (hget : index.get? id = some item) (hbase : item.arrayBase = some root) :
    item.kind = .class ∧ ∃ element, index.get? root = some element ∧ element.kind = .class ∧
      element.parent = item.parent ∧ element.arrayBase = none ∧
      ¬ Item.NamesArray element.name ∧ item.arrayDims ≠ 0 ∧
      item.name = Item.arrayName element.name item.arrayDims := by
  have hshaped := h.shaped hget
  rw [Shaped, hbase] at hshaped
  obtain ⟨hkind, element, dims, helement, hclass, hparent, hnone, hdims, hname⟩ := hshaped
  have hplain := h.shaped helement
  rw [Shaped, hnone] at hplain
  have hcount : item.arrayDims = dims := by
    rw [Item.arrayDims, hname, Item.bracketPairs_arrayName (hplain hclass)]
  rw [hcount]
  exact ⟨hkind, element, helement, hclass, hparent, hnone, hplain hclass, hdims, hname⟩

/-! ## Types that match -/

/-- Two types that are equal or one of which is the wildcard. -/
def Alike (index : Index) (x y : ItemId) : Prop :=
  x = y ∨ index.findWildcard = some x ∨ index.findWildcard = some y

/-- Two arrays of equal dimensions over types that are alike. -/
def ArraysAlike (index : Index) (x y : ItemId) : Prop :=
  ∃ xItem yItem xBase yBase, index.get? x = some xItem ∧ index.get? y = some yItem ∧
    xItem.arrayBase = some xBase ∧ yItem.arrayBase = some yBase ∧
    xItem.arrayDims = yItem.arrayDims ∧ index.Alike xBase yBase

theorem typesMatchWithin_succ_iff (index : Index) (steps : Nat) (x y : ItemId) :
    index.typesMatchWithin (steps + 1) x y = true ↔ index.Alike x y ∨
      ∃ xItem yItem xBase yBase, index.get? x = some xItem ∧ index.get? y = some yItem ∧
        xItem.arrayBase = some xBase ∧ yItem.arrayBase = some yBase ∧
        xItem.arrayDims = yItem.arrayDims ∧ index.typesMatchWithin steps xBase yBase = true := by
  rw [typesMatchWithin, Alike]
  by_cases heq : x = y
  · simp [heq]
  · by_cases hwild : index.findWildcard = some x ∨ index.findWildcard = some y
    · simp [hwild]
    · have hnot : ¬ (x = y ∨ index.findWildcard = some x ∨ index.findWildcard = some y) :=
        fun halike => halike.elim heq hwild
      rw [if_neg heq, if_neg (by simpa using hwild), or_iff_right hnot]
      cases hx : index.get? x with
      | none => simp
      | some xItem =>
        cases hy : index.get? y with
        | none => simp
        | some yItem =>
          cases hxBase : xItem.arrayBase with
          | none => simp [hxBase]
          | some xBase =>
            cases hyBase : yItem.arrayBase with
            | none => simp [hxBase, hyBase]
            | some yBase => simp [hxBase, hyBase]

/-- Looking one array base deep is enough, as element types are no arrays. -/
theorem Patterned.typesMatch_iff (h : index.Patterned) {x y : ItemId} :
    index.typesMatch x y = true ↔ index.Alike x y ∨ index.ArraysAlike x y := by
  rw [typesMatch, typesMatchWithin_succ_iff]
  refine or_congr_right ⟨?_, ?_⟩
  · rintro ⟨xItem, yItem, xBase, yBase, hx, hy, hxBase, hyBase, hdims, hmatch⟩
    refine ⟨xItem, yItem, xBase, yBase, hx, hy, hxBase, hyBase, hdims, ?_⟩
    cases hsize : index.size with
    | zero => simp [hsize, typesMatchWithin] at hmatch
    | succ steps =>
      rw [hsize, typesMatchWithin_succ_iff] at hmatch
      refine hmatch.resolve_right ?_
      rintro ⟨inner, _, innerBase, _, hinner, _, hinnerBase, _⟩
      obtain ⟨_, element, helement, _, _, hnone, _⟩ := h.exists_element hx hxBase
      obtain rfl := Option.some.inj (hinner.symm.trans helement)
      rw [hnone] at hinnerBase
      exact absurd hinnerBase (by simp)
  · rintro ⟨xItem, yItem, xBase, yBase, hx, hy, hxBase, hyBase, hdims, halike⟩
    refine ⟨xItem, yItem, xBase, yBase, hx, hy, hxBase, hyBase, hdims, ?_⟩
    have hpos : 0 < index.size := by
      rw [← length_ids]
      exact List.length_pos_of_mem (mem_ids_of_get? h.coherent.stacked hx)
    obtain ⟨steps, hsteps⟩ := Nat.exists_eq_succ_of_ne_zero (Nat.pos_iff_ne_zero.1 hpos)
    rw [hsteps, typesMatchWithin_succ_iff]
    exact Or.inl halike

theorem Alike.symm {x y : ItemId} (h : index.Alike x y) : index.Alike y x :=
  h.elim (fun heq => Or.inl heq.symm) (fun hwild => Or.inr hwild.symm)

theorem typesMatchWithin_symm (steps : Nat) {x y : ItemId}
    (h : index.typesMatchWithin steps x y = true) : index.typesMatchWithin steps y x = true := by
  induction steps generalizing x y with
  | zero => exact h
  | succ steps ih =>
    rw [typesMatchWithin_succ_iff] at h ⊢
    refine h.imp Alike.symm ?_
    rintro ⟨xItem, yItem, xBase, yBase, hx, hy, hxBase, hyBase, hdims, hmatch⟩
    exact ⟨yItem, xItem, yBase, xBase, hy, hx, hyBase, hxBase, hdims.symm, ih hmatch⟩

theorem typesMatch_comm (index : Index) (x y : ItemId) :
    index.typesMatch x y = index.typesMatch y x :=
  Bool.eq_iff_iff.2 ⟨typesMatchWithin_symm _, typesMatchWithin_symm _⟩

theorem typesMatch_refl (index : Index) (x : ItemId) : index.typesMatch x x = true :=
  (typesMatchWithin_succ_iff index index.size x x).2 (Or.inl (Or.inl rfl))

theorem paramsMatch_iff {xs ys : List ItemId} :
    index.paramsMatch xs ys = true ↔
      List.Forall₂ (fun x y => index.typesMatch x y = true) xs ys := by
  rw [paramsMatch, List.forall₂_iff_zip]
  simp

theorem paramsMatch_refl (index : Index) (xs : List ItemId) : index.paramsMatch xs xs = true :=
  paramsMatch_iff.2 (List.forall₂_same.2 (fun x _ => index.typesMatch_refl x))

theorem paramsMatch_comm (index : Index) (xs ys : List ItemId) :
    index.paramsMatch xs ys = index.paramsMatch ys xs := by
  have hstep : ∀ xs ys, index.paramsMatch xs ys = true → index.paramsMatch ys xs = true := by
    intro xs ys hmatch
    refine paramsMatch_iff.2 (List.Forall₂.flip ((paramsMatch_iff.1 hmatch).imp ?_))
    intro x y hxy
    rwa [flip, typesMatch_comm]
  exact Bool.eq_iff_iff.2 ⟨hstep xs ys, hstep ys xs⟩

/-! ## What stays when items are created -/

/-- All items of `a` are items of `b`, which lists them first and has changed none in what tells it
apart. -/
structure Retains (a b : Index) : Prop where
  keeps : ∀ {id : ItemId} {item : Item}, a.get? id = some item →
    ∃ later, b.get? id = some later ∧ item.Grows later
  ids_prefix : a.ids <+: b.ids

theorem Retains.trans (h : Retains a b) (h' : Retains b c) : Retains a c := by
  refine ⟨fun hget => ?_, h.ids_prefix.trans h'.ids_prefix⟩
  obtain ⟨middle, hmiddle, hgrows⟩ := h.keeps hget
  obtain ⟨later, hlater, hgrows'⟩ := h'.keeps hmiddle
  exact ⟨later, hlater, hgrows.trans hgrows'⟩

theorem Retains.of_get? (ha : a.IsStacked) (hb : b.IsStacked) (hget : ∀ id, b.get? id = a.get? id) :
    Retains a b := by
  refine ⟨fun {id item} hitem => ⟨item, (hget id).trans hitem, Item.Grows.refl item⟩, ?_⟩
  have hids : a.ids = b.ids := ids_eq_of_contains ha hb (fun id => by rw [contains, contains, hget])
  exact hids ▸ List.prefix_rfl

namespace Retains

variable (h : Retains a b) {id : ItemId} {parent : Option ItemId} {kind : ItemKind} {name : String}
include h

theorem contains (hid : a.contains id) : b.contains id := by
  obtain ⟨item, hget⟩ := Option.isSome_iff_exists.1 hid
  obtain ⟨later, hlater, _⟩ := h.keeps hget
  exact Option.isSome_iff_exists.2 ⟨later, hlater⟩

theorem has (hid : a.Has id parent kind name) : b.Has id parent kind name := by
  obtain ⟨item, hget, rfl, rfl, rfl⟩ := hid
  obtain ⟨later, hlater, hgrows⟩ := h.keeps hget
  exact ⟨later, hlater, hgrows.parent_eq, hgrows.kind_eq, hgrows.name_eq⟩

/-- What an item of `a` is in `b` it was before. -/
theorem has_of_contains (hid : a.contains id) (hhas : b.Has id parent kind name) :
    a.Has id parent kind name := by
  obtain ⟨item, hget⟩ := Option.isSome_iff_exists.1 hid
  obtain ⟨later, hlater, hgrows⟩ := h.keeps hget
  obtain ⟨other, hother, rfl, rfl, rfl⟩ := hhas
  obtain rfl := Option.some.inj (hlater.symm.trans hother)
  exact ⟨item, hget, hgrows.parent_eq.symm, hgrows.kind_eq.symm, hgrows.name_eq.symm⟩

theorem canTake (htake : a.CanTake (some id) kind) : b.CanTake (some id) kind := by
  obtain ⟨item, hget, hcontain⟩ := htake
  obtain ⟨later, hlater, hgrows⟩ := h.keeps hget
  exact ⟨later, hlater, hgrows.kind_eq ▸ hcontain⟩

theorem isBuiltin (hid : a.IsBuiltin id name) : b.IsBuiltin id name := by
  obtain ⟨project, package, hproject, hpackage, hclass⟩ := hid
  exact ⟨project, package, h.has hproject, h.has hpackage, h.has hclass⟩

/-- A builtin item of `b` that `a` had was one before, as its owners are items of `a`. -/
theorem isBuiltin_of_contains (ha : a.Coherent) (hid : a.contains id) (hbuiltin : b.IsBuiltin id name) :
    a.IsBuiltin id name := by
  obtain ⟨project, package, hproject, hpackage, hclass⟩ := hbuiltin
  have hclass' := h.has_of_contains hid hclass
  obtain ⟨packageItem, hgetPackage, _⟩ := ha.exists_owner hclass'
  have hpackage' := h.has_of_contains (Option.isSome_iff_exists.2 ⟨_, hgetPackage⟩) hpackage
  obtain ⟨projectItem, hgetProject, _⟩ := ha.exists_owner hpackage'
  have hproject' := h.has_of_contains (Option.isSome_iff_exists.2 ⟨_, hgetProject⟩) hproject
  exact ⟨project, package, hproject', hpackage', hclass'⟩

theorem shaped {item later : Item} (hgrows : item.Grows later) (hshaped : a.Shaped item) :
    b.Shaped later := by
  rw [Shaped] at hshaped ⊢
  rw [hgrows.arrayBase_eq]
  cases hbase : item.arrayBase with
  | none =>
    simp only [hbase] at hshaped
    intro hkind
    rw [hgrows.name_eq]
    exact hshaped (hgrows.kind_eq ▸ hkind)
  | some root =>
    simp only [hbase] at hshaped
    obtain ⟨hkind, element, dims, helement, hclass, hparent, hnone, hdims, hname⟩ := hshaped
    obtain ⟨elementLater, helementLater, helementGrows⟩ := h.keeps helement
    refine ⟨hgrows.kind_eq.trans hkind, elementLater, dims, helementLater,
      helementGrows.kind_eq.trans hclass, ?_, helementGrows.arrayBase_eq.trans hnone, hdims, ?_⟩
    · rw [helementGrows.parent_eq, hgrows.parent_eq, hparent]
    · rw [helementGrows.name_eq, hgrows.name_eq, hname]

theorem nested {item later : Item} {outer : ItemId} (hgrows : item.Grows later)
    (hnested : a.Nested item outer) : b.Nested later outer := by
  obtain ⟨simple, outerName, houter, hsimple, hname⟩ := hnested
  refine ⟨simple, outerName, ?_, hsimple, hgrows.name_eq.trans hname⟩
  rw [hgrows.parent_eq]
  exact h.has houter

end Retains

/-- An index stays in shape when what is new is in shape. -/
theorem Laid.retains (ha : a.Laid foreign) (h : Retains a b) (hcoherent : b.Coherent)
    (hdistinct : b.Distinct) (hown : ∀ layer ∈ b.layers, ¬ foreign layer.generation)
    (hshaped : ∀ {id : ItemId} {item : Item}, b.get? id = some item → a.get? id = none →
      b.Shaped item)
    (hnested : ∀ {id outer : ItemId} {item : Item}, b.get? id = some item →
      item.outerClass = some outer →
      (∃ before, a.get? id = some before ∧ before.outerClass = some outer) ∨ b.Nested item outer) :
    b.Laid foreign := by
  refine ⟨⟨hcoherent, hdistinct, fun {id item} hget => ?_⟩, hown, fun {id outer item} hget houter => ?_⟩
  · cases hbefore : a.get? id with
    | none => exact hshaped hget hbefore
    | some before =>
      obtain ⟨later, hlater, hgrows⟩ := h.keeps hbefore
      obtain rfl := Option.some.inj (hget.symm.trans hlater)
      exact h.shaped hgrows (ha.shaped hbefore)
  · rcases hnested hget houter with ⟨before, hbefore, hbeforeOuter⟩ | hnew
    · obtain ⟨later, hlater, hgrows⟩ := h.keeps hbefore
      obtain rfl := Option.some.inj (hget.symm.trans hlater)
      exact h.nested hgrows (ha.nested hbefore hbeforeOuter)
    · exact hnew

/-! ## Handles that signatures may hold -/

/-- A handle of an item or of another index. -/
def Knows (foreign : Nat → Prop) (index : Index) (id : ItemId) : Prop :=
  index.contains id ∨ foreign id.generation

theorem Retains.knows (h : Retains a b) {id : ItemId} (hid : a.Knows foreign id) :
    b.Knows foreign id :=
  hid.imp_left h.contains

section Stability

variable (ha : a.Laid foreign) (hb : b.Laid foreign) (h : Retains a b)
include ha hb h

/-- A handle that is known is the wildcard later exactly when it is now: the wildcard is made under
a handle of its own. -/
theorem Retains.findWildcard_iff {id : ItemId} (hid : a.Knows foreign id) :
    b.findWildcard = some id ↔ a.findWildcard = some id := by
  rw [findWildcard, findWildcard, hb.coherent.findBuiltin_eq_some_iff hb.distinct,
    ha.coherent.findBuiltin_eq_some_iff ha.distinct]
  refine ⟨fun hbuiltin => ?_, h.isBuiltin⟩
  have hcontains : b.contains id := by
    obtain ⟨_, _, _, _, hclass⟩ := hbuiltin
    exact hclass.isKind.contains
  exact h.isBuiltin_of_contains ha.coherent (hid.resolve_right (hb.not_foreign hcontains)) hbuiltin

theorem Retains.alike_iff {x y : ItemId} (hx : a.Knows foreign x) (hy : a.Knows foreign y) :
    b.Alike x y ↔ a.Alike x y := by
  rw [Alike, Alike, h.findWildcard_iff ha hb hx, h.findWildcard_iff ha hb hy]

omit ha in
theorem Retains.get?_of_knows {id : ItemId} {later : Item} (hid : a.Knows foreign id)
    (hlater : b.get? id = some later) : ∃ item, a.get? id = some item ∧ item.Grows later := by
  have hcontains : b.contains id := Option.isSome_iff_exists.2 ⟨later, hlater⟩
  have hbefore := hid.resolve_right (hb.not_foreign hcontains)
  obtain ⟨item, hget⟩ := Option.isSome_iff_exists.1 hbefore
  obtain ⟨other, hother, hgrows⟩ := h.keeps hget
  obtain rfl := Option.some.inj (hlater.symm.trans hother)
  exact ⟨item, hget, hgrows⟩

/-- Whether known types match is settled once and for all. -/
theorem Retains.typesMatch_eq {x y : ItemId} (hx : a.Knows foreign x) (hy : a.Knows foreign y) :
    b.typesMatch x y = a.typesMatch x y := by
  rw [Bool.eq_iff_iff, hb.typesMatch_iff, ha.typesMatch_iff, h.alike_iff ha hb hx hy]
  have hdims : ∀ {item later : Item}, item.Grows later → later.arrayDims = item.arrayDims :=
    fun hgrows => by rw [Item.arrayDims, Item.arrayDims, hgrows.name_eq]
  have hknows : ∀ {id base : ItemId} {item : Item}, a.get? id = some item →
      item.arrayBase = some base → a.Knows foreign base := by
    intro id base item hget hbase
    obtain ⟨_, element, helement, _⟩ := ha.exists_element hget hbase
    exact Or.inl (Option.isSome_iff_exists.2 ⟨element, helement⟩)
  refine or_congr_right ⟨?_, ?_⟩
  · rintro ⟨xLater, yLater, xBase, yBase, hxLater, hyLater, hxBase, hyBase, hequal, halike⟩
    obtain ⟨xItem, hxItem, hxGrows⟩ := h.get?_of_knows hb hx hxLater
    obtain ⟨yItem, hyItem, hyGrows⟩ := h.get?_of_knows hb hy hyLater
    rw [hxGrows.arrayBase_eq] at hxBase
    rw [hyGrows.arrayBase_eq] at hyBase
    rw [hdims hxGrows, hdims hyGrows] at hequal
    exact ⟨xItem, yItem, xBase, yBase, hxItem, hyItem, hxBase, hyBase, hequal,
      (h.alike_iff ha hb (hknows hxItem hxBase) (hknows hyItem hyBase)).1 halike⟩
  · rintro ⟨xItem, yItem, xBase, yBase, hxItem, hyItem, hxBase, hyBase, hequal, halike⟩
    obtain ⟨xLater, hxLater, hxGrows⟩ := h.keeps hxItem
    obtain ⟨yLater, hyLater, hyGrows⟩ := h.keeps hyItem
    refine ⟨xLater, yLater, xBase, yBase, hxLater, hyLater, hxGrows.arrayBase_eq.trans hxBase,
      hyGrows.arrayBase_eq.trans hyBase, ?_,
      (h.alike_iff ha hb (hknows hxItem hxBase) (hknows hyItem hyBase)).2 halike⟩
    rw [hdims hxGrows, hdims hyGrows, hequal]

theorem Retains.paramsMatch_eq {xs ys : List ItemId} (hxs : ∀ x ∈ xs, a.Knows foreign x)
    (hys : ∀ y ∈ ys, a.Knows foreign y) : b.paramsMatch xs ys = a.paramsMatch xs ys := by
  rw [paramsMatch, paramsMatch]
  congr 1
  rw [Bool.eq_iff_iff, List.all_eq_true, List.all_eq_true]
  refine forall₂_congr ?_
  rintro ⟨x, y⟩ hpair
  obtain ⟨hx, hy⟩ := List.of_mem_zip hpair
  simp only [h.typesMatch_eq ha hb (hxs x hx) (hys y hy)]

end Stability

/-! ## Overloads -/

/-- The first method of a class with a name whose signature matches. -/
def overload? (index : Index) (owner : ItemId) (name : String) (params : List ItemId) :
    Option ItemId :=
  (index.findAll (some owner) name .method).find? fun candidate =>
    index.paramsMatch (((index.get? candidate).map Item.paramTypes).getD []) params

/-- Signatures hold known handles, and the overloads of a method are told apart by them. -/
structure Settled (foreign : Nat → Prop) (index : Index) : Prop extends Laid foreign index where
  known : ∀ {id : ItemId} {item : Item}, index.get? id = some item → item.kind = .method →
    ∀ param ∈ item.paramTypes, index.Knows foreign param
  overloads : ∀ {id other : ItemId} {item otherItem : Item}, index.get? id = some item →
    index.get? other = some otherItem → item.kind = .method → otherItem.kind = .method →
    item.parent = otherItem.parent → item.name = otherItem.name →
    index.paramsMatch item.paramTypes otherItem.paramTypes = true → id = other

/-- Overloads stay apart when a new method matches none that there are. -/
theorem Settled.retains (ha : a.Settled foreign) (hb : b.Laid foreign) (h : Retains a b)
    (hknown : ∀ {id : ItemId} {item : Item}, b.get? id = some item → a.get? id = none →
      item.kind = .method → ∀ param ∈ item.paramTypes, a.Knows foreign param)
    (hnew : ∀ {id other : ItemId} {item otherItem : Item}, b.get? id = some item →
      a.get? id = none → b.get? other = some otherItem → item.kind = .method →
      otherItem.kind = .method → item.parent = otherItem.parent → item.name = otherItem.name →
      b.paramsMatch otherItem.paramTypes item.paramTypes = true → id = other) :
    b.Settled foreign := by
  have hall : ∀ {id : ItemId} {item : Item}, b.get? id = some item → item.kind = .method →
      ∀ param ∈ item.paramTypes, a.Knows foreign param := by
    intro id item hget hkind
    cases hbefore : a.get? id with
    | none => exact hknown hget hbefore hkind
    | some before =>
      obtain ⟨later, hlater, hgrows⟩ := h.keeps hbefore
      obtain rfl := Option.some.inj (hget.symm.trans hlater)
      rw [hgrows.paramTypes_eq]
      exact ha.known hbefore (hgrows.kind_eq ▸ hkind)
  refine ⟨hb, fun hget hkind param hparam => h.knows (hall hget hkind param hparam), ?_⟩
  intro id other item otherItem hget hother hkind hotherKind hparent hname hmatch
  cases hbefore : a.get? id with
  | none =>
    rw [paramsMatch_comm] at hmatch
    exact hnew hget hbefore hother hkind hotherKind hparent hname hmatch
  | some before =>
    cases hotherBefore : a.get? other with
    | none =>
      exact (hnew hother hotherBefore hget hotherKind hkind hparent.symm hname.symm hmatch).symm
    | some otherBefore =>
      rw [h.paramsMatch_eq ha.toLaid hb (hall hget hkind) (hall hother hotherKind)] at hmatch
      obtain ⟨later, hlater, hgrows⟩ := h.keeps hbefore
      obtain ⟨otherLater, hotherLater, hotherGrows⟩ := h.keeps hotherBefore
      obtain rfl := Option.some.inj (hget.symm.trans hlater)
      obtain rfl := Option.some.inj (hother.symm.trans hotherLater)
      rw [hgrows.paramTypes_eq, hotherGrows.paramTypes_eq] at hmatch
      rw [hgrows.parent_eq, hotherGrows.parent_eq] at hparent
      rw [hgrows.name_eq, hotherGrows.name_eq] at hname
      exact ha.overloads hbefore hotherBefore (hgrows.kind_eq ▸ hkind)
        (hotherGrows.kind_eq ▸ hotherKind) hparent hname hmatch

end Index

end CodeAtlas
