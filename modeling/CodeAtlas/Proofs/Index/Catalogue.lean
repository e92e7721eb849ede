/-
# Catalogued indices

In a catalogued index the next number is above all that are in use, and the registry lists the items
by increasing number.  Finding and creating builtin classes and methods relies on nothing else: owners,
members and attributes may hold any handle, and numbers may have been left out.  Every index that
operations and layers lead to is catalogued, and so is one that was read from a snapshot.

What is created leaves the items that were there as they were but for their members, and brings no
supertypes.  Its owners are items, and a class that is created stands in the builtin project.
-/
import CodeAtlas.Proofs.Index.Enlargement
import CodeAtlas.Proofs.Snapshot.Reading

namespace CodeAtlas

namespace Index

variable {a b c index : Index} {made more : List ItemId}

/-! ## Which indices are catalogued -/

/-- An index with numbers in order whose registry lists every item. -/
structure Catalogued (index : Index) : Prop extends index.Tallied where
  registered : index.Registered

theorem Coherent.catalogued (h : index.Coherent) : index.Catalogued :=
  ⟨h.tallied, h.registered⟩

theorem Reachable.catalogued (h : index.Reachable) (hroom : index.size < 2 ^ 32) :
    index.Catalogued :=
  (h.coherent hroom).catalogued

theorem Catalogued.onBase (h : index.Catalogued) {generation : Nat}
    (hnew : ∀ id ∈ index.ids, id.generation ≠ generation) :
    (onBase generation index).Catalogued :=
  ⟨h.toTallied.onBase hnew, h.registered.onBase h.stacked hnew⟩

theorem Catalogued.modify (h : index.Catalogued) {f : Item → Item} (hf : Item.KeepsPlace f)
    (id : ItemId) : (index.modify id f).Catalogued :=
  ⟨h.toTallied.modify hf id, h.registered.modify h.stacked hf id⟩

/-- There are numbers left for as many items as `b` has more than `a`. -/
def HasNumbers (a b : Index) : Prop :=
  a.nextRaw.toNat + b.size < 2 ^ 32 + a.size

theorem HasNumbers.mono (h : HasNumbers a c) (hsize : b.size ≤ c.size) : HasNumbers a b := by
  unfold HasNumbers at h ⊢
  omega

/-- Without gaps all that counts is how many items there will be. -/
theorem Counted.hasNumbers_iff (h : a.Counted) : HasNumbers a b ↔ b.size < 2 ^ 32 := by
  unfold HasNumbers
  rw [h.next_eq]
  omega

/-! ## What is added -/

/-- Everything of `a` is in `b`, as it was but for its members, and is found there.  What is new has no
supertypes and names items as owners; new classes stand in the builtin project, and the new methods are
among `made`. -/
structure Augments (made : List ItemId) (a b : Index) : Prop extends Enlarges a b where
  catalogued : b.Catalogued
  numbers_eq : b.nextRaw.toNat + a.size = a.nextRaw.toNat + b.size
  finds : ∀ {parent : Option ItemId} {name : String} {kind : ItemKind} {id : ItemId},
    kind ≠ .method → a.findItem parent name kind = some id → b.findItem parent name kind = some id
  directSupertypes_eq : ∀ id, b.directSupertypes id = a.directSupertypes id
  owners : ∀ {id owner : ItemId}, b.HasParent id owner → a.HasParent id owner ∨ b.contains owner
  classes : ∀ {id : ItemId} {item : Item}, b.get? id = some item → a.get? id = none →
    item.kind = .class → b.InBuiltin id
  methods : ∀ {id : ItemId} {item : Item}, b.get? id = some item → a.get? id = none →
    item.kind = .method → id ∈ made

namespace Augments

theorem refl (h : index.Catalogued) : Augments [] index index := by
  have hnothing : ∀ {id : ItemId} {item : Item}, index.get? id = some item →
      index.get? id ≠ none := fun hget => by simp [hget]
  exact ⟨Enlarges.refl index, h, rfl, fun _ hfind => hfind, fun _ => rfl, Or.inl,
    fun hget hnone => absurd hnone (hnothing hget), fun hget hnone => absurd hnone (hnothing hget)⟩

theorem trans (h : Augments made a b) (h' : Augments more b c) : Augments (made ++ more) a c where
  toEnlarges := h.toEnlarges.trans h'.toEnlarges
  catalogued := h'.catalogued
  numbers_eq := by
    have hfirst := h.numbers_eq
    have hsecond := h'.numbers_eq
    omega
  finds := fun hkind hfind => h'.finds hkind (h.finds hkind hfind)
  directSupertypes_eq := fun id => (h'.directSupertypes_eq id).trans (h.directSupertypes_eq id)
  owners := by
    intro id owner hparent
    rcases h'.owners hparent with hmiddle | hlater
    · exact (h.owners hmiddle).imp_right h'.toEnlarges.contains
    · exact Or.inr hlater
  classes := by
    intro id item hget hnone hclass
    cases hmiddle : b.get? id with
    | none => exact h'.classes hget hmiddle hclass
    | some middle =>
      obtain ⟨later, hlater, hstays⟩ := h'.stays hmiddle
      obtain rfl := Option.some.inj (hget.symm.trans hlater)
      exact h'.toEnlarges.inBuiltin (h.classes hmiddle hnone (hstays.kind_eq.symm.trans hclass))
  methods := by
    intro id item hget hnone hmethod
    -- an item that is new at the end came with the first step or with the second
    cases hmiddle : b.get? id with
    | none => exact List.mem_append_right _ (h'.methods hget hmiddle hmethod)
    | some middle =>
      obtain ⟨later, hlater, hstays⟩ := h'.stays hmiddle
      obtain rfl := Option.some.inj (hget.symm.trans hlater)
      exact List.mem_append_left _ (h.methods hmiddle hnone (hstays.kind_eq.symm.trans hmethod))

theorem hasNumbers (h : Augments made a b) (hroom : HasNumbers a c) : HasNumbers b c := by
  have hnumbers := h.numbers_eq
  unfold HasNumbers at hroom ⊢
  omega

/-- The classes above a class stay the same. -/
theorem mem_withSupertypes_iff (h : Augments made a b) (ha : a.IsStacked) {id target : ItemId} :
    target ∈ b.withSupertypes id ↔ target ∈ a.withSupertypes id := by
  rw [Index.mem_withSupertypes_iff h.catalogued.stacked.isListed,
    Index.mem_withSupertypes_iff ha.isListed, Inherits, Inherits]
  simp only [h.directSupertypes_eq]

theorem mem_methods (h : Augments made a b) (ha : a.IsStacked) {method : ItemId × String × Nat}
    (hmethod : method ∈ a.methods) : method ∈ b.methods := by
  obtain ⟨id, item, hget, hitem⟩ := (mem_methods_iff ha).1 hmethod
  obtain ⟨later, hlater, hstays⟩ := h.stays hget
  exact (mem_methods_iff h.catalogued.stacked).2 ⟨id, later, hlater, hstays.method?_eq.trans hitem⟩

/-- A method of the later index was there before or is among the new ones. -/
theorem mem_methods_cases (h : Augments made a b) (ha : a.IsStacked)
    {method : ItemId × String × Nat} (hmethod : method ∈ b.methods) : method ∈ a.methods ∨
      ∃ id ∈ made, ∃ item, b.get? id = some item ∧ item.method? = some method := by
  obtain ⟨id, item, hget, hitem⟩ := (mem_methods_iff h.catalogued.stacked).1 hmethod
  cases hbefore : a.get? id with
  | none =>
    have hkind := (Item.method?_eq_some_iff.1 hitem).1
    exact Or.inr ⟨id, h.methods hget hbefore hkind, item, hget, hitem⟩
  | some before =>
    obtain ⟨later, hlater, hstays⟩ := h.stays hbefore
    obtain rfl := Option.some.inj (hget.symm.trans hlater)
    exact Or.inl ((mem_methods_iff ha).2 ⟨id, before, hbefore, hstays.method?_eq ▸ hitem⟩)

theorem findBuiltin (h : Augments made a b) {name : String} {id : ItemId}
    (hfind : a.findBuiltin name = some id) : b.findBuiltin name = some id := by
  unfold Index.findBuiltin at hfind ⊢
  cases hproject : a.findItem none builtinProject .project with
  | none => simp [hproject] at hfind
  | some project =>
    cases hpackage : a.findItem (some project) "" .package with
    | none => simp [hproject, hpackage] at hfind
    | some package =>
      rw [h.finds (by decide) hproject]
      dsimp only
      rw [h.finds (by decide) hpackage]
      simp only [hproject, hpackage] at hfind
      exact h.finds (by decide) hfind

/-- What is set on a new item changes nothing that was there. -/
theorem set_new (h : Augments made a b) {id : ItemId} (hid : a.get? id = none)
    {settings : List (Setting ItemId)} (hkeys : ∀ setting ∈ settings,
      setting.key ≠ .superclass ∧ setting.key ≠ .superinterfaces) :
    Augments made a (b.modify id (Setting.applyAll settings)) := by
  have hplace := Setting.keepsPlace_applyAll settings
  refine ⟨⟨fun {other item} hget => ?_⟩, h.catalogued.modify hplace id, ?_, ?_, fun other => ?_, ?_,
    ?_, ?_⟩
  · have hne : other ≠ id := by
      rintro rfl
      rw [hid] at hget
      exact absurd hget (by simp)
    rw [get?_modify, if_neg hne]
    exact h.stays hget
  · rw [nextRaw_modify, size_modify]
    exact h.numbers_eq
  · intro parent name kind other hkind hfind
    rw [findItem_modify]
    exact h.finds hkind hfind
  · rw [← h.directSupertypes_eq other, directSupertypes, directSupertypes, get?_modify]
    by_cases hother : other = id
    · rw [if_pos hother, hother]
      cases b.get? id with
      | none => rfl
      | some item =>
        simp only [Option.map_some, Item.superclass, Item.superinterfaces, Attributes.id?,
          Attributes.ids?, Setting.get?_applyAll_of_ne settings item (fun s hs => (hkeys s hs).1),
          Setting.get?_applyAll_of_ne settings item (fun s hs => (hkeys s hs).2)]
    · rw [if_neg hother]
  · rintro other owner ⟨item, hget, hparent⟩
    obtain ⟨before, hbefore, _, _, howner, _⟩ := exists_of_get?_modify hplace hget
    rw [contains_modify]
    exact h.owners ⟨before, hbefore, howner.trans hparent⟩
  · intro other item hget hnone hclass
    obtain ⟨before, hbefore, _, hkind, _⟩ := exists_of_get?_modify hplace hget
    exact (h.classes hbefore hnone (hkind.trans hclass)).modify hplace id
  · intro other item hget hnone hmethod
    obtain ⟨before, hbefore, _, hkind, _⟩ := exists_of_get?_modify hplace hget
    exact h.methods hbefore hnone (hkind.trans hmethod)

end Augments

/-! ## Creating items -/

theorem directSupertypes_insertItem (h : index.Tallied) {parent : Option ItemId}
    (hparent : parent ≠ some index.nextId) (name : String) (kind : ItemKind) (id : ItemId) :
    (index.insertItem parent name kind).2.directSupertypes id = index.directSupertypes id := by
  rw [directSupertypes, directSupertypes, get?_insertItem h hparent]
  by_cases hid : id = index.nextId
  · rw [if_pos hid, hid, get?_nextId h]
    rfl
  · rw [if_neg hid]
    by_cases howner : parent = some id
    · rw [if_pos howner]
      cases index.get? id <;> rfl
    · rw [if_neg howner]

theorem enlarges_insertItem (h : index.Tallied) {parent : Option ItemId}
    (hparent : parent ≠ some index.nextId) (name : String) (kind : ItemKind) :
    Enlarges index (index.insertItem parent name kind).2 := by
  refine ⟨fun {id item} hget => ?_⟩
  have hne : id ≠ index.nextId := by
    rintro rfl
    rw [get?_nextId h] at hget
    exact absurd hget (by simp)
  rw [get?_insertItem h hparent, if_neg hne, hget]
  split
  · exact ⟨_, rfl, rfl, rfl, rfl, rfl⟩
  · exact ⟨item, rfl, Item.Stays.refl item⟩

/-- The owner of a new item is an item. -/
theorem hasParent_insertItem_cases (h : index.Tallied) {parent : Option ItemId} {name : String}
    {kind : ItemKind} (htake : index.CanTake parent kind) {id owner : ItemId}
    (howner : (index.insertItem parent name kind).2.HasParent id owner) :
    index.HasParent id owner ∨ (index.insertItem parent name kind).2.contains owner := by
  have hparent := htake.ne_nextId h
  obtain ⟨item, hget, hitem⟩ := howner
  rcases exists_of_get?_insertItem h hparent hget with
    ⟨rfl, rfl⟩ | ⟨before, hbefore, _, _, hsame, _⟩
  · -- the new item names the owner that takes it
    obtain rfl : parent = some owner := hitem
    obtain ⟨ownerItem, hownerItem, _⟩ := htake
    exact Or.inr ((enlarges_insertItem h hparent name kind).contains
      (Option.isSome_iff_exists.2 ⟨ownerItem, hownerItem⟩))
  · exact Or.inl ⟨before, hbefore, hsame.symm.trans hitem⟩

/-- A new item whose owner may own it; a class comes under the builtin project. -/
theorem Catalogued.augments_insertItem (h : index.Catalogued) {parent : Option ItemId} {name : String}
    {kind : ItemKind} (htake : index.CanTake parent kind)
    (hnew : kind = .method ∨ index.findItem parent name kind = none)
    (hclass : kind = .class → ∃ owner, parent = some owner ∧ index.InBuiltin owner)
    (hmade : kind = .method → index.nextId ∈ made)
    (hroom : HasNumbers index (index.insertItem parent name kind).2) :
    Augments made index (index.insertItem parent name kind).2 := by
  have hparent := htake.ne_nextId h.toTallied
  have hsize := size_insertItem h.toTallied hparent name kind
  have hnumber : index.nextRaw.toNat + 1 < 2 ^ 32 := by
    rw [HasNumbers, hsize] at hroom
    omega
  have henlarges := enlarges_insertItem h.toTallied hparent name kind
  refine ⟨henlarges, ⟨h.toTallied.insertItem hparent name kind hnumber,
    h.registered.insertItem h.toTallied hparent hnew⟩, ?_,
    (extends_insertItem h.toTallied hparent hnew).finds,
    directSupertypes_insertItem h.toTallied hparent name kind,
    hasParent_insertItem_cases h.toTallied htake, ?_, ?_⟩
  · rw [toNat_nextRaw_insertItem h.toTallied hparent name kind hnumber, hsize]
    omega
  · intro id item hget hnone hkind
    rcases exists_of_get?_insertItem h.toTallied hparent hget with
      ⟨rfl, rfl⟩ | ⟨before, hbefore, _⟩
    · obtain ⟨owner, rfl, hin⟩ := hclass hkind
      obtain ⟨project, hfirst, hname⟩ := henlarges.inBuiltin hin
      have hnotProject : (Item.fresh index.nextId name kind (some owner)).kind ≠ .project := by
        rw [hkind]
        decide
      exact ⟨project, .above hget hnotProject rfl hfirst, hname⟩
    · rw [hnone] at hbefore
      exact absurd hbefore (by simp)
  · intro id item hget hnone hmethod
    rcases exists_of_get?_insertItem h.toTallied hparent hget with
      ⟨rfl, rfl⟩ | ⟨before, hbefore, _⟩
    · exact hmade hmethod
    · rw [hnone] at hbefore
      exact absurd hbefore (by simp)

/-- Finding or creating an item that is no method. -/
theorem Catalogued.augments_intern (h : index.Catalogued) {parent : Option ItemId} {name : String}
    {kind : ItemKind} (hkind : kind ≠ .method) (htake : index.CanTake parent kind)
    (hclass : kind = .class → ∃ owner, parent = some owner ∧ index.InBuiltin owner)
    (hroom : HasNumbers index (intern parent name kind index).2) :
    Augments [] index (intern parent name kind index).2 ∧
      (intern parent name kind index).2.findItem parent name kind =
        some (intern parent name kind index).1 := by
  unfold intern at hroom ⊢
  cases hfind : index.findItem parent name kind with
  | some id => exact ⟨Augments.refl h, hfind⟩
  | none =>
    rw [hfind] at hroom
    refine ⟨h.augments_insertItem htake (Or.inr hfind) hclass
      (fun hmethod => absurd hmethod hkind) hroom, ?_⟩
    have hid : (index.insertItem parent name kind).1 = index.nextId := by rw [insertItem_eq]
    dsimp only
    rw [hid]
    exact findItem_insertItem_self h.toTallied (htake.ne_nextId h.toTallied) hfind

/-- What is found as the package of the builtin project stands in it. -/
theorem Registered.inBuiltin_of_findItem (h : index.Registered) {project package : ItemId}
    {name : String} (hproject : index.findItem none builtinProject .project = some project)
    (hpackage : index.findItem (some project) name .package = some package) :
    index.InBuiltin package := by
  obtain ⟨projectItem, hgetProject, _, hkind, hname⟩ := h.exists_of_findItem (by decide) hproject
  obtain ⟨packageItem, hgetPackage, hparent, hkindPackage, _⟩ :=
    h.exists_of_findItem (by decide) hpackage
  have hnotProject : packageItem.kind ≠ .project := by
    rw [hkindPackage]
    decide
  exact ⟨projectItem, .above hgetPackage hnotProject hparent (.here hgetProject hkind), hname⟩

/-- The wildcard is found once it was created, and there are no new methods. -/
theorem Catalogued.augments_createWildcard (h : index.Catalogued)
    (hroom : HasNumbers index (createWildcard index).2) :
    Augments [] index (createWildcard index).2 ∧
      (createWildcard index).2.findWildcard = some (createWildcard index).1 := by
  have hrun : createWildcard index = createBuiltin wildcardName index := rfl
  rw [hrun, createBuiltin_eq] at hroom ⊢
  have hroomPackage := hroom.mono (continues_intern _ _ _ _).size_le
  rw [createBuiltinPackage_eq] at hroom hroomPackage ⊢
  have hroomProject := hroomPackage.mono (continues_intern _ _ _ _).size_le
  -- the project, the package and the class in turn, each of them the owner of the next
  obtain ⟨hproject, hfindProject⟩ := h.augments_intern (by decide)
    (show index.CanTake none .project from rfl) (fun hclass => absurd hclass (by decide)) hroomProject
  have hisProject := hproject.catalogued.registered.isKind_of_findItem (by decide) hfindProject
  obtain ⟨hpackage, hfindPackage⟩ := hproject.catalogued.augments_intern (by decide)
    (hisProject.canTake rfl) (fun hclass => absurd hclass (by decide)) (hproject.hasNumbers hroomPackage)
  have hisPackage := hpackage.catalogued.registered.isKind_of_findItem (by decide) hfindPackage
  have hfindAgain := hpackage.finds (by decide) hfindProject
  have hin := hpackage.catalogued.registered.inBuiltin_of_findItem hfindAgain hfindPackage
  obtain ⟨hclass, hfindClass⟩ := hpackage.catalogued.augments_intern (by decide)
    (hisPackage.canTake rfl) (fun _ => ⟨_, rfl, hin⟩)
    (hpackage.hasNumbers (hproject.hasNumbers hroom))
  refine ⟨(hproject.trans hpackage).trans hclass, ?_⟩
  -- what was found in an earlier step is still found at the end
  rw [findWildcard, findBuiltin, hclass.finds (by decide) hfindAgain]
  dsimp only
  rw [hclass.finds (by decide) hfindPackage]
  exact hfindClass

end Index

/-- An index that was read from a snapshot, unless it uses the last number. -/
theorem Snapshot.catalogued_of_read {generation : Nat} {archive : Archive} {index : Index}
    (h : read generation archive = .ok index)
    (hlast : ∀ id ∈ index.ids, id.raw.toNat + 1 < 2 ^ 32) : index.Catalogued := by
  obtain ⟨hrestored, hregistered⟩ := restored_of_read h
  refine ⟨⟨hrestored.stacked, fun id hid => ?_, ?_⟩, hregistered⟩
  · have hnext := UInt32.le_iff_toNat_le.1
      (hrestored.counts.above ((Index.mem_ids_iff hrestored.stacked).1 hid))
    have hnumber : (id.raw + 1).toNat = id.raw.toNat + 1 := by
      rw [UInt32.toNat_add]
      exact Nat.mod_eq_of_lt (hlast id hid)
    rw [UInt32.lt_iff_toNat_lt]
    omega
  · rw [hrestored.first_eq]
    exact UInt32.zero_le

end CodeAtlas
