/-
# Qualified names

A qualified name joins a package and a class by a dot, and both may hold dots themselves, so that the
name does not tell where the package ends.  A lookup tries every dot, the last one first, and the
unnamed package after them.  It finds the classes of that qualified name and no others, unless the name
begins with a dot: then the unnamed package is tried with what follows the dot, too.
-/
import CodeAtlas.Cli.Inspect
import CodeAtlas.Proofs.Index.Creation
import CodeAtlas.Proofs.Index.Scans
import CodeAtlas.Proofs.Text.Cuts

namespace CodeAtlas

/-! ## Ways to cut a name -/

namespace Index

theorem mem_dotCuts_iff {name package rest : List Char} :
    (package, rest) ∈ dotCuts name ↔ name = package ++ '.' :: rest := by
  induction name generalizing package with
  | nil => simp [dotCuts]
  | cons first name ih =>
    have hlater : (package, rest) ∈ (dotCuts name).map (fun cut => (first :: cut.1, cut.2)) ↔
        ∃ before, package = first :: before ∧ name = before ++ '.' :: rest := by
      rw [List.mem_map]
      constructor
      · rintro ⟨⟨before, after⟩, hcut, heq⟩
        obtain ⟨rfl, rfl⟩ := Prod.mk.inj heq
        exact ⟨before, rfl, ih.1 hcut⟩
      · rintro ⟨before, rfl, hname⟩
        exact ⟨(before, rest), ih.2 hname, rfl⟩
    have hcuts : (package, rest) ∈ dotCuts (first :: name) ↔
        first = '.' ∧ package = [] ∧ rest = name ∨
          ∃ before, package = first :: before ∧ name = before ++ '.' :: rest := by
      rw [dotCuts, ← hlater]
      split
      · rename_i hdot
        rw [List.mem_cons, Prod.mk.injEq, and_iff_right hdot]
      · rename_i hdot
        rw [or_iff_right (fun hfirst => hdot hfirst.1)]
    rw [hcuts]
    cases package with
    | nil => simp [eq_comm]
    | cons char package => simp [eq_comm, and_assoc]

/-- A later dot leaves more before it. -/
theorem pairwise_dotCuts (name : List Char) :
    (dotCuts name).Pairwise (fun a b => a.1.length < b.1.length) := by
  induction name with
  | nil => exact List.Pairwise.nil
  | cons first name ih =>
    have hlater : ((dotCuts name).map (fun cut => (first :: cut.1, cut.2))).Pairwise
        (fun a b => a.1.length < b.1.length) :=
      List.pairwise_map.2 (ih.imp Nat.succ_lt_succ)
    rw [dotCuts]
    split
    · refine List.pairwise_cons.2 ⟨fun cut hcut => ?_, hlater⟩
      obtain ⟨_, _, rfl⟩ := List.mem_map.1 hcut
      exact Nat.succ_pos _
    · exact hlater

theorem mem_nameSplits_iff {name package rest : List Char} :
    (package, rest) ∈ nameSplits name ↔
      name = package ++ '.' :: rest ∨ package = [] ∧ rest = name := by
  rw [nameSplits, List.mem_append, List.mem_reverse, mem_dotCuts_iff, List.mem_singleton,
    Prod.mk.injEq]

/-- Longer packages are tried first, if no package is left empty by a leading dot. -/
theorem pairwise_nameSplits {name : List Char} (hdot : name.head? ≠ some '.') :
    (nameSplits name).Pairwise (fun a b => b.1.length < a.1.length) := by
  rw [nameSplits, List.pairwise_append, List.pairwise_reverse]
  refine ⟨pairwise_dotCuts name, List.pairwise_singleton _ _, ?_⟩
  rintro ⟨package, rest⟩ hcut last hlast
  rw [List.mem_singleton.1 hlast]
  have hname := mem_dotCuts_iff.1 (List.mem_reverse.1 hcut)
  cases package with
  | nil => exact absurd (by rw [hname]; rfl) hdot
  | cons char package => exact Nat.succ_pos _

/-- The name of a class with that of its package in front. -/
def inPackage (package name : String) : String :=
  if package.isEmpty then name else package ++ "." ++ name

theorem mem_nameSplits_inPackage (package name : String) :
    (package.toList, name.toList) ∈ nameSplits (inPackage package name).toList := by
  rw [mem_nameSplits_iff, inPackage]
  split
  · rename_i hempty
    exact Or.inr ⟨by simpa using hempty, rfl⟩
  · exact Or.inl (by simp [String.toList_append])

/-- Every way to read a name gives the name back. -/
theorem inPackage_of_mem_nameSplits {name : String} (hdot : name.toList.head? ≠ some '.')
    {package rest : List Char} (h : (package, rest) ∈ nameSplits name.toList) :
    inPackage (String.ofList package) (String.ofList rest) = name := by
  apply String.toList_inj.1
  rw [inPackage]
  rcases mem_nameSplits_iff.1 h with hname | ⟨rfl, rfl⟩
  · have hne : package ≠ [] := by
      rintro rfl
      exact hdot (by rw [hname]; rfl)
    rw [if_neg (by simpa using hne), hname]
    simp [String.toList_append]
  · simp

/-! ## Items with names -/

variable {index : Index}

/-- Every item has a name that its kind admits. -/
def Named (index : Index) : Prop :=
  ∀ id item, index.get? id = some item → item.kind.Admits item.name

theorem Named.modify (h : index.Named) (id : ItemId) {f : Item → Item}
    (hname : ∀ item, (f item).name = item.name) (hkind : ∀ item, (f item).kind = item.kind) :
    (index.modify id f).Named := by
  intro other item hget
  rw [get?_modify] at hget
  split at hget
  · obtain ⟨before, hbefore, rfl⟩ := Option.map_eq_some_iff.1 hget
    rw [hname, hkind]
    exact h id before hbefore
  · exact h other item hget

theorem Named.store (h : index.Named) {new : Item} (hname : new.kind.Admits new.name) :
    (index.store new).Named := by
  intro id item hget
  rw [Index.store, Layer.store] at hget
  split at hget
  · exact h id item hget
  · rw [get?, layers, Layers.get?] at hget
    dsimp only at hget
    split at hget
    · rename_i hgeneration
      rw [Std.TreeMap.getElem?_insert] at hget
      split at hget
      · rwa [← Option.some.inj hget]
      · refine h id item ?_
        rw [get?, layers, Layers.get?, if_pos hgeneration]
        exact hget
    · rename_i hgeneration
      refine h id item ?_
      rw [get?, layers, Layers.get?, if_neg hgeneration]
      exact hget

theorem durable_named : Durable Named where
  modify id hf h := h.modify id (fun item => (hf item).2.1) (fun item => (hf item).2.2.1)
  insertItem := by
    intro index name kind parent hname h
    have hallocated : index.allocate.2.Named := h
    have hstored : (index.stored parent name kind).Named := hallocated.store hname
    rw [insertItem_eq]
    intro id item hget
    rw [(sameItems_register _ _).get?_eq] at hget
    cases parent with
    | none => exact hstored id item hget
    | some owner => refine hstored.modify owner ?_ ?_ id item hget <;> exact fun _ => rfl

theorem Reachable.named (h : index.Reachable) : index.Named := by
  obtain ⟨generation, hsteps⟩ := h
  induction hsteps with
  | refl =>
    intro id item hget
    rw [get?_empty] at hget
    exact absurd hget (by simp)
  | @tail before _ _ hstep ih =>
    cases hstep with
    | operation operation => exact durable_named.sturdy.run operation ih
    | @layer _ generation _ =>
      intro id item hget
      have hlayers : (onBase generation before).get? id =
          if id.generation = generation then none else before.get? id :=
        get?_startingAt generation before.top.source.next before.layers id
      rw [hlayers] at hget
      split at hget
      · simp at hget
      · exact ih id item hget

/-! ## Classes in packages -/

theorem Coherent.mem_findByName_iff (h : index.Coherent) {kind : ItemKind} {name : String}
    {id : ItemId} : id ∈ index.findByName kind name ↔
      ∃ item, index.get? id = some item ∧ item.kind = kind ∧ item.name = name := by
  rw [h.registered.findByName_eq, List.mem_filter, bearsName, Option.any_eq_true]
  simp only [NameKey.mk.injEq, decide_eq_true_eq]
  refine and_iff_right_of_imp ?_
  rintro ⟨item, hget, _⟩
  exact mem_ids_of_get? h.stacked hget

/-- The classes that one way to read a name leads to. -/
def classesOf (index : Index) (split : List Char × List Char) : List ItemId :=
  if split.2.isEmpty then []
  else
    (index.findByName .package (String.ofList split.1)).filterMap
      (fun id => index.findItem (some id) (String.ofList split.2) .class)

theorem findClasses_eq (index : Index) (name : String) :
    index.findClasses name =
      (distinct ((nameSplits name.toList).flatMap index.classesOf)).toList :=
  rfl

/-- The package in which a class stands. -/
theorem Coherent.exists_package_of_class (h : index.Coherent) {id : ItemId} {item : Item}
    (hget : index.get? id = some item) (hkind : item.kind = .class) :
    ∃ package packageItem, item.parent = some package ∧ index.get? package = some packageItem ∧
      packageItem.kind = .package := by
  obtain ⟨package, packageItem, hparent, hpackage, hcontain⟩ :=
    h.exists_parent hget (by rw [hkind]; decide)
  refine ⟨package, packageItem, hparent, hpackage, ?_⟩
  cases hkind' : packageItem.kind <;> simp_all [ItemKind.canContain]

theorem qualifiedNameWithin_class {id package : ItemId} {item packageItem : Item}
    (hget : index.get? id = some item) (hkind : item.kind = .class)
    (hparent : item.parent = some package) (hpackage : index.get? package = some packageItem)
    (steps : Nat) : index.qualifiedNameWithin (steps + 1) id =
      some (inPackage packageItem.name item.name) := by
  rw [qualifiedNameWithin, hget]
  dsimp only
  rw [hkind, hparent, Option.bind_some, hpackage]
  rfl

section Lookup

variable (h : index.Coherent) (hdistinct : index.Distinct)
include h hdistinct

theorem Coherent.mem_classesOf_iff {package rest : List Char} {id : ItemId} :
    id ∈ index.classesOf (package, rest) ↔ rest ≠ [] ∧ ∃ owner ownerItem,
      index.get? owner = some ownerItem ∧ ownerItem.kind = .package ∧
      ownerItem.name = String.ofList package ∧
      index.Has id (some owner) .class (String.ofList rest) := by
  rw [classesOf]
  dsimp only
  by_cases hrest : rest = []
  · simp [hrest]
  · rw [if_neg (by simpa using hrest), and_iff_right hrest, List.mem_filterMap]
    simp only [h.findItem_eq_some_iff hdistinct (show ItemKind.class ≠ .method by decide),
      h.mem_findByName_iff]
    constructor
    · rintro ⟨owner, ⟨ownerItem, howner, hkind, hname⟩, hhas⟩
      exact ⟨owner, ownerItem, howner, hkind, hname, hhas⟩
    · rintro ⟨owner, ownerItem, howner, hkind, hname, hhas⟩
      exact ⟨owner, ⟨ownerItem, howner, hkind, hname⟩, hhas⟩

/-- A class is found under every name that can be read as its package and its own name. -/
theorem Coherent.mem_findClasses_iff_of_has {id package : ItemId} {owner : Option ItemId}
    {packageName name : String} (hpackage : index.Has package owner .package packageName)
    (hcls : index.Has id (some package) .class name) (hname : name ≠ "") (asked : String) :
    id ∈ index.findClasses asked ↔ (packageName.toList, name.toList) ∈ nameSplits asked.toList := by
  rw [findClasses_eq, Array.mem_toList_iff, mem_distinct, List.mem_flatMap]
  obtain ⟨packageItem, hget, _, hkind, rfl⟩ := hpackage
  constructor
  · rintro ⟨⟨front, rest⟩, hsplit, hmem⟩
    obtain ⟨_, other, otherItem, hother, _, hotherName, hhas⟩ :=
      (h.mem_classesOf_iff hdistinct).1 hmem
    -- the class stands in one package and has one name
    obtain ⟨hparent, rfl⟩ := hcls.place_eq hhas
    obtain rfl := Option.some.inj hparent
    obtain rfl := Option.some.inj (hget.symm.trans hother)
    rw [hotherName, String.toList_ofList, String.toList_ofList]
    exact hsplit
  · intro hsplit
    refine ⟨_, hsplit, (h.mem_classesOf_iff hdistinct).2 ⟨?_, package, packageItem, ?_⟩⟩
    · simpa using hname
    · rw [String.ofList_toList, String.ofList_toList]
      exact ⟨hget, hkind, rfl, hcls⟩

/-- A lookup leaves out no class of a qualified name. -/
theorem Coherent.mem_findClasses_inPackage (hnamed : index.Named) {id package : ItemId}
    {item packageItem : Item} (hget : index.get? id = some item) (hkind : item.kind = .class)
    (hparent : item.parent = some package) (hpackage : index.get? package = some packageItem)
    (hpackageKind : packageItem.kind = .package) :
    id ∈ index.findClasses (inPackage packageItem.name item.name) := by
  have hname : item.name ≠ "" := by
    intro hempty
    have hadmits := hnamed id item hget hempty
    rw [hkind] at hadmits
    exact absurd hadmits (by decide)
  exact (h.mem_findClasses_iff_of_has hdistinct ⟨packageItem, hpackage, rfl, hpackageKind, rfl⟩
    ⟨item, hget, hparent, hkind, rfl⟩ hname _).2
    (mem_nameSplits_inPackage packageItem.name item.name)

/-- A name that does not begin with a dot is looked up exactly. -/
theorem Coherent.mem_findClasses_iff (hnamed : index.Named) {name : String}
    (hdot : name.toList.head? ≠ some '.') {id : ItemId} :
    id ∈ index.findClasses name ↔
      index.IsKind id .class ∧ index.qualifiedName id = some name := by
  constructor
  · intro hid
    rw [findClasses_eq, Array.mem_toList_iff, mem_distinct, List.mem_flatMap] at hid
    obtain ⟨⟨package, rest⟩, hsplit, hid⟩ := hid
    obtain ⟨_, owner, ownerItem, howner, _, hownerName, item, hget, hparent, hkind, hname⟩ :=
      (h.mem_classesOf_iff hdistinct).1 hid
    refine ⟨⟨item, hget, hkind⟩, ?_⟩
    rw [qualifiedName, qualifiedNameWithin_class hget hkind hparent howner, hownerName, hname,
      inPackage_of_mem_nameSplits hdot hsplit]
  · rintro ⟨⟨item, hget, hkind⟩, hname⟩
    obtain ⟨package, packageItem, hparent, hpackage, hpackageKind⟩ :=
      h.exists_package_of_class hget hkind
    rw [qualifiedName, qualifiedNameWithin_class hget hkind hparent hpackage] at hname
    rw [← Option.some.inj hname]
    exact h.mem_findClasses_inPackage hdistinct hnamed hget hkind hparent hpackage hpackageKind

end Lookup

/-! ## The order of classes of one name -/

/-- One class stands in a package with a longer name than the other, or in an older package of the
same name. -/
def PackagePrecedes (index : Index) (a b : ItemId) : Prop :=
  ∃ package other packageItem otherItem, index.HasParent a package ∧ index.HasParent b other ∧
    index.get? package = some packageItem ∧ index.get? other = some otherItem ∧
    (otherItem.name.length < packageItem.name.length ∨
      packageItem.name = otherItem.name ∧ package.raw < other.raw)

theorem PackagePrecedes.ne {a b : ItemId} (h : index.PackagePrecedes a b) : a ≠ b := by
  rintro rfl
  obtain ⟨package, other, packageItem, otherItem, ⟨item, hget, hparent⟩, ⟨same, hsame, hother⟩,
    hpackage, hotherItem, hbefore⟩ := h
  obtain rfl := Option.some.inj (hget.symm.trans hsame)
  obtain rfl := Option.some.inj (hparent.symm.trans hother)
  obtain rfl := Option.some.inj (hpackage.symm.trans hotherItem)
  rcases hbefore with hlength | ⟨_, hraw⟩
  · exact absurd hlength (Nat.lt_irrefl _)
  · exact absurd hraw (UInt32.lt_irrefl _)

section Order

variable (h : index.Coherent) (hdistinct : index.Distinct)
include h hdistinct

/-- The classes of one reading stand in packages of one name, the oldest first. -/
theorem Coherent.pairwise_classesOf (split : List Char × List Char) :
    (index.classesOf split).Pairwise index.PackagePrecedes := by
  rw [classesOf]
  split
  · exact List.Pairwise.nil
  · rw [List.pairwise_filterMap]
    refine (h.listsItems.findByName_increasing .package _).imp_of_mem ?_
    intro package other hpackage hother hraw a ha b hb
    obtain ⟨packageItem, hpackageItem, _, hname⟩ := h.mem_findByName_iff.1 hpackage
    obtain ⟨otherItem, hotherItem, _, hotherName⟩ := h.mem_findByName_iff.1 hother
    obtain ⟨item, hget, hparent, _⟩ := (h.findItem_eq_some_iff hdistinct (by decide)).1 ha
    obtain ⟨later, hlater, hlaterParent, _⟩ := (h.findItem_eq_some_iff hdistinct (by decide)).1 hb
    exact ⟨package, other, packageItem, otherItem, ⟨item, hget, hparent⟩, ⟨later, hlater, hlaterParent⟩,
      hpackageItem, hotherItem, Or.inr ⟨hname.trans hotherName.symm, hraw⟩⟩

theorem Coherent.pairwise_flatMap_classesOf {name : String} (hdot : name.toList.head? ≠ some '.') :
    ((nameSplits name.toList).flatMap index.classesOf).Pairwise index.PackagePrecedes := by
  refine List.pairwise_flatMap.2 ⟨fun split _ => h.pairwise_classesOf hdistinct split, ?_⟩
  refine (pairwise_nameSplits hdot).imp ?_
  rintro ⟨package, rest⟩ ⟨other, otherRest⟩ hlength a ha b hb
  obtain ⟨_, owner, ownerItem, howner, _, hname, item, hget, hparent, _⟩ :=
    (h.mem_classesOf_iff hdistinct).1 ha
  obtain ⟨_, outer, outerItem, houter, _, houterName, later, hlater, hlaterParent, _⟩ :=
    (h.mem_classesOf_iff hdistinct).1 hb
  refine ⟨owner, outer, ownerItem, outerItem, ⟨item, hget, hparent⟩, ⟨later, hlater, hlaterParent⟩,
    howner, houter, Or.inl ?_⟩
  rw [hname, houterName, String.length_ofList, String.length_ofList]
  exact hlength

theorem Coherent.pairwise_findClasses {name : String} (hdot : name.toList.head? ≠ some '.') :
    (index.findClasses name).Pairwise index.PackagePrecedes := by
  have hpairwise := h.pairwise_flatMap_classesOf hdistinct hdot
  rw [findClasses_eq, distinct_eq_self (hpairwise.imp PackagePrecedes.ne)]
  exact hpairwise

end Order

/-! ## Items of a qualified name -/

/-- The class in which a method or field stands. -/
theorem Coherent.exists_class_of_member (h : index.Coherent) {id : ItemId} {item : Item}
    (hget : index.get? id = some item) (hkind : item.kind = .method ∨ item.kind = .field) :
    ∃ owner ownerItem, item.parent = some owner ∧ index.get? owner = some ownerItem ∧
      ownerItem.kind = .class := by
  obtain ⟨owner, ownerItem, hparent, howner, hcontain⟩ :=
    h.exists_parent hget (by rcases hkind with hkind | hkind <;> rw [hkind] <;> decide)
  refine ⟨owner, ownerItem, hparent, howner, ?_⟩
  rcases hkind with hkind | hkind <;>
    cases hkind' : ownerItem.kind <;> simp_all [ItemKind.canContain]

theorem qualifiedNameWithin_member {id owner : ItemId} {item : Item} {steps : Nat} {outer : String}
    (hget : index.get? id = some item) (hkind : item.kind = .method ∨ item.kind = .field)
    (hparent : item.parent = some owner) (howner : index.qualifiedNameWithin steps owner = some outer) :
    index.qualifiedNameWithin (steps + 1) id = some (outer ++ "." ++ item.name) := by
  rw [qualifiedNameWithin, hget]
  rcases hkind with hkind | hkind <;> simp [hkind, hparent, howner]

theorem mem_itemsNamed_of_mem_findClasses {name : String} {id : ItemId}
    (hid : id ∈ index.findClasses name) : id ∈ index.itemsNamed name :=
  List.mem_append_left _ (List.mem_append_left _ (List.mem_append_left _ hid))

theorem mem_itemsNamed_of_mem_findByName {kind : ItemKind} {name : String} {id : ItemId}
    (hkind : kind = .project ∨ kind = .package) (hid : id ∈ index.findByName kind name) :
    id ∈ index.itemsNamed name := by
  rcases hkind with rfl | rfl
  · exact List.mem_append_right _ hid
  · exact List.mem_append_left _ (List.mem_append_right _ hid)

/-- A member is looked up in the classes of the name before the last dot. -/
theorem mem_itemsNamed_of_mem_findAll {kind : ItemKind} {outer name : String} {owner id : ItemId}
    (hkind : kind = .method ∨ kind = .field) (hdot : '.' ∉ name.toList)
    (howner : owner ∈ index.findClasses outer) (hid : id ∈ index.findAll (some owner) name kind) :
    id ∈ index.itemsNamed (outer ++ "." ++ name) := by
  have hsplit : Text.splitLast '.' (outer ++ "." ++ name) = some (outer, name) :=
    Text.splitLast_of_toList_eq (by simp [String.toList_append]) hdot
  rw [itemsNamed, hsplit]
  refine List.mem_append_left _ (List.mem_append_left _ (List.mem_append_right _ ?_))
  refine List.mem_flatMap.2 ⟨owner, howner, List.mem_append.2 ?_⟩
  rcases hkind with rfl | rfl
  · exact Or.inl hid
  · exact Or.inr hid

/-- Every item is found under its qualified name, but for a member whose own name holds a dot. -/
theorem Coherent.exists_itemsNamed (h : index.Coherent) (hdistinct : index.Distinct)
    (hnamed : index.Named) {id : ItemId} {item : Item} (hget : index.get? id = some item)
    (hdot : item.kind = .method ∨ item.kind = .field → '.' ∉ item.name.toList) :
    ∃ name, index.qualifiedName id = some name ∧ id ∈ index.itemsNamed name := by
  have hclass : ∀ {owner : ItemId} {ownerItem : Item}, index.get? owner = some ownerItem →
      ownerItem.kind = .class → ∃ name,
        (∀ steps, index.qualifiedNameWithin (steps + 1) owner = some name) ∧
        owner ∈ index.findClasses name := by
    intro owner ownerItem howner hkind
    obtain ⟨package, packageItem, hparent, hpackage, hpackageKind⟩ :=
      h.exists_package_of_class howner hkind
    exact ⟨_, qualifiedNameWithin_class howner hkind hparent hpackage,
      h.mem_findClasses_inPackage hdistinct hnamed howner hkind hparent hpackage hpackageKind⟩
  have hplain : item.kind = .project ∨ item.kind = .package →
      index.qualifiedName id = some item.name ∧ id ∈ index.itemsNamed item.name := by
    intro hkind
    refine ⟨?_, mem_itemsNamed_of_mem_findByName hkind
      (h.mem_findByName_iff.2 ⟨item, hget, rfl, rfl⟩)⟩
    rw [qualifiedName, qualifiedNameWithin, hget]
    rcases hkind with hkind | hkind <;> simp [hkind]
  have hmember : item.kind = .method ∨ item.kind = .field →
      ∃ name, index.qualifiedName id = some name ∧ id ∈ index.itemsNamed name := by
    intro hkind
    obtain ⟨owner, ownerItem, hparent, howner, hownerKind⟩ := h.exists_class_of_member hget hkind
    obtain ⟨outer, hname, hfound⟩ := hclass howner hownerKind
    -- there is an item, so the walk may take a second step
    have hpos : 0 < index.size := by
      rw [← length_ids]
      exact List.length_pos_of_mem (mem_ids_of_get? h.stacked hget)
    obtain ⟨steps, hsteps⟩ := Nat.exists_eq_succ_of_ne_zero (Nat.pos_iff_ne_zero.1 hpos)
    refine ⟨outer ++ "." ++ item.name, ?_, mem_itemsNamed_of_mem_findAll hkind (hdot hkind) hfound
      (h.mem_findAll_iff.2 ⟨item, hget, hparent, rfl, rfl⟩)⟩
    rw [qualifiedName, hsteps]
    exact qualifiedNameWithin_member hget hkind hparent (hname steps)
  cases hkind : item.kind with
  | project => exact ⟨_, hplain (Or.inl hkind)⟩
  | package => exact ⟨_, hplain (Or.inr hkind)⟩
  | «class» =>
    obtain ⟨name, hname, hfound⟩ := hclass hget hkind
    exact ⟨name, hname _, mem_itemsNamed_of_mem_findClasses hfound⟩
  | method => exact hmember (Or.inl hkind)
  | field => exact hmember (Or.inr hkind)

/-- In every index that operations and layers lead to, a name that does not begin with a dot is looked
up exactly: the classes of that qualified name are found, each once, those in packages with longer
names first and those in packages of one name in the order in which the packages were made.  Every
item is found under its qualified name, but for a member whose own name holds a dot. -/
theorem qualified_names_exact (h : index.Reachable) (hroom : index.size < 2 ^ 32) :
    (∀ name : String, name.toList.head? ≠ some '.' →
      (index.findClasses name).Nodup ∧
      (∀ id, id ∈ index.findClasses name ↔
        index.IsKind id .class ∧ index.qualifiedName id = some name) ∧
      (index.findClasses name).Pairwise index.PackagePrecedes) ∧
    ∀ id item, index.get? id = some item →
      (item.kind = .method ∨ item.kind = .field → '.' ∉ item.name.toList) →
      ∃ name, index.qualifiedName id = some name ∧ id ∈ index.itemsNamed name := by
  have hcoherent := h.coherent hroom
  have hdistinct := h.distinct hroom
  refine ⟨fun name hdot => ?_,
    fun _ _ hget hmember => hcoherent.exists_itemsNamed hdistinct h.named hget hmember⟩
  have hpairwise := hcoherent.pairwise_findClasses hdistinct hdot
  exact ⟨hpairwise.imp PackagePrecedes.ne,
    fun _ => hcoherent.mem_findClasses_iff hdistinct h.named hdot, hpairwise⟩

/-- A class `C` of a package `a.b` in two projects and a class `b.C` of a package `a`. -/
def dottedApp : Index :=
  let base := [Operation.project "app", .package ⟨0, 1⟩ "a", .class ⟨1, 1⟩ "b.C",
    .package ⟨0, 1⟩ "a.b", .class ⟨3, 1⟩ "C", .method ⟨4, 1⟩ "m" none].foldl
      (fun index operation => (operation.run index).2) (empty 1)
  [Operation.project "lib", .package ⟨6, 2⟩ "a.b", .class ⟨7, 2⟩ "C"].foldl
    (fun index operation => (operation.run index).2) (onBase 2 base)

theorem reachable_dottedApp : dottedApp.Reachable :=
  ⟨1, ((((((((((Relation.ReflTransGen.refl.tail (.operation _ _)).tail (.operation _ _)).tail
    (.operation _ _)).tail (.operation _ _)).tail (.operation _ _)).tail (.operation _ _)).tail
    (@Step.layer _ 2 (by decide +kernel))).tail (.operation _ _)).tail (.operation _ _)).tail
    (.operation _ _))⟩

theorem qualified_names_exact_dottedApp :
    dottedApp.findClasses "a.b.C" = [⟨4, 1⟩, ⟨8, 2⟩, ⟨2, 1⟩] ∧
      (dottedApp.findClasses "a.b.C").Pairwise dottedApp.PackagePrecedes ∧
      dottedApp.qualifiedName ⟨5, 1⟩ = some "a.b.C.m" ∧
      ∃ name, dottedApp.qualifiedName ⟨5, 1⟩ = some name ∧ ⟨5, 1⟩ ∈ dottedApp.itemsNamed name := by
  have hexact := qualified_names_exact reachable_dottedApp (by decide +kernel)
  have hmethod : (dottedApp.get? ⟨5, 1⟩).map Item.name = some "m" := by decide +kernel
  obtain ⟨item, hget, hname⟩ := Option.map_eq_some_iff.1 hmethod
  refine ⟨by decide +kernel, (hexact.1 "a.b.C" (by decide)).2.2, by decide +kernel,
    hexact.2 ⟨5, 1⟩ item hget (fun _ => ?_)⟩
  rw [hname]
  decide

end Index

end CodeAtlas
