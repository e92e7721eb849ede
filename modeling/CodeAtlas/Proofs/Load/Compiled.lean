/-
# Entering class files

A class file can be entered exactly when the first part of its class name and the names of its
members are not empty.
-/
import CodeAtlas.Load.Compiled
import CodeAtlas.Proofs.Load.Declarations

namespace CodeAtlas

open Index

/-! ## Names that can be entered -/

namespace BinaryClass

/-- The name of the outermost class around a class, or its own. -/
def outerName (binary : BinaryClass) : String :=
  (Text.splitOn '.' binary.name).head?.getD ""

/-- Every member has a name. -/
def HasNamedMembers (binary : BinaryClass) : Prop :=
  (∀ method ∈ binary.methods, method.name ≠ "") ∧ ∀ field ∈ binary.fields, field.name ≠ ""

/-- The class and its members have names. -/
def IsNameable (binary : BinaryClass) : Prop :=
  binary.outerName ≠ "" ∧ binary.HasNamedMembers

instance (binary : BinaryClass) : Decidable binary.HasNamedMembers :=
  inferInstanceAs (Decidable (_ ∧ _))

instance (binary : BinaryClass) : Decidable binary.IsNameable :=
  inferInstanceAs (Decidable (_ ∧ _))

end BinaryClass

namespace Load

/-! ## The class -/

/-- Entering inner classes one inside the other. -/
theorem safe_enterInner (names : List String) (outer : ItemId) :
    Safe (fun index => index.IsKind outer .class) (names.foldlM Index.createInnerClass outer)
      (fun id index => index.IsKind id .class) := by
  have hloop := Safe.foldlM stable_true names (fun state name _ =>
    (safe_createInnerClass state name).weaken (fun _ hall => hall.2)
      (fun _ ⟨_, _, _, hinner⟩ => hinner.isKind)) outer
  exact hloop.weaken (fun _ houter => ⟨trivial, houter⟩) (fun _ hpost => hpost)

theorem safe_registerBinaryClass (package : ItemId) (binary : BinaryClass) :
    Safe (fun index => binary.outerName ≠ "" ∧ index.IsKind package .package)
      (registerBinaryClass package binary) (fun id index => index.IsKind id .class) := by
  refine ((safe_createClass package binary.outerName).weaken (fun _ hpre => hpre)
    (fun _ hpost => hpost.1.isKind)).andThen (fun outer => ?_)
  refine (safe_enterInner _ outer).andThen (fun cls => ?_)
  refine (Safe.update .class (by decide) (fun item => ?_) ?_).bind (stable_isKind cls .class)
    (fun _ => Safe.pure _ (fun _ hall => hall.1))
  · dsimp only
    split <;> exact ⟨rfl, rfl, rfl, rfl⟩
  · intro index _ hcls
    refine ⟨hcls, fun item target htarget => Or.inl ?_⟩
    dsimp only at htarget
    split at htarget
    · exact Item.mem_attributeIds_setFlag (Item.mem_attributeIds_setFlag htarget)
    · exact Item.mem_attributeIds_setFlag htarget

theorem isKind_of_classNamed {index : Index} (h : index.FindsClasses) {project : Option ItemId}
    {name : String} {id : ItemId} (hfound : classNamed index project name = some id) :
    index.IsKind id .class :=
  isKind_of_mem_findClasses h (mem_of_preferProject hfound)

theorem safe_linkBinaryClass (project : Option ItemId) (cls : ItemId) (binary : BinaryClass) :
    Safe (fun index => index.IsKind cls .class) (ExceptT.lift (linkBinaryClass project cls binary))
      (fun _ _ => True) := by
  refine Safe.lift (fun index => ?_) ?_
  · exact (grown_modify _ _ _).trans (grown_dependOn _ _ _)
  · intro index hlive hcls _
    have hsuper : ∀ id, (binary.superclass.map (classNamed index project)).join = some id →
        index.IsKind id .class := by
      intro id hid
      rw [Option.join_eq_some_iff] at hid
      obtain ⟨name, _, hname⟩ := Option.map_eq_some_iff.1 hid
      exact isKind_of_classNamed hlive.sound.findsClasses hname
    have hinterfaces : ∀ id ∈ (binary.interfaces.map (classNamed index project)).filterMap
        (fun id => id), index.IsKind id .class := by
      intro id hid
      simp only [List.mem_filterMap, List.mem_map] at hid
      obtain ⟨found, ⟨name, _, rfl⟩, hfound⟩ := hid
      exact isKind_of_classNamed hlive.sound.findsClasses hfound
    obtain ⟨hend, hext⟩ := live_setSupertypes hlive hcls hsuper hinterfaces _
    exact ⟨hend, hext, trivial⟩

/-! ## Members -/

theorem safe_binaryType (project : Option ItemId) (type : TypeName) :
    Safe (fun _ => True) (binaryType project type) (fun id index => index.IsKind id .class) := by
  rw [binaryType]
  by_cases hprimitive : primitives.contains type.name = true
  · rw [if_pos hprimitive]
    exact (safe_createPrimitive hprimitive).andThen
      (fun base => safe_createArrayClass base type.dims)
  · rw [if_neg hprimitive]
    refine Safe.get_bind (fun current => ?_)
    split
    · rename_i id hfound
      rw [pure_bind]
      refine (safe_createArrayClass id type.dims).weaken (fun hlive hall => ?_)
        (fun _ hpost => hpost)
      obtain ⟨rfl, _⟩ := hall
      exact isKind_of_classNamed hlive.sound.findsClasses hfound
    · exact (safe_createWildcard.weaken (fun _ _ => trivial) (fun _ hpost => hpost)).andThen
        (fun base => safe_createArrayClass base type.dims)

theorem safe_registerBinaryMethod (project : Option ItemId) (cls : ItemId) (method : BinaryMethod) :
    Safe (fun index => method.name ≠ "" ∧ index.IsKind cls .class)
      (registerBinaryMethod project cls method) (fun _ _ => True) := by
  have howner : Stable (fun index => method.name ≠ "" ∧ index.IsKind cls .class) :=
    (stable_const _).and (stable_isKind _ _)
  have hparams : ∀ params : List ItemId, Stable (fun index =>
      (method.name ≠ "" ∧ index.IsKind cls .class) ∧
        ∀ param ∈ params, index.IsKind param .class) := fun params =>
    howner.and (Stable.forall_mem (fun param => stable_isKind param .class) _)
  have hrest : ∀ params returnType, Safe (fun index =>
      ((method.name ≠ "" ∧ index.IsKind cls .class) ∧
        ∀ param ∈ params, index.IsKind param .class) ∧ index.IsKind returnType .class)
      (do
        let id ← Index.createMethod cls method.name (some params)
        Index.update id (fun item => (item.setId .returnType returnType).setFlag .binary true))
      (fun _ _ => True) := by
    intro params returnType
    refine ((safe_createMethod cls method.name (some params)).weaken
      (fun _ hpre => ⟨hpre.1.1.1, hpre.1.1.2, hpre.1.2⟩) (fun _ hpost => hpost)).bind
      ((hparams params).and (stable_isKind returnType .class)) (fun id => ?_)
    refine Safe.update .method (by decide) (fun item => ⟨rfl, rfl, rfl, rfl⟩) ?_
    intro index _ hall
    refine ⟨hall.2, fun item target htarget => ?_⟩
    rcases Item.mem_attributeIds_setId (Item.mem_attributeIds_setFlag htarget) with hold | rfl
    · exact Or.inl hold
    · exact Or.inr hall.1.2
  rw [registerBinaryMethod]
  refine (Safe.mapM howner (fun param => stable_isKind param .class) _
    (fun param _ => ?_)).bind howner (fun params => ?_)
  · exact (safe_binaryType project param).weaken (fun _ _ => trivial) (fun _ hpost => hpost)
  · split
    · exact ((safe_binaryType project _).weaken (fun _ _ => trivial) (fun _ hpost => hpost)).bind
        (hparams params) (hrest params)
    · exact ((safe_createPrimitive (by decide)).weaken (fun _ _ => trivial)
        (fun _ hpost => hpost)).bind (hparams params) (hrest params)

theorem safe_registerBinaryField (project : Option ItemId) (cls : ItemId) (field : BinaryField) :
    Safe (fun index => field.name ≠ "" ∧ index.IsKind cls .class)
      (registerBinaryField project cls field) (fun _ _ => True) := by
  have howner : Stable (fun index => field.name ≠ "" ∧ index.IsKind cls .class) :=
    (stable_const _).and (stable_isKind _ _)
  refine ((safe_binaryType project field.type).weaken (fun _ _ => trivial)
    (fun _ hpost => hpost)).bind howner (fun type => ?_)
  refine ((safe_createField cls field.name).weaken (fun _ hpre => hpre.1)
    (fun _ hpost => hpost.1.isKind)).bind (howner.and (stable_isKind type .class)) (fun id => ?_)
  refine Safe.update .field (by decide) (fun item => ⟨rfl, rfl, rfl, rfl⟩) ?_
  intro index _ hall
  refine ⟨hall.2, fun item target htarget => ?_⟩
  rcases Item.mem_attributeIds_setId (Item.mem_attributeIds_setFlag htarget) with hold | rfl
  · exact Or.inl hold
  · exact Or.inr hall.1.2

theorem safe_registerBinaryMembers (project : Option ItemId) (cls : ItemId) (binary : BinaryClass) :
    Safe (fun index => binary.HasNamedMembers ∧ index.IsKind cls .class)
      (registerBinaryMembers project cls binary) (fun _ _ => True) := by
  have hstable : Stable (fun index => binary.HasNamedMembers ∧ index.IsKind cls .class) :=
    (stable_const _).and (stable_isKind _ _)
  refine (Safe.forM hstable _ (fun method hmethod => ?_)).bind hstable (fun _ => ?_)
  · exact (safe_registerBinaryMethod project cls method).weaken
      (fun _ hpre => ⟨hpre.1.1 method hmethod, hpre.2⟩) (fun _ hpost => hpost)
  · refine (Safe.forM hstable _ (fun field hfield => ?_)).weaken (fun _ hall => hall.1)
      (fun _ hpost => hpost)
    exact (safe_registerBinaryField project cls field).weaken
      (fun _ hpre => ⟨hpre.1.2 field hfield, hpre.2⟩) (fun _ hpost => hpost)

/-! ## Names that are refused -/

/-- A change that is always refused unless a fact holds. -/
def Needs {α : Type} (change : Edit α) (fact : Prop) : Prop :=
  change.Yields (fun _ => fact)

section Needs

variable {α β : Type} {fact : Prop}

theorem Needs.bind {change : Edit α} (h : Needs change fact) (next : α → Edit β) :
    Needs (change >>= next) fact := by
  intro index value hok
  obtain ⟨_, _, hchange, _⟩ := Edit.exists_of_run_bind_ok hok
  exact h _ _ (congrArg Prod.fst hchange)

theorem needs_bind (change : Edit α) {next : α → Edit β} (h : ∀ value, Needs (next value) fact) :
    Needs (change >>= next) fact :=
  Edit.yields_bind change h

theorem needs_forM {each : α → Edit PUnit} {holds : α → Prop} {list : List α}
    (h : ∀ value ∈ list, Needs (each value) (holds value)) :
    Needs (list.forM each) (∀ value ∈ list, holds value) := by
  induction list with
  | nil => exact fun _ _ _ value hvalue => absurd hvalue (by simp)
  | cons first rest ih =>
    have hfirst := h first List.mem_cons_self
    have hrest := ih (fun value hvalue => h value (List.mem_cons_of_mem _ hvalue))
    intro index result hok value hvalue
    rcases List.mem_cons.1 hvalue with rfl | hvalue
    · exact hfirst.bind (fun _ => rest.forM each) index result hok
    · exact needs_bind (each first) (fun _ => hrest) index result hok value hvalue

end Needs

theorem needs_checkOwner (owner : ItemId) {kind : ItemKind} (hkind : kind ≠ .package)
    (name : String) : Needs (Index.checkOwner owner kind name) (name ≠ "") := by
  rintro index value hok rfl
  have hrefused : ∃ error, index.refusal? owner kind "" = some error := by
    rw [refusal?]
    split
    · exact ⟨_, rfl⟩
    · split
      · exact ⟨_, rfl⟩
      · rw [if_pos (by simp [hkind])]
        exact ⟨_, rfl⟩
  obtain ⟨error, herror⟩ := hrefused
  rw [run_checkOwner, herror] at hok
  simp at hok

/-- Without a name for the outermost class, a class file is refused. -/
theorem needs_registerBinaryClass (package : ItemId) (binary : BinaryClass) :
    Needs (registerBinaryClass package binary) (binary.outerName ≠ "") := by
  have hcreate : Needs (Index.createClass package binary.outerName) (binary.outerName ≠ "") :=
    (needs_checkOwner package (by decide) binary.outerName).bind _
  exact hcreate.bind _

/-- With a member that has no name, a class file is refused. -/
theorem needs_registerBinaryMembers (project : Option ItemId) (cls : ItemId)
    (binary : BinaryClass) :
    Needs (registerBinaryMembers project cls binary) binary.HasNamedMembers := by
  have hmethod : ∀ method, Needs (registerBinaryMethod project cls method) (method.name ≠ "") := by
    intro method
    have hcreate : ∀ params, Needs (Index.createMethod cls method.name params)
        (method.name ≠ "") := fun params =>
      (needs_checkOwner cls (by decide) method.name).bind _
    rw [registerBinaryMethod]
    refine needs_bind _ (fun params => ?_)
    split
    · exact needs_bind _ (fun _ => (hcreate (some params)).bind _)
    · exact needs_bind _ (fun _ => (hcreate (some params)).bind _)
  have hfield : ∀ field, Needs (registerBinaryField project cls field) (field.name ≠ "") := by
    intro field
    have hcreate : Needs (Index.createField cls field.name) (field.name ≠ "") :=
      (needs_checkOwner cls (by decide) field.name).bind _
    exact needs_bind _ (fun _ => hcreate.bind _)
  intro index value hok
  refine ⟨?_, ?_⟩
  · exact (needs_forM (fun method _ => hmethod method)).bind _ index value hok
  · exact needs_bind _ (fun _ => needs_forM (fun field _ => hfield field)) index value hok

end Load

end CodeAtlas
