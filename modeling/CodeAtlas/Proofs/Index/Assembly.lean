/-
# Indices with builtin classes and arrays

Primitive types, the wildcard and arrays are created when they are needed.  They have names that no
declared class has, so an index that is furnished with more of them keeps everything it had: the items
stay as they were but for their members, and what is new is told by its name.

An index is assembled when arrays stand in their places and attributes name items, parameter lists
apart.  So is every index that was built by creating items, setting attributes and recording
dependencies, as long as no class is given the name of an array and no element type is set by hand.
-/
import CodeAtlas.Proofs.Index.TypeMatching
import CodeAtlas.Proofs.Index.Walks

namespace CodeAtlas

/-! ## Reserved names -/

namespace Item

/-- A name that only a builtin class or an array has. -/
def IsReserved (name : String) : Prop :=
  primitives.contains name = true ∨ name = wildcardName ∨ NamesArray name

instance (name : String) : Decidable (IsReserved name) :=
  inferInstanceAs (Decidable (_ ∨ _ ∨ _))

/-- What may be created along with builtin classes and arrays: no class but these. -/
structure IsAuxiliary (item : Item) : Prop where
  reserved : item.kind = .class → IsReserved item.name

theorem Stays.isAuxiliary {before after : Item} (h : before.Stays after) (hitem : before.IsAuxiliary) :
    after.IsAuxiliary := by
  refine ⟨fun hkind => ?_⟩
  rw [h.name_eq]
  exact hitem.reserved (h.kind_eq ▸ hkind)

/-! ## What is recorded under a key -/

theorem records_of_id? {item : Item} {key : AttrKey} {target : ItemId}
    (h : item.attributes.id? key = some target) : item.Records key target := by
  rw [Attributes.id?] at h
  split at h
  · rename_i other hslot
    cases h
    exact ⟨.id target, hslot, List.mem_singleton.2 rfl⟩
  · simp at h

theorem records_of_mem_superinterfaces {item : Item} {target : ItemId}
    (h : target ∈ item.superinterfaces) : item.Records .superinterfaces target := by
  rw [superinterfaces, Attributes.ids?] at h
  split at h
  · rename_i targets hslot
    exact ⟨.ids targets, hslot, by simpa [AttrValue.targets] using h⟩
  · simp at h

end Item

namespace Index

variable {a b c index : Index}

/-! ## Furnishing an index -/

/-- The index `b` is `a` with more builtin classes and arrays, and more members of classes. -/
structure Furnishes (a b : Index) : Prop where
  stays : ∀ {id : ItemId} {item : Item}, a.get? id = some item →
    ∃ later, b.get? id = some later ∧ item.Stays later
  fresh : ∀ {id : ItemId} {item : Item}, b.get? id = some item → a.get? id = none → item.IsAuxiliary
  ids_prefix : a.ids <+: b.ids

theorem Furnishes.refl (index : Index) : Furnishes index index := by
  refine ⟨fun {id item} hget => ⟨item, hget, Item.Stays.refl item⟩, fun hget hnone => ?_,
    List.prefix_rfl⟩
  rw [hnone] at hget
  exact absurd hget (by simp)

theorem Furnishes.trans (h : Furnishes a b) (h' : Furnishes b c) : Furnishes a c := by
  refine ⟨fun hget => ?_, fun {id item} hget hnone => ?_, h.ids_prefix.trans h'.ids_prefix⟩
  · obtain ⟨middle, hmiddle, hstays⟩ := h.stays hget
    obtain ⟨later, hlater, hstays'⟩ := h'.stays hmiddle
    exact ⟨later, hlater, hstays.trans hstays'⟩
  · cases hmiddle : b.get? id with
    | none => exact h'.fresh hget hmiddle
    | some middle =>
      obtain ⟨later, hlater, hstays⟩ := h'.stays hmiddle
      obtain rfl := Option.some.inj (hget.symm.trans hlater)
      exact hstays.isAuxiliary (h.fresh hmiddle hnone)

theorem Furnishes.of_get? (ha : a.IsStacked) (hb : b.IsStacked) (hget : ∀ id, b.get? id = a.get? id) :
    Furnishes a b := by
  refine ⟨fun {id item} hitem => ⟨item, (hget id).trans hitem, Item.Stays.refl item⟩,
    fun {id item} hitem hnone => ?_, Retains.ids_prefix (Retains.of_get? ha hb hget)⟩
  rw [hget, hnone] at hitem
  exact absurd hitem (by simp)

/-- One more item leaves the others as they were but for their members. -/
theorem Adds.stays {new : Item} (h : Adds a b new) (ha : a.Coherent) {id : ItemId} {item : Item}
    (hget : a.get? id = some item) : ∃ later, b.get? id = some later ∧ item.Stays later := by
  obtain ⟨later, hlater, hgrows⟩ := h.retains.keeps hget
  rcases h.old_or_new hlater with ⟨rfl, _⟩ | ⟨before, hbefore, hattributes⟩
  · rw [get?_nextId ha.tallied] at hget
    exact absurd hget (by simp)
  · obtain rfl := Option.some.inj (hget.symm.trans hbefore)
    exact ⟨later, hlater, hgrows.name_eq, hgrows.kind_eq, hgrows.parent_eq, hattributes⟩

theorem Adds.furnishes {new : Item} (h : Adds a b new) (ha : a.Coherent) (hnew : new.IsAuxiliary) :
    Furnishes a b := by
  refine ⟨h.stays ha, fun {id item} hget hnone => ?_, h.retains.ids_prefix⟩
  obtain ⟨_, rfl⟩ := h.eq_new hget hnone
  exact hnew

namespace Furnishes

variable {id : ItemId} {parent : Option ItemId} {kind : ItemKind} {name : String}

theorem contains (h : Furnishes a b) (hid : a.contains id) : b.contains id := by
  obtain ⟨item, hget⟩ := Option.isSome_iff_exists.1 hid
  obtain ⟨later, hlater, _⟩ := h.stays hget
  exact Option.isSome_iff_exists.2 ⟨later, hlater⟩

theorem has (h : Furnishes a b) (hid : a.Has id parent kind name) : b.Has id parent kind name := by
  obtain ⟨item, hget, rfl, rfl, rfl⟩ := hid
  obtain ⟨later, hlater, hstays⟩ := h.stays hget
  exact ⟨later, hlater, hstays.parent_eq, hstays.kind_eq, hstays.name_eq⟩

theorem has_of_contains (h : Furnishes a b) (hid : a.contains id) (hhas : b.Has id parent kind name) :
    a.Has id parent kind name := by
  obtain ⟨item, hget⟩ := Option.isSome_iff_exists.1 hid
  obtain ⟨later, hlater, hstays⟩ := h.stays hget
  obtain ⟨other, hother, rfl, rfl, rfl⟩ := hhas
  obtain rfl := Option.some.inj (hlater.symm.trans hother)
  exact ⟨item, hget, hstays.parent_eq.symm, hstays.kind_eq.symm, hstays.name_eq.symm⟩

theorem isKind (h : Furnishes a b) (hid : a.IsKind id kind) : b.IsKind id kind := by
  obtain ⟨item, hget, rfl⟩ := hid
  obtain ⟨later, hlater, hstays⟩ := h.stays hget
  exact ⟨later, hlater, hstays.kind_eq⟩

theorem isBuiltin (h : Furnishes a b) (hid : a.IsBuiltin id name) : b.IsBuiltin id name := by
  obtain ⟨project, package, hproject, hpackage, hclass⟩ := hid
  exact ⟨project, package, h.has hproject, h.has hpackage, h.has hclass⟩

/-- A class whose name is not reserved was there before. -/
theorem contains_of_not_reserved (h : Furnishes a b) {item : Item} (hget : b.get? id = some item)
    (hkind : item.kind = .class) (hname : ¬ Item.IsReserved item.name) : a.contains id := by
  cases hbefore : a.get? id with
  | none => exact absurd ((h.fresh hget hbefore).reserved hkind) hname
  | some before => exact Option.isSome_iff_exists.2 ⟨before, hbefore⟩

end Furnishes

/-! ## Assembled indices -/

/-- Items are told apart, arrays stand in their places, and attributes name items. -/
structure Assembled (index : Index) : Prop extends index.Patterned where
  joined : ∀ {id : ItemId} {item : Item}, index.get? id = some item → index.Joined item

theorem Assembled.walkable (h : index.Assembled) : index.Walkable where
  stacked := h.coherent.stacked
  placed := h.coherent.owned.placed
  supertypes := by
    intro id target htarget
    rw [directSupertypes] at htarget
    split at htarget
    · rename_i item hget
      rcases List.mem_append.1 htarget with hclass | hinterface
      · exact h.joined hget _ target (by decide) (Item.records_of_id? (Option.mem_toList.1 hclass))
      · exact h.joined hget _ target (by decide) (Item.records_of_mem_superinterfaces hinterface)
    · simp at htarget

theorem assembled_empty (generation : Nat) : (empty generation).Assembled := by
  have hnone : ∀ {id : ItemId} {item : Item}, ¬ (empty generation).get? id = some item := by
    intro id item hget
    rw [get?_empty] at hget
    exact absurd hget (by simp)
  exact ⟨patterned_empty generation, fun hget => absurd hget hnone⟩

theorem Adds.assembled {new : Item} (h : Adds a b new) (ha : a.Assembled) (hshaped : b.Shaped new)
    (hjoined : b.Joined new) : b.Assembled := by
  refine ⟨h.patterned ha.toPatterned hshaped, fun {id item} hget => ?_⟩
  rcases h.old_or_new hget with ⟨_, rfl⟩ | ⟨before, hbefore, hattributes⟩
  · exact hjoined
  · exact (ha.joined hbefore).later h.retains.contains hattributes

/-- What is set are items, and no element types. -/
theorem Assembled.setAll (h : index.Assembled) (id : ItemId) (settings : List (Setting ItemId))
    (hkeys : ∀ setting ∈ settings, setting.key ≠ .arrayBase)
    (htargets : ∀ setting ∈ settings, setting.key ≠ .paramTypes →
      ∀ target ∈ setting.targets, index.contains target) :
    (index.modify id (Setting.applyAll settings)).Assembled := by
  refine ⟨h.toPatterned.setAll id settings hkeys, fun {other item} hget => ?_⟩
  obtain ⟨before, hbefore, _, _, _, hitem⟩ :=
    exists_of_get?_modify (Setting.keepsPlace_applyAll settings) hget
  have hjoined : index.Joined item := by
    rcases hitem with rfl | ⟨_, rfl⟩
    · exact h.joined hbefore
    · exact (h.joined hbefore).applyAll htargets
  exact hjoined.later (continues_modify index id _).keeps rfl

theorem robust_assembled : Robust Assembled where
  patterned h := h.toPatterned
  adds hadds h hshaped hjoined := hadds.assembled h hshaped hjoined
  setAll id settings h hkeys htargets := h.setAll id settings hkeys htargets
  stays {a b} h hcoherent hdistinct hstays := by
    refine ⟨robust_patterned.stays h.toPatterned hcoherent hdistinct hstays, fun {id item} hget => ?_⟩
    have hkeeps : ∀ {other : ItemId}, a.contains other → b.contains other := by
      intro other hother
      obtain ⟨found, hfound⟩ := Option.isSome_iff_exists.1 hother
      obtain ⟨now, hnow, _⟩ := hstays.exists_later hfound
      exact Option.isSome_iff_exists.2 ⟨now, hnow⟩
    obtain ⟨before, hbefore, hstay⟩ := hstays.exists_before hget
    exact (h.joined hbefore).later hkeeps hstay.attributes_eq

/-! ## Finding or creating -/

theorem Assembled.interned (h : index.Assembled) {parent : Option ItemId} {name : String}
    {kind : ItemKind} (hkind : kind ≠ .method) (htake : index.CanTake parent kind)
    (hname : kind = .class → ¬ Item.NamesArray name)
    (hroom : (intern parent name kind index).2.size < 2 ^ 32) :
    (intern parent name kind index).2.Assembled ∧
      (intern parent name kind index).2.Has (intern parent name kind index).1 parent kind name ∧
      ((kind = .class → Item.IsReserved name) → Furnishes index (intern parent name kind index).2) := by
  obtain ⟨hhas, hsame | hadds⟩ := h.toPatterned.interned hkind htake hroom
  · rw [hsame] at hhas ⊢
    exact ⟨h, hhas, fun _ => Furnishes.refl index⟩
  · exact ⟨hadds.assembled h hname (joined_fresh _ _ _ _ _), hhas,
      fun hreserved => hadds.furnishes h.coherent ⟨hreserved⟩⟩

theorem Assembled.builtin (h : index.Assembled) {name : String} (hname : ¬ Item.NamesArray name)
    (hreserved : Item.IsReserved name) (hroom : (createBuiltin name index).2.size < 2 ^ 32) :
    (createBuiltin name index).2.Assembled ∧ Furnishes index (createBuiltin name index).2 ∧
      (createBuiltin name index).2.IsBuiltin (createBuiltin name index).1 name := by
  rw [createBuiltin_eq] at hroom ⊢
  have hroomPackage := Nat.lt_of_le_of_lt (continues_intern _ _ _ _).size_le hroom
  rw [createBuiltinPackage_eq] at hroom hroomPackage ⊢
  obtain ⟨hproject, hhasProject, hfirst⟩ := h.interned (by decide)
    (show index.CanTake none .project from rfl) (fun hclass => by cases hclass)
    (Nat.lt_of_le_of_lt (continues_intern _ _ _ _).size_le hroomPackage)
  obtain ⟨hpackage, hhasPackage, hsecond⟩ := hproject.interned (by decide)
    (hhasProject.isKind.canTake rfl) (fun hclass => by cases hclass) hroomPackage
  obtain ⟨hclass, hhas, hthird⟩ := hpackage.interned (by decide)
    (hhasPackage.isKind.canTake rfl) (fun _ => hname) hroom
  have hpackages := hsecond (fun hclass => by cases hclass)
  have hclasses := hthird (fun _ => hreserved)
  exact ⟨hclass, ((hfirst (fun hclass => by cases hclass)).trans hpackages).trans hclasses, _, _,
    hclasses.has (hpackages.has hhasProject), hclasses.has hhasPackage, hhas⟩

theorem Assembled.arrayed (h : index.Assembled) {root package : ItemId} {name : String}
    {total : Nat} {rootItem : Item} (hroot : index.Has root (some package) .class name)
    (hrootGet : index.get? root = some rootItem) (hplain : rootItem.arrayBase = none)
    (htotal : total ≠ 0) {array : ItemId} {after : Index}
    (hintern : intern (some package) (Item.arrayName name total) .class index = (array, after))
    (hroom : after.size < 2 ^ 32) :
    let built := after.modify array (fun item => item.setId .arrayBase root)
    built.Assembled ∧ Furnishes index built ∧
      built.Has array (some package) .class (Item.arrayName name total) := by
  dsimp only
  obtain ⟨harray, ⟨hcoherent, _, hget⟩ | ⟨hadds, hshaped⟩⟩ :=
    h.toPatterned.arrayed hroot hrootGet hplain htotal hintern hroom
  · exact ⟨robust_assembled.of_get? h hcoherent hget, Furnishes.of_get? h.coherent.stacked hcoherent.stacked hget, harray⟩
  · refine ⟨hadds.assembled h hshaped ?_, hadds.furnishes h.coherent ?_, harray⟩
    · refine @Joined.apply _ _ (joined_fresh _ index.nextId _ .class (some package))
        (.one ⟨.arrayBase, rfl⟩ root) (fun _ target htarget => ?_)
      rw [List.mem_singleton.1 htarget]
      exact hadds.retains.contains hroot.isKind.contains
    · exact ⟨fun _ => Or.inr (Or.inr (Item.namesArray_arrayName name htotal))⟩

/-- Making an array class is refused, or gives the class over the element type that the shape tells. -/
theorem Assembled.run_createArrayClass (h : index.Assembled) (base : ItemId) (dims : Nat)
    (hroom : ((createArrayClass base dims).run.run index).2.size < 2 ^ 32) :
    ((∀ package name, ¬ index.Has (index.arrayShape base dims).1 (some package) .class name) ∧
        ∃ refusal, (createArrayClass base dims).run.run index = (.error refusal, index)) ∨
      ∃ id after, (createArrayClass base dims).run.run index = (.ok id, after) ∧ after.Assembled ∧
        Furnishes index after ∧ (index.arrayShape base dims = (id, 0) ∨
          ∃ root total package name, index.arrayShape base dims = (root, total) ∧ total ≠ 0 ∧
            index.Has root (some package) .class name ∧
            after.Has id (some package) .class (Item.arrayName name total)) := by
  rw [Index.run_createArrayClass] at hroom ⊢
  rcases hshape : index.arrayShape base dims with ⟨root, total⟩
  rw [hshape] at hroom
  dsimp only at hroom ⊢
  by_cases htotal : total = 0
  · subst htotal
    exact Or.inr ⟨root, index, rfl, h, Furnishes.refl index, Or.inl rfl⟩
  · rcases run_classPlace root (.badArrayBase root) index with
      ⟨hnone, refusal, hrefused⟩ | ⟨package, name, hroot, _⟩
    · refine Or.inl ⟨hnone, refusal, ?_⟩
      rw [createArrayOver, if_neg htotal]
      exact Edit.run_bind_of_error hrefused
    · have hrun := run_createArrayOver_of_has hroot (h.coherent.exists_owner hroot) htotal
      rcases hintern : intern (some package) (Item.arrayName name total) .class index with
        ⟨array, after⟩
      rw [hintern] at hrun
      rw [hrun] at hroom
      obtain ⟨rootItem, hrootGet, _⟩ := hroot.isKind
      obtain ⟨hassembled, hfurnishes, harray⟩ := h.arrayed hroot hrootGet
        (h.arrayBase_arrayShape hshape hrootGet) htotal hintern
        (Nat.lt_of_le_of_lt (continues_modify _ _ _).size_le hroom)
      exact Or.inr ⟨array, _, hrun, hassembled, hfurnishes, Or.inr ⟨root, total, package, name, rfl,
        htotal, hroot, harray⟩⟩

end Index

/-! ## Building an index -/

namespace Operation

open Index

variable {index : Index}

/-- An operation that may be run while an index is assembled: it gives no class the name of an array,
it sets no element type, and what it sets are items. -/
def Assembles (index : Index) : Operation ItemId → Prop
  | .class _ name => ¬ Item.NamesArray name
  | innerClass _ simple => ¬ Item.NamesArray simple
  | set _ setting =>
    setting.key ≠ .arrayBase ∧ ∀ target ∈ setting.targets, index.contains target
  | call _ _ _ | propagateThirdParty => False
  | project _ | package _ _ | method _ _ _ | field _ _ | arrayClass _ _ | builtinProject
  | primitive _ | wildcard | addDependency _ _ | removeDependency _ _ => True

instance (index : Index) :
    (operation : Operation ItemId) → Decidable (operation.Assembles index)
  | .class _ name => inferInstanceAs (Decidable (¬ Item.NamesArray name))
  | innerClass _ simple => inferInstanceAs (Decidable (¬ Item.NamesArray simple))
  | set _ setting => inferInstanceAs (Decidable
      (setting.key ≠ .arrayBase ∧ ∀ target ∈ setting.targets, index.contains target))
  | call _ _ _ | propagateThirdParty => inferInstanceAs (Decidable False)
  | project _ | package _ _ | method _ _ _ | field _ _ | arrayClass _ _ | builtinProject
  | primitive _ | wildcard | addDependency _ _ | removeDependency _ _ =>
    inferInstanceAs (Decidable True)

theorem Assembles.keepsArrays {operation : Operation ItemId} (h : operation.Assembles index) :
    operation.KeepsArrays := by
  cases operation with
  | set item setting => exact h.1
  | call site owners create => exact h.elim
  | propagateThirdParty => exact h.elim
  | _ => exact h

theorem Assembles.run_assembled {operation : Operation ItemId} (hoperation : operation.Assembles index)
    (h : index.Assembled) (hroom : (operation.run index).2.size < 2 ^ 32) :
    (operation.run index).2.Assembled := by
  refine hoperation.keepsArrays.run_robust robust_assembled h (fun item setting hset => ?_) hroom
  subst hset
  exact robust_assembled.set item setting h hoperation.1 (fun _ => hoperation.2)

end Operation

namespace Index

variable {a b index : Index}

/-- One step of assembling an index: an operation that may be run, or a new layer. -/
inductive Assembly : Index → Index → Prop
  | operation {operation : Operation ItemId} {index : Index} (hoperation : operation.Assembles index) :
      Assembly index (operation.run index).2
  | layer {base : Index} {generation : Nat}
      (hnew : ∀ layer ∈ base.layers, layer.generation ≠ generation) :
      Assembly base (onBase generation base)

theorem Assembly.size_le (h : Assembly a b) : a.size ≤ b.size := by
  cases h with
  | operation _ => exact (Operation.continues_run _ a).size_le
  | layer _ => exact Nat.le_of_eq (size_onBase _ a).symm

/-- An index that such steps lead to from an empty one is assembled. -/
theorem assembled_of_assembly {generation : Nat}
    (h : Relation.ReflTransGen Assembly (empty generation) index) (hroom : index.size < 2 ^ 32) :
    index.Assembled := by
  induction h with
  | refl => exact assembled_empty generation
  | tail _ hstep ih =>
    have hbefore := ih (Nat.lt_of_le_of_lt hstep.size_le hroom)
    cases hstep with
    | operation hoperation => exact hoperation.run_assembled hbefore hroom
    | layer hnew => exact robust_assembled.onBase hbefore hnew

end Index

end CodeAtlas
