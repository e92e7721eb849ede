/-
# How an index evolves

An index evolves by four kinds of elementary changes: settings on an item, a new item that its owner
may own, and a dependency recorded or removed.  Each of them keeps an index coherent as long as there
are numbers left, and none changes the name, the kind or the owner of an item.

Whatever happens, no item is lost, the layers below stay as they are and new handles bear the same
generation.  Room at the end of a sequence of changes therefore means room at every step.
-/
import CodeAtlas.Proofs.Index.Coherent
import Mathlib.Logic.Relation

namespace CodeAtlas

/-! ## Settings -/

namespace Setting

/-- An item after several settings. -/
def applyAll (settings : List (Setting ItemId)) (item : Item) : Item :=
  settings.foldl (fun item setting => setting.apply item) item

/-- Settings change attributes only. -/
theorem applyAll_eq (settings : List (Setting ItemId)) (item : Item) :
    applyAll settings item = { item with attributes := (applyAll settings item).attributes } := by
  induction settings generalizing item with
  | nil => rfl
  | cons setting rest ih =>
    exact (ih (setting.apply item)).trans (by cases setting <;> rfl)

theorem keepsPlace_applyAll (settings : List (Setting ItemId)) :
    Item.KeepsPlace (applyAll settings) := by
  intro item
  rw [applyAll_eq]
  exact ⟨rfl, rfl, rfl, rfl⟩

end Setting

namespace Index

variable {a b c : Index} {allowed : ItemId → Prop}

/-! ## What is never lost -/

/-- The index `b` comes after `a`: it has the same layers below, marks its handles in the same way
and has lost no item. -/
structure Continues (a b : Index) : Prop where
  below_eq : b.below = a.below
  generation_eq : b.generation = a.generation
  size_le : a.size ≤ b.size
  keeps : ∀ {id : ItemId}, a.contains id → b.contains id

theorem Continues.refl (index : Index) : Continues index index :=
  ⟨rfl, rfl, Nat.le_refl _, fun hid => hid⟩

theorem Continues.trans (hab : Continues a b) (hbc : Continues b c) : Continues a c :=
  ⟨hbc.below_eq.trans hab.below_eq, hbc.generation_eq.trans hab.generation_eq,
    Nat.le_trans hab.size_le hbc.size_le, fun hid => hbc.keeps (hab.keeps hid)⟩

theorem continues_modify (index : Index) (id : ItemId) (f : Item → Item) :
    Continues index (index.modify id f) where
  below_eq := below_modify index id f
  generation_eq := generation_modify index id f
  size_le := Nat.le_of_eq (size_modify index id f).symm
  keeps := fun hid => by rwa [contains_modify]

theorem continues_foldl_modify (index : Index) (ids : List ItemId) (f : Item → Item) :
    Continues index (ids.foldl (fun index id => index.modify id f) index) := by
  induction ids generalizing index with
  | nil => exact Continues.refl index
  | cons first rest ih => exact (continues_modify index first f).trans (ih _)

theorem continues_store (index : Index) (item : Item)
    (hgeneration : item.id.generation = index.top.generation) :
    Continues index (index.store item) := by
  by_cases hraw : item.id.raw < index.top.firstRaw
  · rw [store, Layer.store, if_pos hraw]
    exact Continues.refl index
  · have hfits : index.Fits item.id := ⟨hgeneration, UInt32.not_lt.1 hraw⟩
    refine ⟨rfl, ?_, ?_, ?_⟩
    · rw [generation, top_store hfits]
      rfl
    · have hlayers : (index.store item).layers = (index.store item).top :: index.below := rfl
      rw [size, size, hlayers, layers, Layers.size, Layers.size, top_store hfits]
      exact Nat.add_le_add_left Std.TreeMap.size_le_size_insert _
    · intro id hid
      rw [contains, get?_store hfits]
      split
      · rfl
      · exact hid

theorem continues_insertItem (index : Index) (parent : Option ItemId) (name : String)
    (kind : ItemKind) : Continues index (index.insertItem parent name kind).2 := by
  have hstored : Continues index (index.stored parent name kind) := by
    obtain ⟨hbelow, hgeneration, hsize, hkeeps⟩ :=
      continues_store index.allocate.2 (.fresh index.nextId name kind parent) rfl
    refine ⟨hbelow, hgeneration, hsize, fun hid => hkeeps ?_⟩
    rwa [contains, (sameItems_allocate index).get?_eq]
  have hlinked : Continues index (index.linked parent name kind) := by
    cases parent with
    | none => exact hstored
    | some owner => exact hstored.trans (continues_modify _ _ _)
  have hsame := sameItems_register (index.linked parent name kind) index.nextId
  refine hlinked.trans ⟨hsame.below_eq, hsame.generation_eq, ?_, ?_⟩
  · have hsize : (index.insertItem parent name kind).2.size =
        (index.linked parent name kind).size := by
      rw [insertItem_eq, ← length_ids, ← length_ids, hsame.ids_eq]
    exact Nat.le_of_eq hsize.symm
  · intro id hid
    rwa [insertItem_eq, contains, hsame.get?_eq]

theorem continues_addDependency (index : Index) (source target : ItemId) :
    Continues index (index.addDependency source target).2 := by
  rw [addDependency]
  split
  · exact Continues.refl index
  · exact (continues_modify _ _ _).trans (continues_modify _ _ _)

theorem continues_removeDependency (index : Index) (source target : ItemId) :
    Continues index (index.removeDependency source target).2 :=
  (continues_modify _ _ _).trans (continues_modify _ _ _)

/-! ## Elementary changes -/

/-- An elementary change.  What it records as attributes is allowed or an item of the index. -/
inductive Change (allowed : ItemId → Prop) (index : Index) : Index → Prop
  | set (id : ItemId) (settings : List (Setting ItemId))
      (htargets : ∀ setting ∈ settings, ∀ target ∈ setting.targets,
        allowed target ∨ index.contains target) :
      Change allowed index (index.modify id (Setting.applyAll settings))
  | insert {parent : Option ItemId} {name : String} {kind : ItemKind}
      (htake : index.CanTake parent kind)
      (hnew : kind = .method ∨ index.findItem parent name kind = none) :
      Change allowed index (index.insertItem parent name kind).2
  | addDependency (source target : ItemId) :
      Change allowed index (index.addDependency source target).2
  | removeDependency (source target : ItemId) :
      Change allowed index (index.removeDependency source target).2

theorem Change.continues (h : Change allowed a b) : Continues a b := by
  cases h with
  | set id settings _ => exact continues_modify a id _
  | insert _ _ => exact continues_insertItem a _ _ _
  | addDependency source target => exact continues_addDependency a source target
  | removeDependency source target => exact continues_removeDependency a source target

theorem Coherent.applyAll (h : a.Coherent) (id : ItemId) (settings : List (Setting ItemId)) :
    (a.modify id (Setting.applyAll settings)).Coherent := by
  have hplace := Setting.keepsPlace_applyAll settings
  refine ⟨h.counted.modify hplace id, h.registered.modify h.stacked hplace id,
    h.owned.modify hplace (fun item => ?_) id,
    h.linked.modify (fun item => ?_) (fun item => ?_) id⟩ <;>
  rw [Setting.applyAll_eq]

theorem Change.coherent (h : Change allowed a b) (ha : a.Coherent) (hroom : b.size < 2 ^ 32) :
    b.Coherent := by
  cases h with
  | set id settings _ => exact ha.applyAll id settings
  | insert htake hnew => exact ha.insertItem htake hnew hroom
  | addDependency source target => exact ha.addDependency source target
  | removeDependency source target => exact ha.removeDependency source target

/-! ## Items that stay where they are -/

/-- Items keep their names, kinds and owners from `a` to `b`. -/
def KeepsItems (a b : Index) : Prop :=
  ∀ (id : ItemId) (item : Item), a.get? id = some item →
    ∃ later, b.get? id = some later ∧ later.name = item.name ∧ later.kind = item.kind ∧
      later.parent = item.parent

theorem KeepsItems.refl (index : Index) : KeepsItems index index :=
  fun _ item hget => ⟨item, hget, rfl, rfl, rfl⟩

theorem KeepsItems.trans (hab : KeepsItems a b) (hbc : KeepsItems b c) : KeepsItems a c := by
  intro id item hget
  obtain ⟨middle, hmiddle, hname, hkind, hparent⟩ := hab id item hget
  obtain ⟨later, hlater, hname', hkind', hparent'⟩ := hbc id middle hmiddle
  exact ⟨later, hlater, hname'.trans hname, hkind'.trans hkind, hparent'.trans hparent⟩

theorem keepsItems_modify {f : Item → Item} (hf : Item.KeepsPlace f) (index : Index) (id : ItemId) :
    KeepsItems index (index.modify id f) := by
  intro other item hget
  rw [get?_modify]
  split
  · rename_i hid
    rw [← hid, hget]
    obtain ⟨_, hname, hkind, hparent⟩ := hf item
    exact ⟨f item, rfl, hname, hkind, hparent⟩
  · exact ⟨item, hget, rfl, rfl, rfl⟩

theorem keepsItems_relink (index : Index) (source target : ItemId)
    (f g : Array ItemId → Array ItemId) : KeepsItems index (index.relink source target f g) :=
  (keepsItems_modify (keepsPlace_dependencies f) index source).trans
    (keepsItems_modify (keepsPlace_incoming g) _ target)

theorem Change.keepsItems (h : Change allowed a b) (ha : a.Coherent) : KeepsItems a b := by
  cases h with
  | set id settings _ => exact keepsItems_modify (Setting.keepsPlace_applyAll settings) a id
  | insert htake hnew =>
    intro id item hget
    obtain ⟨later, hlater, hname, hkind, hparent, _⟩ :=
      (extends_insertItem ha.tallied (htake.ne_nextId ha.tallied) hnew).keeps hget
    exact ⟨later, hlater, hname, hkind, hparent⟩
  | addDependency source target =>
    rw [Index.addDependency]
    split
    · exact KeepsItems.refl a
    · exact keepsItems_relink a source target (insertNew · target) (insertNew · source)
  | removeDependency source target =>
    exact keepsItems_relink a source target (·.erase target) (·.erase source)

/-! ## Sequences of changes -/

/-- A sequence of elementary changes. -/
def Evolves (allowed : ItemId → Prop) : Index → Index → Prop :=
  Relation.ReflTransGen (Change allowed)

theorem Evolves.refl (index : Index) : Evolves allowed index index :=
  Relation.ReflTransGen.refl

theorem Evolves.single (h : Change allowed a b) : Evolves allowed a b :=
  Relation.ReflTransGen.single h

theorem Evolves.trans (hab : Evolves allowed a b) (hbc : Evolves allowed b c) :
    Evolves allowed a c :=
  Relation.ReflTransGen.trans hab hbc

theorem Evolves.continues (h : Evolves allowed a b) : Continues a b := by
  induction h with
  | refl => exact Continues.refl a
  | tail _ hchange ih => exact ih.trans hchange.continues

theorem Evolves.coherent (h : Evolves allowed a b) (ha : a.Coherent) (hroom : b.size < 2 ^ 32) :
    b.Coherent := by
  induction h with
  | refl => exact ha
  | tail _ hchange ih =>
    have hmiddle := ih (Nat.lt_of_le_of_lt hchange.continues.size_le hroom)
    exact hchange.coherent hmiddle hroom

theorem Evolves.keepsItems (h : Evolves allowed a b) (ha : a.Coherent) (hroom : b.size < 2 ^ 32) :
    KeepsItems a b := by
  induction h with
  | refl => exact KeepsItems.refl a
  | tail hbefore hchange ih =>
    have hless := Nat.lt_of_le_of_lt hchange.continues.size_le hroom
    exact (ih hless).trans (hchange.keepsItems (Evolves.coherent hbefore ha hless))

end Index

end CodeAtlas
