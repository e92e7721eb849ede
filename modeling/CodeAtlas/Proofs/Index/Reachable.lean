/-
# Reachable indices

The indices that operations and layering lead to, starting from an empty one, and what holds of all
of them: handles are listed by increasing number, owners and members and the two ends of a
dependency name each other, every owner may own what it owns, and an item keeps its name, its kind
and its owner for ever.

Numbers are 32-bit words.  What is said of an index holds as long as it has handed out no more
numbers than there are.
-/
import CodeAtlas.Proofs.Index.PairedOperations

namespace CodeAtlas

/-! ## How high an item stands -/

namespace ItemKind

/-- The number of owners above an item. -/
def height : ItemKind → Nat
  | project => 0
  | package => 1
  | .class => 2
  | method => 3
  | field => 3

theorem height_le (kind : ItemKind) : kind.height ≤ 3 := by
  cases kind <;> decide

/-- An owner stands one step above what it owns. -/
theorem height_of_canContain {owner owned : ItemKind} (h : owner.canContain owned = true) :
    owned.height = owner.height + 1 := by
  cases owner <;> cases owned <;> simp_all [canContain, height]

end ItemKind

namespace Index

variable {a b index : Index}

/-! ## Steps -/

/-- One step: an operation, or a new layer with a generation of its own. -/
inductive Step : Index → Index → Prop
  | operation (operation : Operation ItemId) (index : Index) : Step index (operation.run index).2
  | layer {base : Index} {generation : Nat}
      (hnew : ∀ layer ∈ base.layers, layer.generation ≠ generation) :
      Step base (onBase generation base)

/-- The indices that steps lead to from an empty one. -/
def Reachable (index : Index) : Prop :=
  ∃ generation, Relation.ReflTransGen Step (empty generation) index

theorem size_onBase (generation : Nat) (base : Index) : (onBase generation base).size = base.size :=
  Nat.add_zero (Layers.size base.layers)

theorem Step.size_le (h : Step a b) : a.size ≤ b.size := by
  cases h with
  | operation operation => exact (operation.continues_run a).size_le
  | layer _ => exact Nat.le_of_eq (size_onBase _ a).symm

theorem size_le_of_steps (h : Relation.ReflTransGen Step a b) : a.size ≤ b.size := by
  induction h with
  | refl => exact Nat.le_refl _
  | tail _ hstep ih => exact Nat.le_trans ih hstep.size_le

/-- The handles of a stack bear the generations of its layers. -/
theorem exists_layer_of_mem_ids {layers : List Layer} (h : Layers.Stacked layers) {id : ItemId}
    (hid : id ∈ Layers.ids layers) : ∃ layer ∈ layers, layer.generation = id.generation := by
  induction h with
  | nil => simp [Layers.ids] at hid
  | @cons layer below numbered _ _ _ ih =>
    rw [Layers.ids, List.mem_append, Layer.mem_ids_iff numbered] at hid
    rcases hid with hbelow | ⟨hgeneration, _⟩
    · obtain ⟨lower, hlower, heq⟩ := ih hbelow
      exact ⟨lower, List.mem_cons_of_mem _ hlower, heq⟩
    · exact ⟨layer, List.mem_cons_self, hgeneration.symm⟩

/-- A generation that no layer has marks no handle. -/
theorem generation_ne_of_mem_ids (h : index.IsStacked) {generation : Nat}
    (hnew : ∀ layer ∈ index.layers, layer.generation ≠ generation) :
    ∀ id ∈ index.ids, id.generation ≠ generation := by
  intro id hid heq
  obtain ⟨layer, hlayer, hgeneration⟩ := exists_layer_of_mem_ids h hid
  exact hnew layer hlayer (hgeneration.trans heq)

/-- An operation is a sequence of elementary changes. -/
theorem Coherent.evolves_run (h : index.Coherent) (operation : Operation ItemId)
    (hroom : (operation.run index).2.size < 2 ^ 32) :
    Evolves (· ∈ operation.recorded) index (operation.run index).2 := by
  have hcovers : Covers .identity index.generation (operation.run index).2 := by
    refine ⟨hroom, fun {id} _ hgeneration => ?_⟩
    rw [(operation.continues_run index).generation_eq] at hgeneration
    rw [← hgeneration]
    rfl
  exact (Operation.run_mirrors h.mirrors operation hcovers).2.2.2

/-- A step keeps an index coherent and its items where they are. -/
theorem Step.coherent (h : Step a b) (ha : a.Coherent) (hroom : b.size < 2 ^ 32) :
    b.Coherent ∧ KeepsItems a b := by
  cases h with
  | operation operation =>
    have hevolves := ha.evolves_run operation hroom
    exact ⟨hevolves.coherent ha hroom, hevolves.keepsItems ha hroom⟩
  | layer hnew =>
    have hfree := generation_ne_of_mem_ids ha.stacked hnew
    refine ⟨coherent_onBase ha hfree, fun id item hget => ⟨item, ?_, rfl, rfl, rfl⟩⟩
    rw [get?_onBase ha.stacked hfree, hget]

theorem Reachable.coherent (h : index.Reachable) (hroom : index.size < 2 ^ 32) :
    index.Coherent := by
  obtain ⟨generation, hsteps⟩ := h
  induction hsteps with
  | refl => exact coherent_empty generation
  | tail _ hstep ih => exact (hstep.coherent (ih (Nat.lt_of_le_of_lt hstep.size_le hroom)) hroom).1

/-! ## What holds of every reachable index -/

/-- The links of an index are in order. -/
structure Consistent (index : Index) : Prop where
  /-- Every item is listed, by increasing number. -/
  ids_increasing : index.ids.Pairwise (fun a b => a.raw < b.raw)
  mem_ids_iff : ∀ id, id ∈ index.ids ↔ index.contains id
  /-- A number belongs to the listed handle that has it. -/
  resolveRaw_iff : ∀ raw id, index.resolveRaw raw = some id ↔ id ∈ index.ids ∧ id.raw = raw
  /-- An item names its owner exactly when the owner lists it, and then lists it once. -/
  parent_iff : ∀ child owner, index.HasParent child owner ↔ index.Owns owner child
  children_nodup : ∀ id item, index.get? id = some item → item.children.toList.Nodup
  /-- An item depends on another exactly when the other names it as incoming. -/
  depends_iff : ∀ source target, index.DependsOn source target ↔ index.IsNeededBy target source
  depends_irrefl : ∀ id, ¬ index.DependsOn id id
  /-- Owners, members and both ends of a dependency are items. -/
  resolves : ∀ id item, index.get? id = some item → ∀ target,
    target ∈ item.parent.toList ++ item.children.toList ++ item.dependencies.toList ++
      item.incoming.toList → index.contains target
  /-- Projects, and nothing else, have no owner. -/
  root_iff : ∀ id item, index.get? id = some item → (item.parent = none ↔ item.kind = .project)
  canContain : ∀ child owner item ownerItem, index.get? child = some item →
    item.parent = some owner → index.get? owner = some ownerItem →
    ownerItem.kind.canContain item.kind = true
  /-- Every way up ends at a project, after at most three steps. -/
  root_within : ∀ id item, index.get? id = some item →
    ∃ top, index.rootWithin 4 id = some top ∧ top.kind = .project

/-- The way up from an item of a kind ends at a project. -/
theorem Owned.rootWithin_height (h : index.Owned) {id : ItemId} {item : Item}
    (hget : index.get? id = some item) :
    ∃ top, index.rootWithin (item.kind.height + 1) id = some top ∧ top.kind = .project := by
  -- induction on the height: the owner stands one step higher up
  generalize hheight : item.kind.height = height
  induction height generalizing id item with
  | zero =>
    have hplaced := h.placed hget
    rw [Placed] at hplaced
    cases hparent : item.parent with
    | none =>
      rw [hparent] at hplaced
      exact ⟨item, by simp [rootWithin, hget, hparent], hplaced⟩
    | some owner =>
      simp only [hparent] at hplaced
      obtain ⟨ownerItem, _, hcontain⟩ := hplaced
      rw [ItemKind.height_of_canContain hcontain] at hheight
      exact absurd hheight (by omega)
  | succ height ih =>
    have hplaced := h.placed hget
    rw [Placed] at hplaced
    cases hparent : item.parent with
    | none =>
      simp only [hparent] at hplaced
      rw [hplaced] at hheight
      exact absurd hheight (by simp [ItemKind.height])
    | some owner =>
      simp only [hparent] at hplaced
      obtain ⟨ownerItem, howner, hcontain⟩ := hplaced
      rw [ItemKind.height_of_canContain hcontain] at hheight
      obtain ⟨top, htop, hproject⟩ := ih howner (by omega)
      refine ⟨top, ?_, hproject⟩
      rw [rootWithin, hget]
      simp only [hparent]
      exact htop

theorem Coherent.consistent (h : index.Coherent) : index.Consistent where
  ids_increasing := ids_pairwise h.stacked
  mem_ids_iff := fun _ => Index.mem_ids_iff h.stacked
  resolveRaw_iff := fun _ _ => resolveRaw_eq_some_iff h.stacked
  parent_iff := fun _ _ => h.owned.parent_iff
  children_nodup := fun _ _ hget => h.owned.children_nodup hget
  depends_iff := fun _ _ => h.linked.depends_iff
  depends_irrefl := fun _ => h.linked.irrefl
  resolves := by
    intro id item hget target htarget
    have hfound : ∀ {other : Item}, index.get? target = some other → index.contains target :=
      fun hother => by rw [contains, hother]; rfl
    simp only [List.mem_append, Option.mem_toList, Array.mem_toList_iff] at htarget
    rcases htarget with ((hparent | hchild) | hdependency) | hincoming
    · obtain ⟨_, hother, _⟩ := h.owned.parent_iff.1 ⟨item, hget, hparent⟩
      exact hfound hother
    · obtain ⟨_, hother, _⟩ := h.owned.parent_iff.2 ⟨item, hget, hchild⟩
      exact hfound hother
    · obtain ⟨_, hother, _⟩ := h.linked.depends_iff.1 ⟨item, hget, hdependency⟩
      exact hfound hother
    · obtain ⟨_, hother, _⟩ := h.linked.depends_iff.2 ⟨item, hget, hincoming⟩
      exact hfound hother
  root_iff := by
    intro id item hget
    have hplaced := h.owned.placed hget
    rw [Placed] at hplaced
    cases hparent : item.parent with
    | none =>
      simp only [hparent] at hplaced
      simp [hplaced]
    | some owner =>
      simp only [hparent] at hplaced
      obtain ⟨ownerItem, _, hcontain⟩ := hplaced
      have hheight := ItemKind.height_of_canContain hcontain
      refine ⟨fun hnone => absurd hnone (by simp), fun hproject => ?_⟩
      rw [hproject] at hheight
      exact absurd hheight (by simp [ItemKind.height])
  canContain := by
    intro child owner item ownerItem hget hparent howner
    have hplaced := h.owned.placed hget
    rw [Placed] at hplaced
    simp only [hparent] at hplaced
    obtain ⟨other, hother, hcontain⟩ := hplaced
    obtain rfl := Option.some.inj (howner.symm.trans hother)
    exact hcontain
  root_within := by
    intro id item hget
    obtain ⟨top, htop, hproject⟩ := h.owned.rootWithin_height hget
    have hheight := item.kind.height_le
    exact ⟨top, rootWithin_mono htop (by omega), hproject⟩

/-- Every index that operations and layering lead to has its links in order, and the next step
leaves the name, the kind and the owner of every item alone. -/
theorem reachable_consistent (h : index.Reachable) (hroom : index.size < 2 ^ 32) :
    index.Consistent ∧
      ∀ next, Step index next → next.size < 2 ^ 32 → KeepsItems index next :=
  have hcoherent := h.coherent hroom
  ⟨hcoherent.consistent, fun _ hstep hnext => (hstep.coherent hcoherent hnext).2⟩

/-- A project with a class that depends on one of its methods, in two layers. -/
def layeredApp : Index :=
  let base := [Operation.project "app", .package ⟨0, 1⟩ "p", .class ⟨1, 1⟩ "C"].foldl
    (fun index operation => (operation.run index).2) (empty 1)
  [Operation.method ⟨2, 1⟩ "m" none, .addDependency ⟨2, 1⟩ ⟨3, 2⟩].foldl
    (fun index operation => (operation.run index).2) (onBase 2 base)

theorem reachable_layeredApp : layeredApp.Reachable :=
  ⟨1, ((((((Relation.ReflTransGen.refl.tail (.operation _ _)).tail (.operation _ _)).tail
    (.operation _ _)).tail (@Step.layer _ 2 (by decide +kernel))).tail
    (.operation _ _)).tail (.operation _ _))⟩

theorem consistent_layeredApp :
    layeredApp.Consistent ∧
      ∀ next, Step layeredApp next → next.size < 2 ^ 32 → KeepsItems layeredApp next :=
  reachable_consistent reachable_layeredApp (by decide +kernel)

end Index

end CodeAtlas
