/-
# The first item under a key

All items under an owner, a name and a kind are listed from the lowest layer up, but the one item
that is found under them is looked for from the uppermost layer down.  Where items are told apart by
these three, at most one is there and both agree.  Overloads of a method may be spread over several
layers: then the first method of the uppermost layer is found, and not the one registered first.

The registry of a layer lists handles that the layer itself made, and the layers of an index mark
their handles differently.  So the layer of a listed handle can be told by its generation.
-/
import CodeAtlas.Proofs.Index.Scans

namespace CodeAtlas

/-! ## Stacks of layers that list what they made -/

namespace Layers

/-- Every registry lists handles of its own layer only, and no two layers share a generation. -/
structure Apart (layers : List Layer) : Prop where
  generations_nodup : (layers.map Layer.generation).Nodup
  lists_own : ∀ layer ∈ layers, ∀ (key : ItemKey), ∀ id ∈ layer.registry.withKey key,
    id.generation = layer.generation

variable {layer : Layer} {below : List Layer} {key : ItemKey}

theorem Apart.lower (h : Apart (layer :: below)) : Apart below :=
  ⟨(List.nodup_cons.1 h.generations_nodup).2,
    fun other hother => h.lists_own other (List.mem_cons_of_mem _ hother)⟩

theorem exists_generation_of_mem_findAll {layers : List Layer} (h : Apart layers) {id : ItemId}
    (hid : id ∈ findAll layers key) : ∃ layer ∈ layers, layer.generation = id.generation := by
  induction layers with
  | nil => simp [findAll] at hid
  | cons layer below ih =>
    rw [findAll, mem_foldl_insertNew] at hid
    rcases hid with hbelow | hown
    · obtain ⟨lower, hlower, hgeneration⟩ := ih h.lower hbelow
      exact ⟨lower, List.mem_cons_of_mem _ hlower, hgeneration⟩
    · exact ⟨layer, List.mem_cons_self, (h.lists_own layer List.mem_cons_self key id hown).symm⟩

theorem Apart.generation_ne (h : Apart (layer :: below)) {id : ItemId}
    (hid : id ∈ findAll below key) : id.generation ≠ layer.generation := by
  obtain ⟨lower, hlower, hgeneration⟩ := exists_generation_of_mem_findAll h.lower hid
  rw [← hgeneration]
  intro heq
  exact (List.nodup_cons.1 h.generations_nodup).1 (heq ▸ List.mem_map_of_mem hlower)

/-- What the uppermost layer adds to the list under a key: nothing, or handles of its own that begin
with the one that is found. -/
theorem Apart.findAll_cons (h : Apart (layer :: below)) (key : ItemKey) :
    (findAll (layer :: below) key = findAll below key ∧
      findItem (layer :: below) key = findItem below key) ∨
    ∃ first rest, findAll (layer :: below) key = findAll below key ++ first :: rest ∧
      findItem (layer :: below) key = some first ∧
      ∀ id ∈ first :: rest, id.generation = layer.generation := by
  have hown := h.lists_own layer List.mem_cons_self key
  rw [findAll, findItem]
  cases hkey : layer.registry.withKey key with
  | nil => exact Or.inl ⟨rfl, rfl⟩
  | cons first rest =>
    rw [hkey] at hown
    have hnew : first ∉ findAll below key := fun hmem =>
      h.generation_ne hmem (hown first List.mem_cons_self)
    refine Or.inr ⟨first, newIn (findAll below key ++ [first]) rest, ?_, rfl, fun id hid => hown id ?_⟩
    · rw [toList_foldl_insertNew, List.toList_toArray, newIn_cons_of_notMem hnew]
    · rcases List.mem_cons.1 hid with rfl | hid
      · exact List.mem_cons_self
      · exact List.mem_cons_of_mem _ (mem_newIn_iff.1 hid).1

/-- The handle that is found is the first of those that the layer of the last one lists. -/
theorem Apart.findItem_eq {layers : List Layer} (h : Apart layers) (key : ItemKey) :
    findItem layers key = (findAll layers key).getLast?.bind
      (fun last => (findAll layers key).find? (fun id => id.generation = last.generation)) := by
  -- induction on the layers: what the uppermost layer lists stands last
  induction layers with
  | nil => rfl
  | cons layer below ih =>
    rcases h.findAll_cons key with ⟨hall, hitem⟩ | ⟨first, rest, hall, hitem, hown⟩
    · rw [hall, hitem, ih h.lower]
    · obtain ⟨last, hlast⟩ : ∃ last, (first :: rest).getLast? = some last :=
        ⟨_, List.getLast?_eq_some_getLast (List.cons_ne_nil first rest)⟩
      have hbelow : (findAll below key).find? (fun id => id.generation = last.generation) = none := by
        refine List.find?_eq_none.2 (fun id hid => ?_)
        rw [hown last (List.mem_of_getLast? hlast), decide_eq_true_eq]
        exact h.generation_ne hid
      have hfirst : first.generation = last.generation := by
        rw [hown first List.mem_cons_self, hown last (List.mem_of_getLast? hlast)]
      rw [hall, hitem, List.getLast?_append_of_ne_nil _ (List.cons_ne_nil first rest), hlast,
        Option.bind_some, List.find?_append, hbelow, Option.none_or,
        List.find?_cons, decide_eq_true hfirst]

/-- The handle that is found is the first of all exactly when one layer lists them all. -/
theorem Apart.findItem_eq_head?_iff {layers : List Layer} (h : Apart layers) (key : ItemKey) :
    findItem layers key = (findAll layers key).head? ↔
      ∀ a ∈ findAll layers key, ∀ b ∈ findAll layers key, a.generation = b.generation := by
  induction layers with
  | nil => simp [findItem, findAll]
  | cons layer below ih =>
    rcases h.findAll_cons key with ⟨hall, hitem⟩ | ⟨first, rest, hall, hitem, hown⟩
    · rw [hall, hitem, ih h.lower]
    · rw [hall, hitem]
      cases hbelow : findAll below key with
      | nil =>
        rw [List.nil_append]
        exact ⟨fun _ a ha b hb => (hown a ha).trans (hown b hb).symm, fun _ => rfl⟩
      | cons lowest others =>
        -- a lower layer lists one too: it comes first, but it is not the one that is found
        have hlowest : lowest ∈ findAll below key := hbelow ▸ List.mem_cons_self
        have hne : lowest.generation ≠ first.generation := by
          rw [hown first List.mem_cons_self]
          exact h.generation_ne hlowest
        constructor
        · intro heq
          exact absurd (congrArg ItemId.generation (Option.some.inj heq)).symm hne
        · intro hsame
          refine absurd (hsame lowest ?_ first ?_) hne
          · simp
          · simp

end Layers

namespace Index

variable {index : Index}

/-! ## Every index lists what its layers made -/

/-- The registries of an index list handles of their own layers only. -/
def IsApart (index : Index) : Prop :=
  Layers.Apart index.layers

/-- A change of the upper layer that registers nothing but handles of this layer. -/
theorem IsApart.of_top {a b : Index} (h : a.IsApart) (hbelow : b.below = a.below)
    (hgeneration : b.generation = a.generation)
    (hown : ∀ (key : ItemKey), ∀ id ∈ b.top.registry.withKey key,
      id ∈ a.top.registry.withKey key ∨ id.generation = a.generation) : b.IsApart := by
  refine ⟨?_, ?_⟩
  · have hgenerations : b.layers.map Layer.generation = a.layers.map Layer.generation := by
      rw [layers, layers, List.map_cons, List.map_cons, hbelow]
      exact congrArg (· :: a.below.map Layer.generation) hgeneration
    rw [hgenerations]
    exact h.generations_nodup
  · intro layer hlayer key id hid
    rw [layers, hbelow] at hlayer
    rcases List.mem_cons.1 hlayer with rfl | hlayer
    · refine Eq.trans ?_ hgeneration.symm
      rcases hown key id hid with hold | hnew
      · exact h.lists_own a.top List.mem_cons_self key id hold
      · exact hnew
    · exact h.lists_own layer (List.mem_cons_of_mem _ hlayer) key id hid

theorem registry_stored (index : Index) (parent : Option ItemId) (name : String) (kind : ItemKind) :
    (index.stored parent name kind).top.registry = index.top.registry := by
  show (index.allocate.2.top.store _).registry = index.top.registry
  rw [Layer.store]
  split <;> rfl

theorem durable_isApart : Durable IsApart where
  modify := by
    intro index f id _ h
    refine h.of_top (below_modify index id f) (generation_modify index id f) ?_
    rw [(books_modify index id f).2.2.2.1]
    exact fun key other hother => Or.inl hother
  insertItem := by
    intro index name kind parent _ h
    refine h.of_top (continues_insertItem index parent name kind).below_eq
      (generation_insertItem index parent name kind) (fun key id hid => ?_)
    have hlinked : (index.linked parent name kind).top.registry = index.top.registry :=
      (books_linked index parent name kind).2.2.2.1.trans (registry_stored index parent name kind)
    rw [insertItem_eq] at hid
    dsimp only at hid
    rw [register] at hid
    split at hid
    · rename_i item _
      rw [hlinked, Registry.withKey_add, List.mem_append] at hid
      rcases hid with hold | hnew
      · exact Or.inl hold
      · split at hnew
        · rw [List.mem_singleton.1 hnew]
          exact Or.inr rfl
        · simp at hnew
    · rw [hlinked] at hid
      exact Or.inl hid

theorem isApart_empty (generation : Nat) : (empty generation).IsApart := by
  refine ⟨List.pairwise_singleton _ _, fun layer hlayer key id hid => ?_⟩
  rw [List.mem_singleton.1 hlayer] at hid
  have hnone := withKey_startingAt generation 0 key
  rw [show (empty generation).top.registry.withKey key = [] from hnone] at hid
  simp at hid

theorem IsApart.onBase {base : Index} (h : base.IsApart) {generation : Nat}
    (hnew : ∀ layer ∈ base.layers, layer.generation ≠ generation) :
    (onBase generation base).IsApart := by
  refine ⟨?_, fun layer hlayer key id hid => ?_⟩
  · refine List.nodup_cons.2 ⟨fun hmem => ?_, h.generations_nodup⟩
    obtain ⟨layer, hlayer, hgeneration⟩ := List.mem_map.1 hmem
    exact hnew layer hlayer hgeneration
  · rcases List.mem_cons.1 hlayer with rfl | hlayer
    · have hnone := withKey_startingAt generation base.top.source.next key
      rw [show (Index.onBase generation base).top.registry.withKey key = [] from hnone] at hid
      simp at hid
    · exact h.lists_own layer hlayer key id hid

theorem Reachable.isApart (h : index.Reachable) : index.IsApart := by
  obtain ⟨generation, hsteps⟩ := h
  induction hsteps with
  | refl => exact isApart_empty generation
  | tail _ hstep ih =>
    cases hstep with
    | operation operation => exact durable_isApart.sturdy.run operation ih
    | layer hnew => exact ih.onBase hnew

/-! ## The first and the found -/

/-- The item that is found under an owner, a name and a kind is the first that the uppermost layer
with such an item lists.  It is the first of all that are listed when the kind is not a method, and
otherwise exactly when all of them are in one layer. -/
theorem findItem_eq_first_of_uppermost (h : index.Reachable) (hroom : index.size < 2 ^ 32)
    (parent : Option ItemId) (name : String) (kind : ItemKind) :
    (index.findItem parent name kind = none ↔ index.findAll parent name kind = []) ∧
    index.findItem parent name kind = (index.findAll parent name kind).getLast?.bind (fun last =>
      (index.findAll parent name kind).find? (fun id => id.generation = last.generation)) ∧
    (kind ≠ .method →
      index.findItem parent name kind = (index.findAll parent name kind).head?) ∧
    (index.findItem parent name kind = (index.findAll parent name kind).head? ↔
      ∀ a ∈ index.findAll parent name kind, ∀ b ∈ index.findAll parent name kind,
        a.generation = b.generation) := by
  have hapart := h.isApart
  have hregistered := (h.coherent hroom).registered
  refine ⟨Layers.findItem_eq_none_iff, hapart.findItem_eq ⟨parent, kind, name⟩, ?_,
    hapart.findItem_eq_head?_iff ⟨parent, kind, name⟩⟩
  intro hkind
  rw [hregistered.findItem_eq parent name kind hkind, hregistered.findAll_eq]

/-- A class whose methods of one name are in two layers. -/
def overlaidApp : Index :=
  let base := [Operation.project "app", .package ⟨0, 1⟩ "p", .class ⟨1, 1⟩ "C",
    .method ⟨2, 1⟩ "m" none].foldl (fun index operation => (operation.run index).2) (empty 1)
  ((Operation.method ⟨2, 1⟩ "m" (some [⟨2, 1⟩])).run (onBase 2 base)).2

theorem reachable_overlaidApp : overlaidApp.Reachable :=
  ⟨1, (((((Relation.ReflTransGen.refl.tail (.operation _ _)).tail (.operation _ _)).tail
    (.operation _ _)).tail (.operation _ _)).tail
    (@Step.layer _ 2 (by decide +kernel))).tail (.operation _ _)⟩

/-- The method of the base was registered first, the one of the upper layer is found. -/
theorem findItem_overlaidApp :
    overlaidApp.findAll (some ⟨2, 1⟩) "m" .method = [⟨3, 1⟩, ⟨4, 2⟩] ∧
      overlaidApp.findItem (some ⟨2, 1⟩) "m" .method = some ⟨4, 2⟩ := by
  have hall : overlaidApp.findAll (some ⟨2, 1⟩) "m" .method = [⟨3, 1⟩, ⟨4, 2⟩] := by
    decide +kernel
  refine ⟨hall, ?_⟩
  rw [(findItem_eq_first_of_uppermost reachable_overlaidApp (by decide +kernel) (some ⟨2, 1⟩) "m"
    .method).2.1, hall]
  rfl

end Index

end CodeAtlas
