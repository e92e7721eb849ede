/-
# Handles of other indices

A handle is foreign to an index when neither the index nor one of its bases made it, as are the handles
from before the index was pruned.  The number of a foreign handle may be in use; its generation tells
it apart.  Whatever a foreign handle is given to, it names nothing, and what is asked for it is refused
or comes to nothing.

Taking out a dependency is the one request that does not look its handles up.  It is harmless because
no item is linked to a foreign handle: dependencies are recorded between items of the index only, and
pruning renames both ends.  A copy of an item of another index that was not renamed yet is no part of
this: it is linked to foreign handles, and a dependency on one of them can be taken out.
-/
import CodeAtlas.Proofs.Index.Origins
import CodeAtlas.Proofs.Index.Refusals
import CodeAtlas.Proofs.Prune.Faithful

namespace CodeAtlas

/-! ## What names nothing -/

/-- The generations of a stack that lists its items are those of its handles. -/
theorem Layers.Listed.generation_mem {layers : List Layer} (h : Listed layers) {id : ItemId}
    (hid : id ∈ ids layers) : id.generation ∈ layers.map Layer.generation := by
  induction h with
  | nil => simp [ids] at hid
  | @cons layer below numbered _ _ ih =>
    rw [ids, List.mem_append] at hid
    rw [List.map_cons, List.mem_cons]
    rcases hid with hbelow | hlayer
    · exact Or.inr (ih hbelow)
    · exact Or.inl ((Layer.mem_ids_iff numbered).1 hlayer).1

namespace Index

variable {a b index after : Index} {id other source target : ItemId}

/-- The generations of an index and of its bases. -/
def generations (index : Index) : List Nat :=
  index.layers.map Layer.generation

/-- A handle that neither the index nor one of its bases made. -/
def IsForeign (index : Index) (id : ItemId) : Prop :=
  id.generation ∉ index.generations

instance (index : Index) (id : ItemId) : Decidable (index.IsForeign id) :=
  inferInstanceAs (Decidable (id.generation ∉ index.generations))

theorem generations_modify (index : Index) (id : ItemId) (f : Item → Item) :
    (index.modify id f).generations = index.generations := by
  have hgeneration := generation_modify index id f
  unfold generation at hgeneration
  rw [generations, generations, layers, layers, List.map_cons, List.map_cons, hgeneration,
    below_modify]

theorem generations_store (index : Index) (item : Item) :
    (index.store item).generations = index.generations := by
  have hgeneration : (index.top.store item).generation = index.top.generation := by
    rw [Layer.store]
    split <;> rfl
  show (index.top.store item).generation :: _ = index.top.generation :: _
  rw [hgeneration]
  rfl

/-- A number that is too small is ignored. -/
theorem store_of_not_fits {item : Item} (hgeneration : item.id.generation = index.generation)
    (h : ¬ index.Fits item.id) : index.store item = index := by
  have hsmall : item.id.raw < index.top.firstRaw :=
    UInt32.not_le.1 (fun hle => h ⟨hgeneration, hle⟩)
  have htop : index.top.store item = index.top := if_pos hsmall
  rw [store, htop]

theorem SameItems.generations_eq (h : SameItems b a) : b.generations = a.generations := by
  rw [generations, generations, layers, layers, List.map_cons, List.map_cons, h.generation_eq,
    h.below_eq]

/-- What has an item was made by the index or by one of its bases. -/
theorem ListsLayers.generation_mem (h : index.ListsLayers) (hid : (index.get? id).isSome) :
    id.generation ∈ index.generations :=
  Layers.Listed.generation_mem h (Layers.Listed.mem_ids h hid)

theorem ListsLayers.get?_eq_none (h : index.ListsLayers) (hid : index.IsForeign id) :
    index.get? id = none := by
  cases hget : index.get? id with
  | none => rfl
  | some item => exact absurd (h.generation_mem (by rw [hget]; rfl)) hid

theorem IsForeign.ne_generation (h : index.IsForeign id) : id.generation ≠ index.top.generation :=
  fun heq => h (heq ▸ List.mem_cons_self)

/-- There is nothing to change under a foreign handle. -/
theorem ListsLayers.modify_eq_self (h : index.ListsLayers) (hid : index.IsForeign id)
    (f : Item → Item) : index.modify id f = index := by
  have hget := h.get?_eq_none hid
  rw [get?, layers, Layers.get?, if_neg hid.ne_generation] at hget
  cases hshadow : index.top.shadows[id]? with
  | some item => simp [hshadow] at hget
  | none =>
    rw [hshadow] at hget
    have hcopy : index.top.shadows.contains id = false := by
      rw [Std.TreeMap.contains_eq_isSome_getElem?, hshadow]
      rfl
    simp only [modify, if_neg hid.ne_generation, hcopy, hget]
    rfl

/-- A change in place that leaves the item as it is. -/
theorem ListsLayers.answersAlike_modify (h : index.ListsLayers) {f : Item → Item}
    (hid : ∀ item, (f item).id = item.id) (hf : ∀ item, index.get? id = some item → f item = item) :
    AnswersAlike index (index.modify id f) := by
  refine Index.answersAlike_modify (fun other => ?_) ?_
  · rw [get?_modify]
    split
    · rename_i heq
      rw [heq]
      cases hget : index.get? id with
      | none => rfl
      | some item => rw [Option.map_some, hf item hget]
    · rfl
  · -- the numbers of the upper layer stay in use, and so do those below
    cases h with
    | cons numbered _ _ =>
      have hbelow := below_modify index id f
      have htop : (index.modify id f).top.ids = index.top.ids := by
        rw [modify]
        split
        · have hmodified := numbered.modify id.raw hid
          refine eq_of_sorted (Layer.ids_pairwise hmodified) (Layer.ids_pairwise numbered) ?_
          intro other
          rw [Layer.mem_ids_iff hmodified, Layer.mem_ids_iff numbered, ← Std.TreeMap.contains_eq_isSome_getElem?,
            ← Std.TreeMap.contains_eq_isSome_getElem?, Std.TreeMap.contains_modify]
        · split
          · rfl
          · split <;> rfl
      rw [ids, ids, layers, layers, Layers.ids, Layers.ids, hbelow, htop]

end Index

/-! ## What is asked for a foreign handle -/

/-- The handles that a request is about: the owner or the outer class of what is made, the element type
of an array and both ends of a link. -/
def Request.Concerns (id : ItemId) : Request → Prop
  | package owner _ | .class owner _ | innerClass owner _ | method owner _ _ | field owner _ =>
    owner = id
  | arrayClass base dims => base = id ∧ dims ≠ 0
  | parent child owner => child = id ∨ owner = id
  | primitive _ | raw _ _ _ => False

namespace Index

variable {a b index after : Index} {id other source target : ItemId}

/-- Taking out a dependency comes to nothing. -/
def RemovesNothing (index : Index) (source target : ItemId) : Prop :=
  (index.removeDependency source target).1 = false ∧
    AnswersAlike index (index.removeDependency source target).2

/-- A handle that an index ignores: it names nothing and leads nowhere, and every request that concerns
it is refused or comes to nothing. -/
structure Ignores (index : Index) (id : ItemId) : Prop where
  get?_eq : index.get? id = none
  contains_eq : index.contains id = false
  modify_eq : ∀ f, index.modify id f = index
  qualifiedName_eq : index.qualifiedName id = none
  projectOf_eq : index.projectOf id = none
  supertypes_eq : index.supertypes id = []
  refused : ∀ request : Request, request.Concerns id →
    ∃ error, request.edit.run.run index = (.error error, index)
  addDependency_eq : ∀ other, index.addDependency id other = (false, index) ∧
    index.addDependency other id = (false, index)
  removesNothing : ∀ other, index.RemovesNothing id other ∧ index.RemovesNothing other id

theorem refusal?_of_get?_eq_none (h : index.get? id = none) (kind : ItemKind) (name : String) :
    index.refusal? id kind name = some (.unknownOwner id) := by
  rw [refusal?, h]

/-- A request for an owner that is not there. -/
theorem run_checkOwner_bind_of_get?_eq_none {α : Type} (h : index.get? id = none) (kind : ItemKind)
    (name : String) (next : Unit → Edit α) :
    (checkOwner id kind name >>= next).run.run index = (.error (.unknownOwner id), index) := by
  apply Edit.run_bind_of_error
  rw [run_checkOwner, refusal?_of_get?_eq_none h]

theorem run_classPlace_of_get?_eq_none (h : index.get? id = none) (error : GraphError) :
    (classPlace id error).run.run index = (.error error, index) := by
  rw [classPlace, Edit.run_get_bind, h]
  rfl

/-- A link to or from what is not there is refused. -/
theorem exists_linkParent_eq_error (h : index.get? id = none) {child owner : ItemId}
    (hid : child = id ∨ owner = id) :
    ∃ error, index.linkParent child owner = (.error error, index) := by
  unfold linkParent
  by_cases howner : index.contains owner = true
  · -- the owner is there, so it is the child that is not
    have hchild : child = id := by
      rcases hid with hid | rfl
      · exact hid
      · rw [contains, h] at howner
        exact absurd howner (by decide)
    rw [if_neg (by simp [howner]), hchild, h]
    exact ⟨_, rfl⟩
  · rw [if_pos (by simp [howner])]
    exact ⟨_, rfl⟩

/-- A request that concerns what is not there is refused and changes nothing. -/
theorem exists_run_request_eq_error (h : index.get? id = none) {request : Request}
    (hid : request.Concerns id) : ∃ error, request.edit.run.run index = (.error error, index) := by
  cases request with
  | package owner name | «class» owner name | field owner name =>
    obtain rfl : owner = id := hid
    exact ⟨_, Edit.run_bind_of_error (run_checkOwner_bind_of_get?_eq_none h _ name _)⟩
  | method owner name params =>
    obtain rfl : owner = id := hid
    exact ⟨_, Edit.run_bind_of_error (run_checkOwner_bind_of_get?_eq_none h .method name _)⟩
  | innerClass outer simple =>
    obtain rfl : outer = id := hid
    exact ⟨_, Edit.run_bind_of_error (Edit.run_bind_of_error (run_classPlace_of_get?_eq_none h _))⟩
  | arrayClass base dims =>
    obtain ⟨rfl, hdims⟩ := hid
    refine ⟨.badArrayBase base, Edit.run_bind_of_error ?_⟩
    rw [createArrayClass, Edit.run_get_bind, arrayShape, h]
    dsimp only
    rw [if_neg hdims]
    exact Edit.run_bind_of_error (run_classPlace_of_get?_eq_none h _)
  | parent child owner =>
    obtain ⟨error, hlink⟩ := exists_linkParent_eq_error h hid
    exact ⟨error, Edit.run_bind_of_error hlink⟩
  | primitive _ => exact hid.elim
  | raw _ _ _ => exact hid.elim

/-- Where no item is linked to a foreign handle, no dependency on it or of it can be taken out. -/
theorem ListsLayers.removesNothing (h : index.ListsLayers) (hid : index.IsForeign id)
    (hdepends : ¬ index.DependsOn other id) (hneeded : ¬ index.IsNeededBy other id) :
    index.RemovesNothing id other ∧ index.RemovesNothing other id := by
  constructor
  · constructor
    · simp only [removeDependency, h.get?_eq_none hid]
      rfl
    · have hsame : (index.removeDependency id other).2 = index.modify other
          (fun item => { item with incoming := item.incoming.erase id }) := by
        simp only [removeDependency, h.modify_eq_self hid]
      rw [hsame]
      refine h.answersAlike_modify ?_ ?_
      · exact fun _ => rfl
      intro item hget
      have hnone : id ∉ item.incoming := fun hmem => hneeded ⟨item, hget, hmem⟩
      rw [Array.erase_of_not_mem hnone]
  · have hsame : (index.removeDependency other id).2 = index.modify other
        (fun item => { item with dependencies := item.dependencies.erase id }) := by
      have hforeign : (index.modify other
          (fun item => { item with dependencies := item.dependencies.erase id })).IsForeign id := by
        rw [IsForeign, generations_modify]
        exact hid
      have hlists : (index.modify other
          (fun item => { item with dependencies := item.dependencies.erase id })).ListsLayers :=
        lifelong_listsLayers.modify other (fun _ => rfl) h
      exact hlists.modify_eq_self hforeign _
    constructor
    · cases hget : index.get? other with
      | none =>
        simp only [removeDependency, hget]
        rfl
      | some item =>
        have hnone : id ∉ item.dependencies := fun hmem => hdepends ⟨item, hget, hmem⟩
        simp only [removeDependency, hget, Option.map_some, Option.getD_some]
        simpa using hnone
    · rw [hsame]
      refine h.answersAlike_modify ?_ ?_
      · exact fun _ => rfl
      intro item hget
      have hnone : id ∉ item.dependencies := fun hmem => hdepends ⟨item, hget, hmem⟩
      rw [Array.erase_of_not_mem hnone]

end Index

/-! ## Links stay at home -/

/-- An item depends on a target or is needed by it. -/
def Item.LinksTo (item : Item) (target : ItemId) : Prop :=
  target ∈ item.dependencies ∨ target ∈ item.incoming

theorem Item.KeepsLinks.linksTo_iff {f : Item → Item} (h : Item.KeepsLinks f) {item : Item}
    {target : ItemId} : (f item).LinksTo target ↔ item.LinksTo target := by
  rw [LinksTo, LinksTo, (h item).1, (h item).2]

theorem Item.not_linksTo_fresh {id target : ItemId} {name : String} {kind : ItemKind}
    {parent : Option ItemId} : ¬ (Item.fresh id name kind parent).LinksTo target := by
  rintro (hmem | hmem) <;> exact Array.not_mem_empty target hmem

/-- The links of a renamed item are new names. -/
theorem Item.exists_of_linksTo_remap {item : Item} {rename? : ItemId → Option ItemId}
    {target : ItemId} (h : (item.remap rename?).LinksTo target) : ∃ old, rename? old = some target := by
  rcases h with hmem | hmem
  · obtain ⟨old, _, hold⟩ := List.mem_filterMap.1 (mem_distinct.1 hmem)
    exact ⟨old, hold⟩
  · obtain ⟨old, _, hold⟩ := List.mem_filterMap.1 (mem_distinct.1 hmem)
    exact ⟨old, hold⟩

namespace Index

variable {a b index after : Index} {id other source target : ItemId}

/-- An index that lists its items and in which no item is linked to a foreign handle. -/
structure LinksAtHome (index : Index) : Prop where
  lists : index.ListsLayers
  home : ∀ {id : ItemId} {item : Item} {target : ItemId}, index.get? id = some item →
    item.LinksTo target → ¬ index.IsForeign target

namespace LinksAtHome

/-- A change in place that links an item to handles of the index only. -/
theorem modify (h : index.LinksAtHome) {f : Item → Item} (id : ItemId)
    (hid : ∀ item, (f item).id = item.id)
    (hf : ∀ item target, (f item).LinksTo target → item.LinksTo target ∨ ¬ index.IsForeign target) :
    (index.modify id f).LinksAtHome := by
  refine ⟨lifelong_listsLayers.modify id hid h.lists, ?_⟩
  intro other item target hget hlink
  rw [IsForeign, generations_modify]
  rw [get?_modify] at hget
  split at hget
  · obtain ⟨before, hbefore, rfl⟩ := Option.map_eq_some_iff.1 hget
    rcases hf before target hlink with hold | hnew
    · exact h.home hbefore hold
    · exact hnew
  · exact h.home hget hlink

theorem store (h : index.LinksAtHome) {id : ItemId} {name : String} {kind : ItemKind}
    {parent : Option ItemId} (hgeneration : id.generation = index.generation) :
    (index.store (.fresh id name kind parent)).LinksAtHome := by
  refine ⟨lifelong_listsLayers.store hgeneration h.lists, ?_⟩
  intro other item target hget hlink
  rw [IsForeign, generations_store]
  by_cases hfits : index.Fits id
  · rw [get?_store hfits] at hget
    split at hget
    · cases hget
      exact absurd hlink Item.not_linksTo_fresh
    · exact h.home hget hlink
  · rw [store_of_not_fits hgeneration hfits] at hget
    exact h.home hget hlink

theorem dependencies (h : index.LinksAtHome) (id : ItemId) {g : Array ItemId → Array ItemId}
    (hg : ∀ ids, ∀ target ∈ g ids, target ∈ ids ∨ ¬ index.IsForeign target) :
    (index.modify id (fun item => { item with dependencies := g item.dependencies })).LinksAtHome := by
  refine h.modify id ?_ ?_
  · exact fun _ => rfl
  · rintro item target (hmem | hmem)
    · exact (hg item.dependencies target hmem).imp_left Or.inl
    · exact Or.inl (Or.inr hmem)

theorem incoming (h : index.LinksAtHome) (id : ItemId) {g : Array ItemId → Array ItemId}
    (hg : ∀ ids, ∀ target ∈ g ids, target ∈ ids ∨ ¬ index.IsForeign target) :
    (index.modify id (fun item => { item with incoming := g item.incoming })).LinksAtHome := by
  refine h.modify id ?_ ?_
  · exact fun _ => rfl
  · rintro item target (hmem | hmem)
    · exact Or.inl (Or.inl hmem)
    · exact (hg item.incoming target hmem).imp_left Or.inr

theorem addDependency (h : index.LinksAtHome) (source target : ItemId) :
    (index.addDependency source target).2.LinksAtHome := by
  rw [Index.addDependency]
  split
  · exact h
  · -- both ends are in the index, so neither is foreign
    rename_i hrefused
    simp only [Bool.or_eq_true, decide_eq_true_eq, Bool.not_eq_true', not_or, Bool.not_eq_false]
      at hrefused
    obtain ⟨⟨_, hsource⟩, htarget⟩ := hrefused
    have hfirst := h.dependencies source (g := (insertNew · target)) ?_
    · refine hfirst.incoming target (g := (insertNew · source)) ?_
      intro ids other hmem
      rw [IsForeign, generations_modify]
      rcases mem_insertNew_iff.1 hmem with hold | rfl
      · exact Or.inl hold
      · exact Or.inr (fun hforeign => hforeign (h.lists.generation_mem hsource))
    · intro ids other hmem
      rcases mem_insertNew_iff.1 hmem with hold | rfl
      · exact Or.inl hold
      · exact Or.inr (fun hforeign => hforeign (h.lists.generation_mem htarget))

theorem removeDependency (h : index.LinksAtHome) (source target : ItemId) :
    (index.removeDependency source target).2.LinksAtHome := by
  have hfirst := h.dependencies source (g := (·.erase target))
    (fun _ _ hmem => Or.inl (Array.mem_of_mem_erase hmem))
  exact hfirst.incoming target (g := (·.erase source))
    (fun _ _ hmem => Or.inl (Array.mem_of_mem_erase hmem))

theorem books (h : a.LinksAtHome) (hsame : SameItems b a) : b.LinksAtHome := by
  refine ⟨lifelong_listsLayers.books hsame h.lists, ?_⟩
  intro id item target hget hlink
  rw [IsForeign, hsame.generations_eq]
  rw [hsame.get?_eq] at hget
  exact h.home hget hlink

end LinksAtHome

theorem enduring_linksAtHome : Enduring LinksAtHome where
  modify := fun id hid hlinks h =>
    h.modify id hid (fun _ _ hlink => Or.inl (hlinks.linksTo_iff.1 hlink))
  store := fun hgeneration h => h.store hgeneration
  addDependency := fun source target h => h.addDependency source target
  removeDependency := fun source target h => h.removeDependency source target
  books := fun hsame h => h.books hsame

theorem linksAtHome_empty (generation : Nat) : (empty generation).LinksAtHome := by
  refine ⟨listsLayers_empty generation, ?_⟩
  intro id item target hget
  rw [get?_empty] at hget
  cases hget

/-! ### Pruning -/

/-- What a table finds was put into it. -/
theorem mem_of_getElem?_ofList {renamed : List (ItemId × ItemId)} {old new : ItemId}
    (h : (Std.TreeMap.ofList renamed)[old]? = some new) : new ∈ renamed.map Prod.snd := by
  have hall : ∀ (renamed : List (ItemId × ItemId)) (table : Std.TreeMap ItemId ItemId),
      (table.insertMany renamed)[old]? = some new →
        table[old]? = some new ∨ new ∈ renamed.map Prod.snd := by
    intro renamed
    induction renamed with
    | nil => exact fun _ hfound => Or.inl hfound
    | cons entry rest ih =>
      intro table hfound
      rw [Std.TreeMap.insertMany_cons] at hfound
      rcases ih _ hfound with hlater | hlater
      · rw [Std.TreeMap.getElem?_insert] at hlater
        split at hlater
        · exact Or.inr (List.mem_cons.2 (Or.inl (Option.some.inj hlater).symm))
        · exact Or.inl hlater
      · exact Or.inr (List.mem_cons_of_mem _ hlater)
  rw [Std.TreeMap.ofList_eq_insertMany_empty] at h
  rcases hall renamed ∅ h with hnone | hmem
  · rw [Std.TreeMap.getElem?_emptyc] at hnone
    cases hnone
  · exact hmem

theorem generations_adopt (index : Index) (item : Item) :
    (index.adopt item).2.generations = index.generations :=
  (generations_store _ _).trans (sameItems_allocate index).generations_eq

/-- An adopted item is the only one that an index gets. -/
theorem contains_adopt {item : Item} (h : (index.adopt item).2.contains id) :
    index.contains id ∨ id = (index.adopt item).1 := by
  let copy : Item := { item with id := (index.adopt item).1 }
  have hadopt : (index.adopt item).2 = index.allocate.2.store copy := rfl
  rw [hadopt] at h
  by_cases hfits : index.allocate.2.Fits copy.id
  · rw [contains, get?_store hfits] at h
    split at h
    · rename_i heq
      exact Or.inr heq
    · rw [(sameItems_allocate index).get?_eq] at h
      exact Or.inl h
  · left
    rw [store_of_not_fits rfl hfits] at h
    rwa [contains, ← (sameItems_allocate index).get?_eq]

/-- What an index gets by adopting items is what it lists as their new handles. -/
theorem adoptAll_spec (source target : Index) (ids : List ItemId) :
    (source.adoptAll target ids).2.generations = target.generations ∧
      (∀ new ∈ (source.adoptAll target ids).1.map Prod.snd, new.generation = target.generation) ∧
      ∀ id, (source.adoptAll target ids).2.contains id →
        target.contains id ∨ id ∈ (source.adoptAll target ids).1.map Prod.snd := by
  induction ids generalizing target with
  | nil => exact ⟨rfl, fun new hnew => absurd hnew List.not_mem_nil, fun _ hid => Or.inl hid⟩
  | cons first rest ih =>
    rw [adoptAll]
    cases source.get? first with
    | none => exact ih target
    | some item =>
      obtain ⟨hgenerations, hnew, hcontains⟩ := ih (target.adopt item).2
      have hadopt := generations_adopt target item
      have hown : (target.adopt item).2.generation = target.generation := (List.cons.inj hadopt).1
      refine ⟨hgenerations.trans hadopt, ?_, ?_⟩
      · intro new hmem
        rcases List.mem_cons.1 hmem with rfl | hlater
        · rfl
        · exact (hnew new hlater).trans hown
      · intro id hid
        rcases hcontains id hid with hbefore | hlater
        · rcases contains_adopt hbefore with hold | rfl
          · exact Or.inl hold
          · exact Or.inr List.mem_cons_self
        · exact Or.inr (List.mem_cons_of_mem _ hlater)

/-- What each step of a run over items establishes holds of those items in the end. -/
theorem holds_of_foldl_modify {f : Item → Item} {p : Item → Prop} (hf : ∀ item, p (f item))
    (ids : List ItemId) {item : Item} (hid : id ∈ ids ∨ ∀ before, index.get? id = some before → p before)
    (hget : (ids.foldl (fun index id => index.modify id f) index).get? id = some item) : p item := by
  induction ids generalizing index with
  | nil =>
    rcases hid with hmem | hbefore
    · exact absurd hmem List.not_mem_nil
    · exact hbefore item hget
  | cons first rest ih =>
    refine ih ?_ hget
    by_cases hfirst : id = first
    · right
      intro before hbefore
      rw [get?_modify, if_pos hfirst] at hbefore
      obtain ⟨old, _, rfl⟩ := Option.map_eq_some_iff.1 hbefore
      exact hf old
    · rw [get?_modify, if_neg hfirst]
      exact hid.imp_left (fun hmem => (List.mem_cons.1 hmem).resolve_left hfirst)

theorem contains_foldl_modify (index : Index) (ids : List ItemId) (f : Item → Item) :
    (ids.foldl (fun index id => index.modify id f) index).contains id = index.contains id := by
  induction ids generalizing index with
  | nil => rfl
  | cons first rest ih => rw [List.foldl_cons, ih, contains_modify]

theorem generations_foldl_modify (ids : List ItemId) (f : Item → Item) (index : Index) :
    (ids.foldl (fun index id => index.modify id f) index).generations = index.generations := by
  induction ids generalizing index with
  | nil => rfl
  | cons first rest ih => rw [List.foldl_cons, ih, generations_modify]

/-- Pruning renames both ends of every link, whatever was pruned. -/
theorem linksAtHome_prune (index : Index) (generation : Nat) :
    (index.prune generation).index.LinksAtHome := by
  let kept := index.ids.filter index.retained.contains
  let renamed := (index.adoptAll (.empty generation) kept).1
  let copies := (index.adoptAll (.empty generation) kept).2
  let rename := fun item : Item => item.remap ((Std.TreeMap.ofList renamed)[·]?)
  let linked := (renamed.map Prod.snd).foldl (fun copies id => copies.modify id rename) copies
  have hprune : (index.prune generation).index = linked.rebuildRegistry := by
    show _ = ((renamed.map Prod.snd).foldl (fun copies id => copies.modify id rename)
      copies).rebuildRegistry
    rw [List.foldl_map]
    rfl
  obtain ⟨hgenerations, hnew, hcontains⟩ := adoptAll_spec index (.empty generation) kept
  rw [hprune]
  refine ⟨hprune ▸ (arises_prune index generation).listsLayers, ?_⟩
  intro id item target hget hlink
  rw [(sameItems_rebuildRegistry linked).get?_eq] at hget
  -- every item is one of the copies, and each of these was renamed
  have hid : id ∈ renamed.map Prod.snd := by
    have hlinked : copies.contains id = true := by
      rw [← contains_foldl_modify copies (renamed.map Prod.snd) rename, contains, hget]
      rfl
    rcases hcontains id hlinked with hempty | hmem
    · rw [contains, get?_empty] at hempty
      exact absurd hempty (by decide)
    · exact hmem
  have hhome : ∀ target, item.LinksTo target → target.generation = generation := by
    refine holds_of_foldl_modify
      (p := fun item => ∀ target, item.LinksTo target → target.generation = generation)
      (fun item target hlink => ?_) _ (Or.inl hid) hget
    obtain ⟨old, hold⟩ := Item.exists_of_linksTo_remap hlink
    exact hnew target (mem_of_getElem?_ofList hold)
  have hgeneration : linked.rebuildRegistry.generations = [generation] := by
    rw [(sameItems_rebuildRegistry linked).generations_eq, generations_foldl_modify, hgenerations]
    rfl
  rw [IsForeign, hgeneration, List.mem_singleton, not_not]
  exact hhome target hlink

/-! ## Indices without bare copies -/

/-- A request keeps a lasting property, refused or not. -/
theorem Lasting.request {holds : Index → Prop} (h : Lasting holds) (request : Request) :
    Edit.Keeps holds request.edit := by
  cases request with
  | package owner name => exact (h.sturdy.createOwned owner name .package).bind (fun _ => .pure _)
  | «class» owner name => exact (h.sturdy.createOwned owner name .class).bind (fun _ => .pure _)
  | innerClass outer simple => exact (h.sturdy.createInnerClass outer simple).bind (fun _ => .pure _)
  | method owner name params =>
    exact (h.sturdy.createMethod owner name params).bind (fun _ => .pure _)
  | field owner name => exact (h.sturdy.createOwned owner name .field).bind (fun _ => .pure _)
  | arrayClass base dims => exact (h.sturdy.createArrayClass base dims).bind (fun _ => .pure _)
  | primitive name => exact (h.sturdy.createPrimitive name).bind (fun _ => .pure _)
  | raw number name kind =>
    intro index hindex
    show holds ((get >>= fun index : Index => _ : Edit (Option ItemId)).run.run index).2
    rw [Edit.run_get_bind]
    cases hinsert : index.insertRaw number name kind with
    | error error => exact hindex
    | ok made => exact h.insertRaw hindex hinsert
  | parent child owner =>
    have hlink : Edit.Keeps holds
        (ExceptT.mk (fun index : Index => index.linkParent child owner) : Edit Unit) :=
      fun _ hindex => h.linkParent hindex child owner
    exact hlink.bind (fun _ => .pure _)

/-- The indices that operations and requests build, with or without a base, that pruning leaves and that
snapshots are read into.  Items of another index are not copied in by hand. -/
inductive Formed : Index → Prop
  | empty (generation : Nat) : Formed (empty generation)
  | onBase {base : Index} (generation : Nat) (h : Formed base) : Formed (onBase generation base)
  | operation {index : Index} (operation : Operation ItemId) (h : Formed index) :
      Formed (operation.run index).2
  | request {index : Index} (request : Request) (h : Formed index) :
      Formed (request.edit.run.run index).2
  | rebuildRegistry {index : Index} (h : Formed index) : Formed index.rebuildRegistry
  | prune (index : Index) (generation : Nat) : Formed (index.prune generation).index
  | read {index : Index} {generation : Nat} {archive : Archive}
      (h : Snapshot.read generation archive = .ok index) : Formed index

theorem linksAtHome_onBase (h : index.LinksAtHome) (generation : Nat) :
    (onBase generation index).LinksAtHome := by
  refine ⟨.cons (numbered_startingAt _ _) (fun _ hid => absurd hid Std.TreeMap.not_mem_emptyc)
    h.lists, ?_⟩
  intro id item target hget hlink hforeign
  have hlayers : (onBase generation index).get? id =
      if id.generation = generation then none else index.get? id :=
    get?_startingAt generation index.top.source.next index.layers id
  rw [hlayers] at hget
  split at hget
  · cases hget
  · exact h.home hget hlink (fun hmem => hforeign (List.mem_cons_of_mem _ hmem))

/-- Where no item was copied in by hand, no item is linked to a foreign handle. -/
theorem Formed.linksAtHome (h : index.Formed) : index.LinksAtHome := by
  induction h with
  | empty generation => exact linksAtHome_empty generation
  | onBase generation _ ih => exact linksAtHome_onBase ih generation
  | operation operation _ ih => exact enduring_linksAtHome.lasting.sturdy.run operation ih
  | request request _ ih => exact enduring_linksAtHome.lasting.request request _ ih
  | rebuildRegistry _ ih => exact ih.books (sameItems_rebuildRegistry _)
  | prune index generation => exact linksAtHome_prune index generation
  | read hread => exact enduring_linksAtHome.lasting.read (linksAtHome_empty _) hread

/-- Among them are the indices that operations and layers lead to. -/
theorem Reachable.formed (h : index.Reachable) : index.Formed := by
  obtain ⟨generation, hsteps⟩ := h
  induction hsteps with
  | refl => exact .empty generation
  | tail _ hstep ih =>
    cases hstep with
    | operation operation => exact ih.operation operation
    | layer _ => exact ih.onBase _

theorem LinksAtHome.not_linked (h : index.LinksAtHome) (hid : index.IsForeign id) (other : ItemId) :
    ¬ index.DependsOn other id ∧ ¬ index.IsNeededBy other id := by
  constructor
  · rintro ⟨item, hget, hmem⟩
    exact h.home hget (Or.inl hmem) hid
  · rintro ⟨item, hget, hmem⟩
    exact h.home hget (Or.inr hmem) hid

/-- An index in which no item is linked to a foreign handle ignores foreign handles. -/
theorem LinksAtHome.ignores (h : index.LinksAtHome) (hid : index.IsForeign id) : index.Ignores id := by
  have hget := h.lists.get?_eq_none hid
  have hcontains : index.contains id = false := by
    rw [contains, hget]
    rfl
  exact {
    get?_eq := hget
    contains_eq := hcontains
    modify_eq := h.lists.modify_eq_self hid
    qualifiedName_eq := by rw [qualifiedName, qualifiedNameWithin, hget]
    projectOf_eq := by rw [projectOf, ownerOfKind, ownerWithin, hget]
    supertypes_eq := by
      have hnext : index.nextLevel [id] [id] = [] := by
        simp [nextLevel, directSupertypes, hget, distinct]
      rw [supertypes, supertypesAbove, hnext]
      rfl
    refused := fun _ hrequest => exists_run_request_eq_error hget hrequest
    addDependency_eq := fun other => by
      unfold Index.addDependency
      constructor <;> rw [if_pos (by simp [hcontains])]
    removesNothing := fun other =>
      have hunlinked := h.not_linked hid other
      h.lists.removesNothing hid hunlinked.1 hunlinked.2 }

/-- Foreign handles are inert in every index that operations, layers, requests, pruning and snapshots
make: a handle that neither the index nor one of its bases made names nothing, leads nowhere, is refused
as an owner, a parent or a child, and is no end of a dependency that could be recorded or taken out. -/
theorem foreign_handle_inert (h : index.Formed) (hid : index.IsForeign id) : index.Ignores id :=
  h.linksAtHome.ignores hid

/-- A package from before its index was pruned.  Its number is in use again, by what is left, and both
ends of the dependency on it were renamed.  In an index of two layers a handle of a third one names
nothing. -/
theorem foreign_handle_inert_appBesideLib :
    (appBesideLib.prune 1).index.contains ⟨1, 1⟩ = true ∧ (appBesideLib.prune 1).index.Ignores ⟨1, 0⟩ ∧
      ((appBesideLib.prune 1).index.removeDependency ⟨2, 1⟩ ⟨1, 1⟩).1 = true ∧
      layeredApp.Ignores ⟨0, 3⟩ := by
  have hpruned := foreign_handle_inert (.prune appBesideLib 1)
    (show (appBesideLib.prune 1).index.IsForeign ⟨1, 0⟩ by decide +kernel)
  have hlayered := foreign_handle_inert reachable_layeredApp.formed
    (show layeredApp.IsForeign ⟨0, 3⟩ by decide +kernel)
  exact ⟨by decide +kernel, hpruned, by decide +kernel, hlayered⟩

/-- An index with a copy of a project that depends on a package of another index.  It is not made by any
of the above: the copy waits to be renamed. -/
def copiedApp : Index :=
  ((empty 1).adopt { Item.fresh ⟨3, 0⟩ "app" .project none with dependencies := #[⟨1, 0⟩] }).2

/-- The copy still depends on the package of the other index, and that dependency can be taken out. -/
example :
    copiedApp.IsForeign ⟨1, 0⟩ ∧ (copiedApp.removeDependency ⟨0, 1⟩ ⟨1, 0⟩).1 = true ∧
      (copiedApp.removeDependency ⟨0, 1⟩ ⟨1, 0⟩).2.get? ⟨0, 1⟩ ≠ copiedApp.get? ⟨0, 1⟩ := by
  decide +kernel

end Index

end CodeAtlas
