/-
# Indices that lie in one another

An index lies in another one when a renaming sends items of the other to its own items, with all
their links to owners and types, and every lookup finds what the other finds, as far as that has a
new name.  This is how an index that was read from a snapshot, and one that was pruned, lie in the
index they come from.

A lookup that finds an item without a new name may find anything in the smaller index: the next
candidate takes the place of the first.  So lookups are related by what they echo, and only where
the item that was found has a new name is the answer known.
-/
import CodeAtlas.Proofs.Index.Walks
import CodeAtlas.Resolve.Calls
import CodeAtlas.Resolve.Types

namespace CodeAtlas

variable {rename? : ItemId → Option ItemId}

/-! ## Handles under a renaming -/

/-- The second handle is the new name of the first. -/
def Sends (rename? : ItemId → Option ItemId) (id new : ItemId) : Prop :=
  rename? id = some new

/-- Nothing is known on either side, or the one is the new name of the other. -/
abbrev Sends? (rename? : ItemId → Option ItemId) : Option ItemId → Option ItemId → Prop :=
  Option.Rel (Sends rename?)

/-- Different handles have different new names. -/
def IsRenaming (rename? : ItemId → Option ItemId) : Prop :=
  ∀ {a b new : ItemId}, rename? a = some new → rename? b = some new → a = b

theorem Sends.eq_iff (h : IsRenaming rename?) {a b a' b' : ItemId} (ha : Sends rename? a a')
    (hb : Sends rename? b b') : a' = b' ↔ a = b := by
  constructor
  · rintro rfl
    exact h ha hb
  · rintro rfl
    exact Option.some.inj (ha.symm.trans hb)

theorem contains_of_forall₂ (h : IsRenaming rename?) {ids ids' : List ItemId}
    (hids : List.Forall₂ (Sends rename?) ids ids') {id id' : ItemId} (hid : Sends rename? id id') :
    ids'.contains id' = ids.contains id := by
  induction hids with
  | nil => rfl
  | cons hfirst _ ih =>
    rw [List.contains_cons, List.contains_cons, ih]
    congr 1
    rw [Bool.eq_iff_iff, beq_iff_eq, beq_iff_eq]
    exact Sends.eq_iff h hid hfirst

/-- A list is renamed without loss when each of its handles has a new name. -/
theorem forall₂_sends_iff {ids ids' : List ItemId} :
    List.Forall₂ (Sends rename?) ids ids' ↔
      (∀ id ∈ ids, (rename? id).isSome) ∧ ids' = ids.filterMap rename? := by
  constructor
  · intro hids
    induction hids with
    | nil => simp
    | cons hfirst _ ih =>
      rw [List.filterMap_cons_some hfirst, ← ih.2, List.forall_mem_cons]
      exact ⟨⟨Option.isSome_iff_exists.2 ⟨_, hfirst⟩, ih.1⟩, rfl⟩
  · rintro ⟨hsome, rfl⟩
    induction ids with
    | nil => exact .nil
    | cons first rest ih =>
      rw [List.forall_mem_cons] at hsome
      obtain ⟨new, hnew⟩ := Option.isSome_iff_exists.1 hsome.1
      rw [List.filterMap_cons_some hnew]
      exact .cons hnew (ih hsome.2)

theorem forall₂_filter {ids ids' : List ItemId} (hids : List.Forall₂ (Sends rename?) ids ids')
    {p q : ItemId → Bool} (hpq : ∀ id id', Sends rename? id id' → q id' = p id) :
    List.Forall₂ (Sends rename?) (ids.filter p) (ids'.filter q) := by
  induction hids with
  | nil => exact .nil
  | @cons first first' _ _ hfirst _ ih =>
    rw [List.filter_cons, List.filter_cons, hpq first first' hfirst]
    split
    · exact .cons hfirst ih
    · exact ih

theorem filterMap_insertNew (h : IsRenaming rename?) (ids : Array ItemId) (id : ItemId) :
    (insertNew ids id).toList.filterMap rename? =
      ((rename? id).toList.foldl insertNew (ids.toList.filterMap rename?).toArray).toList := by
  cases hid : rename? id with
  | none =>
    rw [Option.toList_none, List.foldl_nil, insertNew]
    split
    · rfl
    · rw [Array.toList_push, List.filterMap_append, List.filterMap_cons_none hid, List.filterMap_nil,
        List.append_nil]
  | some new =>
    have hmem : new ∈ ids.toList.filterMap rename? ↔ id ∈ ids.toList := by
      rw [List.mem_filterMap]
      constructor
      · rintro ⟨other, hother, hnew⟩
        exact h hid hnew ▸ hother
      · exact fun hin => ⟨id, hin, hid⟩
    rw [Option.toList_some, List.foldl_cons, List.foldl_nil, insertNew, insertNew]
    by_cases hin : id ∈ ids.toList
    · rw [if_pos (by simpa using hin), if_pos (by simpa using hmem.2 hin)]
    · rw [if_neg (by simpa using hin), if_neg (by simpa using fun hnew => hin (hmem.1 hnew)),
        Array.toList_push, Array.toList_push, List.filterMap_append, List.filterMap_cons_some hid]
      rfl

theorem filterMap_foldl_insertNew (h : IsRenaming rename?) (ids : List ItemId)
    (known : Array ItemId) :
    (ids.foldl insertNew known).toList.filterMap rename? =
      ((ids.filterMap rename?).foldl insertNew (known.toList.filterMap rename?).toArray).toList := by
  induction ids generalizing known with
  | nil => rfl
  | cons first rest ih =>
    rw [List.foldl_cons, ih, filterMap_insertNew h]
    cases hfirst : rename? first with
    | none => rw [List.filterMap_cons_none hfirst]; rfl
    | some new => rw [List.filterMap_cons_some hfirst]; rfl

/-- Dropping repetitions and renaming can be exchanged. -/
theorem filterMap_distinct (h : IsRenaming rename?) (ids : List ItemId) :
    (distinct ids).toList.filterMap rename? = (distinct (ids.filterMap rename?)).toList :=
  filterMap_foldl_insertNew h ids #[]

theorem forall₂_foldl_insertNew (h : IsRenaming rename?) {ids ids' known known' : List ItemId}
    (hids : List.Forall₂ (Sends rename?) ids ids')
    (hknown : List.Forall₂ (Sends rename?) known known') :
    List.Forall₂ (Sends rename?) (ids.foldl insertNew known.toArray).toList
      (ids'.foldl insertNew known'.toArray).toList := by
  rw [forall₂_sends_iff] at hids hknown ⊢
  refine ⟨fun id hid => ?_, ?_⟩
  · rw [mem_foldl_insertNew] at hid
    exact hid.elim (hknown.1 id) (hids.1 id)
  · rw [hids.2, hknown.2, filterMap_foldl_insertNew h]

/-! ## Lookups under a renaming -/

/-- The second answer echoes the first: there is none where the first is none, and where the first
has a new name, the second is that name. -/
structure Echoes (rename? : ItemId → Option ItemId) (found found' : Option ItemId) : Prop where
  ofNone : found = none → found' = none
  ofSome : ∀ {id new : ItemId}, found = some id → rename? id = some new → found' = some new

namespace Echoes

variable {found found' other other' : Option ItemId}

theorem nothing : Echoes rename? none none :=
  ⟨fun _ => rfl, fun h => absurd h (by simp)⟩

theorem of_bind (h : found' = found.bind rename?) : Echoes rename? found found' := by
  subst h
  refine ⟨fun h => by rw [h]; rfl, fun h hnew => ?_⟩
  rw [h, Option.bind_some, hnew]

theorem of_rel (h : Sends? rename? found found') : Echoes rename? found found' := by
  cases h with
  | none => exact nothing
  | some hsends =>
    refine ⟨fun h => absurd h (by simp), fun h hnew => ?_⟩
    cases h
    rw [← hnew, hsends]

/-- Where the answer has a new name, it is known. -/
theorem rel (h : Echoes rename? found found') (hkept : ∀ id ∈ found, (rename? id).isSome) :
    Sends? rename? found found' := by
  cases hfound : found with
  | none =>
    rw [h.ofNone hfound]
    exact .none
  | some id =>
    obtain ⟨new, hnew⟩ := Option.isSome_iff_exists.1 (hkept id hfound)
    rw [h.ofSome hfound hnew]
    exact .some hnew

/-- A second lookup is made where the first finds nothing. -/
theorem or (h : Echoes rename? found found') (hother : Echoes rename? other other') :
    Echoes rename? (found.or other) (found'.or other') := by
  cases hfound : found with
  | none =>
    rw [h.ofNone hfound, Option.none_or, Option.none_or]
    exact hother
  | some id =>
    rw [Option.some_or]
    refine ⟨fun hnone => absurd hnone (by simp), fun hsome hnew => ?_⟩
    obtain rfl := Option.some.inj hsome
    rw [h.ofSome hfound hnew, Option.some_or]

theorem findSome?_cons_eq_or {α : Type} (f : α → Option ItemId) (first : α) (rest : List α) :
    (first :: rest).findSome? f = (f first).or (rest.findSome? f) := by
  rw [List.findSome?_cons]
  cases f first <;> rfl

/-- The first answer of several lookups. -/
theorem findSome? {α : Type} {f g : α → Option ItemId} {list : List α}
    (h : ∀ value ∈ list, Echoes rename? (f value) (g value)) :
    Echoes rename? (list.findSome? f) (list.findSome? g) := by
  induction list with
  | nil => exact nothing
  | cons first rest ih =>
    rw [findSome?_cons_eq_or, findSome?_cons_eq_or]
    exact (h first List.mem_cons_self).or (ih (fun value hvalue =>
      h value (List.mem_cons_of_mem _ hvalue)))

/-- Lookups in a list that is renamed.  What is found through a handle without a new name has none
itself. -/
theorem findSome?_filterMap {f g : ItemId → Option ItemId} (ids : List ItemId)
    (hecho : ∀ id new, rename? id = some new → Echoes rename? (f id) (g new))
    (hlost : ∀ id found, f id = some found → (rename? found).isSome → (rename? id).isSome) :
    Echoes rename? (ids.findSome? f) ((ids.filterMap rename?).findSome? g) := by
  induction ids with
  | nil => exact nothing
  | cons first rest ih =>
    rw [findSome?_cons_eq_or]
    cases hfirst : rename? first with
    | some new =>
      rw [List.filterMap_cons_some hfirst, findSome?_cons_eq_or]
      exact (hecho first new hfirst).or ih
    | none =>
      rw [List.filterMap_cons_none hfirst, ← @Option.none_or _ ((rest.filterMap rename?).findSome? g)]
      refine or ⟨fun _ => rfl, fun {found new} hfound hnew => ?_⟩ ih
      have hsome := hlost first found hfound (Option.isSome_iff_exists.2 ⟨new, hnew⟩)
      rw [hfirst] at hsome
      simp at hsome

theorem findSome?_forall₂ {f g : ItemId → Option ItemId} {ids ids' : List ItemId}
    (hids : List.Forall₂ (Sends rename?) ids ids')
    (hecho : ∀ id new, rename? id = some new → Echoes rename? (f id) (g new)) :
    Echoes rename? (ids.findSome? f) (ids'.findSome? g) := by
  induction hids with
  | nil => exact nothing
  | cons hfirst _ ih =>
    rw [findSome?_cons_eq_or, findSome?_cons_eq_or]
    exact (hecho _ _ hfirst).or ih

/-- The first of a list that passes a test, where renaming does not change the test. -/
theorem find?_filterMap {p q : ItemId → Bool} (ids : List ItemId)
    (hpq : ∀ id new, rename? id = some new → q new = p id) :
    Echoes rename? (ids.find? p) ((ids.filterMap rename?).find? q) := by
  have hfind : ∀ (test : ItemId → Bool) (list : List ItemId),
      list.find? test = list.findSome? (fun id => if test id then some id else none) := by
    intro test list
    rw [← List.findSome?_guard]
    rfl
  rw [hfind, hfind]
  refine findSome?_filterMap ids (fun id new hnew => ?_) (fun id found hfound hsome => ?_)
  · rw [hpq id new hnew]
    split
    · exact of_rel (.some hnew)
    · exact nothing
  · split at hfound
    · cases hfound
      exact hsome
    · simp at hfound

theorem head?_filterMap (ids : List ItemId) :
    Echoes rename? ids.head? (ids.filterMap rename?).head? := by
  have hfind : ∀ list : List ItemId, list.find? (fun _ => true) = list.head? := by
    intro list
    cases list <;> rfl
  rw [← hfind, ← hfind]
  exact find?_filterMap ids (fun _ _ _ => rfl)

end Echoes

/-! ## Embedded indices -/

/-- An item under its new name: nothing of its owner and its types is lost. -/
structure Item.IsImage (rename? : ItemId → Option ItemId) (item image : Item) : Prop where
  name_eq : image.name = item.name
  kind_eq : image.kind = item.kind
  parent : Sends? rename? item.parent image.parent
  superclass : Sends? rename? item.superclass image.superclass
  superinterfaces : List.Forall₂ (Sends rename?) item.superinterfaces image.superinterfaces
  returnType : Sends? rename? item.returnType image.returnType
  fieldType : Sends? rename? item.fieldType image.fieldType
  paramCount_eq : image.paramTypes.length = item.paramTypes.length

namespace Index

/-- The renaming sends items of the first index to items of the second, which finds what the first
finds as far as that has a new name. -/
structure Embeds (rename? : ItemId → Option ItemId) (a b : Index) : Prop where
  coherent : a.Coherent
  source : a.Walkable
  target : b.Walkable
  injective : IsRenaming rename?
  image : ∀ {id new : ItemId}, Sends rename? id new →
    ∃ item image, a.get? id = some item ∧ b.get? new = some image ∧ item.IsImage rename? image
  findItem_eq : ∀ {owner new : Option ItemId}, Sends? rename? owner new →
    ∀ (name : String) (kind : ItemKind), kind ≠ .method →
      b.findItem new name kind = (a.findItem owner name kind).bind rename?
  findMethods_eq : ∀ {owner new : ItemId}, Sends rename? owner new → ∀ name : String,
    b.findAll (some new) name .method = (a.findAll (some owner) name .method).filterMap rename?
  findPackages_eq : ∀ name : String,
    b.findByName .package name = (a.findByName .package name).filterMap rename?

/-- What is found by owner, name and kind has them. -/
theorem Coherent.get?_of_findItem {index : Index} (h : index.Coherent) {parent : Option ItemId}
    {name : String} {kind : ItemKind} {id : ItemId} (hkind : kind ≠ .method)
    (hfind : index.findItem parent name kind = some id) :
    ∃ item, index.get? id = some item ∧ item.parent = parent ∧ item.kind = kind ∧
      item.name = name := by
  rw [h.registered.findItem_eq parent name kind hkind] at hfind
  have hbears := (List.mem_filter.1 (List.mem_of_mem_head? hfind)).2
  rw [bears, Option.any_eq_true] at hbears
  obtain ⟨item, hget, hkey⟩ := hbears
  simp only [ItemKey.mk.injEq, decide_eq_true_eq] at hkey
  exact ⟨item, hget, hkey.1, hkey.2.1, hkey.2.2⟩

namespace Embeds

variable {a b : Index}

/-- What has a new name has an owner with a new name. -/
theorem isSome_owner (h : Embeds rename? a b) {owner id : ItemId} {name : String} {kind : ItemKind}
    (hkind : kind ≠ .method) (hfind : a.findItem (some owner) name kind = some id)
    (hid : (rename? id).isSome) : (rename? owner).isSome := by
  obtain ⟨new, hnew⟩ := Option.isSome_iff_exists.1 hid
  obtain ⟨item, image, hget, _, himage⟩ := h.image hnew
  obtain ⟨found, hfound, hparent, _⟩ := h.coherent.get?_of_findItem hkind hfind
  obtain rfl := Option.some.inj (hget.symm.trans hfound)
  have hrel := himage.parent
  rw [hparent] at hrel
  generalize image.parent = newParent at hrel
  cases hrel with
  | some hsends => exact Option.isSome_iff_exists.2 ⟨_, hsends⟩

/-- A lookup under an owner whose new name is that of a lookup itself. -/
theorem bind_findItem (h : Embeds rename? a b) {owner : Option ItemId} {name : String}
    {kind : ItemKind} (hkind : kind ≠ .method) :
    (owner.bind rename?).bind (fun owner => b.findItem (some owner) name kind) =
      (owner.bind (fun owner => a.findItem (some owner) name kind)).bind rename? := by
  cases owner with
  | none => rfl
  | some owner =>
    cases howner : rename? owner with
    | some new =>
      rw [Option.bind_some, howner, Option.bind_some, Option.bind_some,
        h.findItem_eq (.some howner) name kind hkind]
    | none =>
      rw [Option.bind_some, howner, Option.bind_none, Option.bind_some]
      cases hfind : a.findItem (some owner) name kind with
      | none => rfl
      | some id =>
        rw [Option.bind_some]
        cases hid : rename? id with
        | none => rfl
        | some new =>
          have hsome := h.isSome_owner hkind hfind (Option.isSome_iff_exists.2 ⟨new, hid⟩)
          rw [howner] at hsome
          simp at hsome

/-! ### Owners and names -/

theorem rel_ownerWithin (h : Embeds rename? a b) (kind : ItemKind) (steps : Nat) {id new : ItemId}
    (hnew : Sends rename? id new) :
    Sends? rename? (a.ownerWithin kind steps id) (b.ownerWithin kind steps new) := by
  induction steps generalizing id new with
  | zero => exact .none
  | succ steps ih =>
    obtain ⟨item, image, hget, hget', himage⟩ := h.image hnew
    rw [ownerWithin, ownerWithin, hget, hget']
    dsimp only
    rw [himage.kind_eq]
    split
    · exact .some hnew
    · have hrel := himage.parent
      generalize item.parent = parent at hrel
      generalize image.parent = newParent at hrel
      cases hrel with
      | none => exact .none
      | some hsends => exact ih hsends

theorem rel_ownerOfKind (h : Embeds rename? a b) (kind : ItemKind) {id new : ItemId}
    (hnew : Sends rename? id new) :
    Sends? rename? (a.ownerOfKind kind id) (b.ownerOfKind kind new) := by
  obtain ⟨item, image, hget, hget', _⟩ := h.image hnew
  rw [h.source.ownerOfKind_eq kind hget, h.target.ownerOfKind_eq kind hget']
  exact h.rel_ownerWithin kind 4 hnew

/-- Whether an item stands in a project. -/
theorem projectOf_beq (h : Embeds rename? a b) {id new project newProject : ItemId}
    (hnew : Sends rename? id new) (hproject : Sends rename? project newProject) :
    (b.projectOf new == some newProject) = (a.projectOf id == some project) := by
  have hrel := h.rel_ownerOfKind .project hnew
  rw [projectOf, projectOf, Bool.eq_iff_iff, beq_iff_eq, beq_iff_eq]
  generalize a.ownerOfKind .project id = owner at hrel
  generalize b.ownerOfKind .project new = newOwner at hrel
  cases hrel with
  | none => simp
  | some hsends =>
    rw [Option.some.injEq, Option.some.injEq]
    exact hsends.eq_iff h.injective hproject

theorem qualifiedNameWithin_eq (h : Embeds rename? a b) (steps : Nat) {id new : ItemId}
    (hnew : Sends rename? id new) :
    b.qualifiedNameWithin steps new = a.qualifiedNameWithin steps id := by
  induction steps generalizing id new with
  | zero => rfl
  | succ steps ih =>
    obtain ⟨item, image, hget, hget', himage⟩ := h.image hnew
    have hrel := himage.parent
    rw [qualifiedNameWithin, qualifiedNameWithin, hget, hget']
    dsimp only
    rw [himage.kind_eq, himage.name_eq]
    generalize item.parent = parent at hrel
    generalize image.parent = newParent at hrel
    cases hrel with
    | none => rfl
    | some hsends =>
      obtain ⟨owner, newOwner, howner, hnewOwner, hownerImage⟩ := h.image hsends
      rw [Option.bind_some, Option.bind_some, Option.bind_some, Option.bind_some, howner, hnewOwner,
        ih hsends]
      dsimp only
      rw [hownerImage.name_eq]

theorem qualifiedName_eq (h : Embeds rename? a b) {id new : ItemId} (hnew : Sends rename? id new) :
    b.qualifiedName new = a.qualifiedName id := by
  obtain ⟨item, image, hget, hget', _⟩ := h.image hnew
  rw [h.source.qualifiedName_eq hget, h.target.qualifiedName_eq hget']
  exact h.qualifiedNameWithin_eq 4 hnew

/-! ### Supertypes -/

theorem forall₂_directSupertypes (h : Embeds rename? a b) {id new : ItemId}
    (hnew : Sends rename? id new) :
    List.Forall₂ (Sends rename?) (a.directSupertypes id) (b.directSupertypes new) := by
  obtain ⟨item, image, hget, hget', himage⟩ := h.image hnew
  rw [directSupertypes, directSupertypes, hget, hget']
  refine List.rel_append ?_ himage.superinterfaces
  have hrel := himage.superclass
  generalize item.superclass = parent at hrel
  generalize image.superclass = newParent at hrel
  cases hrel with
  | none => exact .nil
  | some hsends => exact .cons hsends .nil

theorem forall₂_nextLevel (h : Embeds rename? a b) {seen seen' level level' : List ItemId}
    (hseen : List.Forall₂ (Sends rename?) seen seen')
    (hlevel : List.Forall₂ (Sends rename?) level level') :
    List.Forall₂ (Sends rename?) (a.nextLevel seen level) (b.nextLevel seen' level') := by
  have hall := List.rel_flatMap hlevel
    (fun _ _ hsends => h.forall₂_directSupertypes hsends)
  have hnew := forall₂_filter hall (fun id id' hid =>
    congrArg (!·) (contains_of_forall₂ h.injective hseen hid))
  exact forall₂_foldl_insertNew h.injective hnew .nil

theorem forall₂_supertypesAbove (h : Embeds rename? a b) (steps : Nat)
    {seen seen' level level' : List ItemId} (hseen : List.Forall₂ (Sends rename?) seen seen')
    (hlevel : List.Forall₂ (Sends rename?) level level') :
    List.Forall₂ (Sends rename?) (a.supertypesAbove steps seen level)
      (b.supertypesAbove steps seen' level') := by
  induction steps generalizing seen seen' level level' with
  | zero => exact .nil
  | succ steps ih =>
    have hnext := h.forall₂_nextLevel hseen hlevel
    have hempty : (b.nextLevel seen' level').isEmpty = (a.nextLevel seen level).isEmpty := by
      rw [Bool.eq_iff_iff, List.isEmpty_iff_length_eq_zero, List.isEmpty_iff_length_eq_zero,
        hnext.length_eq]
    rw [supertypesAbove, supertypesAbove, hempty]
    split
    · exact .nil
    · exact List.rel_append hnext (ih (List.rel_append hseen hnext) hnext)

theorem forall₂_supertypes (h : Embeds rename? a b) {id new : ItemId}
    (hnew : Sends rename? id new) :
    List.Forall₂ (Sends rename?) (a.supertypes id) (b.supertypes new) := by
  have hself : List.Forall₂ (Sends rename?) [id] [new] := .cons hnew .nil
  have hsteps : a.size < a.size + b.size + 1 ∧ b.size < a.size + b.size + 1 := by omega
  rw [supertypes_eq h.source.stacked.isListed id hsteps.1,
    supertypes_eq h.target.stacked.isListed new hsteps.2]
  exact h.forall₂_supertypesAbove _ hself hself

theorem forall₂_withSupertypes (h : Embeds rename? a b) {id new : ItemId}
    (hnew : Sends rename? id new) :
    List.Forall₂ (Sends rename?) (a.withSupertypes id) (b.withSupertypes new) :=
  .cons hnew (h.forall₂_supertypes hnew)

/-! ### Fields and methods -/

theorem echoes_findField (h : Embeds rename? a b) {id new : ItemId} (hnew : Sends rename? id new)
    (name : String) : Echoes rename? (a.findField id name) (b.findField new name) :=
  Echoes.findSome?_forall₂ (h.forall₂_withSupertypes hnew)
    (fun _ _ howner => .of_bind (h.findItem_eq (.some howner) name .field (by decide)))

/-- Methods are told apart by name and number of parameters. -/
theorem matchesItem_ofCount (h : Embeds rename? a b) {id new : ItemId} (hnew : Sends rename? id new)
    (name : String) (count : Nat) :
    (MethodQuery.ofCount name count).matchesItem b new =
      (MethodQuery.ofCount name count).matchesItem a id := by
  obtain ⟨item, image, hget, hget', himage⟩ := h.image hnew
  rw [matchesItem_ofCount_eq_any, matchesItem_ofCount_eq_any, hget, hget', Option.any_some,
    Option.any_some, himage.kind_eq, himage.name_eq, himage.paramCount_eq]

theorem echoes_findMethod (h : Embeds rename? a b) {id new : ItemId} (hnew : Sends rename? id new)
    (name : String) (count : Nat) :
    Echoes rename? (a.findMethod id (.ofCount name count)) (b.findMethod new (.ofCount name count)) := by
  refine Echoes.findSome?_forall₂ (h.forall₂_withSupertypes hnew) (fun owner newOwner howner => ?_)
  have hmethods : b.findAll (some newOwner) (MethodQuery.ofCount name count).name .method = _ :=
    h.findMethods_eq howner name
  rw [hmethods]
  exact Echoes.find?_filterMap _ (fun _ _ hmethod => h.matchesItem_ofCount hmethod name count)

/-- A call whose owners have new names. -/
theorem echoes_resolveCall (h : Embeds rename? a b) {site site' : CallSite}
    (howners : List.Forall₂ (Sends rename?) site.owners site'.owners)
    (hname : site'.name = site.name) (hcount : site'.argCount = site.argCount) :
    Echoes rename? (a.resolveCall site) (b.resolveCall site') := by
  rw [resolveCall, resolveCall, hname, hcount]
  exact Echoes.findSome?_forall₂ howners
    (fun _ _ howner => h.echoes_findMethod howner site.name site.argCount)

/-! ### Classes by name -/

theorem findBuiltin_eq (h : Embeds rename? a b) (name : String) :
    b.findBuiltin name = (a.findBuiltin name).bind rename? := by
  have hchain : ∀ index : Index, index.findBuiltin name =
      ((index.findItem none builtinProject .project).bind
        (fun project => index.findItem (some project) "" .package)).bind
          (fun package => index.findItem (some package) name .class) := by
    intro index
    rw [findBuiltin]
    cases index.findItem none builtinProject .project with
    | none => rfl
    | some project =>
      dsimp only [Option.bind_some]
      cases index.findItem (some project) "" .package <;> rfl
  rw [hchain, hchain, h.findItem_eq .none _ .project (by decide), h.bind_findItem (by decide), h.bind_findItem (by decide)]

theorem findPrimitive_eq (h : Embeds rename? a b) (name : String) :
    b.findPrimitive name = (a.findPrimitive name).bind rename? := by
  rw [findPrimitive, findPrimitive, h.findBuiltin_eq]
  split <;> rfl

theorem findClasses_eq (h : Embeds rename? a b) (name : String) :
    b.findClasses name = (a.findClasses name).filterMap rename? := by
  rw [findClasses, findClasses, filterMap_distinct h.injective, List.filterMap_flatMap]
  refine congrArg (fun ids => (distinct ids).toList) (List.flatMap_congr (fun cut _ => ?_))
  dsimp only
  split
  · rfl
  · rw [h.findPackages_eq, List.filterMap_filterMap, List.filterMap_filterMap]
    refine List.filterMap_congr (fun package _ => ?_)
    exact @bind_findItem _ _ _ h (some package) _ _ (by decide)

/-- The class of a dotted name below a class with a new name. -/
theorem memberClass_eq (h : Embeds rename? a b) {outer new : ItemId} (hnew : Sends rename? outer new)
    (rest : String) : b.memberClass new rest = (a.memberClass outer rest).bind rename? := by
  obtain ⟨item, image, hget, hget', himage⟩ := h.image hnew
  have hrel := h.rel_ownerOfKind .package hnew
  rw [memberClass, memberClass, hget, hget', packageOf, packageOf]
  generalize a.ownerOfKind .package outer = package at hrel
  generalize b.ownerOfKind .package new = newPackage at hrel
  cases hrel with
  | none => rfl
  | some hsends =>
    dsimp only
    rw [himage.name_eq, h.findItem_eq (.some hsends) _ .class (by decide)]

/-- Choosing among candidates, those of a project first. -/
theorem echoes_preferProject (h : Embeds rename? a b) {project newProject : Option ItemId}
    (hproject : Sends? rename? project newProject) (candidates : List ItemId) :
    Echoes rename? (a.preferProject project candidates)
      (b.preferProject newProject (candidates.filterMap rename?)) := by
  refine Echoes.or ?_ (Echoes.head?_filterMap candidates)
  cases hproject with
  | none => exact Echoes.nothing
  | some hsends =>
    exact Echoes.find?_filterMap candidates (fun _ _ hnew => h.projectOf_beq hnew hsends)

end Embeds

end Index

end CodeAtlas
