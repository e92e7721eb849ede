/-
# Ways up from an item

The first item of a sort on the way up from an item and the item at the top of its parent chain, as
relations, and the agreement of the bounded walks with them: a walk that finds something passes every
item at most once, so as many steps as the index has items are enough.
-/
import CodeAtlas.Index.Prune
import CodeAtlas.Proofs.Index.Layers
import Mathlib.Data.List.Perm.Subperm

namespace CodeAtlas.Index

variable {index a b : Index}

/-- An item and the owner it names. -/
def HasParent (index : Index) (id parent : ItemId) : Prop :=
  ∃ item, index.get? id = some item ∧ item.parent = some parent

/-- Every owner that an item names is an item. -/
def OwnersKnown (index : Index) : Prop :=
  ∀ {id owner : ItemId}, index.HasParent id owner → index.contains owner

/-- The parent chain of an item ends at the item `top`, which has no owner. -/
inductive EndsAt (index : Index) : ItemId → Item → Prop
  | here {id : ItemId} {top : Item} (hget : index.get? id = some top) (hroot : top.parent = none) :
      EndsAt index id top
  | above {id parent : ItemId} {item top : Item} (hget : index.get? id = some item)
      (hparent : item.parent = some parent) (hends : EndsAt index parent top) :
      EndsAt index id top

/-- The first item with a property on the way up from an item, the item itself included. -/
inductive FirstAbove (index : Index) (stops : Item → Prop) : ItemId → Item → Prop
  | here {id : ItemId} {found : Item} (hget : index.get? id = some found) (hstops : stops found) :
      FirstAbove index stops id found
  | above {id parent : ItemId} {item found : Item} (hget : index.get? id = some item)
      (hgoes : ¬ stops item) (hparent : item.parent = some parent)
      (hfirst : FirstAbove index stops parent found) : FirstAbove index stops id found

/-- The project that owns an item is flagged as third-party. -/
def OwnedByThirdParty (index : Index) (id : ItemId) : Prop :=
  ∃ top, index.EndsAt id top ∧ top.kind = .project ∧ top.isThirdParty = true

/-- The nearest project on the way up from an item, the item itself included, is flagged as
third-party. -/
def InFlaggedProject (index : Index) (id : ItemId) : Prop :=
  ∃ project, index.FirstAbove (fun item => item.kind = .project) id project ∧
    project.isThirdParty = true

/-- What a way up comes to has the property. -/
theorem FirstAbove.stops {stops : Item → Prop} {id : ItemId} {found : Item}
    (h : index.FirstAbove stops id found) : stops found := by
  induction h with
  | here _ hstops => exact hstops
  | above _ _ _ _ ih => exact ih

theorem FirstAbove.get?_eq (h : index.IsStacked) {stops : Item → Prop} {id : ItemId} {found : Item}
    (hfirst : index.FirstAbove stops id found) : index.get? found.id = some found := by
  induction hfirst with
  | here hget _ => rw [id_of_get? h hget, hget]
  | above _ _ _ _ ih => exact ih

/-- The top of a parent chain is the first item without an owner. -/
theorem endsAt_iff_firstAbove {id : ItemId} {top : Item} :
    index.EndsAt id top ↔ index.FirstAbove (fun item => item.parent = none) id top := by
  constructor
  · intro hends
    induction hends with
    | here hget hroot => exact .here hget hroot
    | above hget hparent _ ih => exact .above hget (by simp [hparent]) hparent ih
  · intro hfirst
    induction hfirst with
    | here hget hroot => exact .here hget hroot
    | above hget _ hparent _ ih => exact .above hget hparent ih

/-! ## Ways up in two indices -/

section Related

variable {stops : Item → Prop} {related : Item → Item → Prop}
  (hitem : ∀ {id : ItemId} {item : Item}, a.get? id = some item →
    ∃ other, b.get? id = some other ∧ related item other)
  (hparent : ∀ {item other : Item}, related item other → other.parent = item.parent)
  (hstops : ∀ {item other : Item}, related item other → (stops other ↔ stops item))

include hitem hparent hstops in
/-- What is found on the way up in one index is found in another that has the items of the first with
the same owners. -/
theorem FirstAbove.exists_related {id : ItemId} {found : Item}
    (hfirst : a.FirstAbove stops id found) :
    ∃ other, related found other ∧ b.FirstAbove stops id other := by
  induction hfirst with
  | here hget hfound =>
    obtain ⟨other, hother, hrelated⟩ := hitem hget
    exact ⟨other, hrelated, .here hother ((hstops hrelated).2 hfound)⟩
  | above hget hgoes howner _ ih =>
    obtain ⟨found, hfound, hfirst⟩ := ih
    obtain ⟨other, hother, hrelated⟩ := hitem hget
    exact ⟨found, hfound, .above hother (fun hotherStops => hgoes ((hstops hrelated).1 hotherStops))
      ((hparent hrelated).trans howner) hfirst⟩

include hitem hparent hstops in
/-- From an item of the first index nothing else is found in the other one. -/
theorem FirstAbove.exists_related_of_contains (hknown : a.OwnersKnown) {id : ItemId} {other : Item}
    (hfirst : b.FirstAbove stops id other) (hid : a.contains id) :
    ∃ found, related found other ∧ a.FirstAbove stops id found := by
  induction hfirst with
  | here hget hfound =>
    obtain ⟨item, hitemGet⟩ := Option.isSome_iff_exists.1 hid
    obtain ⟨same, hsame, hrelated⟩ := hitem hitemGet
    obtain rfl := Option.some.inj (hget.symm.trans hsame)
    exact ⟨item, hrelated, .here hitemGet ((hstops hrelated).1 hfound)⟩
  | above hget hgoes howner _ ih =>
    obtain ⟨item, hitemGet⟩ := Option.isSome_iff_exists.1 hid
    obtain ⟨same, hsame, hrelated⟩ := hitem hitemGet
    obtain rfl := Option.some.inj (hget.symm.trans hsame)
    have hitemOwner := (hparent hrelated).symm.trans howner
    obtain ⟨found, hfound, hfirst⟩ := ih (hknown ⟨item, hitemGet, hitemOwner⟩)
    exact ⟨found, hfound, .above hitemGet (fun hitemStops => hgoes ((hstops hrelated).2 hitemStops))
      hitemOwner hfirst⟩

end Related

/-! ## Bounded walks -/

section Walks

variable {β : Type} {walk : Nat → ItemId → Option β}

/-- A walk that takes a number of steps at most: at every place it either ends, or it goes on from
another place with one step less, and then the place is an item. -/
structure IsWalk (index : Index) (walk : Nat → ItemId → Option β) : Prop where
  zero : ∀ id, walk 0 id = none
  succ : ∀ id, (∃ found, ∀ steps, walk (steps + 1) id = found) ∨
    index.contains id ∧ ∃ next, ∀ steps, walk (steps + 1) id = walk steps next

/-- What is found is found with more steps, too. -/
theorem IsWalk.mono (h : index.IsWalk walk) {steps more : Nat} {id : ItemId} {found : β}
    (hfound : walk steps id = some found) (hle : steps ≤ more) : walk more id = some found := by
  induction steps generalizing id more with
  | zero => simp [h.zero] at hfound
  | succ steps ih =>
    obtain ⟨more, rfl⟩ : ∃ n, more = n + 1 := ⟨more - 1, by omega⟩
    rcases h.succ id with ⟨ended, hended⟩ | ⟨-, next, hnext⟩
    · rw [hended] at hfound ⊢
      exact hfound
    · rw [hnext] at hfound ⊢
      exact ih hfound (by omega)

/-- The items that a walk passes before it finds something, the first one first: it takes a step for
each of them, and from each it takes fewer steps than from the one before. -/
theorem IsWalk.exists_path (h : index.IsWalk walk) {steps : Nat} {id : ItemId} {found : β}
    (hfound : walk steps id = some found) :
    ∃ path : List ItemId, walk (path.length + 1) id = some found ∧
      (∀ a ∈ path, index.contains a ∧
        ∃ fewer, fewer ≤ path.length + 1 ∧ walk fewer a = some found) ∧
      (∀ fewer ≤ path.length, walk fewer id = none) ∧ path.Nodup := by
  induction steps generalizing id with
  | zero => simp [h.zero] at hfound
  | succ steps ih =>
    rcases h.succ id with ⟨ended, hended⟩ | ⟨hin, next, hnext⟩
    · rw [hended] at hfound
      refine ⟨[], by rw [hended, hfound], by simp, fun fewer hfewer => ?_, List.nodup_nil⟩
      obtain rfl := Nat.le_zero.1 hfewer
      exact h.zero id
    · rw [hnext] at hfound
      obtain ⟨path, hpath, hall, hleast, hnodup⟩ := ih hfound
      refine ⟨id :: path, by rw [hnext, List.length_cons, hpath], ?_, ?_, ?_⟩
      · intro a ha
        rw [List.length_cons]
        rcases List.mem_cons.1 ha with rfl | ha
        · exact ⟨hin, path.length + 1 + 1, Nat.le_refl _, by rw [hnext, hpath]⟩
        · obtain ⟨hcontains, fewer, hle, hfewer⟩ := hall a ha
          exact ⟨hcontains, fewer, by omega, hfewer⟩
      · intro fewer hfewer
        cases fewer with
        | zero => exact h.zero id
        | succ fewer =>
          rw [hnext]
          exact hleast fewer (by simpa using hfewer)
      · -- `id` needs one step more than anything after it, so it does not occur again
        refine List.nodup_cons.2 ⟨fun hmem => ?_, hnodup⟩
        obtain ⟨-, fewer, hle, hfewer⟩ := hall id hmem
        cases fewer with
        | zero => simp [h.zero] at hfewer
        | succ fewer =>
          rw [hnext, hleast fewer (by omega)] at hfewer
          exact absurd hfewer (by simp)

/-- As many steps as there are items, and one more, are enough. -/
theorem IsWalk.within_size (h : index.IsWalk walk) (hstacked : index.IsStacked) {steps : Nat}
    {id : ItemId} {found : β} (hfound : walk steps id = some found) :
    walk (index.size + 1) id = some found := by
  obtain ⟨path, hpath, hall, -, hnodup⟩ := h.exists_path hfound
  refine h.mono hpath ?_
  have hsub : path ⊆ index.ids := fun a ha => (mem_ids_iff hstacked).2 (hall a ha).1
  have hlen : path.length ≤ index.ids.length := (List.subperm_of_subset hnodup hsub).length_le
  rw [length_ids] at hlen
  omega

end Walks

/-! ## To the top -/

theorem isWalk_rootWithin (index : Index) : index.IsWalk index.rootWithin where
  zero _ := rfl
  succ id := by
    cases hget : index.get? id with
    | none => exact .inl ⟨none, fun _ => by simp [rootWithin, hget]⟩
    | some item =>
      cases hparent : item.parent with
      | none => exact .inl ⟨some item, fun _ => by simp [rootWithin, hget, hparent]⟩
      | some parent =>
        exact .inr ⟨by rw [contains, hget]; rfl, parent,
          fun _ => by simp [rootWithin, hget, hparent]⟩

/-- What a bounded walk finds is the end of the chain. -/
theorem endsAt_of_rootWithin {steps : Nat} {id : ItemId} {top : Item}
    (h : index.rootWithin steps id = some top) : index.EndsAt id top := by
  induction steps generalizing id with
  | zero => simp [rootWithin] at h
  | succ steps ih =>
    rw [rootWithin] at h
    cases hget : index.get? id with
    | none => simp [hget] at h
    | some item =>
      simp only [hget] at h
      cases hparent : item.parent with
      | none =>
        simp only [hparent, Option.some.injEq] at h
        subst h
        exact .here hget hparent
      | some parent =>
        simp only [hparent] at h
        exact .above hget hparent (ih h)

/-- A walk that found the end finds it with more steps, too. -/
theorem rootWithin_mono {steps more : Nat} {id : ItemId} {top : Item}
    (h : index.rootWithin steps id = some top) (hle : steps ≤ more) :
    index.rootWithin more id = some top :=
  (isWalk_rootWithin index).mono h hle

/-- As many steps as there are items are enough for every chain that ends. -/
theorem rootWithin_size (h : index.IsStacked) {id : ItemId} {top : Item} :
    index.rootWithin (index.size + 1) id = some top ↔ index.EndsAt id top := by
  refine ⟨endsAt_of_rootWithin, fun hends => ?_⟩
  have hfound : ∃ steps, index.rootWithin steps id = some top := by
    induction hends with
    | here hget hroot => exact ⟨1, by simp [rootWithin, hget, hroot]⟩
    | above hget hparent _ ih =>
      obtain ⟨steps, hsteps⟩ := ih
      exact ⟨steps + 1, by simp [rootWithin, hget, hparent, hsteps]⟩
  obtain ⟨steps, hsteps⟩ := hfound
  exact (isWalk_rootWithin index).within_size h hsteps

/-- The test for third-party items decides the relation. -/
theorem ownedByThirdParty_iff (h : index.IsStacked) (id : ItemId) :
    index.ownedByThirdParty id = true ↔ index.OwnedByThirdParty id := by
  rw [ownedByThirdParty, OwnedByThirdParty]
  constructor
  · intro htrue
    split at htrue
    · rename_i top htop
      simp only [Bool.and_eq_true, beq_iff_eq] at htrue
      exact ⟨top, (rootWithin_size h).1 htop, htrue⟩
    · simp at htrue
  · rintro ⟨top, hends, hkind, hflag⟩
    rw [(rootWithin_size h).2 hends]
    simp [hkind, hflag]

/-! ## To the nearest project -/

theorem isWalk_ownerWithin (index : Index) (kind : ItemKind) :
    index.IsWalk (index.ownerWithin kind) where
  zero _ := rfl
  succ id := by
    cases hget : index.get? id with
    | none => exact .inl ⟨none, fun _ => by simp [ownerWithin, hget]⟩
    | some item =>
      by_cases hkind : item.kind = kind
      · exact .inl ⟨some id, fun _ => by simp [ownerWithin, hget, hkind]⟩
      · cases hparent : item.parent with
        | none => exact .inl ⟨none, fun _ => by simp [ownerWithin, hget, hkind, hparent]⟩
        | some parent =>
          exact .inr ⟨by rw [contains, hget]; rfl, parent,
            fun _ => by simp [ownerWithin, hget, hkind, hparent]⟩

/-- What a bounded walk finds is the first item of its kind. -/
theorem firstAbove_of_ownerWithin {kind : ItemKind} {steps : Nat} {id owner : ItemId}
    (h : index.ownerWithin kind steps id = some owner) :
    ∃ found, index.get? owner = some found ∧
      index.FirstAbove (fun item => item.kind = kind) id found := by
  induction steps generalizing id with
  | zero => simp [ownerWithin] at h
  | succ steps ih =>
    rw [ownerWithin] at h
    cases hget : index.get? id with
    | none => simp [hget] at h
    | some item =>
      simp only [hget] at h
      split at h
      · rename_i hkind
        obtain rfl := Option.some.inj h
        exact ⟨item, hget, .here hget hkind⟩
      · rename_i hkind
        obtain ⟨parent, hparent, hfound⟩ := Option.bind_eq_some_iff.1 h
        obtain ⟨found, hgetFound, hfirst⟩ := ih hfound
        exact ⟨found, hgetFound, .above hget hkind hparent hfirst⟩

/-- The first item of a kind is found in as many steps as there are items. -/
theorem ownerOfKind_of_firstAbove (h : index.IsStacked) {kind : ItemKind} {id : ItemId}
    {found : Item} (hfirst : index.FirstAbove (fun item => item.kind = kind) id found) :
    index.ownerOfKind kind id = some found.id := by
  have hfound : ∃ steps, index.ownerWithin kind steps id = some found.id := by
    induction hfirst with
    | here hget hkind => exact ⟨1, by simp [ownerWithin, hget, hkind, id_of_get? h hget]⟩
    | above hget hkind hparent _ ih =>
      obtain ⟨steps, hsteps⟩ := ih
      exact ⟨steps + 1, by simp [ownerWithin, hget, hkind, hparent, hsteps]⟩
  obtain ⟨steps, hsteps⟩ := hfound
  exact (isWalk_ownerWithin index kind).within_size h hsteps

/-- The project an item stands in is the first project on the way up. -/
theorem projectOf_bind_get?_eq_some_iff (h : index.IsStacked) {id : ItemId} {project : Item} :
    (index.projectOf id).bind index.get? = some project ↔
      index.FirstAbove (fun item => item.kind = .project) id project := by
  constructor
  · intro hproject
    obtain ⟨owner, howner, hget⟩ := Option.bind_eq_some_iff.1 hproject
    obtain ⟨found, hfound, hfirst⟩ := firstAbove_of_ownerWithin howner
    obtain rfl := Option.some.inj (hget.symm.trans hfound)
    exact hfirst
  · intro hfirst
    have howner : index.projectOf id = some project.id := ownerOfKind_of_firstAbove h hfirst
    rw [howner, Option.bind_some, hfirst.get?_eq h]

/-- The test for members of third-party projects decides the relation. -/
theorem inThirdParty_iff (h : index.IsStacked) (id : ItemId) :
    index.inThirdParty id = true ↔ index.InFlaggedProject id := by
  simp only [InFlaggedProject, ← projectOf_bind_get?_eq_some_iff h]
  rw [inThirdParty]
  cases (index.projectOf id).bind index.get? with
  | none => simp
  | some project => simp

/-- Where projects have no owner, the nearest project is the top of the chain. -/
theorem inFlaggedProject_iff_ownedByThirdParty
    (hroots : ∀ {id : ItemId} {item : Item}, index.get? id = some item → item.kind = .project →
      item.parent = none) (id : ItemId) :
    index.InFlaggedProject id ↔ index.OwnedByThirdParty id := by
  constructor
  · rintro ⟨project, hfirst, hflag⟩
    refine ⟨project, ?_, hfirst.stops, hflag⟩
    induction hfirst with
    | here hget hkind => exact .here hget (hroots hget hkind)
    | above hget _ hparent _ ih => exact .above hget hparent (ih hflag)
  · rintro ⟨top, hends, hkind, hflag⟩
    refine ⟨top, ?_, hflag⟩
    induction hends with
    | here hget _ => exact .here hget hkind
    | above hget hparent _ ih =>
      exact .above hget (fun hproject => by simp [hroots hget hproject] at hparent) hparent
        (ih hkind hflag)

end CodeAtlas.Index
