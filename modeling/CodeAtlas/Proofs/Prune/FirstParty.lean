/-
# First-party projects in the end of a load

After its tasks have run, a load drops third-party items and flags the members of third-party
projects.  A project without flags goes through both with all its classes, and no project loses a flag.
-/
import CodeAtlas.Proofs.Index.Factory
import CodeAtlas.Proofs.Prune.Faithful

namespace CodeAtlas.Index

variable {index : Index} {generation : Nat}

/-! ## Projects and their flags -/

/-- The handle of a project with a given name and given flags. -/
def IsProject (index : Index) (id : ItemId) (name : String) (isThirdParty isPseudo : Bool) : Prop :=
  ∃ item, index.get? id = some item ∧ item.kind = .project ∧ item.name = name ∧
    item.isThirdParty = isThirdParty ∧ item.isPseudo = isPseudo

/-- There is at most one project of a name. -/
theorem Sound.isProject_unique (h : index.Sound) {id other : ItemId} {name : String}
    {isThirdParty isThirdParty' isPseudo isPseudo' : Bool}
    (hid : index.IsProject id name isThirdParty isPseudo)
    (hother : index.IsProject other name isThirdParty' isPseudo') :
    id = other ∧ isThirdParty = isThirdParty' ∧ isPseudo = isPseudo' := by
  obtain ⟨item, hget, hkind, hname, hthird, hpseudo⟩ := hid
  obtain ⟨item', hget', hkind', hname', hthird', hpseudo'⟩ := hother
  have hfound := h.project_found hget hkind
  rw [hname, ← hname', h.project_found hget' hkind'] at hfound
  obtain rfl := Option.some.inj hfound
  obtain rfl := Option.some.inj (hget.symm.trans hget')
  exact ⟨rfl, hthird.symm.trans hthird', hpseudo.symm.trans hpseudo'⟩

theorem Extends.isProject {a b : Index} (h : a.Extends b) {id : ItemId} {name : String}
    {isThirdParty isPseudo : Bool} (hid : a.IsProject id name isThirdParty isPseudo) :
    b.IsProject id name isThirdParty isPseudo := by
  obtain ⟨item, hget, hkind, hname, hthird, hpseudo⟩ := hid
  obtain ⟨later, hlater, hname', hkind', _, hflags⟩ := h.keeps hget
  obtain ⟨hthird', hpseudo'⟩ := hflags hkind
  exact ⟨later, hlater, hkind'.trans hkind, hname'.trans hname, hthird'.trans hthird,
    hpseudo'.trans hpseudo⟩

/-- The second index has a project for each one without flags in the first, with all its classes.
Every project of the second has the name and the flags of one of the first. -/
structure Carries (a b : Index) : Prop where
  keeps : ∀ {id : ItemId} {name : String}, a.IsProject id name false false →
    ∃ new, b.IsProject new name false false ∧
      ∀ package cls, a.HoldsClass id package cls → b.HoldsClass new package cls
  stems : ∀ {id : ItemId} {name : String} {isThirdParty isPseudo : Bool},
    b.IsProject id name isThirdParty isPseudo → ∃ old, a.IsProject old name isThirdParty isPseudo

theorem Carries.trans {a b c : Index} (hab : Carries a b) (hbc : Carries b c) : Carries a c where
  keeps hfirst := by
    obtain ⟨middle, hmiddle, hclasses⟩ := hab.keeps hfirst
    obtain ⟨new, hnew, hclasses'⟩ := hbc.keeps hmiddle
    exact ⟨new, hnew, fun package cls hcls => hclasses' package cls (hclasses package cls hcls)⟩
  stems hstem := by
    obtain ⟨middle, hmiddle⟩ := hbc.stems hstem
    exact hab.stems hmiddle

/-! ## Pruning -/

theorem EndsAt.unique (h : index.IsStacked) {id : ItemId} {top other : Item}
    (htop : index.EndsAt id top) (hother : index.EndsAt id other) : top = other := by
  have hfound := (rootWithin_size h).2 htop
  rw [(rootWithin_size h).2 hother] at hfound
  exact (Option.some.inj hfound).symm

/-- A project has no owner. -/
theorem Placed.parent_eq_none {item : Item} (h : index.Placed item) (hkind : item.kind = .project) :
    item.parent = none := by
  rw [Placed] at h
  split at h
  · rename_i hparent
    exact hparent
  · obtain ⟨owner, _, hcan⟩ := h
    rw [hkind] at hcan
    cases howner : owner.kind <;> simp [howner, ItemKind.canContain] at hcan

/-- What ends at a project without flags is kept. -/
theorem retained_of_endsAt (h : index.IsStacked) {id : ItemId} {top : Item}
    (hends : index.EndsAt id top) (hflag : top.isThirdParty = false) : id ∈ index.retained := by
  have hin : index.contains id := by
    cases hends with
    | here hget _ => exact Option.isSome_iff_exists.2 ⟨_, hget⟩
    | above hget _ _ => exact Option.isSome_iff_exists.2 ⟨_, hget⟩
  refine (isLeast_retained h).1.first_party hin ?_
  rintro ⟨other, hother, _, hthird⟩
  rw [← hends.unique h hother, hflag] at hthird
  simp at hthird

theorem exists_rename? (h : index.Sound) (generation : Nat) {id : ItemId} {item top : Item}
    (hget : index.get? id = some item) (hends : index.EndsAt id top)
    (hflag : top.isThirdParty = false) :
    ∃ new, (index.prune generation).rename? id = some new ∧
      (index.prune generation).index.get? new =
        some ({ item with id := new }.remap (index.prune generation).rename?) := by
  obtain ⟨new, hnew⟩ := Option.isSome_iff_exists.1
    ((isSome_rename?_iff h.stacked).2 (retained_of_endsAt h.stacked hends hflag))
  exact ⟨new, hnew, get?_prune_of_rename? h.stacked hnew hget⟩

/-- Pruning carries the projects without flags over. -/
theorem carries_prune (h : index.Sound) (generation : Nat) :
    Carries index (index.prune generation).index := by
  refine ⟨?_, ?_⟩
  · rintro id name ⟨item, hget, hkind, hname, hthird, hpseudo⟩
    have hends : index.EndsAt id item := .here hget ((h.placed hget).parent_eq_none hkind)
    obtain ⟨new, hnew, hcopy⟩ := exists_rename? h generation hget hends hthird
    refine ⟨new, ⟨_, hcopy, hkind, hname, ?_, ?_⟩, ?_⟩
    · exact (Attributes.flag_remap item.attributes _ _).trans hthird
    · exact (Attributes.flag_remap item.attributes _ _).trans hpseudo
    · rintro package cls ⟨owner, inner, ⟨ownerItem, howner, hownerParent, hownerKind, hownerName⟩,
        innerItem, hinner, hinnerParent, hinnerKind, hinnerName⟩
      have hownerEnds : index.EndsAt owner item := .above howner hownerParent hends
      have hinnerEnds : index.EndsAt inner item := .above hinner hinnerParent hownerEnds
      obtain ⟨newOwner, hnewOwner, hcopyOwner⟩ :=
        exists_rename? h generation howner hownerEnds hthird
      obtain ⟨newInner, _, hcopyInner⟩ := exists_rename? h generation hinner hinnerEnds hthird
      refine ⟨newOwner, newInner, ⟨_, hcopyOwner, ?_, hownerKind, hownerName⟩,
        _, hcopyInner, ?_, hinnerKind, hinnerName⟩
      · show ownerItem.parent.bind _ = some new
        rw [hownerParent, Option.bind_some, hnew]
      · show innerItem.parent.bind _ = some newOwner
        rw [hinnerParent, Option.bind_some, hnewOwner]
  · rintro id name isThirdParty isPseudo ⟨copy, hcopy, hkind, hname, hthird, hpseudo⟩
    obtain ⟨old, item, _, hold, rfl⟩ := (get?_prune_eq_some_iff h.stacked).1 hcopy
    refine ⟨old, item, hold, hkind, hname, ?_, ?_⟩
    · exact (Attributes.flag_remap item.attributes _ _).symm.trans hthird
    · exact (Attributes.flag_remap item.attributes _ _).symm.trans hpseudo

/-! ## Flagging the members of third-party projects -/

theorem get?_propagateThirdParty (h : index.IsStacked) (id : ItemId) :
    index.propagateThirdParty.2.get? id =
      if id ∈ index.unflagged then
        (index.get? id).map (fun item => item.setFlag .thirdParty true)
      else index.get? id := by
  have hnodup : index.unflagged.Nodup := by
    have hall := ids_nodup h
    rw [← map_id_items h] at hall
    exact hall.sublist (List.Sublist.map _ List.filter_sublist)
  exact get?_foldl_modify hnodup index _ id

/-- No project is among the items that get flagged. -/
theorem not_mem_unflagged_of_project (h : index.IsStacked) {id : ItemId} {item : Item}
    (hget : index.get? id = some item) (hkind : item.kind = .project) : id ∉ index.unflagged := by
  intro hmem
  obtain ⟨found, hfound, rfl⟩ := List.mem_map.1 hmem
  obtain ⟨hitem, hin⟩ := List.mem_filter.1 hfound
  obtain rfl : found = item := Option.some.inj (((mem_items_iff h).1 hitem).symm.trans hget)
  have hproject : index.projectOf found.id = some found.id := by
    rw [projectOf, ownerOfKind, ownerWithin, hget]
    simp [hkind]
  simp [inThirdParty, hproject, hget] at hin

theorem Has.propagate (h : index.IsStacked) {id : ItemId} {parent : Option ItemId}
    {kind : ItemKind} {name : String} (hhas : index.Has id parent kind name) :
    index.propagateThirdParty.2.Has id parent kind name := by
  obtain ⟨item, hget, hparent, hkind, hname⟩ := hhas
  rw [Has, get?_propagateThirdParty h]
  split
  · exact ⟨item.setFlag .thirdParty true, by rw [hget]; rfl, hparent, hkind, hname⟩
  · exact ⟨item, hget, hparent, hkind, hname⟩

theorem isProject_propagateThirdParty_iff (h : index.IsStacked) {id : ItemId} {name : String}
    {isThirdParty isPseudo : Bool} :
    index.propagateThirdParty.2.IsProject id name isThirdParty isPseudo ↔
      index.IsProject id name isThirdParty isPseudo := by
  rw [IsProject, IsProject, get?_propagateThirdParty h]
  constructor
  · rintro ⟨item, hget, hkind, hrest⟩
    split at hget
    · rename_i hmem
      obtain ⟨before, hbefore, rfl⟩ := Option.map_eq_some_iff.1 hget
      exact absurd hmem (not_mem_unflagged_of_project h hbefore hkind)
    · exact ⟨item, hget, hkind, hrest⟩
  · rintro ⟨item, hget, hkind, hrest⟩
    rw [if_neg (not_mem_unflagged_of_project h hget hkind)]
    exact ⟨item, hget, hkind, hrest⟩

/-- Flagging members carries the projects without flags over. -/
theorem carries_propagateThirdParty (h : index.IsStacked) :
    Carries index index.propagateThirdParty.2 := by
  refine ⟨?_, ?_⟩
  · intro id name hfirst
    refine ⟨id, (isProject_propagateThirdParty_iff h).2 hfirst, ?_⟩
    rintro package cls ⟨owner, inner, howner, hinner⟩
    exact ⟨owner, inner, howner.propagate h, hinner.propagate h⟩
  · intro id name isThirdParty isPseudo hproject
    exact ⟨id, (isProject_propagateThirdParty_iff h).1 hproject⟩

end CodeAtlas.Index
