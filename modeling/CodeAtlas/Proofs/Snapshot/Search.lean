/-
# Searching through a snapshot

An index that was read from a snapshot lies in the index that was written, and nothing is lost: every
item has a new name.  So a query finds the same in both, whatever the layers of the written index.
-/
import CodeAtlas.Proofs.Load.Loaded
import CodeAtlas.Proofs.Query.Agreement
import CodeAtlas.Proofs.Snapshot.RoundTrip

namespace CodeAtlas

namespace Index

variable {generation : Nat} {index back : Index}

/-! ## Handles that are read back -/

/-- The handle under which an item is read back. -/
def readBack? (index : Index) (generation : Nat) (id : ItemId) : Option ItemId :=
  if index.contains id then some (id.inGeneration generation) else none

theorem readBack?_eq_some (generation : Nat) {id : ItemId} (h : index.contains id) :
    index.readBack? generation id = some (id.inGeneration generation) :=
  if_pos h

theorem contains_of_readBack? {id new : ItemId} (h : index.readBack? generation id = some new) :
    index.contains id ∧ new = id.inGeneration generation := by
  rw [readBack?] at h
  split at h
  · rename_i hin
    exact ⟨hin, (Option.some.inj h).symm⟩
  · simp at h

theorem isRenaming_readBack? (h : index.IsStacked) (generation : Nat) :
    IsRenaming (index.readBack? generation) := by
  intro a b new ha hb
  obtain ⟨hina, rfl⟩ := contains_of_readBack? ha
  obtain ⟨hinb, hraw⟩ := contains_of_readBack? hb
  exact eq_of_raw_eq h hina hinb (ItemId.mk.inj hraw).1

theorem forall₂_readBack? (generation : Nat) {ids : List ItemId} (h : index.Holds ids) :
    List.Forall₂ (Sends (index.readBack? generation)) ids (ids.map (ItemId.inGeneration generation)) := by
  rw [List.forall₂_map_right_iff, List.forall₂_same]
  exact fun id hid => readBack?_eq_some generation (h id hid)

theorem filterMap_readBack? (generation : Nat) {ids : List ItemId} (h : index.Holds ids) :
    ids.filterMap (index.readBack? generation) = ids.map (ItemId.inGeneration generation) :=
  (forall₂_sends_iff.1 (forall₂_readBack? generation h)).2.symm

theorem rel_readBack? (generation : Nat) {found found' : Option ItemId}
    (h : ∀ id ∈ found, index.contains id)
    (heq : found'.toList = found.toList.map (ItemId.inGeneration generation)) :
    Sends? (index.readBack? generation) found found' := by
  cases found with
  | none =>
    cases found' with
    | none => exact .none
    | some new => simp at heq
  | some id =>
    cases found' with
    | none => simp at heq
    | some new =>
      obtain rfl : new = id.inGeneration generation := by simpa using heq
      exact .some (readBack?_eq_some generation (h id rfl))

/-! ## The index that was read lies in the one that was written -/

/-- A copy has the owner and the types of its item. -/
theorem Sealed.isImage_sameAs (h : index.Sealed) {id : ItemId} {item copy : Item}
    (hget : index.get? id = some item) (hsame : item.SameAs generation copy) :
    item.IsImage (index.readBack? generation) copy := by
  have hitem : item ∈ index.items := by
    rw [mem_items_iff h.coherent.stacked, id_of_get? h.coherent.stacked hget, hget]
  have hheld : ∀ kind : RelKind, index.Holds (kind.targets item) := fun kind target htarget =>
    h.contains_target hitem htarget
  have hone : ∀ {found found' : Option ItemId} (kind : RelKind),
      kind.targets item = found.toList → kind.targets copy = found'.toList →
      Sends? (index.readBack? generation) found found' := by
    intro found found' kind hfound hfound'
    refine rel_readBack? generation (fun target htarget => hheld kind target ?_) ?_
    · rw [hfound]
      exact Option.mem_toList.2 htarget
    · rw [← hfound', ← hfound, hsame.targets_eq]
  refine ⟨hsame.name_eq, hsame.kind_eq, ?_, hone .superclass rfl rfl, ?_, hone .returnType rfl rfl,
    hone .fieldType rfl rfl, ?_⟩
  · rw [hsame.parent_eq]
    cases hparent : item.parent with
    | none => exact .none
    | some owner =>
      refine .some (readBack?_eq_some generation ?_)
      exact h.coherent.consistent.resolves id item hget owner (by simp_all)
  · have hinterfaces : copy.superinterfaces = _ := hsame.targets_eq .superinterface
    rw [hinterfaces]
    exact forall₂_readBack? generation (hheld .superinterface)
  · have hparams : copy.paramTypes = _ := hsame.targets_eq .paramType
    rw [hparams, List.length_map]
    rfl

theorem SameAs.exists_item (h : index.SameAs generation back) (hindex : index.IsStacked)
    (hback : back.IsStacked) {new : ItemId} {copy : Item} (hcopy : back.get? new = some copy) :
    ∃ id item, new = id.inGeneration generation ∧ index.get? id = some item ∧
      item.SameAs generation copy := by
  have hnew := mem_ids_of_get? hback hcopy
  rw [h.ids_eq, List.mem_map] at hnew
  obtain ⟨id, hid, rfl⟩ := hnew
  obtain ⟨item, hget⟩ := exists_get?_of_mem_ids hindex hid
  obtain ⟨other, hother, hsame⟩ := h.items id item hget
  obtain rfl := Option.some.inj (hcopy.symm.trans hother)
  exact ⟨id, item, rfl, hget, hsame⟩

/-- Items are in place and supertypes are items where they are in the index that was written. -/
theorem Sealed.walkable_sameAs (h : index.Sealed) (hsame : index.SameAs generation back)
    (hback : back.IsStacked) : back.Walkable where
  stacked := hback
  placed := by
    intro new copy hcopy
    obtain ⟨id, item, rfl, hget, hcopied⟩ := hsame.exists_item h.coherent.stacked hback hcopy
    have hplaced := h.coherent.owned.placed hget
    rw [Placed] at hplaced ⊢
    rw [hcopied.parent_eq, hcopied.kind_eq]
    cases hparent : item.parent with
    | none =>
      simp only [hparent] at hplaced
      exact hplaced
    | some owner =>
      simp only [hparent] at hplaced
      obtain ⟨ownerItem, howner, hcontain⟩ := hplaced
      obtain ⟨ownerCopy, hownerCopy, hownerCopied⟩ := hsame.items owner ownerItem howner
      exact ⟨ownerCopy, hownerCopy, by rw [hownerCopied.kind_eq]; exact hcontain⟩
  supertypes := by
    intro new target htarget
    rw [directSupertypes] at htarget
    split at htarget
    · rename_i copy hcopy
      obtain ⟨id, item, rfl, hget, hcopied⟩ := hsame.exists_item h.coherent.stacked hback hcopy
      have hsupertypes : copy.superclass.toList ++ copy.superinterfaces =
          (item.superclass.toList ++ item.superinterfaces).map (ItemId.inGeneration generation) := by
        rw [List.map_append]
        exact congrArg₂ (· ++ ·) (hcopied.targets_eq .superclass)
          (hcopied.targets_eq .superinterface)
      rw [hsupertypes, List.mem_map] at htarget
      obtain ⟨old, hold, rfl⟩ := htarget
      have hdirect : old ∈ index.directSupertypes id := by
        rw [directSupertypes, hget]
        exact hold
      rw [← mem_ids_iff hback, hsame.ids_eq]
      exact List.mem_map_of_mem
        ((mem_ids_iff h.coherent.stacked).2 (h.walkable.supertypes hdirect))
    · simp at htarget

theorem Coherent.holds_findAll (h : index.Coherent) (owner : Option ItemId) (name : String)
    (kind : ItemKind) : index.Holds (index.findAll owner name kind) := by
  intro id hid
  rw [h.registered.findAll_eq] at hid
  exact (mem_ids_iff h.stacked).1 (List.mem_filter.1 hid).1

theorem Coherent.holds_findByName (h : index.Coherent) (kind : ItemKind) (name : String) :
    index.Holds (index.findByName kind name) := by
  intro id hid
  rw [h.registered.findByName_eq] at hid
  exact (mem_ids_iff h.stacked).1 (List.mem_filter.1 hid).1

/-- An index that was read lies in the index that was written. -/
theorem Sealed.embeds_sameAs (h : index.Sealed) (hsame : index.SameAs generation back)
    (hback : back.IsStacked) (hbelow : back.below = []) :
    index.Embeds (index.readBack? generation) back where
  coherent := h.coherent
  source := h.walkable
  target := h.walkable_sameAs hsame hback
  injective := isRenaming_readBack? h.coherent.stacked generation
  image := by
    intro id new hnew
    obtain ⟨hin, rfl⟩ := contains_of_readBack? hnew
    obtain ⟨item, hget⟩ := Option.isSome_iff_exists.1 hin
    obtain ⟨copy, hcopy, hcopied⟩ := hsame.items id item hget
    exact ⟨item, copy, hget, hcopy, h.isImage_sameAs hget hcopied⟩
  findItem_eq := by
    intro owner new howner name kind hkind
    obtain ⟨hin, rfl⟩ : (∀ id ∈ owner, index.contains id) ∧
        new = owner.map (ItemId.inGeneration generation) := by
      cases howner with
      | none => exact ⟨by simp, rfl⟩
      | some hsends =>
        obtain ⟨hin, rfl⟩ := contains_of_readBack? hsends
        exact ⟨by simpa using hin, rfl⟩
    rw [findItem_eq_head? hbelow, hsame.findAll_eq owner name kind hin,
      h.coherent.registered.findItem_eq owner name kind hkind,
      ← h.coherent.registered.findAll_eq owner name kind, List.head?_map]
    cases hfirst : (index.findAll owner name kind).head? with
    | none => rfl
    | some id =>
      have hfound := h.coherent.holds_findAll owner name kind id (List.mem_of_mem_head? hfirst)
      exact (readBack?_eq_some generation hfound).symm
  findMethods_eq := by
    intro owner new hnew name
    obtain ⟨hin, rfl⟩ := contains_of_readBack? hnew
    rw [filterMap_readBack? generation (h.coherent.holds_findAll _ _ _)]
    exact hsame.findAll_eq (some owner) name .method (by simpa using hin)
  findPackages_eq := by
    intro name
    rw [filterMap_readBack? generation (h.coherent.holds_findByName _ _)]
    exact hsame.findByName_eq .package name

/-- A search finds the same in an index that was read back. -/
theorem Sealed.search_sameAs (h : index.Sealed) (hsame : index.SameAs generation back)
    (hback : back.IsStacked) (hbelow : back.below = []) (unit : Source.CompilationUnit)
    {project : Option ItemId} (hproject : ∀ id ∈ project, index.contains id) (query : Query) :
    CallContext.search ⟨back, ⟨unit, project.map (ItemId.inGeneration generation)⟩⟩ query =
      CallContext.search ⟨index, ⟨unit, project⟩⟩ query := by
  have hkept : ∀ {ids : List ItemId}, index.Holds ids → Kept (index.readBack? generation) ids :=
    fun hids id hid => Option.isSome_iff_exists.2 ⟨_, readBack?_eq_some generation (hids id hid)⟩
  have hreads := hkept (@CallContext.holds_queryReads ⟨index, ⟨unit, project⟩⟩ h.coherent query)
  have hembeds : CallContext.Embeds (index.readBack? generation) ⟨index, ⟨unit, project⟩⟩
      ⟨back, ⟨unit, project.map (ItemId.inGeneration generation)⟩⟩ := by
    refine ⟨h.embeds_sameAs hsame hback hbelow, rfl, ?_, (kept_append.1 hreads).1⟩
    cases project with
    | none => exact .none
    | some id => exact .some (readBack?_eq_some generation (hproject id rfl))
  exact hembeds.search_eq hreads

end Index

/-! ## Writing, reading and searching -/

namespace Snapshot

open Load Index

/-- A query finds the same nodes with the same captures in an index that a load produced and in the
index that its snapshot is read as, in every unit and for every project of the index. -/
theorem search_read_write {index : Index} (h : index.Loaded)
    (hnames : ∀ item ∈ index.items, '\n' ∉ item.name.toList)
    (hfew : index.relations.length ≤ Text.bound64) (generation : Nat) :
    ∃ parts, write index = .ok parts ∧ ∃ back, read generation (parts.map entryOf) = .ok back ∧
      ∀ (unit : Source.CompilationUnit) (project : Option ItemId) (query : Query),
        (∀ id ∈ project, index.contains id) →
        CallContext.search ⟨back, ⟨unit, project.map (ItemId.inGeneration generation)⟩⟩ query =
          CallContext.search ⟨index, ⟨unit, project⟩⟩ query := by
  have hsealed := h.isOrderly.toSealed
  obtain ⟨parts, hwrite, back, hread, hrestored⟩ :=
    exists_read_restored hsealed hnames hfew generation
  have hitems := sameItems_rebuildRegistry back
  refine ⟨parts, hwrite, back.rebuildRegistry, hread, fun unit project query hproject => ?_⟩
  exact hsealed.search_sameAs (hsealed.sameAs_restored hrestored)
    (hitems.isStacked hrestored.stacked) (hitems.below_eq.trans hrestored.below_eq) unit hproject
    query

/-- Searches of a workspace with an archive, through its snapshot. -/
theorem search_read_write_calling : ∃ outcome,
    loadWorkspace callingDisk callingTexts {} none 0 "ws" = .ok outcome ∧
      ∃ parts, write outcome.index = .ok parts ∧
        ∃ back, read 2 (parts.map entryOf) = .ok back ∧
          ∀ (unit : Source.CompilationUnit) (project : Option ItemId) (query : Query),
            (∀ id ∈ project, outcome.index.contains id) →
            CallContext.search ⟨back, ⟨unit, project.map (ItemId.inGeneration 2)⟩⟩ query =
              CallContext.search ⟨outcome.index, ⟨unit, project⟩⟩ query := by
  have hpatterns : LoadConfig.thirdPartyMatchers? {} = some [] := rfl
  obtain ⟨hseen, outcome, hload⟩ := @exists_loadWorkspace_of_runWithin callingDisk callingTexts {}
    none 0 30 "ws" [] (fun index => decide (index.size < 2 ^ 32 ∧
      (∀ item ∈ (index.prune 1).index.propagateThirdParty.2.items, '\n' ∉ item.name.toList) ∧
      (index.prune 1).index.propagateThirdParty.2.relations.length ≤ Text.bound64))
    (by decide +kernel) hpatterns (by decide +kernel)
  obtain ⟨hroom, hnames, hfew⟩ := of_decide_eq_true hseen
  obtain ⟨_, _, hindex⟩ := run_of_loadWorkspace_ok hpatterns hload
  have hloaded : outcome.index.Loaded := .load (by simp) (by simp) hpatterns hload hroom
  refine ⟨outcome, hload, search_read_write hloaded ?_ ?_ 2⟩
  · rw [hindex]
    exact hnames
  · rw [hindex]
    exact hfew

end Snapshot

end CodeAtlas
