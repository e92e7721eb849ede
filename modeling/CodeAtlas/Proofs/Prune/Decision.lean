/-
# The decision of pruning

The items that pruning copies are the least set of items that obeys the rules of keeping.  They are
copied by increasing number, so that the table of new handles lists the old handles by increasing
number against the numbers from zero on.
-/
import CodeAtlas.Proofs.Prune.Copies
import Mathlib.Data.Set.Card

namespace CodeAtlas

/-- The new handle of an item that pruning kept. -/
def Pruned.rename? (pruned : Pruned) (old : ItemId) : Option ItemId :=
  pruned.renamed.lookup old

namespace Index

variable {index : Index}

/-! ## The handles that are kept -/

/-- The handles that pruning keeps, by increasing number. -/
def keptIds (index : Index) : List ItemId :=
  index.ids.filter index.retained.contains

theorem mem_keptIds (h : index.IsStacked) {id : ItemId} :
    id ∈ index.keptIds ↔ id ∈ index.retained := by
  rw [keptIds, List.mem_filter, Std.TreeSet.contains_iff_mem, and_iff_right_iff_imp, mem_ids_iff h]
  exact (retained_closed h).1 id

theorem keptIds_nodup (h : index.IsStacked) : index.keptIds.Nodup :=
  (ids_nodup h).filter _

/-- Before handles are sent through the table, the new index holds the kept items, which are listed
by increasing number. -/
theorem adoptAll_keptIds (h : index.IsStacked) (generation : Nat) :
    (index.prune generation).renamed.map Prod.fst = index.keptIds ∧
      HoldsCopies (index.adoptAll (.empty generation) index.keptIds).2 index generation
        (index.prune generation).renamed := by
  have hroom : ([] : List (ItemId × ItemId)).length + index.keptIds.length ≤ 2 ^ 32 := by
    have hle : index.keptIds.length ≤ index.ids.length := List.length_filter_le _ _
    have := length_ids_le h
    rw [List.length_nil]
    omega
  refine (holdsCopies_empty index generation).adoptAll (fun id hid => ?_) hroom
  exact (retained_closed h).1 id ((mem_keptIds h).1 hid)

theorem length_renamed_le (h : index.IsStacked) (generation : Nat) :
    (index.prune generation).renamed.length ≤ 2 ^ 32 := by
  have hfst := congrArg List.length (adoptAll_keptIds h generation).1
  have hle : index.keptIds.length ≤ index.ids.length := List.length_filter_le _ _
  have := length_ids_le h
  rw [List.length_map] at hfst
  omega

theorem renamed_fst_nodup (h : index.IsStacked) (generation : Nat) :
    ((index.prune generation).renamed.map Prod.fst).Nodup := by
  rw [(adoptAll_keptIds h generation).1]
  exact keptIds_nodup h

theorem rename?_eq_some_iff (h : index.IsStacked) {generation : Nat} {old new : ItemId} :
    (index.prune generation).rename? old = some new ↔
      (old, new) ∈ (index.prune generation).renamed :=
  lookup_eq_some_iff (renamed_fst_nodup h generation)

/-- The handle that stands at a place of the table is the handle of that place. -/
theorem renamed_snd_eq (h : index.IsStacked) (generation : Nat) :
    (index.prune generation).renamed.map Prod.snd =
      (List.range (index.prune generation).renamed.length).map (handleAt generation) := by
  apply List.ext_getElem?
  intro place
  rw [List.getElem?_map, List.getElem?_map]
  cases hplace : (index.prune generation).renamed[place]? with
  | none =>
    rw [List.getElem?_eq_none (by simpa using hplace)]
    rfl
  | some entry =>
    have hlt := (List.getElem?_eq_some_iff.1 hplace).1
    rw [List.getElem?_range hlt]
    exact congrArg some ((adoptAll_keptIds h generation).2.numbered hplace)

/-- The new handles have the numbers from zero on. -/
theorem renamed_raw_eq (h : index.IsStacked) (generation : Nat) :
    (index.prune generation).renamed.map (fun entry => entry.2.raw.toNat) =
      List.range (index.prune generation).renamed.length := by
  have hsnd := congrArg (List.map (fun id : ItemId => id.raw.toNat)) (renamed_snd_eq h generation)
  rw [List.map_map, List.map_map] at hsnd
  refine Eq.trans hsnd ?_
  refine (List.map_congr_left ?_).trans (List.map_id _)
  intro place hplace
  have hlt := List.mem_range.1 hplace
  exact UInt32.toNat_ofNat_of_lt' (Nat.lt_of_lt_of_le hlt (length_renamed_le h generation))

/-- Different items get different handles. -/
theorem rename?_inj (h : index.IsStacked) (generation : Nat) (a b new : ItemId)
    (ha : (index.prune generation).rename? a = some new)
    (hb : (index.prune generation).rename? b = some new) : a = b := by
  rw [rename?_eq_some_iff h] at ha hb
  obtain ⟨m, hm⟩ := List.mem_iff_getElem?.1 ha
  obtain ⟨n, hn⟩ := List.mem_iff_getElem?.1 hb
  have hcopies := (adoptAll_keptIds h generation).2
  have hroom := length_renamed_le h generation
  have hnumber_m : new = handleAt generation m := hcopies.numbered hm
  have hnumber_n : new = handleAt generation n := hcopies.numbered hn
  have hplace : m = n := by
    refine handleAt_inj ?_ ?_ (hnumber_m.symm.trans hnumber_n)
    · exact Nat.lt_of_lt_of_le (List.getElem?_eq_some_iff.1 hm).1 hroom
    · exact Nat.lt_of_lt_of_le (List.getElem?_eq_some_iff.1 hn).1 hroom
  rw [hplace, hn] at hm
  exact (congrArg Prod.fst (Option.some.inj hm)).symm

/-- An item has a new handle exactly when it is kept. -/
theorem isSome_rename?_iff (h : index.IsStacked) {generation : Nat} {old : ItemId} :
    ((index.prune generation).rename? old).isSome ↔ old ∈ index.retained := by
  rw [← mem_keptIds h, ← (adoptAll_keptIds h generation).1, List.mem_map, Option.isSome_iff_exists]
  constructor
  · rintro ⟨new, hnew⟩
    exact ⟨(old, new), (rename?_eq_some_iff h).1 hnew, rfl⟩
  · rintro ⟨⟨old, new⟩, hmem, rfl⟩
    exact ⟨new, (rename?_eq_some_iff h).2 hmem⟩

/-- Only existing items get a new handle. -/
theorem exists_get?_of_rename? (h : index.IsStacked) {generation : Nat} {old new : ItemId}
    (hnew : (index.prune generation).rename? old = some new) :
    ∃ item, index.get? old = some item := by
  have hkept := (isSome_rename?_iff h).1 (Option.isSome_iff_exists.2 ⟨new, hnew⟩)
  exact Option.isSome_iff_exists.1 ((retained_closed h).1 old hkept)

/-! ## The new index -/

/-- The new index in one line: the copies with their handles renamed, all of them registered. -/
theorem index_prune (h : index.IsStacked) (generation : Nat) :
    (index.prune generation).index =
      (((index.prune generation).renamed.map Prod.snd).foldl
        (fun copies id => copies.modify id
          (fun item => item.remap (index.prune generation).rename?))
        (index.adoptAll (.empty generation) index.keptIds).2).rebuildRegistry := by
  have hremap : (fun old => (Std.TreeMap.ofList (index.prune generation).renamed)[old]?) =
      (index.prune generation).rename? := by
    funext old
    exact getElem?_ofList (renamed_fst_nodup h generation) old
  rw [← hremap, List.foldl_map]
  rfl

theorem renamed_snd_nodup (h : index.IsStacked) (generation : Nat) :
    ((index.prune generation).renamed.map Prod.snd).Nodup := by
  have hnodup : ((index.prune generation).renamed.map
      (fun entry : ItemId × ItemId => entry.2.raw.toNat)).Nodup := by
    rw [renamed_raw_eq h]
    exact List.nodup_range
  refine List.Nodup.of_map (fun id : ItemId => id.raw.toNat) ?_
  rwa [List.map_map]

theorem isStacked_prune (h : index.IsStacked) (generation : Nat) :
    (index.prune generation).index.IsStacked := by
  rw [index_prune h]
  refine (sameItems_rebuildRegistry _).isStacked ?_
  exact isStacked_foldl_modify (adoptAll_keptIds h generation).2.isStacked _ (fun _ => rfl)

theorem below_prune (h : index.IsStacked) (generation : Nat) :
    (index.prune generation).index.below = [] := by
  rw [index_prune h, (sameItems_rebuildRegistry _).below_eq, below_foldl_modify]
  exact (adoptAll_keptIds h generation).2.below_eq

/-- The items of the new index are the renamed copies of the items that are kept. -/
theorem get?_prune_eq_some_iff (h : index.IsStacked) {generation : Nat} {new : ItemId}
    {copy : Item} :
    (index.prune generation).index.get? new = some copy ↔
      ∃ old item, (index.prune generation).rename? old = some new ∧ index.get? old = some item ∧
        copy = { item with id := new }.remap (index.prune generation).rename? := by
  have hcopies := (adoptAll_keptIds h generation).2
  have hroom := length_renamed_le h generation
  rw [index_prune h, (sameItems_rebuildRegistry _).get?_eq,
    get?_foldl_modify (renamed_snd_nodup h generation)]
  constructor
  · intro hcopy
    split at hcopy
    · obtain ⟨original, hget, rfl⟩ := Option.map_eq_some_iff.1 hcopy
      obtain ⟨old, item, hmem, hold, rfl⟩ := (hcopies.get?_eq_some_iff hroom).1 hget
      exact ⟨old, item, (rename?_eq_some_iff h).2 hmem, hold, rfl⟩
    · rename_i hout
      obtain ⟨old, item, hmem, _, _⟩ := (hcopies.get?_eq_some_iff hroom).1 hcopy
      exact absurd (List.mem_map_of_mem hmem) hout
  · rintro ⟨old, item, hnew, hold, rfl⟩
    have hmem := (rename?_eq_some_iff h).1 hnew
    have hcopy := (hcopies.get?_eq_some_iff hroom).2 ⟨old, item, hmem, hold, rfl⟩
    rw [if_pos (List.mem_map_of_mem hmem), hcopy]
    rfl

/-- The copy of one item that is kept. -/
theorem get?_prune_of_rename? (h : index.IsStacked) {generation : Nat} {old new : ItemId}
    {item : Item} (hnew : (index.prune generation).rename? old = some new)
    (hget : index.get? old = some item) :
    (index.prune generation).index.get? new =
      some ({ item with id := new }.remap (index.prune generation).rename?) :=
  (get?_prune_eq_some_iff h).2 ⟨old, item, hnew, hget, rfl⟩

theorem contains_prune_iff (h : index.IsStacked) {generation : Nat} {new : ItemId} :
    (index.prune generation).index.contains new ↔
      ∃ old, (index.prune generation).rename? old = some new := by
  rw [contains, Option.isSome_iff_exists]
  constructor
  · rintro ⟨copy, hcopy⟩
    obtain ⟨old, _, hnew, _, _⟩ := (get?_prune_eq_some_iff h).1 hcopy
    exact ⟨old, hnew⟩
  · rintro ⟨old, hnew⟩
    obtain ⟨item, hget⟩ := exists_get?_of_rename? h hnew
    exact ⟨_, get?_prune_of_rename? h hnew hget⟩

/-- The handles of the new index are the new handles of the kept items, in their order. -/
theorem ids_prune (h : index.IsStacked) (generation : Nat) :
    (index.prune generation).index.ids = (index.prune generation).renamed.map Prod.snd := by
  have hstacked := isStacked_prune h generation
  have hsorted : ((index.prune generation).renamed.map Prod.snd).Pairwise
      (fun a b => a.raw < b.raw) := by
    have hrange : ((index.prune generation).renamed.map
        (fun entry : ItemId × ItemId => entry.2.raw.toNat)).Pairwise (· < ·) := by
      rw [renamed_raw_eq h]
      exact List.pairwise_lt_range
    rw [List.pairwise_map] at hrange ⊢
    exact hrange.imp UInt32.lt_iff_toNat_lt.2
  refine eq_of_sorted (ids_pairwise hstacked) hsorted (fun new => ?_)
  rw [mem_ids_iff hstacked, contains_prune_iff h, List.mem_map]
  constructor
  · rintro ⟨old, hnew⟩
    exact ⟨(old, new), (rename?_eq_some_iff h).1 hnew, rfl⟩
  · rintro ⟨⟨old, new⟩, hmem, rfl⟩
    exact ⟨old, (rename?_eq_some_iff h).2 hmem⟩

/-! ## What pruning decides -/

/-- Pruning keeps the least set of items that has every item of a first-party project and obeys the
rules of keeping.  It goes through them by increasing number, gives the copies the numbers from zero
on, holds nothing but these copies and counts what is left behind. -/
theorem prune_keeps_least_closed (h : index.IsStacked) (generation : Nat) :
    IsLeast {kept : Set ItemId | index.IsClosed kept}
        {id | id ∈ (index.prune generation).renamed.map Prod.fst} ∧
      ((index.prune generation).renamed.map Prod.fst).Pairwise (fun a b => a.raw < b.raw) ∧
      (index.prune generation).renamed.map (fun entry => entry.2.raw.toNat) =
        List.range (index.prune generation).renamed.length ∧
      (index.prune generation).index.ids = (index.prune generation).renamed.map Prod.snd ∧
      (index.prune generation).removed +
        Set.ncard {id | id ∈ (index.prune generation).renamed.map Prod.fst} = index.size := by
  have hfst := (adoptAll_keptIds h generation).1
  refine ⟨?_, ?_, renamed_raw_eq h generation, ids_prune h generation, ?_⟩
  · have hset : {id | id ∈ (index.prune generation).renamed.map Prod.fst} =
        {id | id ∈ index.retained} := by
      ext id
      rw [hfst]
      exact mem_keptIds h
    rw [hset]
    exact isLeast_retained h
  · rw [hfst]
    exact (ids_pairwise h).filter _
  · have hcard : Set.ncard {id | id ∈ (index.prune generation).renamed.map Prod.fst} =
        (index.prune generation).renamed.length := by
      have hcoe : {id | id ∈ (index.prune generation).renamed.map Prod.fst} =
          (((index.prune generation).renamed.map Prod.fst).toFinset : Set ItemId) := by
        ext id
        simp
      rw [hcoe, Set.ncard_coe_finset, List.toFinset_card_of_nodup (renamed_fst_nodup h generation),
        List.length_map]
    have hle : (index.prune generation).renamed.length ≤ index.ids.length := by
      have hlen := congrArg List.length hfst
      rw [List.length_map] at hlen
      rw [hlen]
      exact List.length_filter_le _ _
    have hremoved : (index.prune generation).removed =
        index.ids.length - (index.prune generation).renamed.length := rfl
    rw [hcard, hremoved, ← length_ids]
    omega

/-- A project that uses one of two packages of a third-party project of the base. -/
def appOverLib : Index :=
  let lib := ((Item.fresh ⟨0, 0⟩ "lib" .project none).setFlag .thirdParty true)
  let base := (((empty 0).store lib).store (.fresh ⟨1, 0⟩ "util" .package (some ⟨0, 0⟩))).store
    (.fresh ⟨2, 0⟩ "spare" .package (some ⟨0, 0⟩))
  ((onBase 1 base).store
    { Item.fresh ⟨3, 1⟩ "app" .project none with dependencies := #[⟨1, 0⟩] }).modify ⟨1, 0⟩
      (fun item => { item with incoming := #[⟨3, 1⟩] })

theorem appOverLib_isStacked : appOverLib.IsStacked := by
  refine isStacked_modify (isStacked_store (isStacked_onBase ?_ ?_) ?_) _ (fun _ => rfl)
  · refine isStacked_store (isStacked_store (isStacked_store (isStacked_empty 0) ?_) ?_) ?_
    all_goals exact ⟨rfl, by decide⟩
  · decide
  · exact ⟨rfl, by decide⟩

theorem prune_appOverLib :
    appOverLib.IsStacked ∧
      IsLeast {kept : Set ItemId | appOverLib.IsClosed kept}
        {id | id ∈ (appOverLib.prune 2).renamed.map Prod.fst} ∧
      (appOverLib.prune 2).renamed =
        [(⟨0, 0⟩, ⟨0, 2⟩), (⟨1, 0⟩, ⟨1, 2⟩), (⟨3, 1⟩, ⟨2, 2⟩)] ∧
      (appOverLib.prune 2).removed = 1 :=
  ⟨appOverLib_isStacked, (prune_keeps_least_closed appOverLib_isStacked 2).1, by decide +kernel,
    by decide +kernel⟩

end Index

end CodeAtlas
