/-
# Copying what is kept

Pruning copies the kept items one after the other into an empty index, so that the copies get the
numbers from zero on in the order of the originals.
-/
import CodeAtlas.Proofs.Index.Changes
import CodeAtlas.Proofs.Prune.Retained
import Mathlib.Algebra.Group.Nat.Defs

namespace CodeAtlas

/-- The handle at a place of a numbering from zero. -/
def handleAt (generation place : Nat) : ItemId :=
  ⟨UInt32.ofNat place, generation⟩

theorem handleAt_inj {generation m n : Nat} (hm : m < 2 ^ 32) (hn : n < 2 ^ 32)
    (h : handleAt generation m = handleAt generation n) : m = n := by
  have hraw : UInt32.ofNat m = UInt32.ofNat n := congrArg ItemId.raw h
  have hnat := congrArg UInt32.toNat hraw
  rwa [UInt32.toNat_ofNat_of_lt' hm, UInt32.toNat_ofNat_of_lt' hn] at hnat

/-- With different keys, what is found under a key is what stands there. -/
theorem lookup_eq_some_iff {renamed : List (ItemId × ItemId)} (h : (renamed.map Prod.fst).Nodup)
    {old new : ItemId} : renamed.lookup old = some new ↔ (old, new) ∈ renamed := by
  induction renamed with
  | nil => simp
  | cons entry rest ih =>
    obtain ⟨key, value⟩ := entry
    rw [List.map_cons, List.nodup_cons] at h
    rw [List.lookup_cons, List.mem_cons]
    by_cases hkey : old = key
    · subst hkey
      simp only [beq_self_eq_true, Option.some.injEq, Prod.mk.injEq, true_and]
      constructor
      · exact fun heq => Or.inl heq.symm
      · rintro (heq | hmem)
        · exact heq.symm
        · exact absurd (List.mem_map_of_mem (f := Prod.fst) hmem) h.1
    · rw [(beq_eq_false_iff_ne).2 hkey, ih h.2]
      simp [hkey]

/-- A table of pairs with different keys finds what a search through the pairs finds. -/
theorem getElem?_ofList {renamed : List (ItemId × ItemId)} (h : (renamed.map Prod.fst).Nodup)
    (old : ItemId) : (Std.TreeMap.ofList renamed)[old]? = renamed.lookup old := by
  cases hlookup : renamed.lookup old with
  | none =>
    apply Std.TreeMap.getElem?_ofList_of_contains_eq_false
    rw [← Bool.not_eq_true, List.contains_iff_mem, List.mem_map]
    rintro ⟨⟨key, new⟩, hmem, rfl⟩
    rw [(lookup_eq_some_iff h).2 hmem] at hlookup
    exact absurd hlookup (by simp)
  | some new =>
    refine Std.TreeMap.getElem?_ofList_of_mem Std.ReflOrd.compare_self ?_
      ((lookup_eq_some_iff h).1 hlookup)
    rw [List.Nodup, List.pairwise_map] at h
    exact h.imp (fun hne heq => hne (Std.compare_eq_iff_eq.1 heq))

namespace Index

variable {index : Index}

/-- Numbers of 32 bits suffice for at most `2 ^ 32` items. -/
theorem length_ids_le (h : index.IsStacked) : index.ids.length ≤ 2 ^ 32 := by
  have hnodup : (index.ids.map (fun id => id.raw.toNat)).Nodup := by
    rw [List.Nodup, List.pairwise_map]
    refine (ids_pairwise h).imp ?_
    intro a b hlt heq
    exact absurd (UInt32.lt_iff_toNat_lt.1 hlt) (by omega)
  have hsub : index.ids.map (fun id => id.raw.toNat) ⊆ List.range (2 ^ 32) := by
    intro n hn
    obtain ⟨id, _, rfl⟩ := List.mem_map.1 hn
    exact List.mem_range.2 id.raw.toNat_lt
  have hlen := (List.subperm_of_subset hnodup hsub).length_le
  rwa [List.length_map, List.length_range] at hlen

/-! ## Adopting items -/

/-- An index of one layer that holds, from number zero on, copies of the items of `source` that
`renamed` lists. -/
structure HoldsCopies (target source : Index) (generation : Nat)
    (renamed : List (ItemId × ItemId)) : Prop where
  below_eq : target.below = []
  generation_eq : target.top.generation = generation
  firstRaw_eq : target.top.firstRaw = 0
  shadows_eq : target.top.shadows = ∅
  next_eq : target.top.source.next = UInt32.ofNat renamed.length
  items_eq : ∀ raw : UInt32, target.top.items[raw]? = (renamed[raw.toNat]?).bind fun entry =>
    (source.get? entry.1).map fun item => { item with id := entry.2 }
  numbered : ∀ {place : Nat} {entry : ItemId × ItemId}, renamed[place]? = some entry →
    entry.2 = handleAt generation place

theorem holdsCopies_empty (source : Index) (generation : Nat) :
    HoldsCopies (.empty generation) source generation [] where
  below_eq := rfl
  generation_eq := rfl
  firstRaw_eq := rfl
  shadows_eq := rfl
  next_eq := rfl
  items_eq raw := by simp [empty, Layer.startingAt]
  numbered h := by simp at h

variable {source target : Index} {generation : Nat} {renamed : List (ItemId × ItemId)}

/-- Adopting one more item gives it the next number. -/
theorem HoldsCopies.adopt (h : HoldsCopies target source generation renamed)
    (hroom : renamed.length < 2 ^ 32) {old : ItemId} {item : Item}
    (hget : source.get? old = some item) :
    (target.adopt item).1 = handleAt generation renamed.length ∧
      HoldsCopies (target.adopt item).2 source generation
        (renamed ++ [(old, handleAt generation renamed.length)]) := by
  have hnew : (target.adopt item).1 = handleAt generation renamed.length := by
    rw [handleAt, ← h.generation_eq, ← h.next_eq]
    rfl
  have hfits : target.allocate.2.Fits { item with id := (target.adopt item).1 }.id := by
    refine ⟨rfl, ?_⟩
    have hfirst : target.allocate.2.top.firstRaw = 0 := h.firstRaw_eq
    rw [hfirst]
    exact UInt32.zero_le
  have htop : (target.adopt item).2.top = { target.allocate.2.top with
      items := target.top.items.insert (target.adopt item).1.raw
        { item with id := (target.adopt item).1 }
      source := target.allocate.2.top.source.reserve (target.adopt item).1.raw } :=
    top_store hfits
  refine ⟨hnew, ?_⟩
  have hraw : (target.adopt item).1.raw = UInt32.ofNat renamed.length := by rw [hnew]; rfl
  refine ⟨h.below_eq, ?_, ?_, ?_, ?_, ?_, ?_⟩
  · rw [htop]
    exact h.generation_eq
  · rw [htop]
    exact h.firstRaw_eq
  · rw [htop]
    exact h.shadows_eq
  · -- both the draw and the reservation ask for the number after the last one
    rw [htop]
    have hdraw : target.allocate.2.top.source.next = target.top.source.next + 1 := rfl
    have hsucc : UInt32.ofNat (renamed.length + 1) = UInt32.ofNat renamed.length + 1 :=
      UInt32.ofNat_add ..
    rw [IdSource.reserve, hdraw, hraw, h.next_eq, List.length_append, List.length_singleton, hsucc]
    exact ite_self (UInt32.ofNat renamed.length + 1)
  · intro raw
    rw [htop]
    simp only [Std.TreeMap.getElem?_insert, Std.compare_eq_iff_eq, hraw, h.items_eq]
    by_cases hlast : UInt32.ofNat renamed.length = raw
    · rw [if_pos hlast, ← hlast, UInt32.toNat_ofNat_of_lt' hroom, List.getElem?_concat_length]
      simp [hget, hnew]
    · rw [if_neg hlast]
      have hne : raw.toNat ≠ renamed.length := fun heq => hlast (by rw [← heq, UInt32.ofNat_toNat])
      rcases Nat.lt_or_gt_of_ne hne with hlt | hgt
      · rw [List.getElem?_append_left hlt]
      · rw [List.getElem?_eq_none (by omega), List.getElem?_eq_none (by simp; omega)]
  · intro place entry hplace
    rcases Nat.lt_or_ge place renamed.length with hlt | hge
    · rw [List.getElem?_append_left hlt] at hplace
      exact h.numbered hplace
    · rw [List.getElem?_append_right hge] at hplace
      obtain ⟨rfl, hzero⟩ : entry = (old, handleAt generation renamed.length) ∧
          place - renamed.length = 0 := by
        cases hsub : place - renamed.length with
        | zero => simp_all
        | succ n => simp [hsub] at hplace
      have : place = renamed.length := by omega
      rw [this]

/-- Adopting a list of existing items lists them in order, behind what was there. -/
theorem HoldsCopies.adoptAll (h : HoldsCopies target source generation renamed) {ids : List ItemId}
    (hknown : ∀ id ∈ ids, source.contains id) (hroom : renamed.length + ids.length ≤ 2 ^ 32) :
    (source.adoptAll target ids).1.map Prod.fst = ids ∧
      HoldsCopies (source.adoptAll target ids).2 source generation
        (renamed ++ (source.adoptAll target ids).1) := by
  induction ids generalizing target renamed with
  | nil => exact ⟨rfl, by simpa [Index.adoptAll] using h⟩
  | cons id rest ih =>
    obtain ⟨item, hget⟩ := Option.isSome_iff_exists.1 (hknown id List.mem_cons_self)
    rw [List.length_cons] at hroom
    obtain ⟨hnew, hadopt⟩ := h.adopt (by omega) hget
    obtain ⟨hfst, hrest⟩ := ih hadopt (fun other hother => hknown other (List.mem_cons_of_mem _ hother))
      (by rw [List.length_append, List.length_singleton]; omega)
    have hpairs : (source.adoptAll target (id :: rest)).1 =
        (id, (target.adopt item).1) :: (source.adoptAll (target.adopt item).2 rest).1 := by
      simp [Index.adoptAll, hget]
    have htarget : (source.adoptAll target (id :: rest)).2 =
        (source.adoptAll (target.adopt item).2 rest).2 := by
      simp [Index.adoptAll, hget]
    rw [hpairs, htarget]
    refine ⟨by rw [List.map_cons, hfst], ?_⟩
    rw [hnew]
    simpa using hrest

/-! ## The copies of an index -/

/-- A handle names the copy of the item that was sent to it. -/
theorem HoldsCopies.get?_eq_some_iff (h : HoldsCopies target source generation renamed)
    (hroom : renamed.length ≤ 2 ^ 32) {new : ItemId} {copy : Item} :
    target.get? new = some copy ↔
      ∃ old item, (old, new) ∈ renamed ∧ source.get? old = some item ∧
        copy = { item with id := new } := by
  have hget : target.get? new =
      if new.generation = generation then target.top.items[new.raw]? else none := by
    rw [get?, layers, Layers.get?, h.generation_eq, h.shadows_eq, h.below_eq]
    simp [Layers.get?]
  rw [hget]
  constructor
  · intro hcopy
    split at hcopy
    · rename_i hgen
      rw [h.items_eq] at hcopy
      obtain ⟨⟨old, other⟩, hplace, hitem⟩ := Option.bind_eq_some_iff.1 hcopy
      obtain ⟨item, hold, heq⟩ := Option.map_eq_some_iff.1 hitem
      have hother : other = new := by
        have hnumber : other = handleAt generation new.raw.toNat := h.numbered hplace
        rw [hnumber, handleAt, UInt32.ofNat_toNat, ← hgen]
      subst hother
      exact ⟨old, item, List.mem_of_getElem? hplace, hold, heq.symm⟩
    · simp at hcopy
  · rintro ⟨old, item, hmem, hold, rfl⟩
    obtain ⟨place, hplace⟩ := List.mem_iff_getElem?.1 hmem
    have hlt : place < renamed.length := (List.getElem?_eq_some_iff.1 hplace).1
    have hnumber : new = handleAt generation place := h.numbered hplace
    have hraw : new.raw.toNat = place := by
      rw [hnumber]
      exact UInt32.toNat_ofNat_of_lt' (Nat.lt_of_lt_of_le hlt hroom)
    have hgen : new.generation = generation := by
      rw [hnumber]
      rfl
    rw [if_pos hgen, h.items_eq, hraw, hplace]
    simp [hold]

theorem HoldsCopies.isStacked (h : HoldsCopies target source generation renamed) :
    target.IsStacked := by
  have hlayers : target.layers = [target.top] := by rw [layers, h.below_eq]
  rw [IsStacked, hlayers]
  refine .cons ⟨?_, ?_⟩ ?_ ?_ .nil
  · intro raw item hitem
    rw [h.items_eq] at hitem
    obtain ⟨entry, hplace, hitem⟩ := Option.bind_eq_some_iff.1 hitem
    obtain ⟨old, _, rfl⟩ := Option.map_eq_some_iff.1 hitem
    show entry.2 = _
    rw [h.numbered hplace, handleAt, UInt32.ofNat_toNat, h.generation_eq]
  · intro raw item _
    rw [h.firstRaw_eq]
    exact UInt32.zero_le
  · intro id hid
    simp [Layers.ids] at hid
  · intro id item hitem
    rw [h.shadows_eq] at hitem
    simp at hitem

end Index

end CodeAtlas
