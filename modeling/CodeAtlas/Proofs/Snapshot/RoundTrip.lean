/-
# Snapshots give the index back

Writing an index to a snapshot and reading the snapshot gives the index back: the same numbers, and
for every number the same item with the same links in the same order.  Only the generation of the
handles is a new one, and the layers of the index have become one.

Names must not hold line feeds, and the reader can count no further than the places of the parts,
which are 64-bit words.
-/
import CodeAtlas.Proofs.Index.WellFormed
import CodeAtlas.Proofs.Snapshot.Relations

namespace CodeAtlas

/-! ## What is the same -/

/-- The handle of the same number in another generation. -/
def ItemId.inGeneration (generation : Nat) (id : ItemId) : ItemId :=
  ⟨id.raw, generation⟩

/-- A copy of an item in an index of another generation. -/
structure Item.SameAs (generation : Nat) (item copy : Item) : Prop where
  name_eq : copy.name = item.name
  kind_eq : copy.kind = item.kind
  parent_eq : copy.parent = item.parent.map (ItemId.inGeneration generation)
  /-- Children, dependencies and all types, each kind in order. -/
  targets_eq : ∀ kind : RelKind,
    kind.targets copy = (kind.targets item).map (ItemId.inGeneration generation)
  incoming_iff : ∀ source, source ∈ copy.incoming.toList ↔
    source ∈ item.incoming.toList.map (ItemId.inGeneration generation)
  isBinary_eq : copy.isBinary = item.isBinary
  isThirdParty_eq : copy.isThirdParty = item.isThirdParty
  isProjectVisible_eq : copy.isProjectVisible = item.isProjectVisible
  isPseudo_eq : copy.isPseudo = item.isPseudo

/-- An index of another generation with the same items under the same numbers. -/
structure Index.SameAs (generation : Nat) (index back : Index) : Prop where
  ids_eq : back.ids = index.ids.map (ItemId.inGeneration generation)
  next_eq : back.nextRaw = index.nextRaw
  items : ∀ id item, index.get? id = some item →
    ∃ copy, back.get? (id.inGeneration generation) = some copy ∧ item.SameAs generation copy
  findAll_eq : ∀ (owner : Option ItemId) (name : String) (kind : ItemKind),
    (∀ id ∈ owner, index.contains id) →
    back.findAll (owner.map (ItemId.inGeneration generation)) name kind =
      (index.findAll owner name kind).map (ItemId.inGeneration generation)
  findByName_eq : ∀ (kind : ItemKind) (name : String), back.findByName kind name =
    (index.findByName kind name).map (ItemId.inGeneration generation)

/-- The flags of an item are read back. -/
theorem Item.ReadFrom.flag_ofItem_eq {generation : Nat} {relations : List Relation}
    {item copy : Item} (h : copy.ReadFrom generation (.ofItem item) relations)
    (entry : AttrKey × String) (hentry : entry ∈ snapshotFlags) :
    copy.attributes.flag entry.1 = item.attributes.flag entry.1 := by
  rw [Attributes.flag, h.flag_eq entry hentry]
  simp only [ItemLine.mem_keys_ofItem_iff hentry]
  cases item.attributes.flag entry.1 <;> rfl

namespace Index

variable {generation : Nat} {index back : Index}

/-! ## Reading all lines -/

/-- Numbers in increasing order that all lie below their count are the first ones. -/
theorem eq_range_of_sorted {numbers : List Nat} (hsorted : numbers.Pairwise (· < ·))
    (hbound : ∀ number ∈ numbers, number < numbers.length) :
    numbers = List.range numbers.length := by
  have hnodup : numbers.Nodup := hsorted.imp (fun hlt => Nat.ne_of_lt hlt)
  have hperm : numbers.Perm (List.range numbers.length) := by
    refine (hnodup.subperm (fun number hnumber => ?_)).perm_of_length_le (by simp)
    exact List.mem_range.2 (hbound number hnumber)
  refine hperm.eq_of_pairwise (fun a b _ _ hab hba => ?_) hsorted List.pairwise_lt_range
  exact absurd hab (Nat.lt_asymm hba)

/-- The items of a coherent index are numbered by their places. -/
theorem Coherent.raws_eq (h : index.Coherent) :
    index.items.map (fun item => item.id.raw.toNat) = List.range index.items.length := by
  have hids := map_id_items h.stacked
  have hraws : index.items.map (fun item => item.id.raw.toNat) =
      index.ids.map (fun id => id.raw.toNat) := by
    rw [← hids, List.map_map]
    rfl
  have hlength : index.items.length = (index.ids.map (fun id => id.raw.toNat)).length := by
    rw [List.length_map, ← hids, List.length_map]
  rw [hraws, hlength]
  refine eq_range_of_sorted ?_ ?_
  · rw [List.pairwise_map]
    exact (ids_pairwise h.stacked).imp (fun hlt => UInt32.lt_iff_toNat_lt.1 hlt)
  · intro number hnumber
    obtain ⟨id, hid, rfl⟩ := List.mem_map.1 hnumber
    rw [List.length_map, length_ids, ← h.counted.next_eq]
    exact UInt32.lt_iff_toNat_lt.1 (h.counted.numbered id hid)

/-- The items of a coherent index are counted one by one. -/
theorem Coherent.countsUp (h : index.Coherent) : index.CountsUp := by
  have hlength : index.items.length = index.nextRaw.toNat := by
    rw [h.counted.next_eq, ← length_ids, ← map_id_items h.stacked, List.length_map]
  have hraws := h.raws_eq
  rw [hlength] at hraws
  have hafter : ∀ {id : ItemId}, id.raw.toNat < index.nextRaw.toNat →
      (id.raw + 1).toNat = id.raw.toNat + 1 := by
    intro id hlt
    rw [UInt32.toNat_add]
    exact Nat.mod_eq_of_lt (Nat.lt_of_le_of_lt (Nat.succ_le_of_lt hlt) index.nextRaw.toNat_lt)
  constructor
  · intro id hid
    have hlt := UInt32.lt_iff_toNat_lt.1 (h.counted.numbered id ((mem_ids_iff h.stacked).2 hid))
    rw [UInt32.le_iff_toNat_le, hafter hlt]
    exact hlt
  · by_cases hzero : index.nextRaw.toNat = 0
    · exact Or.inl (UInt32.toNat_inj.1 hzero)
    · have hlast : index.nextRaw.toNat - 1 ∈
          index.items.map (fun item => item.id.raw.toNat) := by
        rw [hraws, List.mem_range]
        omega
      obtain ⟨item, hitem, hraw⟩ := List.mem_map.1 hlast
      refine Or.inr ⟨item.id, contains_of_mem_items h.stacked hitem, ?_⟩
      apply UInt32.toNat_inj.1
      rw [@hafter item.id (by omega)]
      omega

theorem pairwise_raws (h : index.IsStacked) :
    (index.items.map (fun item => item.id.raw)).Pairwise (· < ·) := by
  have hids : index.items.map (fun item => item.id.raw) = index.ids.map ItemId.raw := by
    rw [← map_id_items h, List.map_map]
    rfl
  rw [hids, List.pairwise_map]
  exact ids_pairwise h

theorem nodup_raws (h : index.IsStacked) :
    (index.items.map (fun item => item.id.raw)).Nodup :=
  (pairwise_raws h).imp UInt32.ne_of_lt

/-- Lines of items with different numbers are read. -/
theorem exists_restored_items {items : List Item}
    (hraws : (items.map (fun item => item.id.raw)).Nodup) (generation : Nat) :
    ∃ index, (items.map (fun item => (ItemLine.ofItem item).text)).foldlM ItemLine.insert
      (.empty generation) = .ok index ∧
        Restored generation (items.map ItemLine.ofItem) [] index := by
  rw [List.foldlM_map]
  refine exists_foldlM (fun done index => Restored generation (done.map ItemLine.ofItem) [] index)
    (fun done item rest index hitems hdone => ?_) (restored_empty generation)
  subst hitems
  rw [List.map_append, List.map_cons, List.nodup_append] at hraws
  have hnew : ∀ other ∈ done.map ItemLine.ofItem, other.raw ≠ item.id.raw := by
    intro other hother
    obtain ⟨old, hold, rfl⟩ := List.mem_map.1 hother
    exact hraws.2.2 _ (List.mem_map_of_mem hold) _ List.mem_cons_self
  rw [List.map_append]
  exact hdone.insert hnew

/-- The relations of an index are read back. -/
theorem Tied.exists_restored (h : index.Tied)
    (hrestored : Restored generation (index.items.map ItemLine.ofItem) [] back) :
    ∃ after, (index.relations.map Relation.line).foldlM Snapshot.readRelation back = .ok after ∧
      Restored generation (index.items.map ItemLine.ofItem) index.relations after := by
  rw [List.foldlM_map]
  refine exists_foldlM
    (fun done state => Restored generation (index.items.map ItemLine.ofItem) done state)
    (fun done relation rest state hrelations hdone => ?_) hrestored
  have hmem : relation ∈ index.relations := by
    rw [hrelations]
    simp
  have hline : ∀ {raw}, (∃ item ∈ index.items, item.id.raw = raw) →
      ∃ line ∈ index.items.map ItemLine.ofItem, line.raw = raw := by
    rintro _ ⟨item, hitem, rfl⟩
    exact ⟨_, List.mem_map_of_mem hitem, rfl⟩
  have hpairwise := h.pairwise_relations
  rw [hrelations, List.pairwise_append] at hpairwise
  have hchild : relation.kind = .child → ∀ source, ⟨source, relation.target, .child⟩ ∉ done :=
    fun hkind source hearlier =>
      hpairwise.2.2 _ hearlier relation List.mem_cons_self rfl hkind rfl
  rw [Snapshot.readRelation, Relation.ofLine_line]
  exact hdone.apply (hline (h.exists_ends hmem).1) (hline (h.exists_ends hmem).2) hchild
    (h.isLoop_eq_false hmem)

/-! ## The index that was read -/

/-- The relations that lead to an item, as handles of a generation. -/
theorem Tied.leads_iff (h : index.Tied) {item : Item} (hitem : item ∈ index.items)
    (kind : RelKind) (source : ItemId) :
    (source.generation = generation ∧ ⟨source.raw, item.id.raw, kind⟩ ∈ index.relations) ↔
      ∃ id, (∃ other, index.get? id = some other ∧ item.id ∈ kind.targets other) ∧
        id.inGeneration generation = source := by
  rw [h.mem_relations_iff_target hitem]
  constructor
  · rintro ⟨rfl, other, hother, hraw, htarget⟩
    refine ⟨other.id, ⟨other, (mem_items_iff h.stacked).1 hother, htarget⟩, ?_⟩
    rw [ItemId.inGeneration, hraw]
  · rintro ⟨id, ⟨other, hget, htarget⟩, rfl⟩
    obtain rfl := id_of_get? h.stacked hget
    exact ⟨rfl, other, (mem_items_iff h.stacked).2 hget, rfl, htarget⟩

/-- What is read from the lines of an item is the item again. -/
theorem Tied.sameAs_readFrom (h : index.Tied) {item copy : Item} (hitem : item ∈ index.items)
    (hread : copy.ReadFrom generation (.ofItem item) index.relations) :
    item.SameAs generation copy where
  name_eq := hread.name_eq
  kind_eq := hread.kind_eq
  parent_eq := by
    have hget := (mem_items_iff h.stacked).1 hitem
    refine Option.ext (fun owner => ?_)
    rw [hread.parent_iff]
    refine (h.leads_iff hitem .child owner).trans ?_
    rw [Option.map_eq_some_iff]
    refine exists_congr (fun id => and_congr_left (fun _ => ?_))
    have howns : index.HasParent item.id id ↔ index.Owns id item.id := h.parent_iff
    simp only [HasParent, Owns, hget, Option.some.injEq, exists_eq_left'] at howns
    rw [howns]
    simp only [RelKind.targets, Array.mem_toList_iff]
  targets_eq := by
    intro kind
    exact (hread.targets_eq kind).trans (h.gather_relations hitem kind generation)
  incoming_iff := by
    have hget := (mem_items_iff h.stacked).1 hitem
    intro source
    rw [hread.incoming_iff]
    refine (h.leads_iff hitem .dependency source).trans ?_
    rw [List.mem_map]
    refine exists_congr (fun id => and_congr_left (fun _ => ?_))
    have hneeds : index.DependsOn id item.id ↔ index.IsNeededBy item.id id :=
      h.depends_iff
    simp only [IsNeededBy, DependsOn, hget, Option.some.injEq, exists_eq_left'] at hneeds
    rw [Array.mem_toList_iff, ← hneeds]
    simp only [RelKind.targets, Array.mem_toList_iff]
  isBinary_eq := hread.flag_ofItem_eq (.binary, "binary") (by decide)
  isThirdParty_eq := hread.flag_ofItem_eq (.thirdParty, "third-party") (by decide)
  isProjectVisible_eq := hread.flag_ofItem_eq (.projectVisible, "project-visible") (by decide)
  isPseudo_eq := hread.flag_ofItem_eq (.pseudo, "pseudo") (by decide)

theorem Restored.ids_eq {relations : List Relation} (h : index.IsStacked)
    (hrestored : Restored generation (index.items.map ItemLine.ofItem) relations back) :
    back.ids = index.ids.map (ItemId.inGeneration generation) := by
  refine eq_of_sorted (ids_pairwise hrestored.stacked) ?_ (fun id => ?_)
  · rw [List.pairwise_map]
    exact ids_pairwise h
  · rw [mem_ids_iff hrestored.stacked, ← map_id_items h, List.map_map, List.mem_map]
    constructor
    · intro hid
      obtain ⟨line, hline, heq⟩ := hrestored.covers id hid
      obtain ⟨item, hitem, rfl⟩ := List.mem_map.1 hline
      exact ⟨item, hitem, heq.symm⟩
    · rintro ⟨item, hitem, rfl⟩
      exact hrestored.contains (List.mem_map_of_mem hitem)

/-- Owners are told apart by their numbers. -/
theorem map_inGeneration_inj (h : index.IsStacked) {owner other : Option ItemId}
    (howner : ∀ id ∈ owner, index.contains id) (hother : ∀ id ∈ other, index.contains id) :
    owner.map (ItemId.inGeneration generation) = other.map (ItemId.inGeneration generation) ↔
      owner = other := by
  refine ⟨fun heq => ?_, fun heq => heq ▸ rfl⟩
  cases owner with
  | none => cases other <;> simp_all
  | some id =>
    cases other with
    | none => simp at heq
    | some same =>
      rw [Option.map_some, Option.map_some, Option.some.injEq] at heq
      rw [eq_of_raw_eq h (howner id rfl) (hother same rfl) (ItemId.mk.inj heq).1]

/-- Two indices with the same numbers go on with the same number. -/
theorem CountsUp.nextRaw_le (h : index.CountsUp) (hback : back.CountsUp)
    (hraws : ∀ id, index.contains id → ∃ other, back.contains other ∧ other.raw = id.raw) :
    index.nextRaw ≤ back.nextRaw := by
  rcases h.reached with hzero | ⟨id, hid, heq⟩
  · rw [hzero]
    exact UInt32.zero_le
  · obtain ⟨other, hother, hraw⟩ := hraws id hid
    rw [heq, ← hraw]
    exact hback.above hother

/-- An index that a snapshot can keep. -/
structure Savable (index : Index) : Prop extends index.Tied where
  counts : index.CountsUp
  registered : index.Registered

theorem Sealed.savable (h : index.Sealed) : index.Savable :=
  ⟨h.tied, h.coherent.countsUp, h.coherent.registered⟩

/-- What was read from the lines of an index is the index again. -/
theorem Savable.sameAs_restored (h : index.Savable)
    (hrestored : Restored generation (index.items.map ItemLine.ofItem) index.relations back) :
    index.SameAs generation back.rebuildRegistry := by
  have hstacked := h.stacked
  have hsame := sameItems_rebuildRegistry back
  have hids := hrestored.ids_eq hstacked
  have hitems : ∀ id item, index.get? id = some item →
      ∃ copy, back.get? (id.inGeneration generation) = some copy ∧ item.SameAs generation copy := by
    intro id item hget
    obtain rfl := id_of_get? hstacked hget
    have hitem := (mem_items_iff hstacked).2 hget
    obtain ⟨copy, hcopy, hread⟩ := hrestored.holds _ (List.mem_map_of_mem hitem)
    exact ⟨copy, hcopy, h.sameAs_readFrom hitem hread⟩
  have hcontains : ∀ id, back.contains id ↔
      ∃ old, index.contains old ∧ old.inGeneration generation = id := by
    intro id
    rw [← mem_ids_iff hrestored.stacked, hids, List.mem_map]
    simp only [mem_ids_iff hstacked]
  refine ⟨hsame.ids_eq.trans hids, ?_, ?_, ?_, ?_⟩
  · show back.nextRaw = index.nextRaw
    refine UInt32.le_antisymm ?_ ?_
    · refine hrestored.counts.nextRaw_le h.counts (fun id hid => ?_)
      obtain ⟨old, hold, rfl⟩ := (hcontains id).1 hid
      exact ⟨old, hold, rfl⟩
    · refine h.counts.nextRaw_le hrestored.counts (fun id hid => ?_)
      exact ⟨_, (hcontains _).2 ⟨id, hid, rfl⟩, rfl⟩
  · intro id item hget
    rw [hsame.get?_eq]
    exact hitems id item hget
  · intro owner name kind howner
    rw [findAll_rebuildRegistry hrestored.stacked hrestored.below_eq,
      map_id_filter_items hrestored.stacked, hids, List.filter_map,
      h.registered.findAll_eq]
    refine congrArg (List.map _) (List.filter_congr (fun id hid => ?_))
    obtain ⟨item, hget⟩ := exists_get?_of_mem_ids hstacked hid
    obtain ⟨copy, hcopy, hcopied⟩ := hitems id item hget
    have hparent : ∀ id ∈ item.parent, index.contains id := by
      intro owner howner
      obtain ⟨ownerItem, hownerItem, _⟩ := h.parent_iff.1 ⟨item, hget, howner⟩
      rw [Index.contains, hownerItem]
      rfl
    rw [Function.comp_apply, hcopy, Option.any_some, bears, hget, Option.any_some,
      hcopied.parent_eq, hcopied.kind_eq, hcopied.name_eq]
    simp only [map_inGeneration_inj hstacked hparent howner, ItemKey.mk.injEq]
  · intro kind name
    rw [findByName_rebuildRegistry hrestored.stacked hrestored.below_eq,
      map_id_filter_items hrestored.stacked, hids, List.filter_map,
      h.registered.findByName_eq]
    refine congrArg (List.map _) (List.filter_congr (fun id hid => ?_))
    obtain ⟨item, hget⟩ := exists_get?_of_mem_ids hstacked hid
    obtain ⟨copy, hcopy, hcopied⟩ := hitems id item hget
    rw [Function.comp_apply, hcopy, Option.any_some, bearsName, hget, Option.any_some,
      hcopied.kind_eq, hcopied.name_eq]
    simp only [NameKey.mk.injEq]

theorem Sealed.sameAs_restored (h : index.Sealed)
    (hrestored : Restored generation (index.items.map ItemLine.ofItem) index.relations back) :
    index.SameAs generation back.rebuildRegistry :=
  h.savable.sameAs_restored hrestored

end Index

/-! ## Writing and reading -/

namespace Snapshot

open Index

/-- Numbers in increasing order have no descent. -/
theorem firstDescent_eq_none {raws : List UInt32} (h : raws.Pairwise (· < ·)) :
    firstDescent raws = none := by
  fun_induction firstDescent raws with
  | case1 last raw rest hle =>
    have hlt := (List.pairwise_cons.1 h).1 raw List.mem_cons_self
    exact absurd hle (UInt32.not_le.2 hlt)
  | case2 last raw rest hle ih => exact ih (List.pairwise_cons.1 h).2
  | case3 => rfl

theorem write_eq {index : Index} (h : index.IsStacked) : write index =
    .ok (parts "items" (index.items.map (fun item => (ItemLine.ofItem item).text)) ++
      parts "rels" (index.relations.map Relation.line)) := by
  simp only [write, firstDescent_eq_none (pairwise_raws h)]
  rfl

/-- There are no more items than numbers. -/
theorem length_items_le {index : Index} (h : index.IsStacked) :
    index.items.length ≤ Text.bound64 := by
  have hnodup := (nodup_raws h).map (f := UInt32.toNat) (fun _ _ heq => UInt32.toNat_inj.1 heq)
  have hbelow : (index.items.map (fun item => item.id.raw)).map UInt32.toNat ⊆
      List.range (2 ^ 32) := by
    intro number hnumber
    obtain ⟨raw, _, rfl⟩ := List.mem_map.1 hnumber
    exact List.mem_range.2 raw.toNat_lt
  have hle := (hnodup.subperm hbelow).length_le
  rw [List.length_map, List.length_map, List.length_range] at hle
  exact Nat.le_trans hle (by decide)

/-- The parts of a snapshot are read line by line. -/
theorem exists_read_of_savable {index : Index} (h : index.Savable)
    (hnames : ∀ item ∈ index.items, '\n' ∉ item.name.toList)
    (hfew : index.relations.length ≤ Text.bound64) (generation : Nat) :
    ∃ parts, write index = .ok parts ∧
      ∃ back, read generation (parts.map entryOf) = .ok back.rebuildRegistry ∧
        Restored generation (index.items.map ItemLine.ofItem) index.relations back := by
  obtain ⟨bare, hbare, hrestored⟩ := exists_restored_items (nodup_raws h.stacked) generation
  obtain ⟨back, hback, hall⟩ := h.exists_restored hrestored
  refine ⟨_, write_eq h.stacked, back, ?_, hall⟩
  have hitemLines : ∀ line ∈ index.items.map (fun item => (ItemLine.ofItem item).text),
      IsPartLine line := by
    intro line hline
    obtain ⟨item, hitem, rfl⟩ := List.mem_map.1 hline
    exact ItemLine.isPartLine_text (ItemLine.hasFlagWord_ofItem item) (hnames item hitem)
  have hrelationLines : ∀ line ∈ index.relations.map Relation.line, IsPartLine line := by
    intro line hline
    obtain ⟨relation, _, rfl⟩ := List.mem_map.1 hline
    exact relation.isPartLine_line
  rw [read_parts, readable_eq_self hitemLines, readable_eq_self hrelationLines, hbare]
  · show (do
      let index ← (index.relations.map Relation.line).foldlM readRelation bare
      return index.rebuildRegistry) = Except.ok back.rebuildRegistry
    rw [hback]
    rfl
  · rw [List.length_map]
    exact length_items_le h.stacked
  · rw [List.length_map]
    exact hfew

theorem exists_read_restored {index : Index} (h : index.Sealed)
    (hnames : ∀ item ∈ index.items, '\n' ∉ item.name.toList)
    (hfew : index.relations.length ≤ Text.bound64) (generation : Nat) :
    ∃ parts, write index = .ok parts ∧
      ∃ back, read generation (parts.map entryOf) = .ok back.rebuildRegistry ∧
        Restored generation (index.items.map ItemLine.ofItem) index.relations back :=
  exists_read_of_savable h.savable hnames hfew generation

/-- An index that was built by operations that record items of it, in any number of layers, is
written without error, and the parts that were written are read as the same index again. -/
theorem read_write {index : Index} (h : index.ClosedReachable) (hroom : index.size < 2 ^ 32)
    (hnames : ∀ item ∈ index.items, '\n' ∉ item.name.toList)
    (hfew : index.relations.length ≤ Text.bound64) (generation : Nat) :
    ∃ parts, write index = .ok parts ∧
      ∃ back, read generation (parts.map entryOf) = .ok back ∧ index.SameAs generation back := by
  have hsealed := h.isSealed hroom
  obtain ⟨parts, hwrite, back, hread, hrestored⟩ :=
    exists_read_restored hsealed hnames hfew generation
  exact ⟨parts, hwrite, back.rebuildRegistry, hread, hsealed.sameAs_restored hrestored⟩

/-- Two layers with a quoted name, a method that takes its own class twice, a superclass and a flag
across the layers, and a dependency. -/
def quotedApp : Index :=
  let base := [Operation.project "a\"p\\p", .package ⟨0, 1⟩ "p", .class ⟨1, 1⟩ "C"].foldl
    (fun index operation => (operation.run index).2) (empty 1)
  [Operation.class ⟨1, 1⟩ "D", .method ⟨3, 2⟩ "m" (some [⟨3, 2⟩, ⟨3, 2⟩]),
    .set ⟨2, 1⟩ (.one ⟨.superclass, AttrKey.holdsOne_superclass⟩ ⟨3, 2⟩),
    .set ⟨2, 1⟩ (.flag .pseudo true), .addDependency ⟨4, 2⟩ ⟨2, 1⟩].foldl
    (fun index operation => (operation.run index).2) (onBase 2 base)

theorem closedReachable_quotedApp : quotedApp.ClosedReachable :=
  ⟨1, (((((((((Relation.ReflTransGen.refl.tail (.operation (by decide +kernel))).tail
    (.operation (by decide +kernel))).tail (.operation (by decide +kernel))).tail
    (@ClosedStep.layer _ 2 (by decide +kernel))).tail (.operation (by decide +kernel))).tail
    (.operation (by decide +kernel))).tail (.operation (by decide +kernel))).tail
    (.operation (by decide +kernel))).tail (.operation (by decide +kernel)))⟩

theorem read_write_quotedApp :
    ∃ parts, write quotedApp = .ok parts ∧
      ∃ back, read 3 (parts.map entryOf) = .ok back ∧ quotedApp.SameAs 3 back :=
  read_write closedReachable_quotedApp (by decide +kernel) (by decide +kernel) (by decide +kernel) 3

end Snapshot

end CodeAtlas
