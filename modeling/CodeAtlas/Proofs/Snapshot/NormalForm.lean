/-
# Snapshots in normal form

A snapshot may say the same in many ways: in another order of lines, with blanks, blank lines,
repeated links and flags, and in any parts.  Reading it and writing it again gives a snapshot that
stays as it is when it is read and written once more, and the index stays the same.  Only the order
in which an item lists what depends on it may change, for that is the order of the lines.
-/
import CodeAtlas.Proofs.Index.Relabel
import CodeAtlas.Proofs.Snapshot.Reading
import Mathlib.Data.List.Count

namespace CodeAtlas

variable {generation : Nat}

/-! ## What is written is part of what was read -/

namespace RelKind

theorem gather_sublist (kind : RelKind) (targets : List ItemId) :
    (kind.gather targets).Sublist targets := by
  induction targets using List.reverseRecOn with
  | nil => exact .slnil
  | append_singleton targets target ih =>
    rw [gather_concat, taking]
    split
    · exact List.sublist_append_right targets [target]
    · split
      · exact ih.trans (List.sublist_append_left targets [target])
      · exact ih.append (List.Sublist.refl [target])

theorem slot_map (kind : RelKind) (f : ItemId → ItemId) (targets : List ItemId) :
    kind.slot (targets.map f) = (kind.slot targets).map (AttrValue.map f) := by
  cases targets with
  | nil => rfl
  | cons first rest =>
    rw [List.map_cons, slot, slot, Option.map_some]
    split <;> simp [AttrValue.map]

end RelKind

namespace Index

variable {index : Index} {lines : List ItemLine} {relations : List Relation}

/-- An index that was read has no more relations than were read. -/
theorem Restored.subperm_relations (h : Restored generation lines relations index) :
    index.relations.Subperm relations := by
  rw [List.subperm_ext_iff]
  intro relation hrelation
  obtain ⟨item, hitem, hsource, _⟩ := mem_relations_iff.1 hrelation
  obtain ⟨line, _, hid, hread⟩ := h.exists_line ((mem_items_iff h.stacked).1 hitem)
  have hraw : line.raw = relation.source := by rw [← hsource, hid]
  -- only the relations of the same source and kind count
  have hcount : ∀ list : List Relation, list.count relation = (list.filter (fun other =>
      other.source = item.id.raw ∧ other.kind = relation.kind)).count relation := fun list =>
    (List.count_filter (by simp [hsource])).symm
  have htargets : (relation.kind.targets item).map
      (fun target => (⟨item.id.raw, target.raw, relation.kind⟩ : Relation)) =
        (relation.kind.gather ((relations.filter (fun other =>
          other.source = item.id.raw ∧ other.kind = relation.kind)).map
            (fun other => ⟨other.target, generation⟩))).map
              (fun target => ⟨item.id.raw, target.raw, relation.kind⟩) := by
    rw [hread.targets_eq, hraw, hsource]
  have hback : ((relations.filter (fun other =>
      other.source = item.id.raw ∧ other.kind = relation.kind)).map
        (fun other => (⟨other.target, generation⟩ : ItemId))).map
          (fun target => (⟨item.id.raw, target.raw, relation.kind⟩ : Relation)) =
      relations.filter (fun other =>
        other.source = item.id.raw ∧ other.kind = relation.kind) := by
    rw [List.map_map]
    refine (List.map_congr_left (fun other hother => ?_)).trans (List.map_id' _)
    rw [List.mem_filter, decide_eq_true_iff] at hother
    obtain ⟨source, target, kind⟩ := other
    obtain ⟨_, rfl, rfl⟩ := hother
    rfl
  rw [hcount, hcount relations, filter_relations h.stacked hitem, htargets]
  refine Nat.le_trans (((RelKind.gather_sublist _ _).map _).count_le relation) ?_
  rw [hback]

end Index

/-! ## The same item again -/

/-- A copy of an item in an index of another generation that differs at most in the order of what
depends on it. -/
structure Item.Restates (generation : Nat) (item copy : Item) : Prop where
  eq_apart : { copy with incoming := #[] } =
    { item.map (ItemId.inGeneration generation) with incoming := #[] }
  incoming_perm : copy.incoming.toList.Perm
    (item.incoming.toList.map (ItemId.inGeneration generation))

/-- Every attribute is kept by a kind of relation or as a flag. -/
theorem AttrKey.exists_kind_or_flag (key : AttrKey) :
    (∃ kind : RelKind, kind.key? = some key) ∨ ∃ entry ∈ snapshotFlags, entry.1 = key := by
  cases key with
  | superclass => exact Or.inl ⟨.superclass, rfl⟩
  | superinterfaces => exact Or.inl ⟨.superinterface, rfl⟩
  | returnType => exact Or.inl ⟨.returnType, rfl⟩
  | paramTypes => exact Or.inl ⟨.paramType, rfl⟩
  | fieldType => exact Or.inl ⟨.fieldType, rfl⟩
  | thrownTypes => exact Or.inl ⟨.throws, rfl⟩
  | innerClasses => exact Or.inl ⟨.innerClass, rfl⟩
  | outerClass => exact Or.inl ⟨.outerClass, rfl⟩
  | arrayBase => exact Or.inl ⟨.arrayBase, rfl⟩
  | binary => exact Or.inr ⟨(.binary, "binary"), by decide, rfl⟩
  | thirdParty => exact Or.inr ⟨(.thirdParty, "third-party"), by decide, rfl⟩
  | projectVisible => exact Or.inr ⟨(.projectVisible, "project-visible"), by decide, rfl⟩
  | pseudo => exact Or.inr ⟨(.pseudo, "pseudo"), by decide, rfl⟩

/-- An item that was read has the attributes that its copy is read to have. -/
theorem Item.ReadFrom.attributes_eq {next : Nat} {line : ItemLine} {first second : List Relation}
    {item copy : Item} (h : item.ReadFrom generation line first)
    (hcopy : copy.ReadFrom next (.ofItem item) second) (hsame : item.SameAs next copy) :
    copy.attributes = item.attributes.map (ItemId.inGeneration next) := by
  refine Attributes.eq_of_get? (fun key => ?_)
  rw [Attributes.get?_map]
  rcases key.exists_kind_or_flag with ⟨kind, hkey⟩ | ⟨entry, hentry, rfl⟩
  · rw [hcopy.slot_eq hkey, h.slot_eq hkey, hsame.targets_eq, RelKind.slot_map]
  · have hflag : item.attributes.flag entry.1 = true ↔ entry.1 ∈ line.keys := by
      rw [Attributes.flag, h.flag_eq entry hentry]
      by_cases hkey : entry.1 ∈ line.keys <;> simp [hkey]
    rw [hcopy.flag_eq entry hentry, h.flag_eq entry hentry]
    simp only [ItemLine.mem_keys_ofItem_iff hentry, hflag]
    split <;> rfl

namespace Index

variable {index back : Index}

/-- What is read from the lines of an index that was read is the index again, item by item. -/
theorem Restored.restates {own : Nat} {lines : List ItemLine} {relations : List Relation}
    (h : Restored own lines relations index)
    (hback : Restored generation (index.items.map ItemLine.ofItem) index.relations back)
    {id : ItemId} {item : Item} (hget : index.get? id = some item) :
    ∃ copy, back.get? (id.inGeneration generation) = some copy ∧
      item.Restates generation copy := by
  obtain rfl := id_of_get? h.stacked hget
  have hitem := (mem_items_iff h.stacked).2 hget
  obtain ⟨line, _, _, hread⟩ := h.exists_line hget
  obtain ⟨copy, hcopy, hcopyRead⟩ := hback.holds _ (List.mem_map_of_mem hitem)
  have hsame : item.SameAs generation copy := h.tied.sameAs_readFrom hitem hcopyRead
  have hlist : ∀ {ids others : Array ItemId},
      others.toList = ids.toList.map (ItemId.inGeneration generation) →
      others = ids.map (ItemId.inGeneration generation) := by
    intro ids others heq
    rw [← Array.toList_inj, heq, Array.toList_map]
  refine ⟨copy, hcopy, ?_, ?_⟩
  · simp only [Item.map, Item.mk.injEq]
    exact ⟨id_of_get? hback.stacked hcopy, hsame.name_eq, hsame.kind_eq, hsame.parent_eq,
      hlist (hsame.targets_eq .child), hlist (hsame.targets_eq .dependency), trivial,
      hread.attributes_eq hcopyRead hsame⟩
  · have hnodup : (item.incoming.toList.map (ItemId.inGeneration generation)).Nodup := by
      refine hread.incoming_nodup.map_on (fun source hsource other hother heq => ?_)
      obtain ⟨hgeneration, _⟩ := (hread.incoming_iff source).1 hsource
      obtain ⟨hgeneration', _⟩ := (hread.incoming_iff other).1 hother
      obtain ⟨raw, _⟩ := source
      obtain ⟨raw', _⟩ := other
      simp_all [ItemId.inGeneration]
    exact (List.perm_ext_iff_of_nodup hcopyRead.incoming_nodup hnodup).2 hsame.incoming_iff

/-! ## Writing again -/

/-- What is asked of all items has the same answers in two indices with the same items. -/
theorem SameAs.map_items_eq {α : Type} (h : index.SameAs generation back)
    (hindex : index.IsStacked) (hback : back.IsStacked) {f : Item → α}
    (hf : ∀ item copy : Item, copy.id.raw = item.id.raw → item.SameAs generation copy →
      f copy = f item) : back.items.map f = index.items.map f := by
  rw [Index.items, Index.items, List.map_filterMap, List.map_filterMap, h.ids_eq, List.filterMap_map]
  refine List.filterMap_congr (fun id hid => ?_)
  obtain ⟨item, hget⟩ := exists_get?_of_mem_ids hindex hid
  obtain ⟨copy, hcopy, hsame⟩ := h.items id item hget
  have hraw : copy.id.raw = item.id.raw := by
    rw [id_of_get? hback hcopy, id_of_get? hindex hget]
    rfl
  rw [Function.comp_apply, hcopy, hget, Option.map_some, Option.map_some, hf item copy hraw hsame]

end Index

namespace Snapshot

open Index

variable {index back : Index}

/-- The line of an item is the line of its copy. -/
theorem ofItem_eq_of_sameAs {item copy : Item} (hraw : copy.id.raw = item.id.raw)
    (h : item.SameAs generation copy) : ItemLine.ofItem copy = ItemLine.ofItem item := by
  have hkept : ItemLine.keptFlags copy = ItemLine.keptFlags item := by
    refine List.filter_congr (fun entry hentry => ?_)
    simp only [snapshotFlags, List.mem_cons, List.not_mem_nil, or_false] at hentry
    rcases hentry with rfl | rfl | rfl | rfl
    · exact h.isBinary_eq
    · exact h.isThirdParty_eq
    · exact h.isProjectVisible_eq
    · exact h.isPseudo_eq
  have hflags : (ItemLine.ofItem copy).flags = (ItemLine.ofItem item).flags := by
    rw [ItemLine.flags_ofItem, ItemLine.flags_ofItem, hkept]
  show ItemLine.mk copy.name copy.id.raw copy.kind (ItemLine.ofItem copy).flags = _
  rw [hflags, h.name_eq, hraw, h.kind_eq]
  rfl

/-- The relations of an item are the relations of its copy. -/
theorem relations_eq_of_sameAs {item copy : Item} (hraw : copy.id.raw = item.id.raw)
    (h : item.SameAs generation copy) : Relation.ofItem copy = Relation.ofItem item := by
  simp only [Relation.ofItem, h.targets_eq, hraw, List.map_map]
  rfl

/-- Two indices with the same items are written alike. -/
theorem write_eq_of_sameAs (h : index.SameAs generation back) (hindex : index.IsStacked)
    (hback : back.IsStacked) : write back = write index := by
  have hlines : back.items.map (fun item => (ItemLine.ofItem item).text) =
      index.items.map (fun item => (ItemLine.ofItem item).text) :=
    h.map_items_eq hindex hback (fun item copy hraw hsame => by
      rw [ofItem_eq_of_sameAs hraw hsame])
  have hrelations : back.relations = index.relations := by
    rw [relations, relations, List.flatMap_def, List.flatMap_def,
      h.map_items_eq hindex hback (fun item copy hraw hsame => relations_eq_of_sameAs hraw hsame)]
  rw [write_eq hback, write_eq hindex, hlines, hrelations]

/-- A snapshot that is accepted is written in a form that is read as the same index and written the
same way again. -/
theorem rewrite_idempotent {archive : Archive} (h : read generation archive = .ok index)
    (hfew : (relationLines archive).length ≤ Text.bound64) (next : Nat) :
    ∃ parts, write index = .ok parts ∧
      ∃ back, read next (parts.map entryOf) = .ok back ∧ write back = .ok parts ∧
        index.SameAs next back ∧
          ∀ id item, index.get? id = some item →
            ∃ copy, back.get? (id.inGeneration next) = some copy ∧ item.Restates next copy := by
  have hrestored := (restored_of_read h).1
  have hsavable := savable_of_read h
  have hlength : index.relations.length ≤ Text.bound64 :=
    calc index.relations.length ≤ (keptRelations archive).length :=
          hrestored.subperm_relations.length_le
      _ ≤ (relationLines archive).length := List.length_filter_le _ _
      _ ≤ Text.bound64 := hfew
  obtain ⟨parts, hwrite, bare, hread, hbare⟩ :=
    exists_read_of_savable hsavable (fun item hitem => feed_notMem_of_read h hitem) hlength next
  have hsame := hsavable.sameAs_restored hbare
  have hback := hbare.rebuildRegistry
  refine ⟨parts, hwrite, _, hread, ?_, hsame, fun id item hget => hrestored.restates hback hget⟩
  rw [write_eq_of_sameAs hsame hrestored.stacked hback.stacked, hwrite]

/-- A snapshot whose parts of items overlap, with blanks between and around its lines, and whose
relations repeat, override and lead back. -/
def looseArchive : Archive :=
  [⟨"rels0-0.txt", .text "r s +0 t 01 r CHILD\nr s 0 t 1 r CHILD\n"⟩,
    ⟨"items0-9.txt", .text "i n \"p\"   id 1 t PACKAGE\n\ni n \"a\" id 0 t PROJECT"⟩,
    ⟨"rels7-7.txt", .text
      "r s 2 t 2 r DEPENDENCY\n r  s 2 t 1 r SUPERCLASS\nr s 2 t 0 r SUPERCLASS\n"⟩,
    ⟨"items5-1.txt", .text "\n  \ni n \"C\" id 2 t CLASS f pseudo,pseudo\r\n"⟩]

theorem rewrite_idempotent_looseArchive : ∃ index, read 1 looseArchive = .ok index ∧
    ∃ parts, write index = .ok parts ∧
      ∃ back, read 2 (parts.map entryOf) = .ok back ∧ write back = .ok parts ∧
        index.SameAs 2 back ∧
          ∀ id item, index.get? id = some item →
            ∃ copy, back.get? (id.inGeneration 2) = some copy ∧ item.Restates 2 copy := by
  have hrels : partsOf "rels" looseArchive = (found "rels" looseArchive).map Prod.snd :=
    partsOf_eq_found (by decide +kernel)
  have hok : (read 1 looseArchive).isOk = true := by
    rw [read, partsOf_eq_found (by decide +kernel), hrels]
    decide +kernel
  have hfew : (relationLines looseArchive).length ≤ Text.bound64 := by
    rw [relationLines, linesOf, hrels]
    decide +kernel
  obtain ⟨index, hread⟩ := exists_of_isOk hok
  exact ⟨index, hread, rewrite_idempotent hread hfew 2⟩

end Snapshot

end CodeAtlas
