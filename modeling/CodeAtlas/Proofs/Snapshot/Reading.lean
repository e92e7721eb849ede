/-
# Snapshots that are accepted

An index that was read from a snapshot is given by the lines of the snapshot, whatever their blanks,
their order and the parts they stand in: it holds an item for every item line, and every item holds
the links of the relation lines.  Its links lead to items and are named at both ends, so it can be
written again.
-/
import CodeAtlas.Proofs.Snapshot.RoundTrip

namespace CodeAtlas

open Text

/-! ## Lines -/

theorem QuotedName.mem_of_decode {text name rest : List Char}
    (h : decode text = some (name, rest)) {c : Char} (hc : c ∈ name) : c ∈ text := by
  induction text using decode.induct generalizing name with
  | case1 => simp [decode] at h
  | case2 => simp [decode] at h
  | case3 first rest ih =>
    rw [decode] at h
    obtain ⟨⟨inner, tail⟩, hinner, heq⟩ := Option.map_eq_some_iff.1 h
    obtain ⟨rfl, rfl⟩ := Prod.mk.inj heq
    rcases List.mem_cons.1 hc with rfl | hc
    · simp
    · exact List.mem_cons_of_mem _ (List.mem_cons_of_mem _ (ih hinner hc))
  | case4 rest =>
    rw [decode] at h
    obtain ⟨rfl, rfl⟩ := Prod.mk.inj (Option.some.inj h)
    simp at hc
  | case5 first rest hescape hlast hquote ih =>
    rw [decode.eq_5 first rest hescape hlast hquote] at h
    obtain ⟨⟨inner, tail⟩, hinner, heq⟩ := Option.map_eq_some_iff.1 h
    obtain ⟨rfl, rfl⟩ := Prod.mk.inj heq
    rcases List.mem_cons.1 hc with rfl | hc
    · exact List.mem_cons_self
    · exact List.mem_cons_of_mem _ (ih hinner hc)

/-- The name of an item line is part of the line. -/
theorem ItemLine.mem_of_ofText? {text : String} {line : ItemLine} (h : ofText? text = some line)
    {c : Char} (hc : c ∈ line.name.toList) : c ∈ text.toList := by
  have hfields : ∀ {name raw kind : String} {flags : Option String},
      ofFields? name raw kind flags = some line → line.name = name := by
    intro name raw kind flags hread
    rw [ofFields?] at hread
    split at hread
    · rw [← Option.some.inj hread]
    · simp at hread
  have hwords : ∀ {name : String} {words : List String},
      ofWords? name words = some line → line.name = name := by
    intro name words hread
    rw [ofWords?.eq_def] at hread
    split at hread
    · exact hfields hread
    · exact hfields hread
    · simp at hread
  rw [ofText?] at h
  split at h
  · simp at h
  · rename_i rest hrest
    split at h
    · simp at h
    · rename_i name tail hname
      rw [hwords h, String.toList_ofList] at hc
      rw [eq_append_of_afterLead? hrest]
      exact List.mem_append_right _ (QuotedName.mem_of_decode hname hc)

namespace Snapshot

/-- The lines of a part; blank ones count for nothing. -/
def linesIn (entry : ArchiveEntry) : List String :=
  match entry.data.readText with
  | .error _ => []
  | .ok text => (Text.lines text).filter (fun line => !Text.allBlank line)

/-- The lines of all parts of a sort, in reading order. -/
def linesOf (stem : String) (archive : Archive) : List String :=
  (partsOf stem archive).flatMap linesIn

/-- The items of a snapshot, in reading order. -/
def itemLines (archive : Archive) : List ItemLine :=
  (linesOf "items" archive).filterMap ItemLine.ofText?

/-- The relations of a snapshot, in reading order. -/
def relationLines (archive : Archive) : List Relation :=
  (linesOf "rels" archive).filterMap (fun line => (Relation.ofLine line).toOption)

/-- The relations of a snapshot that are kept: those that make no item depend on itself. -/
def keptRelations (archive : Archive) : List Relation :=
  (relationLines archive).filter (fun relation => !relation.isLoop)

/-- A snapshot that is not refused is read as an index. -/
theorem exists_of_isOk {generation : Nat} {archive : Archive}
    (h : (read generation archive).isOk = true) : ∃ index, read generation archive = .ok index := by
  cases hread : read generation archive with
  | error error => simp [hread, Except.isOk, Except.toBool] at h
  | ok index => exact ⟨index, rfl⟩

/-- Reading some parts is reading their lines one by one. -/
theorem foldlM_linesIn {step : Index → String → Except SnapshotError Index}
    {entries : List ArchiveEntry} {index after : Index}
    (h : entries.foldlM (readPart step) index = .ok after) :
    (entries.flatMap linesIn).foldlM step index = .ok after := by
  induction entries generalizing index with
  | nil => exact h
  | cons entry rest ih =>
    rw [List.foldlM_cons] at h
    cases hpart : readPart step index entry with
    | error error =>
      rw [hpart] at h
      simp [bind, Except.bind] at h
    | ok middle =>
      rw [hpart] at h
      have hlines : (linesIn entry).foldlM step index = .ok middle := by
        rw [readPart] at hpart
        rw [linesIn]
        cases htext : entry.data.readText with
        | error error =>
          rw [htext] at hpart
          simp at hpart
        | ok text =>
          rw [htext] at hpart
          exact hpart
      rw [List.flatMap_cons, List.foldlM_append, hlines]
      exact ih h

/-- An index is read line by line, first the items and then the relations. -/
theorem exists_of_read {generation : Nat} {archive : Archive} {index : Index}
    (h : read generation archive = .ok index) : ∃ bare linked,
      (linesOf "items" archive).foldlM ItemLine.insert (.empty generation) = .ok bare ∧
      (linesOf "rels" archive).foldlM readRelation bare = .ok linked ∧
      index = linked.rebuildRegistry := by
  rw [read] at h
  cases hitems : (partsOf "items" archive).foldlM (readPart ItemLine.insert) (.empty generation) with
  | error error =>
    rw [hitems] at h
    simp [bind, Except.bind] at h
  | ok bare =>
    rw [hitems] at h
    cases hrelations : (partsOf "rels" archive).foldlM (readPart readRelation) bare with
    | error error =>
      simp only [bind, Except.bind, hrelations] at h
      simp at h
    | ok linked =>
      simp only [bind, Except.bind, hrelations, pure, Except.pure, Except.ok.injEq] at h
      exact ⟨bare, linked, foldlM_linesIn hitems, foldlM_linesIn hrelations, h.symm⟩

/-- No name that is read holds a line feed. -/
theorem feed_notMem_name {archive : Archive} {line : ItemLine} (h : line ∈ itemLines archive) :
    '\n' ∉ line.name.toList := by
  obtain ⟨text, htext, hparse⟩ := List.mem_filterMap.1 h
  obtain ⟨entry, _, hentry⟩ := List.mem_flatMap.1 htext
  rw [linesIn] at hentry
  split at hentry
  · simp at hentry
  · intro hfeed
    exact feed_notMem_of_mem_lines (List.mem_filter.1 hentry).1
      (ItemLine.mem_of_ofText? hparse hfeed)

end Snapshot

/-! ## The index that was read -/

namespace Index

variable {generation : Nat} {lines : List ItemLine} {relations : List Relation} {index : Index}

/-- Nothing that is read hangs on the registry. -/
theorem Restored.rebuildRegistry (h : Restored generation lines relations index) :
    Restored generation lines relations index.rebuildRegistry := by
  have hsame := sameItems_rebuildRegistry index
  have hcontains : ∀ id, index.rebuildRegistry.contains id = index.contains id := by
    intro id
    rw [Index.contains, Index.contains, hsame.get?_eq]
  refine ⟨hsame.isStacked h.stacked, hsame.below_eq.trans h.below_eq,
    hsame.generation_eq.trans h.generation_eq, hsame.firstRaw_eq.trans h.first_eq, ⟨?_, ?_⟩, ?_, ?_,
    h.ends, h.irrefl⟩
  · intro id hid
    exact h.counts.above (hcontains id ▸ hid)
  · simp only [hcontains]
    exact h.counts.reached
  · intro line hline
    rw [hsame.get?_eq]
    exact h.holds line hline
  · intro id hid
    exact h.covers id (hcontains id ▸ hid)

/-- A rebuilt registry lists every item. -/
theorem registered_rebuildRegistry (h : index.IsStacked) (hbelow : index.below = []) :
    index.rebuildRegistry.Registered := by
  have hsame := sameItems_rebuildRegistry index
  have hall : ∀ (parent : Option ItemId) (name : String) (kind : ItemKind),
      index.rebuildRegistry.findAll parent name kind =
        index.rebuildRegistry.ids.filter (index.rebuildRegistry.bears ⟨parent, kind, name⟩) := by
    intro parent name kind
    rw [findAll_rebuildRegistry h hbelow, map_id_filter_items h, hsame.ids_eq]
    refine List.filter_congr (fun id _ => ?_)
    rw [bears, hsame.get?_eq]
    simp only [ItemKey.mk.injEq]
  refine ⟨hall, fun kind name => ?_, fun parent name kind _ => ?_⟩
  · rw [findByName_rebuildRegistry h hbelow, map_id_filter_items h, hsame.ids_eq]
    refine List.filter_congr (fun id _ => ?_)
    rw [bearsName, hsame.get?_eq]
    simp only [NameKey.mk.injEq]
  · rw [findItem_eq_head? (hsame.below_eq.trans hbelow), hall]

/-- What an item was read to hold. -/
theorem Restored.exists_get?_iff (h : Restored generation lines relations index) {id : ItemId}
    {holds : Item → Prop} {written : Prop}
    (hiff : ∀ item line, line.raw = id.raw → item.ReadFrom generation line relations →
      (holds item ↔ written))
    (hline : written → ∃ line ∈ lines, line.raw = id.raw) :
    (∃ item, index.get? id = some item ∧ holds item) ↔ id.generation = generation ∧ written := by
  constructor
  · rintro ⟨item, hget, hholds⟩
    obtain ⟨line, _, rfl, hread⟩ := h.exists_line hget
    exact ⟨rfl, (hiff item line rfl hread).1 hholds⟩
  · rintro ⟨hgeneration, hwritten⟩
    obtain ⟨line, hline, hraw⟩ := hline hwritten
    obtain ⟨item, hitem, hread⟩ := h.holds line hline
    rw [hraw, ← hgeneration] at hitem
    exact ⟨item, hitem, (hiff item line hraw hread).2 hwritten⟩

theorem Restored.owns_iff (h : Restored generation lines relations index) {owner id : ItemId} :
    index.Owns owner id ↔ owner.generation = generation ∧ id.generation = generation ∧
      ⟨owner.raw, id.raw, .child⟩ ∈ relations := by
  refine h.exists_get?_iff (fun item line hraw hread => ?_) (fun hmem => (h.ends _ hmem.2).1)
  rw [← hraw, ← Array.mem_toList_iff]
  exact hread.mem_targets_iff .child rfl

theorem Restored.hasParent_iff (h : Restored generation lines relations index)
    {id owner : ItemId} : index.HasParent id owner ↔ id.generation = generation ∧
      owner.generation = generation ∧ ⟨owner.raw, id.raw, .child⟩ ∈ relations := by
  refine h.exists_get?_iff (fun item line hraw hread => ?_) (fun hmem => (h.ends _ hmem.2).2)
  rw [← hraw]
  exact hread.parent_iff owner

theorem Restored.dependsOn_iff (h : Restored generation lines relations index)
    {source target : ItemId} : index.DependsOn source target ↔ source.generation = generation ∧
      target.generation = generation ∧ ⟨source.raw, target.raw, .dependency⟩ ∈ relations := by
  refine h.exists_get?_iff (fun item line hraw hread => ?_) (fun hmem => (h.ends _ hmem.2).1)
  rw [← hraw, ← Array.mem_toList_iff]
  exact hread.mem_targets_iff .dependency rfl

theorem Restored.isNeededBy_iff (h : Restored generation lines relations index)
    {source target : ItemId} : index.IsNeededBy target source ↔ target.generation = generation ∧
      source.generation = generation ∧ ⟨source.raw, target.raw, .dependency⟩ ∈ relations := by
  refine h.exists_get?_iff (fun item line hraw hread => ?_) (fun hmem => (h.ends _ hmem.2).2)
  rw [← hraw, ← Array.mem_toList_iff]
  exact hread.incoming_iff source

/-- The links of an index that was read lead to items and are named at both ends. -/
theorem Restored.tied (h : Restored generation lines relations index) : index.Tied where
  stacked := h.stacked
  contains_target := by
    intro item hitem kind target htarget
    obtain ⟨line, _, _, hread⟩ := h.exists_line ((mem_items_iff h.stacked).1 hitem)
    obtain ⟨rfl, hmem⟩ := hread.mem_relations_of_mem_targets kind htarget
    obtain ⟨other, hother, hraw⟩ := (h.ends _ hmem).2
    have hin := h.contains hother
    rwa [hraw] at hin
  nodup_targets := by
    intro item hitem kind hkind
    obtain ⟨line, _, _, hread⟩ := h.exists_line ((mem_items_iff h.stacked).1 hitem)
    rw [hread.targets_eq]
    exact RelKind.nodup_gather hkind _
  parent_iff := by
    intro id owner
    rw [h.hasParent_iff, h.owns_iff, and_left_comm]
  depends_iff := by
    intro source target
    rw [h.dependsOn_iff, h.isNeededBy_iff, and_left_comm]
  irrefl := by
    intro id hself
    have hloop := h.irrefl _ (h.dependsOn_iff.1 hself).2.2
    simp [Relation.isLoop] at hloop

end Index

namespace Snapshot

open Index

variable {generation : Nat} {archive : Archive} {index : Index}

/-- An index that was read holds what the lines of its snapshot say. -/
theorem restored_of_read (h : read generation archive = .ok index) :
    Restored generation (itemLines archive) (keptRelations archive) index ∧ index.Registered := by
  obtain ⟨bare, linked, hitems, hrelations, rfl⟩ := exists_of_read h
  have hbare : Restored generation (itemLines archive) [] bare :=
    holds_of_foldlM ItemLine.ofText? (fun done state => Restored generation done [] state)
      (fun _ _ _ _ hdone hstep => hdone.of_insert hstep) (restored_empty generation) hitems
  have hlinked : Restored generation (itemLines archive) (keptRelations archive) linked := by
    refine holds_of_foldlM (fun line => (Relation.ofLine line).toOption)
      (fun done state => Restored generation (itemLines archive)
        (done.filter (fun relation => !relation.isLoop)) state) ?_ hbare hrelations
    intro done text state after hdone hstep
    rw [readRelation] at hstep
    split at hstep
    · simp at hstep
    · rename_i relation hparse
      have hlast : ((Relation.ofLine text).toOption.toList).filter
          (fun relation => !relation.isLoop) = if relation.isLoop then [] else [relation] := by
        rw [hparse]
        cases hloop : relation.isLoop <;> simp [Except.toOption, hloop]
      rw [List.filter_append, hlast]
      exact hdone.of_apply hstep
  exact ⟨hlinked.rebuildRegistry, registered_rebuildRegistry hlinked.stacked hlinked.below_eq⟩

/-- An index that was read can be written and read again. -/
theorem savable_of_read (h : read generation archive = .ok index) : index.Savable :=
  have ⟨hrestored, hregistered⟩ := restored_of_read h
  ⟨hrestored.tied, hrestored.counts, hregistered⟩

theorem feed_notMem_of_read (h : read generation archive = .ok index) {item : Item}
    (hitem : item ∈ index.items) : '\n' ∉ item.name.toList := by
  have hrestored := (restored_of_read h).1
  obtain ⟨line, hline, _, hread⟩ :=
    hrestored.exists_line ((mem_items_iff hrestored.stacked).1 hitem)
  rw [hread.name_eq]
  exact feed_notMem_name hline

end Snapshot

end CodeAtlas
