/-
# Restoring an index line by line

What an index holds after some of the lines of a snapshot were read.  Each item line adds its item
under the number that the line gives, and each relation line adds its link to the items at its ends.
The order of the lines thus becomes the order in which an item lists its links.  Reading a line fails
when it would give a number or an owner twice, or names a number that no item has.
-/
import CodeAtlas.Proofs.Snapshot.Links
import CodeAtlas.Proofs.Snapshot.Parts

namespace CodeAtlas

/-! ## Reading one by one -/

/-- What each line of a list preserves, the whole list does. -/
theorem exists_foldlM {σ α ε : Type} {step : σ → α → Except ε σ} (holds : List α → σ → Prop)
    {list : List α} (hstep : ∀ (done : List α) (value : α) (rest : List α) (state : σ),
      list = done ++ value :: rest → holds done state →
      ∃ after, step state value = .ok after ∧ holds (done ++ [value]) after)
    {state : σ} (h : holds [] state) :
    ∃ after, list.foldlM step state = .ok after ∧ holds list after := by
  have hrest : ∀ (rest done : List α) (state : σ), list = done ++ rest → holds done state →
      ∃ after, rest.foldlM step state = .ok after ∧ holds list after := by
    intro rest
    induction rest with
    | nil =>
      intro done state hlist hdone
      exact ⟨state, rfl, by rwa [hlist, List.append_nil]⟩
    | cons value rest ih =>
      intro done state hlist hdone
      obtain ⟨middle, hmiddle, hholds⟩ := hstep done value rest state hlist hdone
      obtain ⟨after, hafter, hall⟩ := ih (done ++ [value]) middle (by simpa using hlist) hholds
      exact ⟨after, by rw [List.foldlM_cons, hmiddle]; exact hafter, hall⟩
  exact hrest list [] state rfl h

/-- What the lines that are read preserve, the whole list does; `parse?` tells what a line adds. -/
theorem holds_of_foldlM {σ α β ε : Type} {step : σ → α → Except ε σ} (parse? : α → Option β)
    (holds : List β → σ → Prop) (hstep : ∀ (done : List β) (value : α) (state after : σ),
      holds done state → step state value = .ok after →
      holds (done ++ (parse? value).toList) after)
    {list : List α} {state after : σ} (hstart : holds [] state)
    (h : list.foldlM step state = .ok after) : holds (list.filterMap parse?) after := by
  have hrest : ∀ (rest : List α) (done : List β) (state : σ), holds done state →
      rest.foldlM step state = .ok after → holds (done ++ rest.filterMap parse?) after := by
    intro rest
    induction rest with
    | nil =>
      intro done state hdone hrun
      obtain rfl := Except.ok.inj hrun
      rwa [List.filterMap_nil, List.append_nil]
    | cons value rest ih =>
      intro done state hdone hrun
      rw [List.foldlM_cons] at hrun
      cases hvalue : step state value with
      | error error =>
        rw [hvalue] at hrun
        simp [bind, Except.bind] at hrun
      | ok middle =>
        rw [hvalue] at hrun
        have hmiddle := ih _ middle (hstep done value state middle hdone hvalue) hrun
        rw [List.append_assoc] at hmiddle
        cases hparse : parse? value with
        | none => rwa [List.filterMap_cons_none hparse, ← List.nil_append (rest.filterMap _),
            ← Option.toList_none, ← hparse]
        | some parsed => rwa [List.filterMap_cons_some hparse, ← List.singleton_append,
            ← Option.toList_some, ← hparse]
  exact hrest list [] state hstart h

/-! ## Flags -/

/-- An item with some flags set. -/
def Item.setFlags (keys : List AttrKey) (item : Item) : Item :=
  keys.foldl (fun item key => item.setFlag key true) item

theorem Item.setFlags_eq (keys : List AttrKey) (item : Item) :
    item.setFlags keys = { item with attributes := (item.setFlags keys).attributes } := by
  induction keys generalizing item with
  | nil => rfl
  | cons first rest ih => exact ih (item.setFlag first true)

theorem Item.get?_setFlags (keys : List AttrKey) (item : Item) (key : AttrKey) :
    (item.setFlags keys).attributes.get? key =
      if key ∈ keys then some (.flag true) else item.attributes.get? key := by
  induction keys generalizing item with
  | nil => rfl
  | cons first rest ih =>
    have hfirst : (item.setFlag first true).attributes.get? key =
        if first = key then some (.flag true) else item.attributes.get? key :=
      Attributes.get?_set item.attributes first key (.flag true)
    have hrest := ih (item.setFlag first true)
    rw [hfirst] at hrest
    refine Eq.trans hrest ?_
    by_cases hkey : key ∈ rest
    · simp [hkey]
    · simp [hkey, @eq_comm _ key]

namespace ItemLine

/-- The flags of a line. -/
def keys (line : ItemLine) : List AttrKey :=
  (flagKeys? line.flags).getD []

theorem keys_ofItem (item : Item) : (ofItem item).keys = (keptFlags item).map Prod.fst := by
  rw [keys, flagKeys?_ofItem]
  rfl

theorem mem_keys_ofItem_iff {item : Item} {entry : AttrKey × String} (h : entry ∈ snapshotFlags) :
    entry.1 ∈ (ofItem item).keys ↔ item.attributes.flag entry.1 = true := by
  rw [keys_ofItem, List.mem_map]
  constructor
  · rintro ⟨other, hother, heq⟩
    rw [← heq]
    exact (List.mem_filter.1 hother).2
  · exact fun hflag => ⟨entry, List.mem_filter.2 ⟨h, hflag⟩, rfl⟩

/-- Every flag of a line is one that a snapshot keeps. -/
theorem exists_entry_of_mem_keys {line : ItemLine} {key : AttrKey} (h : key ∈ line.keys) :
    ∃ entry ∈ snapshotFlags, entry.1 = key := by
  have hword : ∀ {word : String}, flagOfText? word = some key →
      ∃ entry ∈ snapshotFlags, entry.1 = key := by
    intro word hread
    obtain ⟨entry, hentry, heq⟩ := Option.map_eq_some_iff.1 hread
    exact ⟨entry, List.mem_of_find?_eq_some hentry, heq⟩
  have hwords : ∀ (words : List String) (keys : List AttrKey), words.mapM flagOfText? = some keys →
      key ∈ keys → ∃ entry ∈ snapshotFlags, entry.1 = key := by
    intro words
    induction words with
    | nil =>
      intro keys hread hkey
      obtain rfl := Option.some.inj hread
      simp at hkey
    | cons first rest ih =>
      intro keys hread hkey
      rw [List.mapM_cons] at hread
      obtain ⟨one, hone, hread⟩ := Option.bind_eq_some_iff.1 hread
      obtain ⟨others, hothers, hread⟩ := Option.bind_eq_some_iff.1 hread
      obtain rfl := Option.some.inj hread
      rcases List.mem_cons.1 hkey with rfl | hkey
      · exact hword hone
      · exact ih others hothers hkey
  rw [keys] at h
  cases hflags : line.flags with
  | none => simp [hflags, flagKeys?] at h
  | some word =>
    cases hread : flagKeys? (some word) with
    | none => simp [hflags, hread] at h
    | some keys =>
      rw [hflags, hread] at h
      exact hwords _ keys hread h

/-- No relation is kept as a flag. -/
theorem key?_notMem_keys {kind : RelKind} {key : AttrKey} (h : kind.key? = some key)
    (line : ItemLine) : key ∉ line.keys := by
  intro hkey
  obtain ⟨entry, hentry, rfl⟩ := exists_entry_of_mem_keys hkey
  exact RelKind.key?_ne_flag h hentry rfl

end ItemLine

/-! ## Items that are read -/

/-- A relation that makes an item depend on itself. -/
def Relation.isLoop (relation : Relation) : Bool :=
  relation.kind = .dependency ∧ relation.source = relation.target

/-- The item of a line after some relations were read. -/
structure Item.ReadFrom (generation : Nat) (line : ItemLine) (relations : List Relation)
    (item : Item) : Prop where
  name_eq : item.name = line.name
  kind_eq : item.kind = line.kind
  flag_eq : ∀ entry ∈ snapshotFlags, item.attributes.get? entry.1 =
    if entry.1 ∈ line.keys then some (.flag true) else none
  targets_eq : ∀ kind : RelKind, kind.targets item = kind.gather
    ((relations.filter (fun relation => relation.source = line.raw ∧ relation.kind = kind)).map
      (fun relation => ⟨relation.target, generation⟩))
  /-- A list that nothing was linked to is not there at all. -/
  slot_eq : ∀ {kind : RelKind} {key : AttrKey}, kind.key? = some key →
    item.attributes.get? key = kind.slot (kind.targets item)
  parent_iff : ∀ owner, item.parent = some owner ↔
    owner.generation = generation ∧ ⟨owner.raw, line.raw, .child⟩ ∈ relations
  incoming_iff : ∀ source, source ∈ item.incoming.toList ↔
    source.generation = generation ∧ ⟨source.raw, line.raw, .dependency⟩ ∈ relations
  incoming_nodup : item.incoming.toList.Nodup

variable {generation : Nat} {relations : List Relation} {line : ItemLine} {item : Item}

namespace Item

/-- What an item links to was read. -/
theorem ReadFrom.mem_targets_iff (h : item.ReadFrom generation line relations) (kind : RelKind)
    (hkind : kind.isSingle = false) {target : ItemId} : target ∈ kind.targets item ↔
      target.generation = generation ∧ ⟨line.raw, target.raw, kind⟩ ∈ relations := by
  rw [h.targets_eq, RelKind.mem_gather_iff hkind, List.mem_map]
  constructor
  · rintro ⟨⟨source, raw, other⟩, hmem, rfl⟩
    rw [List.mem_filter, decide_eq_true_iff] at hmem
    obtain ⟨hmem, rfl, rfl⟩ := hmem
    exact ⟨rfl, hmem⟩
  · rintro ⟨rfl, hmem⟩
    exact ⟨_, List.mem_filter.2 ⟨hmem, by simp⟩, rfl⟩

theorem ReadFrom.mem_relations_of_mem_targets (h : item.ReadFrom generation line relations)
    (kind : RelKind) {target : ItemId} (htarget : target ∈ kind.targets item) :
    target.generation = generation ∧ ⟨line.raw, target.raw, kind⟩ ∈ relations := by
  rw [h.targets_eq] at htarget
  obtain ⟨⟨source, raw, other⟩, hmem, rfl⟩ := List.mem_map.1 (RelKind.mem_of_mem_gather htarget)
  rw [List.mem_filter, decide_eq_true_iff] at hmem
  obtain ⟨hmem, rfl, rfl⟩ := hmem
  exact ⟨rfl, hmem⟩

/-- The last relation of a list goes to the lists of its source only. -/
theorem filter_concat (relations : List Relation) (relation : Relation) (raw : UInt32)
    (kind : RelKind) :
    ((relations ++ [relation]).filter
      (fun relation => relation.source = raw ∧ relation.kind = kind)) =
      relations.filter (fun relation => relation.source = raw ∧ relation.kind = kind) ++
        if raw = relation.source ∧ kind = relation.kind then [relation] else [] := by
  rw [List.filter_append, List.filter_cons, List.filter_nil]
  simp only [decide_eq_true_eq, @eq_comm _ raw, @eq_comm _ kind]

/-- Reading one more relation that gives no item a second owner. -/
theorem ReadFrom.link (h : item.ReadFrom generation line relations) {relation : Relation}
    (hchild : relation.kind = .child → ∀ source, ⟨source, relation.target, .child⟩ ∉ relations) :
    (relation.kind.linked ⟨relation.source, generation⟩ ⟨relation.target, generation⟩
      ⟨line.raw, generation⟩ item).ReadFrom generation line (relations ++ [relation]) where
  name_eq := by rw [RelKind.name_linked, h.name_eq]
  kind_eq := by rw [RelKind.kind_linked, h.kind_eq]
  flag_eq := by
    intro entry hentry
    rw [RelKind.get?_linked _ _ _ _ _ hentry, h.flag_eq entry hentry]
  targets_eq := by
    intro kind
    rw [RelKind.targets_linked, filter_concat, List.map_append]
    · simp only [ItemId.mk.injEq, and_true]
      split
      · rename_i hlast
        obtain ⟨hraw, rfl⟩ := hlast
        rw [List.map_singleton, RelKind.gather_concat, ← h.targets_eq]
      · rw [List.map_nil, List.append_nil, ← h.targets_eq]
    · intro hid hkind hin
      have hmem := h.mem_relations_of_mem_targets .child hin
      exact hchild hkind _ hmem.2
  slot_eq := fun hkey => RelKind.slot_linked _ _ _ _ _ hkey (h.slot_eq hkey)
  parent_iff := by
    intro owner
    rw [RelKind.parent_linked, List.mem_append, List.mem_singleton]
    by_cases hlast : line.raw = relation.target ∧ relation.kind = .child
    · have hnone : ∀ source, ⟨source, line.raw, .child⟩ ∉ relations := by
        rw [hlast.1]
        exact hchild hlast.2
      rw [if_pos ⟨by rw [hlast.1], hlast.2⟩, Option.some.injEq]
      obtain ⟨source, target, kind⟩ := relation
      obtain ⟨rfl, rfl⟩ := hlast
      obtain ⟨raw, own⟩ := owner
      simp only [hnone, ItemId.mk.injEq, Relation.mk.injEq, and_true, false_or]
      exact ⟨fun heq => ⟨heq.2.symm, heq.1.symm⟩, fun heq => ⟨heq.2.symm, heq.1.symm⟩⟩
    · have hother : (⟨owner.raw, line.raw, .child⟩ : Relation) ≠ relation := by
        rintro rfl
        exact hlast ⟨rfl, rfl⟩
      rw [if_neg (fun hboth => hlast ⟨(ItemId.mk.inj hboth.1).1, hboth.2⟩), h.parent_iff]
      simp only [hother, or_false]
  incoming_iff := by
    intro source
    rw [RelKind.incoming_linked, List.mem_append, List.mem_singleton]
    by_cases hlast : line.raw = relation.target ∧ relation.kind = .dependency
    · rw [if_pos ⟨by rw [hlast.1], hlast.2⟩, mem_insertNew, h.incoming_iff]
      obtain ⟨first, target, kind⟩ := relation
      obtain ⟨rfl, rfl⟩ := hlast
      obtain ⟨raw, own⟩ := source
      simp only [ItemId.mk.injEq, Relation.mk.injEq, and_true]
      rw [and_or_left, @and_comm (raw = first)]
    · have hother : (⟨source.raw, line.raw, .dependency⟩ : Relation) ≠ relation := by
        rintro rfl
        exact hlast ⟨rfl, rfl⟩
      rw [if_neg (fun hboth => hlast ⟨(ItemId.mk.inj hboth.1).1, hboth.2⟩), h.incoming_iff]
      simp only [hother, or_false]
  incoming_nodup := by
    rw [RelKind.incoming_linked]
    split
    · exact nodup_insertNew h.incoming_nodup
    · exact h.incoming_nodup

/-- Reading the relation of a child once more changes nothing. -/
theorem ReadFrom.again (h : item.ReadFrom generation line relations) {relation : Relation}
    (hmem : relation ∈ relations) (hkind : relation.kind = .child) :
    item.ReadFrom generation line (relations ++ [relation]) where
  name_eq := h.name_eq
  kind_eq := h.kind_eq
  flag_eq := h.flag_eq
  targets_eq := by
    intro kind
    rw [h.targets_eq, filter_concat, List.map_append]
    split
    · rename_i hlast
      obtain ⟨hraw, rfl⟩ := hlast
      have hin : (⟨relation.target, generation⟩ : ItemId) ∈ relation.kind.gather
          ((relations.filter
            (fun other => other.source = line.raw ∧ other.kind = relation.kind)).map
              (fun other => ⟨other.target, generation⟩)) := by
        rw [RelKind.mem_gather_iff (by rw [hkind]; rfl)]
        exact List.mem_map.2 ⟨relation, List.mem_filter.2 ⟨hmem, by simp [hraw]⟩, rfl⟩
      rw [List.map_singleton, RelKind.gather_concat, RelKind.taking, if_neg (by simp [hkind,
        RelKind.isSingle]), if_pos ⟨by simp [hkind], hin⟩]
    · rw [List.map_nil, List.append_nil]
  slot_eq := h.slot_eq
  parent_iff := by
    intro owner
    have hiff : ⟨owner.raw, line.raw, .child⟩ ∈ relations ++ [relation] ↔
        ⟨owner.raw, line.raw, .child⟩ ∈ relations := by
      rw [List.mem_append, List.mem_singleton]
      exact ⟨fun hor => hor.elim (fun hold => hold) (fun heq => heq ▸ hmem), Or.inl⟩
    rw [h.parent_iff, hiff]
  incoming_iff := by
    intro source
    have hne : (⟨source.raw, line.raw, .dependency⟩ : Relation) ≠ relation := by
      rintro rfl
      simp at hkind
    rw [h.incoming_iff, List.mem_append, List.mem_singleton]
    simp only [hne, or_false]
  incoming_nodup := h.incoming_nodup

/-- The item of a line when no relation was read yet. -/
def bare (generation : Nat) (line : ItemLine) : Item :=
  (Item.fresh ⟨line.raw, generation⟩ line.name line.kind none).setFlags line.keys

theorem get?_bare (generation : Nat) (line : ItemLine) (key : AttrKey) :
    (bare generation line).attributes.get? key =
      if key ∈ line.keys then some (.flag true) else none := by
  rw [bare, get?_setFlags]
  simp [fresh, Attributes.get?, Attributes.empty]

theorem readFrom_bare (generation : Nat) (line : ItemLine) :
    (bare generation line).ReadFrom generation line [] := by
  have hnone : ∀ {kind : RelKind} {key : AttrKey}, kind.key? = some key →
      (bare generation line).attributes.get? key = none := by
    intro kind key hkey
    rw [get?_bare, if_neg (ItemLine.key?_notMem_keys hkey line)]
  have htargets : ∀ kind : RelKind, kind.targets (bare generation line) = [] := by
    intro kind
    cases hkey : kind.key? with
    | some key =>
      rw [RelKind.targets_eq_held hkey, hnone hkey]
      simp [RelKind.held]
    | none =>
      rw [bare, setFlags_eq]
      obtain rfl | rfl := RelKind.eq_of_key?_eq_none hkey <;> rfl
  refine ⟨?_, ?_, fun entry _ => get?_bare generation line entry.1, htargets, ?_, ?_, ?_, ?_⟩
  · rw [bare, setFlags_eq]
    rfl
  · rw [bare, setFlags_eq]
    rfl
  · intro kind key hkey
    rw [hnone hkey, htargets]
    rfl
  · intro owner
    rw [bare, setFlags_eq]
    simp [fresh]
  · intro source
    rw [bare, setFlags_eq]
    simp [fresh]
  · rw [bare, setFlags_eq]
    exact List.nodup_nil

end Item

/-! ## The index between two lines -/

namespace Index

/-- The number that is handed out next is the one after the highest, or the first of all. -/
structure CountsUp (index : Index) : Prop where
  above : ∀ {id : ItemId}, index.contains id → id.raw + 1 ≤ index.nextRaw
  reached : index.nextRaw = 0 ∨ ∃ id, index.contains id ∧ index.nextRaw = id.raw + 1

/-- The index after some items and relations were read. -/
structure Restored (generation : Nat) (lines : List ItemLine) (relations : List Relation)
    (index : Index) : Prop where
  stacked : index.IsStacked
  below_eq : index.below = []
  generation_eq : index.generation = generation
  first_eq : index.top.firstRaw = 0
  counts : index.CountsUp
  holds : ∀ line ∈ lines, ∃ item, index.get? ⟨line.raw, generation⟩ = some item ∧
    item.ReadFrom generation line relations
  covers : ∀ id, index.contains id → ∃ line ∈ lines, id = ⟨line.raw, generation⟩
  ends : ∀ relation ∈ relations, (∃ line ∈ lines, line.raw = relation.source) ∧
    ∃ line ∈ lines, line.raw = relation.target
  irrefl : ∀ relation ∈ relations, relation.isLoop = false

variable {lines : List ItemLine} {index after : Index}

theorem restored_empty (generation : Nat) : Restored generation [] [] (empty generation) where
  stacked := isStacked_empty generation
  below_eq := rfl
  generation_eq := rfl
  first_eq := rfl
  counts := ⟨by simp [contains, get?_empty], Or.inl rfl⟩
  holds := by simp
  covers := by simp [contains, get?_empty]
  ends := by simp
  irrefl := by simp

theorem Restored.contains (h : Restored generation lines relations index) (hline : line ∈ lines) :
    index.contains ⟨line.raw, generation⟩ := by
  obtain ⟨item, hitem, _⟩ := h.holds line hline
  rw [Index.contains, hitem]
  rfl

/-- Every item was read from a line. -/
theorem Restored.exists_line (h : Restored generation lines relations index) {id : ItemId}
    (hget : index.get? id = some item) :
    ∃ line ∈ lines, id = ⟨line.raw, generation⟩ ∧ item.ReadFrom generation line relations := by
  obtain ⟨line, hline, rfl⟩ := h.covers id (by rw [Index.contains, hget]; rfl)
  obtain ⟨same, hsame, hread⟩ := h.holds line hline
  obtain rfl := Option.some.inj (hget.symm.trans hsame)
  exact ⟨line, hline, rfl, hread⟩

theorem Restored.endpoint_eq_ok_iff (h : Restored generation lines relations index) {raw : UInt32}
    {id : ItemId} : Relation.endpoint index raw = .ok id ↔
      id = ⟨raw, generation⟩ ∧ ∃ line ∈ lines, line.raw = raw := by
  have hresolve : ∀ {id : ItemId}, index.resolveRaw raw = some id ↔
      id = ⟨raw, generation⟩ ∧ ∃ line ∈ lines, line.raw = raw := by
    intro id
    rw [resolveRaw_eq_some_iff h.stacked, mem_ids_iff h.stacked]
    constructor
    · rintro ⟨hid, rfl⟩
      obtain ⟨line, hline, rfl⟩ := h.covers id hid
      exact ⟨rfl, line, hline, rfl⟩
    · rintro ⟨rfl, line, hline, rfl⟩
      exact ⟨h.contains hline, rfl⟩
  rw [Relation.endpoint]
  split
  · rename_i found hfound
    rw [← hresolve, hfound, Option.some.injEq, Except.ok.injEq]
  · rename_i hfound
    rw [← hresolve, hfound]
    simp

/-! ## Item lines -/

/-- The index with the bare item of a line. -/
def withBare (index : Index) (line : ItemLine) : Index :=
  (index.store (.fresh ⟨line.raw, index.generation⟩ line.name line.kind none)).modify
    ⟨line.raw, index.generation⟩ (Item.setFlags line.keys)

section WithBare

variable (hfirst : index.top.firstRaw = 0)

include hfirst

/-- A line is read exactly when it is an item line with known flags and a number that is free. -/
theorem insert_eq_ok_iff {text : String} : ItemLine.insert index text = .ok after ↔
    ∃ line, ItemLine.ofText? text = some line ∧ (ItemLine.flagKeys? line.flags).isSome ∧
      index.contains ⟨line.raw, index.generation⟩ = false ∧ after = index.withBare line := by
  rw [ItemLine.insert]
  cases hparse : ItemLine.ofText? text with
  | none => simp
  | some line =>
    have hle : ¬ line.raw < index.top.firstRaw := by
      rw [hfirst]
      exact UInt32.not_lt.2 UInt32.zero_le
    have hraw : index.insertRaw line.raw line.name line.kind =
        if index.contains ⟨line.raw, index.generation⟩ then .error (.numberTaken line.raw)
        else .ok (⟨line.raw, index.generation⟩,
          index.store (.fresh ⟨line.raw, index.generation⟩ line.name line.kind none)) :=
      if_neg hle
    simp only [hraw, Option.some.injEq, exists_eq_left']
    by_cases hfree : index.contains ⟨line.raw, index.generation⟩ = true
    · simp [hfree]
    · rw [if_neg hfree]
      cases hkeys : ItemLine.flagKeys? line.flags with
      | none => simp
      | some keys =>
        have hline : line.keys = keys := by rw [ItemLine.keys, hkeys]; rfl
        simp only [Option.isSome_some, Bool.eq_false_iff.2 hfree, true_and, Except.ok.injEq]
        rw [@eq_comm _ after, withBare, hline]
        rfl

theorem get?_withBare (line : ItemLine) (id : ItemId) : (index.withBare line).get? id =
    if id = ⟨line.raw, index.generation⟩ then some (.bare index.generation line)
    else index.get? id := by
  have hstore : ∀ other, (index.store
      (.fresh ⟨line.raw, index.generation⟩ line.name line.kind none)).get? other =
        if other = ⟨line.raw, index.generation⟩ then
          some (.fresh ⟨line.raw, index.generation⟩ line.name line.kind none)
        else index.get? other :=
    get?_store ⟨rfl, by rw [hfirst]; exact UInt32.zero_le⟩
  rw [withBare, get?_modify, hstore, hstore, if_pos rfl]
  split <;> rfl

theorem books_withBare (line : ItemLine) :
    (index.IsStacked → (index.withBare line).IsStacked) ∧
      (index.withBare line).below = index.below ∧
      (index.withBare line).generation = index.generation ∧
      (index.withBare line).top.firstRaw = index.top.firstRaw ∧
      (index.withBare line).nextRaw = max index.nextRaw (line.raw + 1) := by
  have hfits : index.Fits
      (Item.fresh ⟨line.raw, index.generation⟩ line.name line.kind none).id :=
    ⟨rfl, by rw [hfirst]; exact UInt32.zero_le⟩
  have htop := top_store hfits
  have hshape : SameShape _ (index.withBare line) := sameShape_modify _ _
    (fun item => by rw [Item.setFlags_eq])
  refine ⟨fun h => hshape.stacked (isStacked_store h hfits), hshape.below_eq, ?_, ?_, ?_⟩
  · rw [hshape.generation_eq, generation, htop]
    rfl
  · rw [hshape.first_eq, htop]
  · rw [hshape.next_eq, nextRaw, htop]
    rfl

theorem contains_withBare_iff (line : ItemLine) (id : ItemId) :
    (index.withBare line).contains id ↔
      id = ⟨line.raw, index.generation⟩ ∨ index.contains id := by
  rw [Index.contains, get?_withBare hfirst]
  split
  · rename_i hid
    simp [hid]
  · rename_i hid
    simp [hid, Index.contains]

theorem CountsUp.withBare (h : index.CountsUp) (line : ItemLine) :
    (index.withBare line).CountsUp := by
  obtain ⟨_, _, _, _, hnext⟩ := books_withBare hfirst line
  have hle : index.nextRaw ≤ max index.nextRaw (line.raw + 1) ∧
      line.raw + 1 ≤ max index.nextRaw (line.raw + 1) := by
    simp only [UInt32.le_iff_toNat_le, UInt32.toNat_max]
    omega
  constructor
  · intro id hid
    rw [hnext]
    rcases (contains_withBare_iff hfirst line id).1 hid with rfl | hold
    · exact hle.2
    · exact UInt32.le_trans (h.above hold) hle.1
  · rw [hnext]
    rcases UInt32.le_total index.nextRaw (line.raw + 1) with hless | hmore
    · exact Or.inr ⟨_, (contains_withBare_iff hfirst line _).2 (Or.inl rfl), if_pos hless⟩
    · have hmax : max index.nextRaw (line.raw + 1) = index.nextRaw := by
        apply UInt32.toNat_inj.1
        rw [UInt32.toNat_max]
        exact Nat.max_eq_left (UInt32.le_iff_toNat_le.1 hmore)
      rw [hmax]
      refine h.reached.imp_right (fun ⟨id, hid, heq⟩ => ⟨id, ?_, heq⟩)
      exact (contains_withBare_iff hfirst line id).2 (Or.inr hid)

end WithBare

/-- An item line with a new number adds its item. -/
theorem Restored.withBare (h : Restored generation lines [] index)
    (hfree : index.contains ⟨line.raw, index.generation⟩ = false) :
    Restored generation (lines ++ [line]) [] (index.withBare line) := by
  obtain rfl := h.generation_eq
  obtain ⟨hstacked, hbelow, hgeneration, hfirst, _⟩ := books_withBare h.first_eq line
  have hget := get?_withBare h.first_eq line
  refine ⟨hstacked h.stacked, hbelow.trans h.below_eq, hgeneration, hfirst.trans h.first_eq,
    h.counts.withBare h.first_eq line, ?_, ?_, by simp, by simp⟩
  · intro other hother
    rw [List.mem_append, List.mem_singleton] at hother
    rcases hother with hold | rfl
    · obtain ⟨item, hitem, hread⟩ := h.holds other hold
      have hne : (⟨other.raw, index.generation⟩ : ItemId) ≠ ⟨line.raw, index.generation⟩ := by
        intro heq
        have hin := h.contains hold
        rw [heq, hfree] at hin
        simp at hin
      exact ⟨item, by rw [hget, if_neg hne, hitem], hread⟩
    · exact ⟨_, by rw [hget, if_pos rfl], Item.readFrom_bare _ other⟩
  · intro id hid
    rcases (contains_withBare_iff h.first_eq line id).1 hid with rfl | hold
    · exact ⟨line, by simp, rfl⟩
    · obtain ⟨other, hother, heq⟩ := h.covers id hold
      exact ⟨other, List.mem_append_left _ hother, heq⟩

/-- The lines of items with new numbers are read. -/
theorem Restored.insert (h : Restored generation lines [] index) {item : Item}
    (hnew : ∀ other ∈ lines, other.raw ≠ item.id.raw) :
    ∃ after, ItemLine.insert index (ItemLine.ofItem item).text = .ok after ∧
      Restored generation (lines ++ [ItemLine.ofItem item]) [] after := by
  have hfree : index.contains ⟨item.id.raw, index.generation⟩ = false := by
    rw [Bool.eq_false_iff]
    intro hin
    obtain ⟨other, hother, heq⟩ := h.covers _ hin
    exact hnew other hother (ItemId.mk.inj heq).1.symm
  refine ⟨_, (insert_eq_ok_iff h.first_eq).2 ⟨_, ItemLine.ofText?_text
    (ItemLine.hasFlagWord_ofItem item), ?_, hfree, rfl⟩, h.withBare hfree⟩
  rw [ItemLine.flagKeys?_ofItem]
  rfl

/-- A line that is read adds the item that it holds. -/
theorem Restored.of_insert (h : Restored generation lines [] index) {text : String}
    (hinsert : ItemLine.insert index text = .ok after) :
    Restored generation (lines ++ (ItemLine.ofText? text).toList) [] after := by
  obtain ⟨line, hparse, _, hfree, rfl⟩ := (insert_eq_ok_iff h.first_eq).1 hinsert
  rw [hparse]
  exact h.withBare hfree

/-! ## Relation lines -/

/-- A relation line between items adds its link, if it gives no item a second owner. -/
theorem Restored.apply (h : Restored generation lines relations index) {relation : Relation}
    (hsource : ∃ line ∈ lines, line.raw = relation.source)
    (htarget : ∃ line ∈ lines, line.raw = relation.target)
    (hchild : relation.kind = .child → ∀ source, ⟨source, relation.target, .child⟩ ∉ relations)
    (hloop : relation.isLoop = false) :
    ∃ after, relation.apply index = .ok after ∧
      Restored generation lines (relations ++ [relation]) after := by
  have hsourceEnd := h.endpoint_eq_ok_iff.2 ⟨rfl, hsource⟩
  have htargetEnd := h.endpoint_eq_ok_iff.2 ⟨rfl, htarget⟩
  have hcontains : ∀ {raw}, (∃ line ∈ lines, line.raw = raw) →
      index.contains ⟨raw, generation⟩ := by
    rintro _ ⟨line, hline, rfl⟩
    exact h.contains hline
  have hparent : relation.kind = .child → ∀ item,
      index.get? ⟨relation.target, generation⟩ = some item → item.parent = none := by
    intro hkind item hget
    obtain ⟨line, hline, hid, hread⟩ := h.exists_line hget
    rw [Option.eq_none_iff_forall_ne_some]
    intro owner howner
    have hearlier := ((hread.parent_iff owner).1 howner).2
    rw [← (ItemId.mk.inj hid).1] at hearlier
    exact hchild hkind _ hearlier
  obtain ⟨after, hlink, hshape, hget⟩ := @Relation.exists_link index ⟨relation.source, generation⟩
    ⟨relation.target, generation⟩ relation.kind (hcontains hsource) (hcontains htarget) hparent
    (fun hkind heq => by simp [Relation.isLoop, hkind, (ItemId.mk.inj heq).1] at hloop)
  have hin : ∀ id, after.contains id ↔ index.contains id := by
    intro id
    rw [Index.contains, Index.contains, hget, Option.isSome_map]
  refine ⟨after, ?_, ?_⟩
  · rw [Relation.apply, hsourceEnd, htargetEnd]
    exact hlink
  · refine ⟨hshape.stacked h.stacked, hshape.below_eq.trans h.below_eq,
      hshape.generation_eq.trans h.generation_eq, hshape.first_eq.trans h.first_eq, ?_, ?_, ?_, ?_,
      ?_⟩
    · constructor
      · intro id hid
        rw [hshape.next_eq]
        exact h.counts.above ((hin id).1 hid)
      · rw [hshape.next_eq]
        refine h.counts.reached.imp_right ?_
        rintro ⟨id, hid, heq⟩
        exact ⟨id, (hin id).2 hid, heq⟩
    · intro line hline
      obtain ⟨item, hitem, hread⟩ := h.holds line hline
      exact ⟨_, by rw [hget, hitem, Option.map_some], hread.link hchild⟩
    · exact fun id hid => h.covers id ((hin id).1 hid)
    · intro other hother
      rcases List.mem_append.1 hother with hold | hlast
      · exact h.ends other hold
      · obtain rfl := List.mem_singleton.1 hlast
        exact ⟨hsource, htarget⟩
    · intro other hother
      rcases List.mem_append.1 hother with hold | hlast
      · exact h.irrefl other hold
      · obtain rfl := List.mem_singleton.1 hlast
        exact hloop

/-- Reading the relation of a child once more changes nothing. -/
theorem Restored.again (h : Restored generation lines relations index) {relation : Relation}
    (hmem : relation ∈ relations) (hkind : relation.kind = .child) :
    Restored generation lines (relations ++ [relation]) index := by
  have hold : ∀ other ∈ relations ++ [relation], other ∈ relations := by
    intro other hother
    rw [List.mem_append, List.mem_singleton] at hother
    exact hother.elim id (fun heq => heq ▸ hmem)
  refine ⟨h.stacked, h.below_eq, h.generation_eq, h.first_eq, h.counts, ?_, h.covers,
    fun other hother => h.ends other (hold other hother),
    fun other hother => h.irrefl other (hold other hother)⟩
  intro line hline
  obtain ⟨item, hitem, hread⟩ := h.holds line hline
  exact ⟨item, hitem, hread.again hmem hkind⟩

/-- A relation that is read links items; a second owner is refused, and so the link of a child that
is read again, like a link of an item to itself, changes nothing. -/
theorem Restored.of_apply (h : Restored generation lines relations index) {relation : Relation}
    (happly : relation.apply index = .ok after) :
    Restored generation lines
      (relations ++ if relation.isLoop then [] else [relation]) after := by
  rw [Relation.apply] at happly
  split at happly
  · rename_i source target hsourceEnd htargetEnd
    obtain ⟨rfl, hsource⟩ := h.endpoint_eq_ok_iff.1 hsourceEnd
    obtain ⟨rfl, htarget⟩ := h.endpoint_eq_ok_iff.1 htargetEnd
    by_cases hloop : relation.isLoop = true
    · have hboth := hloop
      simp only [Relation.isLoop, decide_eq_true_eq] at hboth
      rw [hboth.1, hboth.2, Relation.link, Index.addDependency] at happly
      simp only [decide_true, Bool.true_or, if_true, Except.ok.injEq] at happly
      rw [if_pos hloop, List.append_nil, ← happly]
      exact h
    · rw [if_neg hloop]
      by_cases hagain : relation.kind = .child ∧ relation ∈ relations
      · obtain ⟨line, hline, hraw⟩ := htarget
        obtain ⟨item, hitem, hread⟩ := h.holds line hline
        rw [hraw] at hitem
        have howner : item.parent = some ⟨relation.source, generation⟩ := by
          rw [hread.parent_iff, hraw, ← hagain.1]
          exact ⟨rfl, hagain.2⟩
        rw [hagain.1] at happly
        rw [(Relation.eq_of_link_child happly hitem howner).2,
          copyUp_of_generation h.generation_eq.symm]
        exact h.again hagain.2 hagain.1
      · have hchild : relation.kind = .child →
            ∀ source, ⟨source, relation.target, .child⟩ ∉ relations := by
          intro hkind source hmem
          obtain ⟨line, hline, hraw⟩ := htarget
          obtain ⟨item, hitem, hread⟩ := h.holds line hline
          rw [hraw] at hitem
          have howner : item.parent = some ⟨source, generation⟩ := by
            rw [hread.parent_iff, hraw]
            exact ⟨rfl, hmem⟩
          rw [hkind] at happly
          have heq := (ItemId.mk.inj (Relation.eq_of_link_child happly hitem howner).1).1
          rw [heq, ← hkind] at hmem
          exact hagain ⟨hkind, hmem⟩
        obtain ⟨same, hsame, hrestored⟩ := h.apply hsource htarget hchild (by simpa using hloop)
        rw [Relation.apply, hsourceEnd, htargetEnd] at hsame
        obtain rfl := Except.ok.inj (happly.symm.trans hsame)
        exact hrestored
  · simp at happly
  · simp at happly

end Index

end CodeAtlas
