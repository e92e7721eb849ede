/-
# The registry

What the registry lists after items were entered, and how lists of handles without repetition are
built.  A registry filled from a list of items finds, for every key, the items of the list with
that key in the order of the list.
-/
import CodeAtlas.Index.Basic
import Mathlib.Data.List.Induction
import Mathlib.Data.List.Basic

namespace CodeAtlas

/-! ## Lists without repetition -/

theorem mem_insertNew {ids : Array ItemId} {id other : ItemId} :
    other ∈ (insertNew ids id).toList ↔ other ∈ ids.toList ∨ other = id := by
  rw [insertNew]
  split
  · rename_i hmem
    rw [Array.contains_iff_mem, ← Array.mem_toList_iff] at hmem
    constructor
    · exact Or.inl
    · rintro (h | rfl)
      · exact h
      · exact hmem
  · simp

theorem nodup_insertNew {ids : Array ItemId} {id : ItemId} (h : ids.toList.Nodup) :
    (insertNew ids id).toList.Nodup := by
  rw [insertNew]
  split
  · exact h
  · rename_i hmem
    rw [Array.contains_iff_mem, ← Array.mem_toList_iff] at hmem
    rw [Array.toList_push, List.nodup_append]
    refine ⟨h, by simp, ?_⟩
    rintro a ha b hb rfl
    exact hmem (List.mem_singleton.1 hb ▸ ha)

/-- Adding a new handle appends it. -/
theorem toList_insertNew_of_notMem {ids : Array ItemId} {id : ItemId} (h : id ∉ ids.toList) :
    (insertNew ids id).toList = ids.toList ++ [id] := by
  have hout : ids.contains id = false := by
    rwa [← Bool.not_eq_true, Array.contains_iff_mem, ← Array.mem_toList_iff]
  rw [insertNew, hout]
  simp

/-- Adding a handle that is there changes nothing. -/
theorem insertNew_of_mem {ids : Array ItemId} {id : ItemId} (h : id ∈ ids.toList) :
    insertNew ids id = ids := by
  rw [insertNew, if_pos (Array.contains_iff_mem.2 (Array.mem_toList_iff.1 h))]

/-- The handles of a list that are not among those seen, in order of first occurrence. -/
def newIn : List ItemId → List ItemId → List ItemId
  | _, [] => []
  | seen, id :: rest => if id ∈ seen then newIn seen rest else id :: newIn (seen ++ [id]) rest

theorem newIn_cons_of_mem {seen rest : List ItemId} {id : ItemId} (h : id ∈ seen) :
    newIn seen (id :: rest) = newIn seen rest := by
  rw [newIn, if_pos h]

theorem newIn_cons_of_notMem {seen rest : List ItemId} {id : ItemId} (h : id ∉ seen) :
    newIn seen (id :: rest) = id :: newIn (seen ++ [id]) rest := by
  rw [newIn, if_neg h]

theorem mem_newIn_iff {seen new : List ItemId} {id : ItemId} :
    id ∈ newIn seen new ↔ id ∈ new ∧ id ∉ seen := by
  induction new generalizing seen with
  | nil => simp [newIn]
  | cons first rest ih =>
    by_cases hfirst : first ∈ seen
    · rw [newIn_cons_of_mem hfirst, ih, List.mem_cons]
      refine and_congr_left (fun hid => ⟨Or.inr, fun hor => hor.resolve_left ?_⟩)
      exact fun heq => hid (heq ▸ hfirst)
    · rw [newIn_cons_of_notMem hfirst, List.mem_cons, ih, List.mem_cons, List.mem_append,
        List.mem_singleton]
      by_cases hid : id = first
      · simp [hid, hfirst]
      · simp [hid]

theorem newIn_eq_self {seen new : List ItemId} (h : (seen ++ new).Nodup) :
    newIn seen new = new := by
  induction new generalizing seen with
  | nil => rfl
  | cons first rest ih =>
    have hfirst : first ∉ seen := fun hmem =>
      (List.nodup_append.1 h).2.2 first hmem first List.mem_cons_self rfl
    rw [newIn_cons_of_notMem hfirst, ih (by simpa using h)]

theorem newIn_append (seen front back : List ItemId) :
    newIn seen (front ++ back) = newIn seen front ++ newIn (seen ++ newIn seen front) back := by
  induction front generalizing seen with
  | nil => simp [newIn]
  | cons first rest ih =>
    rw [List.cons_append]
    by_cases hfirst : first ∈ seen
    · rw [newIn_cons_of_mem hfirst, newIn_cons_of_mem hfirst, ih]
    · rw [newIn_cons_of_notMem hfirst, newIn_cons_of_notMem hfirst, ih, List.cons_append,
        List.append_assoc, List.singleton_append]

/-- Handles that were seen can be left out before. -/
theorem newIn_filter (seen front new : List ItemId) :
    newIn (seen ++ front) new = newIn front (new.filter (fun id => !seen.contains id)) := by
  induction new generalizing front with
  | nil => rfl
  | cons first rest ih =>
    by_cases hseen : first ∈ seen
    · rw [newIn_cons_of_mem (List.mem_append_left front hseen), ih, List.filter_cons_of_neg]
      simpa using hseen
    · rw [List.filter_cons_of_pos (by simpa using hseen)]
      by_cases hfront : first ∈ front
      · rw [newIn_cons_of_mem (List.mem_append_right seen hfront), newIn_cons_of_mem hfront, ih]
      · have hnew : first ∉ seen ++ front := fun hmem =>
          (List.mem_append.1 hmem).elim hseen hfront
        rw [newIn_cons_of_notMem hnew, newIn_cons_of_notMem hfront, List.append_assoc, ih]

theorem nodup_append_newIn {seen : List ItemId} (h : seen.Nodup) (new : List ItemId) :
    (seen ++ newIn seen new).Nodup := by
  induction new generalizing seen with
  | nil => simpa [newIn] using h
  | cons first rest ih =>
    by_cases hfirst : first ∈ seen
    · rw [newIn_cons_of_mem hfirst]
      exact ih h
    · rw [newIn_cons_of_notMem hfirst, ← List.singleton_append, ← List.append_assoc]
      refine ih (List.nodup_append.2 ⟨h, List.pairwise_singleton _ _, ?_⟩)
      rintro a ha b hb rfl
      exact hfirst (List.mem_singleton.1 hb ▸ ha)

/-- New handles stand in the order of their first occurrence. -/
theorem pairwise_newIn (seen new : List ItemId) :
    (newIn seen new).Pairwise (fun a b =>
      ∃ before after, new = before ++ a :: after ∧ a ∉ before ∧ b ∉ before) := by
  -- the list that was gone through, none of it new any more, grows by one
  have hrest : ∀ (rest front seen : List ItemId), (∀ id ∈ front, id ∈ seen) →
      (newIn seen rest).Pairwise (fun a b =>
        ∃ before after, front ++ rest = before ++ a :: after ∧ a ∉ before ∧ b ∉ before) := by
    intro rest
    induction rest with
    | nil => exact fun _ _ _ => .nil
    | cons first rest ih =>
      intro front seen hfront
      have hnext := ih (front ++ [first])
      rw [List.append_assoc, List.singleton_append] at hnext
      by_cases hfirst : first ∈ seen
      · rw [newIn_cons_of_mem hfirst]
        refine hnext seen (fun id hid => ?_)
        rcases List.mem_append.1 hid with hold | hlast
        · exact hfront id hold
        · exact List.mem_singleton.1 hlast ▸ hfirst
      · rw [newIn_cons_of_notMem hfirst]
        refine .cons (fun b hb => ⟨front, rest, rfl, fun hmem => hfirst (hfront first hmem), ?_⟩) ?_
        · intro hmem
          exact (mem_newIn_iff.1 hb).2 (List.mem_append_left _ (hfront b hmem))
        · refine hnext (seen ++ [first]) (fun id hid => ?_)
          rcases List.mem_append.1 hid with hold | hlast
          · exact List.mem_append_left _ (hfront id hold)
          · exact List.mem_append_right _ hlast
  simpa using hrest new [] seen (by simp)

/-- Adding handles one by one appends those that are new. -/
theorem toList_foldl_insertNew (ids : Array ItemId) (new : List ItemId) :
    (new.foldl insertNew ids).toList = ids.toList ++ newIn ids.toList new := by
  induction new generalizing ids with
  | nil => simp [newIn]
  | cons first rest ih =>
    rw [List.foldl_cons, ih]
    by_cases hfirst : first ∈ ids.toList
    · rw [insertNew_of_mem hfirst, newIn_cons_of_mem hfirst]
    · rw [toList_insertNew_of_notMem hfirst, newIn_cons_of_notMem hfirst, List.append_assoc,
        List.singleton_append]

theorem toList_distinct (ids : List ItemId) : (distinct ids).toList = newIn [] ids := by
  rw [distinct, toList_foldl_insertNew, List.toList_toArray, List.nil_append]

theorem distinct_eq_self {ids : List ItemId} (h : ids.Nodup) : distinct ids = ids.toArray := by
  rw [← Array.toList_inj, toList_distinct, newIn_eq_self (by simpa using h)]

theorem mem_foldl_insertNew {ids : Array ItemId} {new : List ItemId} {id : ItemId} :
    id ∈ (new.foldl insertNew ids).toList ↔ id ∈ ids.toList ∨ id ∈ new := by
  rw [toList_foldl_insertNew, List.mem_append, mem_newIn_iff, or_and_left, and_iff_left (em _)]

theorem mem_distinct {ids : List ItemId} {id : ItemId} : id ∈ distinct ids ↔ id ∈ ids := by
  rw [← Array.mem_toList_iff, distinct, mem_foldl_insertNew]
  simp

/-! ## Entering items -/

namespace Registry

/-- The handles under a key after one more item was entered. -/
theorem withKey_add (registry : Registry) (item : Item) (key : ItemKey) :
    (registry.add item).withKey key = registry.withKey key ++
      if (⟨item.parent, item.kind, item.name⟩ : ItemKey) = key then [item.id] else [] := by
  simp only [withKey, add, Std.TreeMap.getD_alter, Std.compare_eq_iff_eq]
  split
  · rename_i heq
    rw [heq, Std.TreeMap.getD_eq_getD_getElem?]
    cases registry.byKey[key]? <;> simp [pushTo]
  · simp

/-- The handles under a kind and name after one more item was entered. -/
theorem withName_add (registry : Registry) (item : Item) (key : NameKey) :
    (registry.add item).withName key = registry.withName key ++
      if (⟨item.kind, item.name⟩ : NameKey) = key then [item.id] else [] := by
  simp only [withName, add, Std.TreeMap.getD_alter, Std.compare_eq_iff_eq]
  split
  · rename_i heq
    rw [heq, Std.TreeMap.getD_eq_getD_getElem?]
    cases registry.byName[key]? <;> simp [pushTo]
  · simp

@[simp] theorem withKey_empty (key : ItemKey) : empty.withKey key = [] := by
  simp [withKey, empty]

@[simp] theorem withName_empty (key : NameKey) : empty.withName key = [] := by
  simp [withName, empty]

/-- Entering a list of items lists those of a key in the order of the list. -/
theorem withKey_foldl_add (items : List Item) (registry : Registry) (key : ItemKey) :
    (items.foldl add registry).withKey key = registry.withKey key ++
      (items.filter (fun item => (⟨item.parent, item.kind, item.name⟩ : ItemKey) = key)).map
        Item.id := by
  induction items generalizing registry with
  | nil => simp
  | cons item rest ih =>
    rw [List.foldl_cons, ih, withKey_add, List.filter_cons]
    by_cases h : (⟨item.parent, item.kind, item.name⟩ : ItemKey) = key <;> simp [h]

/-- Entering a list of items lists those of a kind and name in the order of the list. -/
theorem withName_foldl_add (items : List Item) (registry : Registry) (key : NameKey) :
    (items.foldl add registry).withName key = registry.withName key ++
      (items.filter (fun item => (⟨item.kind, item.name⟩ : NameKey) = key)).map Item.id := by
  induction items generalizing registry with
  | nil => simp
  | cons item rest ih =>
    rw [List.foldl_cons, ih, withName_add, List.filter_cons]
    by_cases h : (⟨item.kind, item.name⟩ : NameKey) = key <;> simp [h]

end Registry

end CodeAtlas
