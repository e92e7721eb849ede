/-
# How an index comes about

Every index is made by a few changes from an empty one: a new layer, an item changed in place, an item
stored under a number of the upper layer, and new books, which number and register items.  Operations,
pruning and reading a snapshot are made of these.  However they are mixed, whatever the links look like
and even when the numbers run out, every handle that names an item is listed.
-/
import CodeAtlas.Proofs.Index.Durable
import CodeAtlas.Proofs.Index.Walks
import CodeAtlas.Proofs.Snapshot.Reading

namespace CodeAtlas

namespace Index

variable {holds : Index → Prop} {index : Index}

/-! ## Pruning -/

theorem holds_adoptAll
    (hadopt : ∀ {index : Index} (item : Item), holds index → holds (index.adopt item).2)
    (source : Index) (ids : List ItemId) {target : Index} (htarget : holds target) :
    holds (source.adoptAll target ids).2 := by
  induction ids generalizing target with
  | nil => exact htarget
  | cons id rest ih =>
    rw [Index.adoptAll]
    cases source.get? id with
    | none => exact ih htarget
    | some item => exact ih (hadopt item htarget)

/-- What pruning leaves is made anew, whatever was pruned. -/
theorem holds_prune
    (hadopt : ∀ {index : Index} (item : Item), holds index → holds (index.adopt item).2)
    (hmodify : ∀ {index : Index} {f : Item → Item} (id : ItemId), (∀ item, (f item).id = item.id) →
      holds index → holds (index.modify id f))
    (hregistry : ∀ {index : Index}, holds index → holds index.rebuildRegistry)
    {generation : Nat} (hempty : holds (empty generation)) (index : Index) :
    holds (index.prune generation).index := by
  have hfold : ∀ {f : Item → Item}, (∀ item, (f item).id = item.id) →
      ∀ (renamed : List (ItemId × ItemId)) {copies : Index}, holds copies →
        holds (renamed.foldl (fun copies entry => copies.modify entry.2 f) copies) := by
    intro f hid renamed
    induction renamed with
    | nil => exact fun hcopies => hcopies
    | cons entry rest ih => exact fun hcopies => ih (hmodify entry.2 hid hcopies)
  have hcopies := holds_adoptAll hadopt index (index.ids.filter index.retained.contains) hempty
  refine hregistry (hfold ?_ _ hcopies)
  exact fun _ => rfl

/-! ## Reading a snapshot -/

theorem Lasting.insertLine (h : Lasting holds) (hindex : holds index) {line : String} {after : Index}
    (hinsert : ItemLine.insert index line = .ok after) : holds after := by
  rw [ItemLine.insert] at hinsert
  split at hinsert
  · simp at hinsert
  · split at hinsert
    · simp at hinsert
    · rename_i id middle hraw
      split at hinsert
      · simp at hinsert
      · rename_i keys _
        obtain rfl := Except.ok.inj hinsert
        -- flags change neither the handle of an item nor its links
        have hflags : ∀ item : Item,
            (keys.foldl (fun item key => item.setFlag key true) item).id = item.id ∧
            (keys.foldl (fun item key => item.setFlag key true) item).dependencies =
              item.dependencies ∧
            (keys.foldl (fun item key => item.setFlag key true) item).incoming = item.incoming :=
          fun item => List.foldlRecOn (motive := fun changed : Item => changed.id = item.id ∧
            changed.dependencies = item.dependencies ∧ changed.incoming = item.incoming)
            keys _ ⟨rfl, rfl, rfl⟩ (fun _ hsame _ _ => hsame)
        exact h.modify id (fun item => (hflags item).1) (fun item => (hflags item).2)
          (h.insertRaw hindex hraw)

theorem Lasting.link (h : Lasting holds) (hindex : holds index) {source target : ItemId}
    {kind : RelKind} {after : Index} (hlink : Relation.link index source target kind = .ok after) :
    holds after := by
  cases kind with
  | child =>
    rw [Relation.link] at hlink
    cases hset : index.setParent target source with
    | error error =>
      rw [hset] at hlink
      simp [Except.mapError] at hlink
    | ok linked =>
      rw [hset] at hlink
      obtain rfl := Except.ok.inj hlink
      exact h.setParent hindex hset
  | dependency =>
    obtain rfl := Except.ok.inj hlink
    exact h.addDependency source target hindex
  | _ =>
    obtain rfl := Except.ok.inj hlink
    exact h.modify source (fun _ => rfl) (fun _ => ⟨rfl, rfl⟩) hindex

theorem Lasting.readRelation (h : Lasting holds) (hindex : holds index) {line : String}
    {after : Index} (hread : Snapshot.readRelation index line = .ok after) : holds after := by
  rw [Snapshot.readRelation] at hread
  split at hread
  · simp at hread
  · rw [Relation.apply] at hread
    split at hread
    · exact h.link hindex hread
    · simp at hread
    · simp at hread

/-- A snapshot is read by changes of an empty index, however damaged it is. -/
theorem Lasting.read (h : Lasting holds) {generation : Nat} (hempty : holds (empty generation))
    {archive : Archive} (hread : Snapshot.read generation archive = .ok index) : holds index := by
  obtain ⟨bare, linked, hitems, hrelations, rfl⟩ := Snapshot.exists_of_read hread
  have hkeeps : ∀ {step : Index → String → Except SnapshotError Index},
      (∀ {index after : Index} {line : String}, holds index → step index line = .ok after →
        holds after) →
      ∀ (lines : List String) {index after : Index}, holds index →
        lines.foldlM step index = .ok after → holds after :=
    fun hstep _ _ _ hstart hfold => holds_of_foldlM (fun _ => (none : Option Unit))
      (fun _ state => holds state) (fun _ _ _ _ => hstep) hstart hfold
  have hbare := hkeeps (fun hindex hline => h.insertLine hindex hline) _ hempty hitems
  exact h.rebuildRegistry
    (hkeeps (fun hindex hline => h.readRelation hindex hline) _ hbare hrelations)

end Index

/-! ## Every item is listed -/

/-- A stack of layers in which every layer keeps its items under their own numbers and copies only
items of the layers below. -/
inductive Layers.Listed : List Layer → Prop
  | nil : Listed []
  | cons {layer : Layer} {below : List Layer} (numbered : layer.Numbered)
      (shadows : ∀ id, id ∈ layer.shadows → id ∈ ids below) (rest : Listed below) :
      Listed (layer :: below)

theorem Layers.Listed.mem_ids {layers : List Layer} (h : Listed layers) {id : ItemId}
    (hid : (get? layers id).isSome) : id ∈ ids layers := by
  induction h with
  | nil => simp [get?] at hid
  | @cons layer below numbered shadows _ ih =>
    rw [get?] at hid
    rw [ids, List.mem_append]
    split at hid
    · rename_i hgeneration
      exact Or.inr ((Layer.mem_ids_iff numbered).2 ⟨hgeneration, hid⟩)
    · split at hid
      · rename_i hshadow
        exact Or.inl (shadows id (Std.TreeMap.mem_iff_isSome_getElem?.2 (by rw [hshadow]; rfl)))
      · exact Or.inl (ih hid)

namespace Index

variable {index : Index}

/-- The layers of an index list their items. -/
def ListsLayers (index : Index) : Prop :=
  Layers.Listed index.layers

theorem lifelong_listsLayers : Lifelong ListsLayers where
  modify := by
    intro index f id hid h
    cases h with
    | cons numbered shadows rest =>
      rw [modify]
      split
      · exact .cons (numbered.modify id.raw hid) shadows rest
      · split
        · refine .cons ⟨numbered.id_eq, numbered.first_le⟩ (fun other hother => shadows other ?_) rest
          exact Std.TreeMap.mem_modify.1 hother
        · split
          · -- the new copy is one of an item below, which is listed there
            rename_i item hitem
            refine .cons ⟨numbered.id_eq, numbered.first_le⟩ (fun other hother => ?_) rest
            rcases Std.TreeMap.mem_insert.1 hother with heq | hold
            · rw [← Std.LawfulEqCmp.eq_of_compare heq]
              exact rest.mem_ids (by rw [hitem]; rfl)
            · exact shadows other hold
          · exact .cons numbered shadows rest
  store := by
    intro index item hgeneration h
    cases h with
    | cons numbered shadows rest =>
      have hshadows : (index.top.store item).shadows = index.top.shadows := by
        rw [Layer.store]
        split <;> rfl
      exact .cons (numbered.store hgeneration) (hshadows ▸ shadows) rest
  books := by
    intro a b hsame h
    cases h with
    | cons numbered shadows rest =>
      rw [ListsLayers, layers]
      exact .cons (hsame.numbered numbered) (by rw [hsame.shadows_eq, hsame.below_eq]; exact shadows)
        (hsame.below_eq ▸ rest)

theorem listsLayers_empty (generation : Nat) : (empty generation).ListsLayers :=
  .cons (numbered_startingAt _ _) (fun _ hid => absurd hid Std.TreeMap.not_mem_emptyc) .nil

/-! ## All indices -/

/-- The indices that come about by the changes that all indices are made by. -/
inductive Arises : Index → Prop
  | empty (generation : Nat) : Arises (empty generation)
  | onBase {base : Index} (generation : Nat) (h : Arises base) : Arises (onBase generation base)
  | modify {index : Index} {f : Item → Item} (id : ItemId) (hid : ∀ item, (f item).id = item.id)
      (h : Arises index) : Arises (index.modify id f)
  | store {index : Index} {item : Item} (hgeneration : item.id.generation = index.generation)
      (h : Arises index) : Arises (index.store item)
  | books {a b : Index} (hsame : SameItems b a) (h : Arises a) : Arises b

theorem lifelong_arises : Lifelong Arises :=
  ⟨fun id hid h => h.modify id hid, fun hgeneration h => h.store hgeneration,
    fun hsame h => h.books hsame⟩

theorem Arises.run (h : index.Arises) (operation : Operation ItemId) :
    (operation.run index).2.Arises :=
  lifelong_arises.enduring.lasting.sturdy.run operation h

theorem Arises.foldl_run (h : index.Arises) (operations : List (Operation ItemId)) :
    (operations.foldl (fun index operation => (operation.run index).2) index).Arises := by
  induction operations generalizing index with
  | nil => exact h
  | cons operation rest ih => exact ih (h.run operation)

/-- Pruning leaves such an index, whatever was pruned. -/
theorem arises_prune (index : Index) (generation : Nat) : (index.prune generation).index.Arises :=
  holds_prune (fun _ h => .store rfl (.books (sameItems_allocate _) h)) (fun id hid h => h.modify id hid)
    (fun h => h.books (sameItems_rebuildRegistry _)) (.empty generation) index

/-- So does a snapshot, however damaged, that is not refused. -/
theorem arises_read {generation : Nat} {archive : Archive}
    (h : Snapshot.read generation archive = .ok index) : index.Arises :=
  lifelong_arises.enduring.lasting.read (.empty generation) h

theorem Arises.listsLayers (h : index.Arises) : index.ListsLayers := by
  induction h with
  | empty generation => exact listsLayers_empty generation
  | onBase generation _ ih =>
    exact .cons (numbered_startingAt _ _) (fun _ hid => absurd hid Std.TreeMap.not_mem_emptyc) ih
  | modify id hid _ ih => exact lifelong_listsLayers.modify id hid ih
  | store hgeneration _ ih => exact lifelong_listsLayers.store hgeneration ih
  | books hsame _ ih => exact lifelong_listsLayers.books hsame ih

/-- Every handle that names an item is listed. -/
theorem Arises.isListed (h : index.Arises) : index.IsListed :=
  fun _ hid => Layers.Listed.mem_ids h.listsLayers hid

end Index

end CodeAtlas
