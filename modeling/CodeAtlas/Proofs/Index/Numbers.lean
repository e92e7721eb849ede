/-
# Numbers that are handed out

A source of numbers counts upwards, and putting an item under a chosen number moves it past that number.
Numbers are 32-bit words, and the step behind the highest one leads back to zero.  Up to there a number
is handed out once, and never when it was reserved.

An index keeps such a source.  As long as no item stands under the highest number, the next number is
above all that are in use, and no new item takes the handle of another.
-/
import CodeAtlas.Proofs.Index.ForeignHandles

namespace CodeAtlas

/-! ## Sources of numbers -/

namespace IdSource

/-- The highest number there is. -/
def highest : UInt32 :=
  4294967295

theorem toNat_add_one {raw : UInt32} (h : raw ≠ highest) : (raw + 1).toNat = raw.toNat + 1 := by
  have hne : raw.toNat ≠ 4294967295 := fun heq => h (UInt32.toNat_inj.1 heq)
  have hlt := raw.toNat_lt
  have hone : UInt32.toNat 1 = 1 := rfl
  rw [UInt32.toNat_add]
  exact Nat.mod_eq_of_lt (by omega)

theorem lt_add_one {raw : UInt32} (h : raw ≠ highest) : raw < raw + 1 := by
  rw [UInt32.lt_iff_toNat_lt, toNat_add_one h]
  omega

/-- The only step that does not count upwards is the one behind the highest number. -/
theorem toNat_add_one_iff {raw : UInt32} :
    (raw + 1).toNat = raw.toNat + 1 ↔ raw ≠ highest := by
  constructor
  · rintro h rfl
    exact absurd h (by decide)
  · exact toNat_add_one

theorem le_reserve (source : IdSource) (raw : UInt32) :
    source.next ≤ (source.reserve raw).next ∧ raw + 1 ≤ (source.reserve raw).next := by
  unfold reserve
  rw [UInt32.le_iff_toNat_le, UInt32.le_iff_toNat_le, UInt32.toNat_max]
  exact ⟨Nat.le_max_left _ _, Nat.le_max_right _ _⟩

/-- What a source is asked for: the next number, or to spare a chosen one. -/
inductive Call where
  | draw
  | reserve (raw : UInt32)
deriving DecidableEq, Repr

/-- What a number was used for. -/
inductive Use where
  | drawn (raw : UInt32)
  | reserved (raw : UInt32)
deriving DecidableEq, Repr

/-- The number that was used. -/
def Use.raw : Use → UInt32
  | .drawn raw => raw
  | .reserved raw => raw

/-- Answers a call. -/
def serve (source : IdSource) : Call → Use × IdSource
  | .draw => (.drawn source.draw.1, source.draw.2)
  | .reserve raw => (.reserved raw, source.reserve raw)

/-- The uses that a sequence of calls makes of numbers, in order. -/
def uses (source : IdSource) : List Call → List Use
  | [] => []
  | call :: rest => (source.serve call).1 :: uses (source.serve call).2 rest

/-- Numbers that are handed out grow, and none was handed out or reserved before. -/
def HandsOutOnce (uses : List Use) : Prop :=
  uses.Pairwise (fun earlier later => ∀ raw, later = .drawn raw →
    earlier.raw ≠ raw ∧ ∀ other, earlier = .drawn other → other < raw)

/-- Nothing is handed out after the highest number, and this one not after it was reserved. -/
def StopsAtHighest (uses : List Use) : Prop :=
  uses.Pairwise (fun earlier later => ∀ raw, later = .drawn raw →
    earlier ≠ .drawn highest ∧ (earlier = .reserved highest → raw ≠ highest))

/-- After a call the source is past the number that was used, unless this is the highest. -/
theorem lt_next_serve (source : IdSource) (call : Call)
    (h : (source.serve call).1.raw ≠ highest) :
    (source.serve call).1.raw < (source.serve call).2.next := by
  cases call with
  | draw => exact lt_add_one h
  | reserve raw => exact UInt32.lt_of_lt_of_le (lt_add_one h) (source.le_reserve raw).2

/-- A call moves the source upwards, unless it draws the highest number. -/
theorem next_le_serve (source : IdSource) (call : Call)
    (h : (source.serve call).1 ≠ .drawn highest) :
    source.next ≤ (source.serve call).2.next := by
  cases call with
  | draw => exact UInt32.le_of_lt (lt_add_one (fun heq => h (congrArg Use.drawn heq)))
  | reserve raw => exact (source.le_reserve raw).1

/-- What is handed out is not below the source. -/
theorem next_le_of_drawn {source : IdSource} {calls : List Call}
    (h : StopsAtHighest (source.uses calls)) {raw : UInt32}
    (hdrawn : .drawn raw ∈ source.uses calls) : source.next ≤ raw := by
  induction calls generalizing source with
  | nil => simp [uses] at hdrawn
  | cons call rest ih =>
    obtain ⟨hhead, hrest⟩ := List.pairwise_cons.1 h
    rcases List.mem_cons.1 hdrawn with heq | hlater
    · cases call with
      | draw =>
        obtain rfl := Use.drawn.inj heq
        exact UInt32.le_refl _
      | reserve other => simp [serve] at heq
    · have hnot := (hhead _ hlater raw rfl).1
      exact UInt32.le_trans (source.next_le_serve call hnot) (ih hrest hlater)

/-- A source hands out numbers once exactly if it stops at the highest number. -/
theorem handsOutOnce_iff (source : IdSource) (calls : List Call) :
    HandsOutOnce (source.uses calls) ↔ StopsAtHighest (source.uses calls) := by
  constructor
  · intro h
    refine h.imp (fun {earlier later} hpair raw hraw => ⟨?_, ?_⟩)
    · rintro rfl
      -- nothing is above the highest number
      have hlt := UInt32.lt_iff_toNat_lt.1 ((hpair raw hraw).2 highest rfl)
      have hbound := raw.toNat_lt
      have hhighest : highest.toNat = 4294967295 := rfl
      omega
    · rintro rfl heq
      exact (hpair raw hraw).1 heq.symm
  · intro h
    induction calls generalizing source with
    | nil => exact List.Pairwise.nil
    | cons call rest ih =>
      obtain ⟨hhead, hrest⟩ := List.pairwise_cons.1 h
      refine List.pairwise_cons.2 ⟨?_, ih _ hrest⟩
      rintro later hlater raw rfl
      obtain ⟨hdrawn, hreserved⟩ := hhead _ hlater raw rfl
      by_cases hhighest : (source.serve call).1.raw = highest
      · cases call with
        | draw => exact absurd (congrArg Use.drawn hhighest) hdrawn
        | reserve other =>
          obtain rfl : other = highest := hhighest
          exact ⟨fun heq => hreserved rfl heq.symm, fun _ heq => by simp [serve] at heq⟩
      · have hlt : (source.serve call).1.raw < raw :=
          UInt32.lt_of_lt_of_le (source.lt_next_serve call hhighest) (next_le_of_drawn hrest hlater)
        refine ⟨UInt32.ne_of_lt hlt, fun other hother => ?_⟩
        rw [hother] at hlt
        exact hlt

end IdSource

/-! ## Layers -/

/-- The handles of a layer after an item was put under its number. -/
theorem Layer.mem_ids_store {layer : Layer} (h : layer.Numbered) {item : Item}
    (hgeneration : item.id.generation = layer.generation) (hfirst : layer.firstRaw ≤ item.id.raw)
    {id : ItemId} : id ∈ (layer.store item).ids ↔ id ∈ layer.ids ∨ id = item.id := by
  have hstore := h.store hgeneration
  rw [Layer.store, if_neg (UInt32.not_lt.2 hfirst)] at hstore ⊢
  rw [Layer.mem_ids_iff hstore, Layer.mem_ids_iff h, Std.TreeMap.getElem?_insert]
  simp only [Std.compare_eq_iff_eq]
  constructor
  · rintro ⟨hid, hsome⟩
    split at hsome
    case isTrue hraw =>
      right
      cases id
      cases hitem : item.id
      simp_all
    case isFalse => exact Or.inl ⟨hid, hsome⟩
  · rintro (⟨hid, hsome⟩ | rfl)
    · refine ⟨hid, ?_⟩
      split
      · rfl
      · exact hsome
    · exact ⟨hgeneration, by simp⟩

namespace Index

open IdSource (highest)

variable {index : Index}

/-! ## The next number of an index -/

/-- The next number is above all that are in use, and not below the first of the upper layer. -/
structure CountsAbove (index : Index) : Prop where
  lt_next : ∀ id ∈ index.ids, id.raw < index.nextRaw
  first_le : index.top.firstRaw ≤ index.nextRaw

/-- Every item is listed, and either the highest number is in use or the next one is above all that
are. -/
structure CountsUnlessFull (index : Index) : Prop where
  lists : index.ListsLayers
  counts : (∃ id ∈ index.ids, id.raw = highest) ∨ index.CountsAbove

theorem CountsUnlessFull.of_ids {a b : Index} (h : a.CountsUnlessFull) (hlists : b.ListsLayers)
    (hids : ∀ id, id ∈ b.ids ↔ id ∈ a.ids) (hfirst : b.top.firstRaw = a.top.firstRaw)
    (hnext : b.nextRaw = a.nextRaw) : b.CountsUnlessFull := by
  refine ⟨hlists, ?_⟩
  rcases h.counts with ⟨id, hid, hraw⟩ | hcounts
  · exact Or.inl ⟨id, (hids id).2 hid, hraw⟩
  · refine Or.inr ⟨fun id hid => ?_, ?_⟩
    · rw [hnext]
      exact hcounts.lt_next id ((hids id).1 hid)
    · rw [hfirst, hnext]
      exact hcounts.first_le

theorem mem_ids_modify (h : index.ListsLayers) {f : Item → Item} (id : ItemId)
    (hf : ∀ item, (f item).id = item.id) (other : ItemId) :
    other ∈ (index.modify id f).ids ↔ other ∈ index.ids := by
  have hlists := lifelong_listsLayers.modify id hf h
  cases h with
  | cons numbered _ _ =>
    cases hlists with
    | cons numbered' _ _ =>
      obtain ⟨hbelow, -⟩ := books_modify index id f
      unfold Index.ids layers Layers.ids
      rw [hbelow, List.mem_append, List.mem_append, Layer.mem_ids_iff numbered,
        Layer.mem_ids_iff numbered', ← Std.TreeMap.mem_iff_isSome_getElem?,
        ← Std.TreeMap.mem_iff_isSome_getElem?]
      unfold modify
      split
      · rw [Std.TreeMap.mem_modify]
      · split
        · rfl
        · split
          · rfl
          · rfl

theorem CountsUnlessFull.modify (h : index.CountsUnlessFull) {f : Item → Item} (id : ItemId)
    (hf : ∀ item, (f item).id = item.id) : (index.modify id f).CountsUnlessFull :=
  h.of_ids (lifelong_listsLayers.modify id hf h.lists) (mem_ids_modify h.lists id hf)
    (books_modify index id f).2.1 (nextRaw_modify index id f)

/-- A new registry changes nothing of this. -/
theorem CountsUnlessFull.books {a b : Index} (h : a.CountsUnlessFull) (hsame : SameItems b a)
    (hnext : b.nextRaw = a.nextRaw) : b.CountsUnlessFull :=
  h.of_ids (lifelong_listsLayers.books hsame h.lists) (fun id => by rw [hsame.ids_eq])
    hsame.firstRaw_eq hnext

theorem ListsLayers.numbered (h : index.ListsLayers) : index.top.Numbered := by
  cases h with
  | cons numbered _ _ => exact numbered

/-- The handles after an item was put under a number of the upper layer. -/
theorem mem_ids_store (h : index.ListsLayers) {item : Item}
    (hgeneration : item.id.generation = index.generation)
    (hfirst : index.top.firstRaw ≤ item.id.raw) {id : ItemId} :
    id ∈ (index.store item).ids ↔ id ∈ index.ids ∨ id = item.id := by
  have htop : id ∈ (index.top.store item).ids ↔ id ∈ index.top.ids ∨ id = item.id :=
    Layer.mem_ids_store h.numbered hgeneration hfirst
  unfold store Index.ids layers Layers.ids
  rw [List.mem_append, List.mem_append, htop, or_assoc]

theorem CountsUnlessFull.store (h : index.CountsUnlessFull) {item : Item}
    (hgeneration : item.id.generation = index.generation) :
    (index.store item).CountsUnlessFull := by
  have hlists := lifelong_listsLayers.store hgeneration h.lists
  by_cases hfirst : item.id.raw < index.top.firstRaw
  · -- the layer takes no such number
    unfold Index.store Layer.store
    rw [if_pos hfirst]
    exact h
  · have hids : ∀ id, id ∈ (index.store item).ids ↔ id ∈ index.ids ∨ id = item.id :=
      fun id => mem_ids_store h.lists hgeneration (UInt32.not_lt.1 hfirst)
    have hfits : index.Fits item.id := ⟨hgeneration, UInt32.not_lt.1 hfirst⟩
    have htop := top_store hfits
    refine ⟨hlists, ?_⟩
    rcases h.counts with ⟨id, hid, hraw⟩ | hcounts
    · exact Or.inl ⟨id, (hids id).2 (Or.inl hid), hraw⟩
    · by_cases hhighest : item.id.raw = highest
      · exact Or.inl ⟨item.id, (hids _).2 (Or.inr rfl), hhighest⟩
      · obtain ⟨hkept, hpast⟩ := index.top.source.le_reserve item.id.raw
        have hnext : (index.store item).nextRaw = (index.top.source.reserve item.id.raw).next := by
          unfold nextRaw
          rw [htop]
        refine Or.inr ⟨fun id hid => ?_, ?_⟩
        · rw [hnext]
          rcases (hids id).1 hid with hold | rfl
          · exact UInt32.lt_of_lt_of_le (hcounts.lt_next id hold) hkept
          · exact UInt32.lt_of_lt_of_le (IdSource.lt_add_one hhighest) hpast
        · rw [hnext, htop]
          exact UInt32.le_trans hcounts.first_le hkept

/-- The copy of an item takes the next number. -/
theorem CountsUnlessFull.adopt (h : index.CountsUnlessFull) (item : Item) :
    (index.adopt item).2.CountsUnlessFull := by
  have hsame := sameItems_allocate index
  have hlists := lifelong_listsLayers.books hsame h.lists
  show (index.allocate.2.store { item with id := index.nextId }).CountsUnlessFull
  rcases h.counts with ⟨id, hid, hraw⟩ | hcounts
  · have hallocated : index.allocate.2.CountsUnlessFull :=
      ⟨hlists, Or.inl ⟨id, by rwa [hsame.ids_eq], hraw⟩⟩
    exact hallocated.store rfl
  · by_cases hhighest : index.nextRaw = highest
    · -- the last number of all goes to the copy
      refine ⟨lifelong_listsLayers.store rfl hlists, Or.inl ⟨index.nextId, ?_, hhighest⟩⟩
      have hfirst : index.allocate.2.top.firstRaw ≤ index.nextId.raw := hcounts.first_le
      let copy : Item := { item with id := index.nextId }
      have hids : copy.id ∈ (index.allocate.2.store copy).ids ↔ _ :=
        mem_ids_store hlists rfl hfirst
      exact hids.2 (Or.inr rfl)
    · have hnext : index.nextRaw < index.allocate.2.nextRaw := IdSource.lt_add_one hhighest
      have hallocated : index.allocate.2.CountsAbove := by
        refine ⟨fun id hid => ?_, ?_⟩
        · rw [hsame.ids_eq] at hid
          exact UInt32.lt_trans (hcounts.lt_next id hid) hnext
        · rw [hsame.firstRaw_eq]
          exact UInt32.le_trans hcounts.first_le (UInt32.le_of_lt hnext)
      have hunless : index.allocate.2.CountsUnlessFull := ⟨hlists, Or.inr hallocated⟩
      exact hunless.store rfl

theorem CountsUnlessFull.insertItem (h : index.CountsUnlessFull) (parent : Option ItemId)
    (name : String) (kind : ItemKind) : (index.insertItem parent name kind).2.CountsUnlessFull := by
  have hstored : (index.stored parent name kind).CountsUnlessFull :=
    h.adopt (.fresh index.nextId name kind parent)
  rw [insertItem_eq]
  refine CountsUnlessFull.books ?_ (sameItems_register _ _)
    (congrArg IdSource.next (books_register _ _).2.2.1)
  cases parent with
  | none => exact hstored
  | some owner => exact hstored.modify owner (fun _ => rfl)

theorem countsUnlessFull_empty (generation : Nat) : (empty generation).CountsUnlessFull :=
  ⟨listsLayers_empty generation, Or.inr
    ⟨fun id hid => absurd (show id ∈ [] from hid) List.not_mem_nil, UInt32.le_refl _⟩⟩

/-- A new layer counts on from its base. -/
theorem CountsUnlessFull.onBase (h : index.CountsUnlessFull) (generation : Nat) :
    (onBase generation index).CountsUnlessFull := by
  have hids : (Index.onBase generation index).ids = index.ids := List.append_nil _
  refine ⟨.cons (numbered_startingAt _ _) (fun _ hid => absurd hid Std.TreeMap.not_mem_emptyc)
    h.lists, ?_⟩
  rcases h.counts with ⟨id, hid, hraw⟩ | hcounts
  · exact Or.inl ⟨id, by rwa [hids], hraw⟩
  · refine Or.inr ⟨fun id hid => ?_, UInt32.le_refl _⟩
    rw [hids] at hid
    exact hcounts.lt_next id hid

theorem lasting_countsUnlessFull : Lasting CountsUnlessFull where
  modify := fun id hid _ h => h.modify id hid
  store := fun hgeneration h => h.store hgeneration
  insertItem := fun parent h => h.insertItem parent _ _
  addDependency := by
    intro index source target h
    unfold Index.addDependency
    split
    · exact h
    · apply CountsUnlessFull.modify
      · exact h.modify source (fun _ => rfl)
      · exact fun _ => rfl
  removeDependency := by
    intro index source target h
    apply CountsUnlessFull.modify
    · exact h.modify source (fun _ => rfl)
    · exact fun _ => rfl
  rebuildRegistry := fun h => h.books (sameItems_rebuildRegistry _) rfl

/-! ## Supplied indices -/

/-- The indices that come about by operations, requests, copies of items of other indices, new layers,
pruning and reading snapshots. -/
inductive Supplied : Index → Prop
  | empty (generation : Nat) : Supplied (empty generation)
  | onBase {base : Index} (generation : Nat) (h : Supplied base) : Supplied (onBase generation base)
  | operation {index : Index} (operation : Operation ItemId) (h : Supplied index) :
      Supplied (operation.run index).2
  | request {index : Index} (request : Request) (h : Supplied index) :
      Supplied (request.edit.run.run index).2
  | adopt {index : Index} (item : Item) (h : Supplied index) : Supplied (index.adopt item).2
  | rebuildRegistry {index : Index} (h : Supplied index) : Supplied index.rebuildRegistry
  | prune (index : Index) (generation : Nat) : Supplied (index.prune generation).index
  | read {index : Index} {generation : Nat} {archive : Archive}
      (h : Snapshot.read generation archive = .ok index) : Supplied index

theorem Supplied.countsUnlessFull (h : index.Supplied) : index.CountsUnlessFull := by
  induction h with
  | empty generation => exact countsUnlessFull_empty generation
  | onBase generation _ ih => exact ih.onBase generation
  | operation operation _ ih => exact lasting_countsUnlessFull.sturdy.run operation ih
  | request request _ ih => exact lasting_countsUnlessFull.request request _ ih
  | adopt item _ ih => exact ih.adopt item
  | rebuildRegistry _ ih => exact lasting_countsUnlessFull.rebuildRegistry ih
  | prune index generation =>
    refine @holds_prune CountsUnlessFull ?_ ?_ ?_ _ (countsUnlessFull_empty generation) index
    · exact fun item h => h.adopt item
    · exact fun id hid h => h.modify id hid
    · exact lasting_countsUnlessFull.rebuildRegistry
  | read hread => exact lasting_countsUnlessFull.read (countsUnlessFull_empty _) hread

/-- Without an item under the highest number the next number is above all in use. -/
theorem Supplied.lt_nextRaw (h : index.Supplied) (hfree : ∀ id ∈ index.ids, id.raw ≠ highest) :
    ∀ id ∈ index.ids, id.raw < index.nextRaw := by
  rcases h.countsUnlessFull.counts with ⟨id, hid, hraw⟩ | hcounts
  · exact absurd hraw (hfree id hid)
  · exact hcounts.lt_next

/-- Up to the highest number, numbers are never used again.  No step of a source leads back exactly if
the highest number is not used; numbers are handed out in increasing order, and none that was handed out
or reserved before, exactly if nothing is handed out behind the highest number and this one not after it
was reserved.  In an index without an item under the highest number, whatever was put under chosen
numbers, the next number is above all in use, and neither a new item nor a copy takes the handle of
another item. -/
theorem numbers_used_once (source : IdSource) (calls : List IdSource.Call) :
    ((∀ use ∈ source.uses calls, (use.raw + 1).toNat = use.raw.toNat + 1) ↔
      ∀ use ∈ source.uses calls, use.raw ≠ highest) ∧
    (IdSource.HandsOutOnce (source.uses calls) ↔ IdSource.StopsAtHighest (source.uses calls)) ∧
    ∀ {index : Index}, index.Supplied → (∀ id ∈ index.ids, id.raw ≠ highest) →
      (∀ id ∈ index.ids, id.raw < index.nextRaw) ∧
      (∀ parent name kind, (index.insertItem parent name kind).1 ∉ index.ids) ∧
      ∀ item, (index.adopt item).1 ∉ index.ids := by
  refine ⟨forall₂_congr (fun use _ => IdSource.toNat_add_one_iff), source.handsOutOnce_iff calls, ?_⟩
  intro index hsupplied hfree
  have hlt := hsupplied.lt_nextRaw hfree
  have hnew : index.nextId ∉ index.ids := fun hid => UInt32.lt_irrefl _ (hlt _ hid)
  refine ⟨hlt, fun parent name kind => ?_, fun _ => hnew⟩
  rw [insertItem_eq]
  exact hnew

/-- A project under a chosen number. -/
def chosenApp : Index :=
  ((Request.raw 7 "app" .project).edit.run.run (empty 0)).2

theorem numbers_used_once_chosenApp :
    IdSource.HandsOutOnce ((⟨5⟩ : IdSource).uses [.draw, .reserve 7, .draw]) ∧
      chosenApp.Supplied ∧ (∀ id ∈ chosenApp.ids, id.raw ≠ highest) ∧
      (chosenApp.insertItem none "lib" .project).1 = ⟨8, 0⟩ ∧
      (chosenApp.insertItem none "lib" .project).1 ∉ chosenApp.ids := by
  have hstops : IdSource.StopsAtHighest ((⟨5⟩ : IdSource).uses [.draw, .reserve 7, .draw]) := by
    simp [IdSource.StopsAtHighest, IdSource.uses, IdSource.serve, IdSource.draw, highest]
  have hsupplied : chosenApp.Supplied := .request _ (.empty 0)
  have hfree : ∀ id ∈ chosenApp.ids, id.raw ≠ highest := by decide +kernel
  obtain ⟨-, honce, hindex⟩ := numbers_used_once ⟨5⟩ [.draw, .reserve 7, .draw]
  exact ⟨honce.2 hstops, hsupplied, hfree, by decide +kernel, (hindex hsupplied hfree).2.1 _ _ _⟩

/-- The highest number is handed out although it was reserved. -/
theorem highest_drawn_after_reserved :
    ¬ IdSource.HandsOutOnce ((⟨highest⟩ : IdSource).uses [.reserve highest, .draw]) := by
  intro h
  obtain ⟨hhead, -⟩ := List.pairwise_cons.1 h
  exact (hhead (.drawn highest) List.mem_cons_self highest rfl).1 rfl

/-- Two projects under the two highest numbers. -/
def fullApp : Index :=
  ((Request.raw highest "b" .project).edit.run.run
    ((Request.raw (highest - 1) "a" .project).edit.run.run (empty 0)).2).2

/-- A new project takes the handle of the second one. -/
example : (fullApp.insertItem none "c" .project).1 ∈ fullApp.ids := by
  decide +kernel

end Index

end CodeAtlas
