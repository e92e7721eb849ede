/-
# Indices without items of their own

An index over a base shows the items of the base and nothing else until items are made.
-/
import CodeAtlas.Proofs.Index.Growth

namespace CodeAtlas.Index

variable {base : Index} {generation : Nat}

/-! ## Layers without items -/

theorem get?_startingAt (generation : Nat) (firstRaw : UInt32) (below : List Layer) (id : ItemId) :
    Layers.get? (.startingAt generation firstRaw :: below) id =
      if id.generation = generation then none else Layers.get? below id := by
  have hitems : (Layer.startingAt generation firstRaw).items[id.raw]? = none :=
    Std.TreeMap.getElem?_emptyc
  have hshadows : (Layer.startingAt generation firstRaw).shadows[id]? = none :=
    Std.TreeMap.getElem?_emptyc
  rw [Layers.get?, hitems, hshadows]
  rfl

theorem withKey_startingAt (generation : Nat) (firstRaw : UInt32) (key : ItemKey) :
    (Layer.startingAt generation firstRaw).registry.withKey key = [] := by
  have hnone : Registry.empty.byKey.getD key #[] = #[] := Std.TreeMap.getD_emptyc
  show (Registry.empty.byKey.getD key #[]).toList = []
  rw [hnone]

theorem withName_startingAt (generation : Nat) (firstRaw : UInt32) (key : NameKey) :
    (Layer.startingAt generation firstRaw).registry.withName key = [] := by
  have hnone : Registry.empty.byName.getD key #[] = #[] := Std.TreeMap.getD_emptyc
  show (Registry.empty.byName.getD key #[]).toList = []
  rw [hnone]

/-! ## Over a base -/

theorem get?_onBase (h : base.IsStacked) (hnew : ∀ id ∈ base.ids, id.generation ≠ generation)
    (id : ItemId) : (onBase generation base).get? id = base.get? id := by
  have hlayers : (onBase generation base).get? id =
      if id.generation = generation then none else base.get? id :=
    get?_startingAt generation base.top.source.next base.layers id
  rw [hlayers]
  split
  · rename_i hgeneration
    cases hget : base.get? id with
    | none => rfl
    | some item => exact absurd hgeneration (hnew id (mem_ids_of_get? h hget))
  · rfl

theorem findItem_onBase (parent : Option ItemId) (name : String) (kind : ItemKind) :
    (onBase generation base).findItem parent name kind = base.findItem parent name kind := by
  have hlayers : (onBase generation base).layers =
      .startingAt generation base.top.source.next :: base.layers := rfl
  rw [findItem, hlayers, Layers.findItem, withKey_startingAt]
  rfl

theorem lists_onBase {key : ItemKey} {id : ItemId} (h : (onBase generation base).Lists key id) :
    base.Lists key id := by
  obtain ⟨layer, hlayer, hid⟩ := h
  rcases List.mem_cons.1 hlayer with rfl | hlayer
  · have hempty := withKey_startingAt generation base.top.source.next key
    rw [show (onBase generation base).top.registry.withKey key = [] from hempty] at hid
    simp at hid
  · exact ⟨layer, hlayer, hid⟩

theorem listsName_onBase {key : NameKey} {id : ItemId}
    (h : (onBase generation base).ListsName key id) : base.ListsName key id := by
  obtain ⟨layer, hlayer, hid⟩ := h
  rcases List.mem_cons.1 hlayer with rfl | hlayer
  · have hempty := withName_startingAt generation base.top.source.next key
    rw [show (onBase generation base).top.registry.withName key = [] from hempty] at hid
    simp at hid
  · exact ⟨layer, hlayer, hid⟩

/-- An index of a new generation over a sound base is live. -/
theorem live_onBase (h : base.Sound) (hnew : ∀ id ∈ base.ids, id.generation ≠ generation) :
    (onBase generation base).Live := by
  have hget := get?_onBase h.stacked hnew
  have hkind : ∀ {id : ItemId} {kind : ItemKind}, base.IsKind id kind →
      (onBase generation base).IsKind id kind := by
    rintro id kind ⟨item, hitem, hkind⟩
    exact ⟨item, (hget id).trans hitem, hkind⟩
  have hsound : (onBase generation base).Sound := by
    refine ⟨isStacked_onBase h.stacked (fun id hid => ⟨hnew id hid, h.numbered id hid⟩), ?_, ?_,
      ?_, ?_, ?_, ?_⟩
    · intro id hid
      have hids : (onBase generation base).ids = base.ids :=
        List.append_nil (Layers.ids base.layers)
      rw [hids] at hid
      exact h.numbered id hid
    · intro id item hitem
      rw [hget] at hitem
      have hplaced := h.placed hitem
      rw [Placed] at hplaced ⊢
      split
      · rename_i hparent
        rw [hparent] at hplaced
        exact hplaced
      · rename_i owner hparent
        rw [hparent] at hplaced
        obtain ⟨ownerItem, howner, hcan⟩ := hplaced
        exact ⟨ownerItem, (hget owner).trans howner, hcan⟩
    · intro id target item hitem htarget
      rw [hget] at hitem
      exact hkind (h.typed hitem htarget)
    · intro key id hid
      obtain ⟨item, hitem, hkey⟩ := h.listed (lists_onBase hid)
      exact ⟨item, (hget id).trans hitem, hkey⟩
    · intro key id hid
      obtain ⟨item, hitem, hkey⟩ := h.listedName (listsName_onBase hid)
      exact ⟨item, (hget id).trans hitem, hkey⟩
    · intro id item hitem hproject
      rw [hget] at hitem
      rw [findItem_onBase]
      exact h.project_found hitem hproject
  exact ⟨hsound, UInt32.le_refl _, Nat.le_add_right _ _⟩

/-! ## Without a base -/

theorem get?_empty (generation : Nat) (id : ItemId) : (empty generation).get? id = none := by
  have hlayers : (empty generation).get? id =
      if id.generation = generation then none else Layers.get? [] id :=
    get?_startingAt generation 0 [] id
  rw [hlayers]
  split <;> rfl

theorem live_empty (generation : Nat) : (empty generation).Live := by
  have hlists : ∀ {key : ItemKey} {id : ItemId}, ¬ (empty generation).Lists key id := by
    rintro key id ⟨layer, hlayer, hid⟩
    obtain rfl := List.mem_singleton.1 hlayer
    rw [show (empty generation).top.registry.withKey key = [] from
      withKey_startingAt generation 0 key] at hid
    simp at hid
  have hlistsName : ∀ {key : NameKey} {id : ItemId}, ¬ (empty generation).ListsName key id := by
    rintro key id ⟨layer, hlayer, hid⟩
    obtain rfl := List.mem_singleton.1 hlayer
    rw [show (empty generation).top.registry.withName key = [] from
      withName_startingAt generation 0 key] at hid
    simp at hid
  have hsound : (empty generation).Sound := by
    refine ⟨isStacked_empty generation, ?_, ?_, ?_, ?_, ?_, ?_⟩
    · intro id hid
      exact absurd hid (by rw [show (empty generation).ids = [] from rfl]; simp)
    · intro id item hitem
      simp [get?_empty] at hitem
    · intro id target item hitem
      simp [get?_empty] at hitem
    · exact fun hid => absurd hid hlists
    · exact fun hid => absurd hid hlistsName
    · intro id item hitem
      simp [get?_empty] at hitem
  exact ⟨hsound, UInt32.le_refl _, Nat.le_add_right _ _⟩

end CodeAtlas.Index
