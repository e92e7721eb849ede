/-
# Indices that are enlarged

Creating items leaves the items that were there as they were, but for their members.  Whatever is
asked about such an item without looking at members has the same answer afterwards: which project it
stands in, whether it may get pseudo methods and whether it may own something.
-/
import CodeAtlas.Proofs.Index.Assembly

namespace CodeAtlas

namespace Index

variable {a b c index : Index}

/-! ## What stays -/

/-- Every item of `a` is in `b` as it was but for its members. -/
structure Enlarges (a b : Index) : Prop where
  stays : ∀ {id : ItemId} {item : Item}, a.get? id = some item →
    ∃ later, b.get? id = some later ∧ item.Stays later

theorem Enlarges.refl (index : Index) : Enlarges index index :=
  ⟨fun {_ item} hget => ⟨item, hget, Item.Stays.refl item⟩⟩

theorem Enlarges.trans (h : Enlarges a b) (h' : Enlarges b c) : Enlarges a c := by
  constructor
  intro id item hget
  obtain ⟨middle, hmiddle, hstays⟩ := h.stays hget
  obtain ⟨later, hlater, hstays'⟩ := h'.stays hmiddle
  exact ⟨later, hlater, hstays.trans hstays'⟩

theorem Enlarges.contains (h : Enlarges a b) {id : ItemId} (hid : a.contains id) : b.contains id := by
  obtain ⟨item, hget⟩ := Option.isSome_iff_exists.1 hid
  obtain ⟨later, hlater, _⟩ := h.stays hget
  exact Option.isSome_iff_exists.2 ⟨later, hlater⟩

/-! ## Owners -/

/-- The nearest project on the way up from an item is the builtin project. -/
def InBuiltin (index : Index) (id : ItemId) : Prop :=
  ∃ project, index.FirstAbove (fun item => item.kind = .project) id project ∧
    project.name = builtinProject

/-- What stands in the builtin project stays there. -/
theorem Enlarges.inBuiltin (h : Enlarges a b) {id : ItemId} (hin : a.InBuiltin id) : b.InBuiltin id := by
  obtain ⟨project, hfirst, hname⟩ := hin
  obtain ⟨later, hstays, hlater⟩ := hfirst.exists_related h.stays
    (fun hstays => hstays.parent_eq) (fun hstays => by rw [hstays.kind_eq])
  exact ⟨later, hlater, hstays.name_eq.trans hname⟩

theorem Enlarges.inBuiltin_iff (h : Enlarges a b) (hknown : a.OwnersKnown) {id : ItemId}
    (hid : a.contains id) : b.InBuiltin id ↔ a.InBuiltin id := by
  refine ⟨?_, h.inBuiltin⟩
  rintro ⟨later, hlater, hname⟩
  obtain ⟨project, hstays, hfirst⟩ := hlater.exists_related_of_contains h.stays
    (fun hstays => hstays.parent_eq) (fun hstays => by rw [hstays.kind_eq]) hknown hid
  exact ⟨project, hfirst, hstays.name_eq.symm.trans hname⟩

/-- What is set on an item does not move anything out of the builtin project. -/
theorem InBuiltin.modify {f : Item → Item} (hf : Item.KeepsPlace f) (changed : ItemId) {id : ItemId}
    (hin : index.InBuiltin id) : (index.modify changed f).InBuiltin id := by
  obtain ⟨project, hfirst, hname⟩ := hin
  have hitem : ∀ {id : ItemId} {item : Item}, index.get? id = some item →
      ∃ later, (index.modify changed f).get? id = some later ∧
        later.name = item.name ∧ later.kind = item.kind ∧ later.parent = item.parent := by
    intro id item hget
    rw [get?_modify]
    split
    · rename_i hid
      exact ⟨f item, by rw [← hid, hget]; rfl, (hf item).2⟩
    · exact ⟨item, hget, rfl, rfl, rfl⟩
  obtain ⟨later, hsame, hlater⟩ := hfirst.exists_related hitem
    (fun hsame => hsame.2.2) (fun hsame => by rw [hsame.2.1])
  exact ⟨later, hlater, hsame.1.trans hname⟩

/-- A class may get pseudo methods unless it is an array or stands in the builtin project. -/
theorem acceptsPseudo_iff_not_inBuiltin (h : index.IsStacked) {owner : ItemId} :
    index.acceptsPseudo owner = true ↔ ∃ item, index.get? owner = some item ∧
      item.arrayBase = none ∧ ¬ index.InBuiltin owner := by
  unfold InBuiltin acceptsPseudo
  simp only [← projectOf_bind_get?_eq_some_iff h]
  cases index.get? owner with
  | none => simp
  | some item => cases (index.projectOf owner).bind index.get? <;> simp

theorem Enlarges.acceptsPseudo_eq (h : Enlarges a b) (ha : a.IsStacked) (hb : b.IsStacked)
    (hknown : a.OwnersKnown) {id : ItemId} (hid : a.contains id) :
    b.acceptsPseudo id = a.acceptsPseudo id := by
  obtain ⟨item, hget⟩ := Option.isSome_iff_exists.1 hid
  obtain ⟨later, hlater, hstays⟩ := h.stays hget
  rw [Bool.eq_iff_iff, acceptsPseudo_iff_not_inBuiltin ha, acceptsPseudo_iff_not_inBuiltin hb,
    h.inBuiltin_iff hknown hid, hget, hlater]
  simp only [Option.some.injEq, exists_eq_left', Item.arrayBase, hstays.attributes_eq]

/-- Whether an item may get another item is settled by its kind. -/
theorem Enlarges.isNone_refusal?_eq (h : Enlarges a b) {owner : ItemId} (hid : a.contains owner)
    (kind : ItemKind) (name : String) :
    (b.refusal? owner kind name).isNone = (a.refusal? owner kind name).isNone := by
  obtain ⟨item, hget⟩ := Option.isSome_iff_exists.1 hid
  obtain ⟨later, hlater, hstays⟩ := h.stays hget
  rw [refusal?, refusal?, hget, hlater]
  dsimp only
  rw [hstays.kind_eq]
  split
  · rfl
  · split <;> rfl

end Index

/-! ## Methods -/

/-- The owner, the name and the number of parameters of a method. -/
def Item.method? (item : Item) : Option (ItemId × String × Nat) :=
  if item.kind = .method then
    item.parent.map (fun owner => (owner, item.name, item.paramTypes.length))
  else none

theorem Item.method?_eq_some_iff {item : Item} {owner : ItemId} {name : String} {count : Nat} :
    item.method? = some (owner, name, count) ↔ item.kind = .method ∧ item.parent = some owner ∧
      item.name = name ∧ item.paramTypes.length = count := by
  unfold method?
  split
  · rename_i hkind
    rw [Option.map_eq_some_iff]
    simp [hkind]
  · rename_i hkind
    simp [hkind]

theorem Item.Stays.method?_eq {item later : Item} (h : item.Stays later) :
    later.method? = item.method? := by
  unfold Item.method?
  rw [h.kind_eq, h.parent_eq, h.name_eq, Item.paramTypes, Item.paramTypes, Item.paramTypes?,
    Item.paramTypes?, h.attributes_eq]

namespace Index

variable {index : Index}

/-- The methods that the classes of an index declare, each by its owner, its name and the number of
its parameters. -/
def methods (index : Index) : List (ItemId × String × Nat) :=
  index.items.filterMap Item.method?

theorem mem_methods_iff (h : index.IsStacked) {method : ItemId × String × Nat} :
    method ∈ index.methods ↔ ∃ id item, index.get? id = some item ∧ item.method? = some method := by
  unfold methods
  rw [List.mem_filterMap]
  constructor
  · rintro ⟨item, hitem, hmethod⟩
    exact ⟨item.id, item, (Index.mem_items_iff h).1 hitem, hmethod⟩
  · rintro ⟨id, item, hget, hmethod⟩
    obtain rfl := id_of_get? h hget
    exact ⟨item, (Index.mem_items_iff h).2 hget, hmethod⟩

end Index

end CodeAtlas
