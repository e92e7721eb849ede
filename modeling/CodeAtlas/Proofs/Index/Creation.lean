/-
# What creating items does to an index

Creating an item never changes what other items are: their names, owners, signatures and element types
stay, the class around a class is set once, and the classes in a class only become more.  One new item
and one new nesting are treated first, then each way of finding or creating an item.
-/
import CodeAtlas.Proofs.Index.Signatures
import Mathlib.Data.List.Find

namespace CodeAtlas

namespace Index

variable {a b c index : Index} {foreign : Nat → Prop}

/-! ## One new item -/

/-- The index `b` is `a` with one more item. -/
structure Adds (a b : Index) (new : Item) : Prop where
  continues : Continues a b
  coherent : b.Coherent
  distinct : b.Distinct
  retains : Retains a b
  get?_new : b.get? a.nextId = some new
  old_or_new : ∀ {id : ItemId} {item : Item}, b.get? id = some item →
    id = a.nextId ∧ item = new ∨
      ∃ before, a.get? id = some before ∧ item.attributes = before.attributes

theorem adds_insertItem (h : index.Coherent) (hdistinct : index.Distinct) {parent : Option ItemId}
    {name : String} {kind : ItemKind} (htake : index.CanTake parent kind)
    (hnew : kind = .method ∨ index.findItem parent name kind = none)
    (hroom : (index.insertItem parent name kind).2.size < 2 ^ 32) :
    Adds index (index.insertItem parent name kind).2 (.fresh index.nextId name kind parent) := by
  have hparent := htake.ne_nextId h.tallied
  have hget := get?_insertItem h.tallied hparent name kind
  refine ⟨continues_insertItem index parent name kind, h.insertItem htake hnew hroom,
    hdistinct.insertItem h htake hnew, ⟨fun {id item} hitem => ?_, ?_⟩, ?_, ?_⟩
  · have hne : id ≠ index.nextId := by
      rintro rfl
      rw [get?_nextId h.tallied] at hitem
      exact absurd hitem (by simp)
    rw [hget, if_neg hne, hitem]
    split
    · exact ⟨_, rfl, Item.grows_of_attributes rfl rfl rfl rfl⟩
    · exact ⟨item, rfl, Item.Grows.refl item⟩
  · rw [ids_insertItem h.tallied hparent]
    exact List.prefix_append _ _
  · rw [hget, if_pos rfl]
  · intro id item hitem
    rcases exists_of_get?_insertItem h.tallied hparent hitem with
      hfresh | ⟨before, hbefore, _, _, _, hattributes⟩
    · exact Or.inl hfresh
    · exact Or.inr ⟨before, hbefore, hattributes⟩

/-- Attributes set on a new item before anything else happens. -/
theorem Adds.set {new : Item} (h : Adds a b new) (ha : a.Coherent) (settings : List (Setting ItemId)) :
    Adds a (b.modify a.nextId (Setting.applyAll settings)) (Setting.applyAll settings new) := by
  have hplace := Setting.keepsPlace_applyAll settings
  have hnone := get?_nextId ha.tallied
  refine ⟨h.continues.trans (continues_modify _ _ _), h.coherent.applyAll _ settings,
    h.distinct.of_bears (bears_modify hplace b a.nextId), ⟨fun {id item} hitem => ?_, ?_⟩, ?_, ?_⟩
  · have hne : id ≠ a.nextId := by
      rintro rfl
      rw [hnone] at hitem
      exact absurd hitem (by simp)
    rw [get?_modify, if_neg hne]
    exact h.retains.keeps hitem
  · rw [ids_modify h.coherent.stacked _ (fun item => (hplace item).1)]
    exact h.retains.ids_prefix
  · rw [get?_modify, if_pos rfl, h.get?_new]
    rfl
  · intro id item hitem
    rw [get?_modify] at hitem
    split at hitem
    · rename_i hid
      rw [h.get?_new] at hitem
      exact Or.inl ⟨hid, (Option.some.inj hitem).symm⟩
    · rename_i hid
      exact Or.inr ((h.old_or_new hitem).resolve_left (fun hnew => hid hnew.1))

theorem Continues.own (h : Continues a b) (ha : ∀ layer ∈ a.layers, ¬ foreign layer.generation) :
    ∀ layer ∈ b.layers, ¬ foreign layer.generation := by
  intro layer hlayer
  rcases List.mem_cons.1 hlayer with rfl | hbelow
  · have hgeneration : b.top.generation = a.top.generation := h.generation_eq
    rw [hgeneration]
    exact ha a.top List.mem_cons_self
  · rw [h.below_eq] at hbelow
    exact ha layer (List.mem_cons_of_mem _ hbelow)

theorem Adds.eq_new {new : Item} (h : Adds a b new) {id : ItemId} {item : Item}
    (hget : b.get? id = some item) (hnone : a.get? id = none) : id = a.nextId ∧ item = new := by
  refine (h.old_or_new hget).resolve_right ?_
  rintro ⟨before, hbefore, _⟩
  rw [hnone] at hbefore
  exact absurd hbefore (by simp)

theorem Adds.laid {new : Item} (h : Adds a b new) (ha : a.Laid foreign) (hshaped : b.Shaped new)
    (houter : new.outerClass = none) : b.Laid foreign := by
  refine ha.retains h.retains h.coherent h.distinct (h.continues.own ha.own) ?_ ?_
  · intro id item hget hnone
    obtain ⟨_, rfl⟩ := h.eq_new hget hnone
    exact hshaped
  · intro id outer item hget hnested
    rcases h.old_or_new hget with ⟨_, rfl⟩ | ⟨before, hbefore, hattributes⟩
    · rw [houter] at hnested
      exact absurd hnested (by simp)
    · refine Or.inl ⟨before, hbefore, ?_⟩
      rwa [Item.outerClass, ← hattributes]

/-- A new item that is no method leaves overloads alone. -/
theorem Adds.settled {new : Item} (h : Adds a b new) (ha : a.Settled foreign)
    (hshaped : b.Shaped new) (houter : new.outerClass = none) (hkind : new.kind ≠ .method) :
    b.Settled foreign := by
  have hnot : ∀ {id : ItemId} {item : Item}, b.get? id = some item → a.get? id = none →
      ¬ item.kind = .method := by
    intro id item hget hnone hmethod
    obtain ⟨_, rfl⟩ := h.eq_new hget hnone
    exact hkind hmethod
  exact ha.retains (h.laid ha.toLaid hshaped houter) h.retains
    (fun hget hnone hmethod => absurd hmethod (hnot hget hnone))
    (fun hget hnone _ hmethod => absurd hmethod (hnot hget hnone))

theorem Registered.mem_findAll_iff (h : index.Registered) (hstacked : index.IsStacked)
    {parent : Option ItemId} {name : String} {kind : ItemKind} {id : ItemId} :
    id ∈ index.findAll parent name kind ↔ index.Has id parent kind name := by
  rw [h.findAll_eq, List.mem_filter, has_iff_bears, and_iff_right_iff_imp]
  intro hbears
  obtain ⟨item, hget, _⟩ := Option.any_eq_true _ _ |>.1 hbears
  exact mem_ids_of_get? hstacked hget

theorem Coherent.mem_findAll_iff (h : index.Coherent) {parent : Option ItemId} {name : String}
    {kind : ItemKind} {id : ItemId} :
    id ∈ index.findAll parent name kind ↔ index.Has id parent kind name :=
  h.registered.mem_findAll_iff h.stacked

/-- A new method that matches none of its overloads. -/
theorem Adds.settled_method {new : Item} {owner : ItemId} {name : String} {params : List ItemId}
    (h : Adds a b new) (ha : a.Settled foreign) (hkind : new.kind = .method)
    (hparent : new.parent = some owner) (hname : new.name = name) (hparams : new.paramTypes = params)
    (hbase : new.arrayBase = none) (houter : new.outerClass = none)
    (hknown : ∀ param ∈ params, a.Knows foreign param)
    (hnone : a.overload? owner name params = none) : b.Settled foreign := by
  have hshaped : b.Shaped new := by
    rw [Shaped, hbase]
    intro hclass
    rw [hkind] at hclass
    exact absurd hclass (by decide)
  have hlaid := h.laid ha.toLaid hshaped houter
  refine ha.retains hlaid h.retains ?_ ?_
  · intro id item hget hfresh _
    obtain ⟨_, rfl⟩ := h.eq_new hget hfresh
    rwa [hparams]
  · intro id other item otherItem hget hfresh hother _ hotherKind hsame hsameName hmatch
    obtain ⟨rfl, rfl⟩ := h.eq_new hget hfresh
    by_contra hne
    -- the other method was there before, and would have been found
    obtain ⟨before, hbefore, _⟩ :=
      (h.old_or_new hother).resolve_left (fun hboth => hne hboth.1.symm)
    obtain ⟨later, hlater, hgrows⟩ := h.retains.keeps hbefore
    obtain rfl := Option.some.inj (hother.symm.trans hlater)
    rw [hgrows.paramTypes_eq, hparams, h.retains.paramsMatch_eq ha.toLaid hlaid
      (ha.known hbefore (hgrows.kind_eq ▸ hotherKind)) hknown] at hmatch
    have hmem : other ∈ a.findAll (some owner) name .method := by
      refine ha.coherent.mem_findAll_iff.2 ⟨before, hbefore, ?_, ?_, ?_⟩
      · rw [← hgrows.parent_eq, ← hsame, hparent]
      · rw [← hgrows.kind_eq, hotherKind]
      · rw [← hgrows.name_eq, ← hsameName, hname]
    have hrefused := List.find?_eq_none.1 hnone other hmem
    rw [hbefore] at hrefused
    exact hrefused hmatch

/-! ## A class and the class around it -/

/-- Records a class as declared inside another, at both. -/
def nest (index : Index) (outer inner : ItemId) : Index :=
  (index.modify inner (fun item => item.setId .outerClass outer)).modify outer
    (fun item => item.pushNew .innerClasses inner)

/-- What becomes of the item under a handle when `inner` is nested in `outer`. -/
def nestItem (outer inner id : ItemId) (item : Item) : Item :=
  let nested := if id = inner then item.setId .outerClass outer else item
  if id = outer then nested.pushNew .innerClasses inner else nested

theorem get?_nest (index : Index) (outer inner id : ItemId) :
    (index.nest outer inner).get? id = (index.get? id).map (nestItem outer inner id) := by
  rw [nest, get?_modify, get?_modify, get?_modify]
  unfold nestItem
  by_cases houter : id = outer
  · subst houter
    rw [if_pos rfl]
    by_cases hinner : id = inner
    · subst hinner
      simp [Function.comp_def]
    · simp [hinner]
  · rw [if_neg houter]
    by_cases hinner : id = inner
    · subst hinner
      simp [houter]
    · simp [hinner, houter]

theorem outerClass_nestItem (outer inner id : ItemId) (item : Item) :
    (nestItem outer inner id item).outerClass = if id = inner then some outer else item.outerClass := by
  have hpush : ∀ other : Item, (other.pushNew .innerClasses inner).outerClass = other.outerClass := by
    intro other
    rw [Item.outerClass, Item.outerClass, Attributes.id?, Attributes.id?,
      Item.get?_pushNew other inner (by decide)]
  have hset : (item.setId .outerClass outer).outerClass = some outer := item.id?_setId .outerClass outer
  rw [nestItem]
  split <;> split <;> simp_all

theorem mem_innerClasses_nestItem (outer inner : ItemId) (item : Item) :
    inner ∈ (nestItem outer inner outer item).innerClasses := by
  rw [nestItem, if_pos rfl]
  exact Item.mem_innerClasses_pushNew.2 (Or.inr rfl)

theorem exists_of_get?_nest {outer inner id : ItemId} {item : Item}
    (hget : (index.nest outer inner).get? id = some item) :
    ∃ before, index.get? id = some before ∧ item = nestItem outer inner id before := by
  rw [get?_nest] at hget
  obtain ⟨before, hbefore, rfl⟩ := Option.map_eq_some_iff.1 hget
  exact ⟨before, hbefore, rfl⟩

/-- Recording a nesting that both ends know already. -/
theorem nestItem_eq_self {outer inner id : ItemId} {item : Item}
    (hinner : id = inner → item.outerClass = some outer)
    (houter : id = outer → inner ∈ item.innerClasses) : nestItem outer inner id item = item := by
  have hfirst : (if id = inner then item.setId .outerClass outer else item) = item := by
    split
    · rename_i hid
      exact Item.setId_eq_self (hinner hid)
    · rfl
  rw [nestItem, hfirst]
  split
  · rename_i hid
    exact Item.pushInner_eq_self (houter hid)
  · rfl

/-- A class that is named after the class around it has no other class around it. -/
theorem Laid.outer_eq (h : index.Laid foreign) {inner outer other package : ItemId}
    {name simple : String} {item : Item} (hget : index.get? inner = some item)
    (hinner : index.Has inner (some package) .class (name ++ "." ++ simple))
    (houter : index.Has outer (some package) .class name) (hsimple : '.' ∉ simple.toList)
    (hother : item.outerClass = some other) : other = outer := by
  obtain ⟨found, hfound, hparent, _, hname⟩ := hinner
  obtain rfl := Option.some.inj (hget.symm.trans hfound)
  obtain ⟨otherSimple, otherName, hhas, hotherSimple, hotherItem⟩ := h.nested hget hother
  obtain ⟨rfl, _⟩ := Item.dotted_inj hsimple hotherSimple (hname.symm.trans hotherItem)
  rw [hparent] at hhas
  have hfind := (h.findItem_eq_some_iff (by decide)).2 hhas
  rw [(h.findItem_eq_some_iff (by decide)).2 houter] at hfind
  exact (Option.some.inj hfind).symm

/-- Nesting a class in the class that its name tells. -/
theorem Settled.nest (h : index.Settled foreign) {inner outer package : ItemId}
    {name simple : String} (hinner : index.Has inner (some package) .class (name ++ "." ++ simple))
    (houter : index.Has outer (some package) .class name) (hsimple : '.' ∉ simple.toList) :
    (index.nest outer inner).Settled foreign ∧ Retains index (index.nest outer inner) := by
  have hget := get?_nest index outer inner
  have hgrows : ∀ {id : ItemId} {item : Item}, index.get? id = some item →
      item.Grows (nestItem outer inner id item) := by
    intro id item hitem
    have hfirst : item.Grows (if id = inner then item.setId .outerClass outer else item) := by
      split
      · rename_i hid
        subst hid
        exact Item.grows_setOuter (fun other hother =>
          h.outer_eq hitem hinner houter hsimple hother)
      · exact Item.Grows.refl item
    rw [nestItem]
    split
    · exact hfirst.trans (Item.grows_pushInner _ inner)
    · exact hfirst
  have hcoherent : (index.nest outer inner).Coherent :=
    (h.coherent.applyAll inner [.one ⟨.outerClass, rfl⟩ outer]).applyAll outer
      [.member ⟨.innerClasses, rfl⟩ inner]
  have hcontains : ∀ id, (index.nest outer inner).contains id = index.contains id := by
    intro id
    rw [contains, hget, Option.isSome_map, contains]
  have hretains : Retains index (index.nest outer inner) := by
    refine ⟨fun {id item} hitem => ⟨_, by rw [hget, hitem, Option.map_some], hgrows hitem⟩, ?_⟩
    exact (ids_eq_of_contains hcoherent.stacked h.coherent.stacked hcontains) ▸ List.prefix_rfl
  have hdistinct : (index.nest outer inner).Distinct := by
    refine h.distinct.of_bears (fun key => ?_)
    rw [Index.nest, bears_modify (Item.keepsPlace_pushNew .innerClasses inner),
      bears_modify (Item.keepsPlace_setId .outerClass outer)]
  have hcontinues : Continues index (index.nest outer inner) :=
    (continues_modify _ _ _).trans (continues_modify _ _ _)
  have hfresh : ∀ {id : ItemId} {item : Item}, (index.nest outer inner).get? id = some item →
      ¬ index.get? id = none := by
    intro id item hitem hnone
    obtain ⟨before, hbefore, _⟩ := exists_of_get?_nest hitem
    rw [hnone] at hbefore
    exact absurd hbefore (by simp)
  have hlaid : (index.nest outer inner).Laid foreign := by
    refine h.toLaid.retains hretains hcoherent hdistinct (hcontinues.own h.own)
      (fun hitem hnone => absurd hnone (hfresh hitem)) ?_
    intro id other item hitem hother
    obtain ⟨before, hbefore, rfl⟩ := exists_of_get?_nest hitem
    rw [outerClass_nestItem] at hother
    split at hother
    · rename_i hid
      subst hid
      obtain rfl := Option.some.inj hother
      obtain ⟨found, hfound, hparent, _, hname⟩ := hretains.has hinner
      obtain rfl := Option.some.inj (hitem.symm.trans hfound)
      refine Or.inr ⟨simple, name, ?_, hsimple, hname⟩
      rw [hparent]
      exact hretains.has houter
    · exact Or.inl ⟨before, hbefore, hother⟩
  exact ⟨h.retains hlaid hretains (fun hitem hnone => absurd hnone (hfresh hitem))
    (fun hitem hnone => absurd hnone (hfresh hitem)), hretains⟩

/-! ## Nothing new -/

/-- An index with the same items. -/
theorem Settled.of_get? (h : a.Settled foreign) (hcoherent : b.Coherent)
    (hown : ∀ layer ∈ b.layers, ¬ foreign layer.generation) (hget : ∀ id, b.get? id = a.get? id) :
    b.Settled foreign ∧ Retains a b := by
  have hretains := Retains.of_get? h.coherent.stacked hcoherent.stacked hget
  have hfresh : ∀ {id : ItemId} {item : Item}, b.get? id = some item → ¬ a.get? id = none := by
    intro id item hitem hnone
    rw [hget, hnone] at hitem
    exact absurd hitem (by simp)
  have hdistinct : b.Distinct := by
    refine h.distinct.of_bears (fun key => ?_)
    funext id
    rw [bears, bears, hget]
  have hlaid : b.Laid foreign := by
    refine h.toLaid.retains hretains hcoherent hdistinct hown
      (fun hitem hnone => absurd hnone (hfresh hitem)) (fun {id _ item} hitem houter => ?_)
    exact Or.inl ⟨item, (hget id).symm.trans hitem, houter⟩
  exact ⟨h.retains hlaid hretains (fun hitem hnone => absurd hnone (hfresh hitem))
    (fun hitem hnone => absurd hnone (hfresh hitem)), hretains⟩

/-! ## Finding or creating -/

theorem Patterned.intern_of_has (h : index.Patterned) {id : ItemId} {parent : Option ItemId}
    {name : String} {kind : ItemKind} (hkind : kind ≠ .method) (hhas : index.Has id parent kind name) :
    intern parent name kind index = (id, index) := by
  rw [intern, (h.findItem_eq_some_iff hkind).2 hhas]

/-- An item is found, or it is one more item. -/
theorem Patterned.interned (h : index.Patterned) {parent : Option ItemId} {name : String}
    {kind : ItemKind} (hkind : kind ≠ .method) (htake : index.CanTake parent kind)
    (hroom : (intern parent name kind index).2.size < 2 ^ 32) :
    (intern parent name kind index).2.Has (intern parent name kind index).1 parent kind name ∧
      ((intern parent name kind index).2 = index ∨
        Adds index (intern parent name kind index).2 (.fresh index.nextId name kind parent)) := by
  rw [Index.intern] at hroom ⊢
  cases hfind : index.findItem parent name kind with
  | some id => exact ⟨(h.findItem_eq_some_iff hkind).1 hfind, Or.inl rfl⟩
  | none =>
    rw [hfind] at hroom
    have hadds := adds_insertItem h.coherent h.distinct htake (Or.inr hfind) hroom
    have hid : (index.insertItem parent name kind).1 = index.nextId := by rw [insertItem_eq]
    refine ⟨?_, Or.inr hadds⟩
    simp only [hid]
    exact ⟨_, hadds.get?_new, rfl, rfl, rfl⟩

theorem Settled.interned (h : index.Settled foreign) {parent : Option ItemId} {name : String}
    {kind : ItemKind} (hkind : kind ≠ .method) (htake : index.CanTake parent kind)
    (hname : kind = .class → ¬ Item.NamesArray name)
    (hroom : (intern parent name kind index).2.size < 2 ^ 32) :
    (intern parent name kind index).2.Settled foreign ∧
      Retains index (intern parent name kind index).2 ∧
      (intern parent name kind index).2.Has (intern parent name kind index).1 parent kind name := by
  obtain ⟨hhas, hsame | hadds⟩ := h.toPatterned.interned hkind htake hroom
  · rw [hsame] at hhas ⊢
    exact ⟨h, Retains.of_get? h.coherent.stacked h.coherent.stacked (fun _ => rfl), hhas⟩
  · exact ⟨hadds.settled h hname rfl hkind, hadds.retains, hhas⟩

/-- What creating an item under an owner comes to. -/
theorem run_createOwned (owner : ItemId) (kind : ItemKind) (name : String) (index : Index) :
    (checkOwner owner kind name >>= fun _ =>
        (ExceptT.lift (intern (some owner) name kind) : Edit ItemId)).run.run index =
      match index.refusal? owner kind name with
      | some error => (.error error, index)
      | none => (.ok (intern (some owner) name kind index).1, (intern (some owner) name kind index).2) := by
  have hcheck := run_checkOwner owner kind name index
  cases hrefusal : index.refusal? owner kind name with
  | some error =>
    rw [hrefusal] at hcheck
    exact Edit.run_bind_of_error hcheck
  | none =>
    rw [hrefusal] at hcheck
    exact Edit.run_bind_of_ok hcheck

theorem run_classPlace_eq (id : ItemId) (error : GraphError) (index : Index) :
    (classPlace id error).run.run index =
      ((match index.get? id with
        | some item =>
          if item.kind = .class then
            match item.parent with
            | some package => pure (package, item.name)
            | none => throw (.noPackage item.name)
          else throw error
        | none => throw error : Edit (ItemId × String))).run.run index :=
  rfl

/-- The place of a class is found exactly when it is a class of a package. -/
theorem run_classPlace (id : ItemId) (error : GraphError) (index : Index) :
    ((∀ package name, ¬ index.Has id (some package) .class name) ∧
        ∃ refusal, (classPlace id error).run.run index = (.error refusal, index)) ∨
      ∃ package name, index.Has id (some package) .class name ∧
        (classPlace id error).run.run index = (.ok (package, name), index) := by
  rw [run_classPlace_eq]
  simp only [Has]
  cases hget : index.get? id with
  | none => exact Or.inl ⟨by simp, error, rfl⟩
  | some item =>
    dsimp only
    split
    · rename_i hkind
      cases hparent : item.parent with
      | none => exact Or.inl ⟨by simp [hparent], _, rfl⟩
      | some package => exact Or.inr ⟨package, item.name, ⟨item, rfl, hparent, hkind, rfl⟩, rfl⟩
    · rename_i hkind
      exact Or.inl ⟨by simp [hkind], error, rfl⟩

theorem run_classPlace_of_has {id package : ItemId} {name : String}
    (hhas : index.Has id (some package) .class name) (error : GraphError) :
    (classPlace id error).run.run index = (.ok (package, name), index) := by
  rcases run_classPlace id error index with ⟨hnone, _⟩ | ⟨other, otherName, hother, hrun⟩
  · exact absurd hhas (hnone package name)
  · obtain ⟨hparent, rfl⟩ := hhas.place_eq hother
    rw [hrun, Option.some.inj hparent]

/-- What creating a class in its package comes to. -/
theorem run_createClass_of_canTake {package : ItemId} {name : String}
    (htake : index.CanTake (some package) .class) (hname : name ≠ "") :
    (createClass package name).run.run index =
      (.ok (intern (some package) name .class index).1, (intern (some package) name .class index).2) := by
  have hrefusal : index.refusal? package .class name = none :=
    refusal?_eq_none_iff.2 ⟨htake, fun hempty => absurd hempty hname⟩
  have hrun := run_createOwned package .class name index
  rw [hrefusal] at hrun
  exact hrun

theorem run_createInnerClass_of_has {outer package : ItemId} {name : String}
    (houter : index.Has outer (some package) .class name)
    (htake : index.CanTake (some package) .class) (simple : String) :
    (createInnerClass outer simple).run.run index =
      (.ok (intern (some package) (name ++ "." ++ simple) .class index).1,
        (intern (some package) (name ++ "." ++ simple) .class index).2.nest outer
          (intern (some package) (name ++ "." ++ simple) .class index).1) := by
  refine (Edit.run_bind_of_ok (run_classPlace_of_has houter (.notClass outer))).trans ?_
  exact Edit.run_bind_of_ok (run_createClass_of_canTake htake (dotted_ne_empty name simple))

/-- The array class of a shape, beside its element type. -/
def createArrayOver (root : ItemId) (total : Nat) : Edit ItemId := do
  if total = 0 then return root
  let (package, name) ← classPlace root (.badArrayBase root)
  let array ← createClass package (Item.arrayName name total)
  update array (fun item => item.setId .arrayBase root)
  return array

theorem run_createArrayClass (base : ItemId) (dims : Nat) (index : Index) :
    (createArrayClass base dims).run.run index =
      (createArrayOver (index.arrayShape base dims).1 (index.arrayShape base dims).2).run.run index :=
  rfl

theorem run_createArrayOver_of_has {root package : ItemId} {name : String} {total : Nat}
    (hroot : index.Has root (some package) .class name)
    (htake : index.CanTake (some package) .class) (htotal : total ≠ 0) :
    (createArrayOver root total).run.run index =
      (.ok (intern (some package) (Item.arrayName name total) .class index).1,
        (intern (some package) (Item.arrayName name total) .class index).2.modify
          (intern (some package) (Item.arrayName name total) .class index).1
          (fun item => item.setId .arrayBase root)) := by
  rw [createArrayOver, if_neg htotal]
  refine (Edit.run_bind_of_ok (run_classPlace_of_has hroot (.badArrayBase root))).trans ?_
  exact Edit.run_bind_of_ok (run_createClass_of_canTake htake (arrayName_ne_empty name htotal))

/-- The index with a new method that records its signature, if there is one. -/
def insertMethod (index : Index) (owner : ItemId) (name : String) :
    Option (List ItemId) → Index
  | none => (index.insertItem (some owner) name .method).2
  | some params => (index.insertItem (some owner) name .method).2.modify index.nextId
      (fun item => item.setParamTypes params)

/-- What creating a method comes to. -/
theorem run_createMethod (owner : ItemId) (name : String) (params : Option (List ItemId))
    (index : Index) :
    (createMethod owner name params).run.run index =
      match index.refusal? owner .method name with
      | some error => (.error error, index)
      | none =>
        match index.overload? owner name (params.getD []) with
        | some id => (.ok id, index)
        | none => (.ok index.nextId, index.insertMethod owner name params) := by
  have hcheck := run_checkOwner owner .method name index
  cases hrefusal : index.refusal? owner .method name with
  | some error =>
    rw [hrefusal] at hcheck
    exact Edit.run_bind_of_error hcheck
  | none =>
    rw [hrefusal] at hcheck
    refine (Edit.run_bind_of_ok hcheck).trans ?_
    rw [Edit.run_get_bind]
    show ((match index.overload? owner name (params.getD []) with
      | some id => pure id
      | none => _ : Edit ItemId)).run.run index = _
    cases index.overload? owner name (params.getD []) with
    | some id => rfl
    | none =>
      have hid : (index.insertItem (some owner) name .method).1 = index.nextId := by
        rw [insertItem_eq]
      cases params with
      | none => exact congrArg (fun id => (Except.ok id, _)) hid
      | some params =>
        show (Except.ok (index.insertItem (some owner) name .method).1,
          (index.insertItem (some owner) name .method).2.modify
            (index.insertItem (some owner) name .method).1 _) = _
        rw [hid]
        rfl

/-! ## What each operation leaves -/

theorem continues_intern (parent : Option ItemId) (name : String) (kind : ItemKind) (index : Index) :
    Continues index (intern parent name kind index).2 :=
  continuing_intern parent name kind index

theorem Settled.createInner (h : index.Settled foreign) {outer package : ItemId}
    {name simple : String} (houter : index.Has outer (some package) .class name)
    (harray : ¬ Item.NamesArray simple) (hsimple : '.' ∉ simple.toList) {inner : ItemId} {after : Index}
    (hintern : intern (some package) (name ++ "." ++ simple) .class index = (inner, after))
    (hroom : after.size < 2 ^ 32) :
    (after.nest outer inner).Settled foreign ∧ Retains index (after.nest outer inner) ∧
      (after.nest outer inner).Has inner (some package) .class (name ++ "." ++ simple) := by
  obtain ⟨hafter, hretains, hinner⟩ := h.interned (by decide) (h.coherent.exists_owner houter)
    (fun _ => Item.not_namesArray_dotted name harray) (by rwa [hintern])
  rw [hintern] at hafter hretains hinner
  obtain ⟨hnested, hnest⟩ := hafter.nest hinner (hretains.has houter) hsimple
  exact ⟨hnested, hretains.trans hnest, hnest.has hinner⟩

/-- The element type of an array is no array. -/
theorem Patterned.arrayBase_arrayShape (h : index.Patterned) {base root : ItemId} {dims total : Nat}
    (hshape : index.arrayShape base dims = (root, total)) {item : Item}
    (hget : index.get? root = some item) : item.arrayBase = none := by
  rw [arrayShape] at hshape
  cases hbase : index.get? base with
  | none =>
    rw [hbase] at hshape
    obtain ⟨rfl, _⟩ := Prod.mk.inj hshape
    rw [hbase] at hget
    exact absurd hget (by simp)
  | some baseItem =>
    rw [hbase] at hshape
    cases hinner : baseItem.arrayBase with
    | none =>
      simp only [hinner] at hshape
      obtain ⟨rfl, _⟩ := Prod.mk.inj hshape
      obtain rfl := Option.some.inj (hbase.symm.trans hget)
      exact hinner
    | some inner =>
      simp only [hinner] at hshape
      obtain ⟨rfl, _⟩ := Prod.mk.inj hshape
      obtain ⟨_, element, helement, _, _, hnone, _⟩ := h.exists_element hbase hinner
      obtain rfl := Option.some.inj (hget.symm.trans helement)
      exact hnone

/-- The array class of a name is an array over the class that its name tells. -/
theorem Patterned.arrayBase_of_has (h : index.Patterned) {root package array : ItemId} {name : String}
    {total : Nat} {rootItem item : Item} (hroot : index.Has root (some package) .class name)
    (hrootGet : index.get? root = some rootItem) (hplain : rootItem.arrayBase = none)
    (htotal : total ≠ 0) (harray : index.Has array (some package) .class (Item.arrayName name total))
    (hget : index.get? array = some item) : item.arrayBase = some root := by
  obtain ⟨found, hfound, hparent, hkind, hname⟩ := harray
  obtain rfl := Option.some.inj (hget.symm.trans hfound)
  have hnames : Item.NamesArray item.name := hname ▸ Item.namesArray_arrayName name htotal
  have hrootName : ¬ Item.NamesArray name := by
    obtain ⟨other, hother, _, hclass, rfl⟩ := hroot
    obtain rfl := Option.some.inj (hrootGet.symm.trans hother)
    have hshaped := h.shaped hrootGet
    rw [Shaped, hplain] at hshaped
    exact hshaped hclass
  cases hbase : item.arrayBase with
  | none =>
    have hshaped := h.shaped hget
    rw [Shaped, hbase] at hshaped
    exact absurd hnames (hshaped hkind)
  | some base =>
    obtain ⟨_, element, helement, hclass, helementParent, _, helementName, _, hitemName⟩ :=
      h.exists_element hget hbase
    obtain ⟨heq, _⟩ := Item.arrayName_inj helementName hrootName (hitemName.symm.trans hname)
    have hhas : index.Has base (some package) .class name :=
      ⟨element, helement, helementParent.trans hparent, hclass, heq⟩
    have hfind := (h.findItem_eq_some_iff (by decide)).2 hhas
    rw [(h.findItem_eq_some_iff (by decide)).2 hroot] at hfind
    exact hfind.symm

/-- Setting an attribute to what it is changes no item. -/
theorem get?_modify_setId {id target : ItemId} {key : AttrKey}
    (h : ∀ item, index.get? id = some item → item.attributes.id? key = some target) (other : ItemId) :
    (index.modify id (fun item => item.setId key target)).get? other = index.get? other := by
  rw [get?_modify]
  split
  · rename_i hid
    subst hid
    cases hget : index.get? other with
    | none => rfl
    | some item => exact congrArg some (Item.setId_eq_self (h item hget))
  · rfl

/-- The array class over a class is there already, or it is one more item that stands in its place. -/
theorem Patterned.arrayed (h : index.Patterned) {root package : ItemId} {name : String}
    {total : Nat} {rootItem : Item} (hroot : index.Has root (some package) .class name)
    (hrootGet : index.get? root = some rootItem) (hplain : rootItem.arrayBase = none)
    (htotal : total ≠ 0) {array : ItemId} {after : Index}
    (hintern : intern (some package) (Item.arrayName name total) .class index = (array, after))
    (hroom : after.size < 2 ^ 32) :
    let built := after.modify array (fun item => item.setId .arrayBase root)
    let new := (Item.fresh index.nextId (Item.arrayName name total) .class (some package)).setId
      .arrayBase root
    built.Has array (some package) .class (Item.arrayName name total) ∧
      ((built.Coherent ∧ Continues index built ∧ ∀ id, built.get? id = index.get? id) ∨
        Adds index built new ∧ built.Shaped new) := by
  dsimp only
  rw [Index.intern] at hintern
  cases hfind : index.findItem (some package) (Item.arrayName name total) .class with
  | some found =>
    rw [hfind] at hintern
    obtain ⟨rfl, rfl⟩ := Prod.mk.inj hintern
    have harray := (h.findItem_eq_some_iff (by decide)).1 hfind
    have hget := get?_modify_setId (fun item hitem =>
      h.arrayBase_of_has hroot hrootGet hplain htotal harray hitem)
    refine ⟨?_, Or.inl ⟨h.coherent.applyAll found [.one ⟨.arrayBase, rfl⟩ root],
      continues_modify _ _ _, hget⟩⟩
    rw [Has, hget]
    exact harray
  | none =>
    rw [hfind] at hintern
    dsimp only at hintern
    obtain rfl : index.nextId = array := by
      rw [insertItem_eq] at hintern
      exact congrArg Prod.fst hintern
    obtain rfl : (index.insertItem (some package) (Item.arrayName name total) .class).2 = after :=
      congrArg Prod.snd hintern
    have htake := h.coherent.exists_owner hroot
    have hadds := (adds_insertItem h.coherent h.distinct htake (Or.inr hfind) hroom).set h.coherent
      [.one ⟨.arrayBase, rfl⟩ root]
    refine ⟨⟨_, hadds.get?_new, rfl, rfl, rfl⟩, Or.inr ⟨hadds, ?_⟩⟩
    obtain ⟨other, hother, hparent, hkind, rfl⟩ := hroot
    obtain rfl := Option.some.inj (hrootGet.symm.trans hother)
    obtain ⟨later, hlater, hgrows⟩ := hadds.retains.keeps hrootGet
    rw [Shaped, Item.arrayBase, Item.id?_setId]
    refine ⟨rfl, later, total, hlater, hgrows.kind_eq.trans hkind, hgrows.parent_eq.trans hparent,
      hgrows.arrayBase_eq.trans hplain, htotal, ?_⟩
    rw [hgrows.name_eq]
    rfl

theorem Settled.createArray (h : index.Settled foreign) {root package : ItemId} {name : String}
    {total : Nat} {rootItem : Item} (hroot : index.Has root (some package) .class name)
    (hrootGet : index.get? root = some rootItem) (hplain : rootItem.arrayBase = none)
    (htotal : total ≠ 0) {array : ItemId} {after : Index}
    (hintern : intern (some package) (Item.arrayName name total) .class index = (array, after))
    (hroom : after.size < 2 ^ 32) :
    let built := after.modify array (fun item => item.setId .arrayBase root)
    built.Settled foreign ∧ Retains index built ∧
      built.Has array (some package) .class (Item.arrayName name total) := by
  dsimp only
  obtain ⟨harray, ⟨hcoherent, hcontinues, hget⟩ | ⟨hadds, hshaped⟩⟩ :=
    h.arrayed hroot hrootGet hplain htotal hintern hroom
  · obtain ⟨hsettled, hretains⟩ := h.of_get? hcoherent (hcontinues.own h.own) hget
    exact ⟨hsettled, hretains, harray⟩
  · exact ⟨hadds.settled h hshaped rfl (show ItemKind.class ≠ .method by decide), hadds.retains, harray⟩

theorem Settled.createMethod (h : index.Settled foreign) {owner : ItemId} {name : String}
    {params : Option (List ItemId)} (htake : index.CanTake (some owner) .method)
    (hknown : ∀ param ∈ params.getD [], index.Knows foreign param)
    (hnone : index.overload? owner name (params.getD []) = none)
    (hroom : (index.insertMethod owner name params).size < 2 ^ 32) :
    (index.insertMethod owner name params).Settled foreign ∧
      Retains index (index.insertMethod owner name params) ∧
      (index.insertMethod owner name params).overload? owner name (params.getD []) =
        some index.nextId := by
  obtain ⟨new, hadds, hkind, hparent, hname, hparams, hbase, houter⟩ : ∃ new,
      Adds index (index.insertMethod owner name params) new ∧ new.kind = .method ∧
        new.parent = some owner ∧ new.name = name ∧ new.paramTypes = params.getD [] ∧
        new.arrayBase = none ∧ new.outerClass = none := by
    cases params with
    | none =>
      exact ⟨_, adds_insertItem h.coherent h.distinct htake (Or.inl rfl) hroom, rfl, rfl, rfl, rfl, rfl,
        rfl⟩
    | some params =>
      have hless : (index.insertItem (some owner) name .method).2.size < 2 ^ 32 :=
        Nat.lt_of_le_of_lt (continues_modify _ _ _).size_le hroom
      refine ⟨_, (adds_insertItem h.coherent h.distinct htake (Or.inl rfl) hless).set h.coherent
        [.params params], rfl, rfl, rfl, Item.paramTypes_setParamTypes _ params, rfl, rfl⟩
  have hsettled := hadds.settled_method h hkind hparent hname hparams hbase houter hknown hnone
  refine ⟨hsettled, hadds.retains, ?_⟩
  have hmem : index.nextId ∈
      (index.insertMethod owner name params).findAll (some owner) name .method :=
    hsettled.coherent.mem_findAll_iff.2 ⟨new, hadds.get?_new, hparent, hkind, hname⟩
  cases hfound : (index.insertMethod owner name params).overload? owner name (params.getD []) with
  | none =>
    have hrefused := List.find?_eq_none.1 hfound index.nextId hmem
    rw [hadds.get?_new, Option.map_some, Option.getD_some, hparams] at hrefused
    exact absurd (paramsMatch_refl _ _) hrefused
  | some id =>
    obtain ⟨item, hget, hitemParent, hitemKind, hitemName⟩ :=
      hsettled.coherent.mem_findAll_iff.1 (List.mem_of_find?_eq_some hfound)
    have hmatch := List.find?_some hfound
    rw [hget, Option.map_some, Option.getD_some, ← hparams] at hmatch
    rw [hsettled.overloads hget hadds.get?_new hitemKind hkind (hitemParent.trans hparent.symm)
      (hitemName.trans hname.symm) hmatch]

/-! ## Builtin classes -/

theorem createBuiltinPackage_eq (index : Index) : createBuiltinPackage index =
    intern (some (intern none builtinProject .project index).1) "" .package
      (intern none builtinProject .project index).2 :=
  rfl

/-- The builtin package, with the project that owns it. -/
theorem Settled.builtinPackage (h : index.Settled foreign)
    (hroom : (createBuiltinPackage index).2.size < 2 ^ 32) :
    (createBuiltinPackage index).2.Settled foreign ∧ Retains index (createBuiltinPackage index).2 ∧
      ∃ project, (createBuiltinPackage index).2.Has project none .project builtinProject ∧
        (createBuiltinPackage index).2.Has (createBuiltinPackage index).1 (some project) .package "" := by
  rw [createBuiltinPackage_eq] at hroom ⊢
  have hless := Nat.lt_of_le_of_lt (continues_intern _ _ _ _).size_le hroom
  obtain ⟨hproject, hfirst, hhas⟩ :=
    h.interned (by decide) (show index.CanTake none .project from rfl) (fun hclass => by cases hclass) hless
  obtain ⟨hpackage, hsecond, hpackageHas⟩ :=
    hproject.interned (by decide) (hhas.isKind.canTake rfl) (fun hclass => by cases hclass) hroom
  exact ⟨hpackage, hfirst.trans hsecond, _, hsecond.has hhas, hpackageHas⟩

theorem Patterned.builtinPackage_of_has (h : index.Patterned) {project package : ItemId}
    (hproject : index.Has project none .project builtinProject)
    (hpackage : index.Has package (some project) .package "") :
    createBuiltinPackage index = (package, index) := by
  rw [createBuiltinPackage_eq, h.intern_of_has (by decide) hproject, h.intern_of_has (by decide) hpackage]

/-- A class of the builtin package. -/
def createBuiltin (name : String) : StateM Index ItemId := do
  let package ← createBuiltinPackage
  intern (some package) name .class

theorem createBuiltin_eq (name : String) (index : Index) : createBuiltin name index =
    intern (some (createBuiltinPackage index).1) name .class (createBuiltinPackage index).2 :=
  rfl

theorem Settled.builtin (h : index.Settled foreign) {name : String} (hname : ¬ Item.NamesArray name)
    (hroom : (createBuiltin name index).2.size < 2 ^ 32) :
    (createBuiltin name index).2.Settled foreign ∧ Retains index (createBuiltin name index).2 ∧
      (createBuiltin name index).2.IsBuiltin (createBuiltin name index).1 name := by
  rw [createBuiltin_eq] at hroom ⊢
  have hless := Nat.lt_of_le_of_lt (continues_intern _ _ _ _).size_le hroom
  obtain ⟨hpackage, hfirst, project, hproject, hhas⟩ := h.builtinPackage hless
  obtain ⟨hclass, hsecond, hclassHas⟩ :=
    hpackage.interned (by decide) (hhas.isKind.canTake rfl) (fun _ => hname) hroom
  exact ⟨hclass, hfirst.trans hsecond, project, _, hsecond.has hproject, hsecond.has hhas, hclassHas⟩

theorem Patterned.builtin_of_isBuiltin (h : index.Patterned) {id : ItemId} {name : String}
    (hid : index.IsBuiltin id name) : createBuiltin name index = (id, index) := by
  obtain ⟨project, package, hproject, hpackage, hclass⟩ := hid
  rw [createBuiltin_eq, h.builtinPackage_of_has hproject hpackage, h.intern_of_has (by decide) hclass]

theorem not_namesArray_primitive {name : String} (h : primitives.contains name = true) :
    ¬ Item.NamesArray name := by
  have hall : ∀ word ∈ primitives, ¬ Item.NamesArray word := by decide +kernel
  exact hall name (by simpa using h)

end Index

end CodeAtlas
