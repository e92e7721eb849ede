/-
# What every operation keeps

A property of indices is sturdy when it survives the changes that operations are made of: setting
attributes, creating an item, and recording or removing a dependency.  Every operation keeps what is
sturdy, whatever it is given and whatever the index looks like; the owners and links of the index need
not be in order.  A property is durable when it survives any change in place, and so sturdy.

Not only operations change an index.  Items are also put under chosen numbers and linked to owners by
hand; what survives that as well is enduring.  A property is lifelong when it survives every change that
indices are made by, storing an item with links of its own among them.
-/
import CodeAtlas.Proofs.Index.PairedOperations

namespace CodeAtlas

open Index

variable {α β : Type} {holds : Index → Prop}

/-- A name for an item of a kind: only projects and packages may go without one. -/
def ItemKind.Admits (kind : ItemKind) (name : String) : Prop :=
  name = "" → kind = .project ∨ kind = .package

theorem ItemKind.admits_of_ne_empty {name : String} (kind : ItemKind) (hname : name ≠ "") :
    kind.Admits name :=
  fun hempty => absurd hempty hname

theorem Index.primitive_ne_empty {name : String} (hname : primitives.contains name = true) :
    name ≠ "" := by
  rintro rfl
  exact absurd hname (by decide)

/-- A change in place that leaves the dependencies of an item alone, both ways. -/
def Item.KeepsLinks (f : Item → Item) : Prop :=
  ∀ item, (f item).dependencies = item.dependencies ∧ (f item).incoming = item.incoming

theorem Setting.keepsLinks_applyAll (settings : List (Setting ItemId)) :
    Item.KeepsLinks (applyAll settings) := by
  intro item
  rw [applyAll_eq]
  exact ⟨rfl, rfl⟩

/-- A property that attributes, new items and dependencies, recorded or removed, leave intact. -/
structure Index.Sturdy (holds : Index → Prop) : Prop where
  modify : ∀ {index : Index} {f : Item → Item} (id : ItemId), Item.KeepsPlace f →
    Item.KeepsLinks f → holds index → holds (index.modify id f)
  insertItem : ∀ {index : Index} {name : String} {kind : ItemKind} (parent : Option ItemId),
    kind.Admits name → holds index → holds (index.insertItem parent name kind).2
  addDependency : ∀ {index : Index} (source target : ItemId), holds index →
    holds (index.addDependency source target).2
  removeDependency : ∀ {index : Index} (source target : ItemId), holds index →
    holds (index.removeDependency source target).2

/-- A property that changing an item in place and creating an item leave intact. -/
structure Index.Durable (holds : Index → Prop) : Prop where
  modify : ∀ {index : Index} {f : Item → Item} (id : ItemId), Item.KeepsPlace f → holds index →
    holds (index.modify id f)
  insertItem : ∀ {index : Index} {name : String} {kind : ItemKind} (parent : Option ItemId),
    kind.Admits name → holds index → holds (index.insertItem parent name kind).2

/-! ## Changes that keep a property -/

/-- A change that leaves a property intact, refused or not. -/
def Edit.Keeps (holds : Index → Prop) (change : Edit α) : Prop :=
  ∀ index, holds index → holds (change.run.run index).2

namespace Edit.Keeps

theorem pure (value : α) : Edit.Keeps holds (Pure.pure value : Edit α) :=
  fun _ hindex => hindex

theorem throw (error : GraphError) :
    Edit.Keeps holds (MonadExcept.throw error : Edit α) :=
  fun _ hindex => hindex

theorem lift {change : StateM Index α}
    (h : ∀ index, holds index → holds (change.run index).2) :
    Edit.Keeps holds (ExceptT.lift change : Edit α) :=
  h

theorem get_bind {next : Index → Edit α} (h : ∀ index, Edit.Keeps holds (next index)) :
    Edit.Keeps holds (get >>= next : Edit α) :=
  fun index => h index index

theorem bind {change : Edit α} {next : α → Edit β} (hchange : Edit.Keeps holds change)
    (h : ∀ value, Edit.Keeps holds (next value)) :
    Edit.Keeps holds (change >>= next : Edit β) := by
  intro index hindex
  have hmiddle := hchange index hindex
  rcases hrun : change.run.run index with ⟨error | value, after⟩
  · rw [run_bind_of_error hrun]
    rw [hrun] at hmiddle
    exact hmiddle
  · rw [run_bind_of_ok hrun]
    rw [hrun] at hmiddle
    exact h value after hmiddle

/-- What comes after the check of an owner may count on the name. -/
theorem checkOwner_bind {owner : ItemId} {kind : ItemKind} {name : String} {next : Unit → Edit β}
    (h : kind.Admits name → Edit.Keeps holds (next ())) :
    Edit.Keeps holds (Index.checkOwner owner kind name >>= next) := by
  intro index hindex
  have hcheck := run_checkOwner owner kind name index
  cases hrefusal : index.refusal? owner kind name with
  | some error =>
    rw [hrefusal] at hcheck
    rw [run_bind_of_error hcheck]
    exact hindex
  | none =>
    rw [hrefusal] at hcheck
    rw [run_bind_of_ok hcheck]
    exact h (fun hempty => Or.inr ((refusal?_eq_none_iff.1 hrefusal).2 hempty)) index hindex

theorem classPlace (id : ItemId) (error : GraphError) :
    Edit.Keeps holds (Index.classPlace id error) := by
  refine get_bind (fun index => ?_)
  cases index.get? id with
  | none => exact throw error
  | some item =>
    dsimp only
    split
    · cases item.parent with
      | none => exact throw _
      | some package => exact pure _
    · exact throw error

/-- What the change of an operation keeps, the operation keeps. -/
theorem run {operation : Operation ItemId} (h : Edit.Keeps holds operation.edit) {index : Index}
    (hindex : holds index) : holds (operation.run index).2 := by
  have hafter := h index hindex
  rw [Operation.run]
  rcases hrun : operation.edit.run.run index with ⟨error | answer, after⟩ <;>
  · rw [hrun] at hafter
    exact hafter

end Edit.Keeps

/-! ## The parts of an operation -/

namespace Index.Sturdy

variable (h : Sturdy holds)

include h

theorem update (id : ItemId) {f : Item → Item} (hplace : Item.KeepsPlace f)
    (hlinks : Item.KeepsLinks f) : Edit.Keeps holds (ExceptT.lift (Index.update id f)) :=
  Edit.Keeps.lift (fun _ hindex => h.modify id hplace hlinks hindex)

theorem setAll (id : ItemId) (settings : List (Setting ItemId)) :
    Edit.Keeps holds (ExceptT.lift (Index.update id (Setting.applyAll settings))) :=
  h.update id (Setting.keepsPlace_applyAll settings) (Setting.keepsLinks_applyAll settings)

theorem set (id : ItemId) (setting : Setting ItemId) :
    Edit.Keeps holds (ExceptT.lift (Index.update id setting.apply)) :=
  h.setAll id [setting]

theorem intern (parent : Option ItemId) {name : String} {kind : ItemKind}
    (hname : kind.Admits name) :
    Edit.Keeps holds (ExceptT.lift (Index.intern parent name kind)) := by
  refine Edit.Keeps.lift (fun index hindex => ?_)
  show holds (Index.intern parent name kind index).2
  rw [Index.intern]
  split
  · exact hindex
  · exact h.insertItem parent hname hindex

theorem createOwned (owner : ItemId) (name : String) (kind : ItemKind) :
    Edit.Keeps holds (checkOwner owner kind name >>= fun _ =>
      ExceptT.lift (Index.intern (some owner) name kind)) :=
  Edit.Keeps.checkOwner_bind (fun hname => h.intern (some owner) hname)

theorem createInnerClass (outer : ItemId) (simple : String) :
    Edit.Keeps holds (Index.createInnerClass outer simple) := by
  refine (Edit.Keeps.classPlace outer (.notClass outer)).bind ?_
  rintro ⟨package, outerName⟩
  refine (h.createOwned package (outerName ++ "." ++ simple) .class).bind (fun inner => ?_)
  refine Edit.Keeps.bind (h.set inner (.one ⟨.outerClass, rfl⟩ outer)) (fun _ => ?_)
  exact Edit.Keeps.bind (h.set outer (.member ⟨.innerClasses, rfl⟩ inner))
    (fun _ => Edit.Keeps.pure inner)

theorem createMethod (owner : ItemId) (name : String) (params : Option (List ItemId)) :
    Edit.Keeps holds (Index.createMethod owner name params) := by
  refine Edit.Keeps.checkOwner_bind (fun hname => Edit.Keeps.get_bind (fun index => ?_))
  dsimp only
  split
  · exact Edit.Keeps.pure _
  · have hinsert : Edit.Keeps holds (modifyGet
        (fun index : Index => index.insertItem (some owner) name .method) : Edit ItemId) :=
      Edit.Keeps.lift (fun _ hindex => h.insertItem (some owner) hname hindex)
    refine hinsert.bind (fun id => ?_)
    cases params with
    | none => exact Edit.Keeps.pure id
    | some types =>
      exact Edit.Keeps.bind (h.set id (.params types)) (fun _ => Edit.Keeps.pure id)

theorem createArrayClass (base : ItemId) (dims : Nat) :
    Edit.Keeps holds (Index.createArrayClass base dims) := by
  refine Edit.Keeps.get_bind (fun index => ?_)
  dsimp only
  split
  · exact Edit.Keeps.pure _
  · refine (Edit.Keeps.classPlace _ _).bind ?_
    rintro ⟨package, name⟩
    refine (h.createOwned package _ .class).bind (fun array => ?_)
    exact Edit.Keeps.bind (h.set array (.one ⟨.arrayBase, rfl⟩ _))
      (fun _ => Edit.Keeps.pure array)

/-- A class in the builtin package. -/
theorem createBuiltinClass {name : String} (hname : name ≠ "") :
    Edit.Keeps holds (ExceptT.lift createBuiltinPackage >>= fun package =>
      ExceptT.lift (Index.intern (some package) name .class)) := by
  refine Edit.Keeps.bind ?_
    (fun package => h.intern (some package) (ItemKind.class.admits_of_ne_empty hname))
  rw [createBuiltinPackage, lift_bind]
  exact (h.intern none (fun _ => Or.inl rfl)).bind
    (fun project => h.intern (some project) (fun _ => Or.inr rfl))

theorem createPrimitive (name : String) : Edit.Keeps holds (Index.createPrimitive name) := by
  rw [Index.createPrimitive]
  split
  · rename_i hname
    exact h.createBuiltinClass (primitive_ne_empty hname)
  · exact Edit.Keeps.throw _

theorem createWildcard : Edit.Keeps holds (ExceptT.lift Index.createWildcard) := by
  rw [Index.createWildcard, lift_bind]
  exact h.createBuiltinClass (by decide)

theorem createPseudo (owner : ItemId) (site : CallSite) :
    Edit.Keeps holds (Index.createPseudo owner site) := by
  refine h.createWildcard.bind (fun wildcard => ?_)
  refine (h.createMethod owner site.name _).bind (fun method => Edit.Keeps.get_bind (fun index => ?_))
  refine (h.update method (fun item => ?_) (fun item => ?_)).bind (fun _ => Edit.Keeps.pure method)
  · cases index.inThirdParty owner <;> exact ⟨rfl, rfl, rfl, rfl⟩
  · cases index.inThirdParty owner <;> exact ⟨rfl, rfl⟩

theorem resolveOrCreate (site : CallSite) (create : Bool) :
    Edit.Keeps holds (Index.resolveOrCreate site create) := by
  refine Edit.Keeps.get_bind (fun index => ?_)
  cases index.resolveCall site with
  | some method => exact Edit.Keeps.pure _
  | none =>
    dsimp only
    split
    · refine Edit.Keeps.get_bind (fun index => ?_)
      cases index.pseudoOwner? site with
      | none => exact Edit.Keeps.pure _
      | some owner => exact (h.createPseudo owner site).bind (fun _ => Edit.Keeps.pure _)
    · exact Edit.Keeps.pure _

theorem foldl_set (settings : List (Setting ItemId)) (ids : List ItemId) {index : Index}
    (hindex : holds index) :
    holds (ids.foldl (fun index id => index.modify id (Setting.applyAll settings)) index) := by
  induction ids generalizing index with
  | nil => exact hindex
  | cons first rest ih =>
    exact ih (h.modify first (Setting.keepsPlace_applyAll settings)
      (Setting.keepsLinks_applyAll settings) hindex)

/-! ## Operations -/

theorem edit (operation : Operation ItemId) : Edit.Keeps holds operation.edit := by
  cases operation with
  | project name => exact (h.intern none (fun _ => Or.inl rfl)).bind (fun _ => Edit.Keeps.pure _)
  | package owner name => exact (h.createOwned owner name .package).bind (fun _ => Edit.Keeps.pure _)
  | «class» owner name => exact (h.createOwned owner name .class).bind (fun _ => Edit.Keeps.pure _)
  | innerClass outer simple =>
    exact (h.createInnerClass outer simple).bind (fun _ => Edit.Keeps.pure _)
  | method owner name params =>
    exact (h.createMethod owner name params).bind (fun _ => Edit.Keeps.pure _)
  | field owner name => exact (h.createOwned owner name .field).bind (fun _ => Edit.Keeps.pure _)
  | arrayClass base dims => exact (h.createArrayClass base dims).bind (fun _ => Edit.Keeps.pure _)
  | builtinProject =>
    exact (h.intern none (fun _ => Or.inl rfl)).bind (fun _ => Edit.Keeps.pure _)
  | primitive name => exact (h.createPrimitive name).bind (fun _ => Edit.Keeps.pure _)
  | wildcard => exact h.createWildcard.bind (fun _ => Edit.Keeps.pure _)
  | set item setting =>
    exact Edit.Keeps.get_bind (fun _ => (h.set item setting).bind (fun _ => Edit.Keeps.pure _))
  | addDependency source target =>
    have hadd : Edit.Keeps holds
        (modifyGet (fun index : Index => index.addDependency source target) : Edit Bool) :=
      Edit.Keeps.lift (fun _ hindex => h.addDependency source target hindex)
    exact hadd.bind (fun _ => Edit.Keeps.pure _)
  | removeDependency source target =>
    have hremove : Edit.Keeps holds
        (modifyGet (fun index : Index => index.removeDependency source target) : Edit Bool) :=
      Edit.Keeps.lift (fun _ hindex => h.removeDependency source target hindex)
    exact hremove.bind (fun _ => Edit.Keeps.pure _)
  | call site owners create =>
    exact (h.resolveOrCreate { site with owners := owners } create).bind (fun _ => Edit.Keeps.pure _)
  | propagateThirdParty =>
    have hflags : Edit.Keeps holds
        (modifyGet (fun index : Index => index.propagateThirdParty) : Edit Nat) :=
      Edit.Keeps.lift (fun index hindex =>
        h.foldl_set [.flag .thirdParty true] index.unflagged hindex)
    exact hflags.bind (fun _ => Edit.Keeps.pure _)

/-- Every operation keeps what is sturdy. -/
theorem run (operation : Operation ItemId) {index : Index} (hindex : holds index) :
    holds (operation.run index).2 :=
  (h.edit operation).run hindex

end Index.Sturdy

/-! ## Durable properties -/

namespace Index.Durable

variable (h : Durable holds)

include h

theorem addDependency (source target : ItemId) {index : Index} (hindex : holds index) :
    holds (index.addDependency source target).2 := by
  rw [Index.addDependency]
  split
  · exact hindex
  · exact h.modify target (keepsPlace_incoming (insertNew · source))
      (h.modify source (keepsPlace_dependencies (insertNew · target)) hindex)

theorem removeDependency (source target : ItemId) {index : Index} (hindex : holds index) :
    holds (index.removeDependency source target).2 :=
  h.modify target (keepsPlace_incoming (·.erase source))
    (h.modify source (keepsPlace_dependencies (·.erase target)) hindex)

theorem sturdy : Sturdy holds where
  modify := fun id hf _ hindex => h.modify id hf hindex
  insertItem := h.insertItem
  addDependency := fun source target hindex => h.addDependency source target hindex
  removeDependency := fun source target hindex => h.removeDependency source target hindex

end Index.Durable

/-! ## What all indices are made by -/

namespace Index

/-- A property that items changed in place but for their dependencies, items without links stored under
any number, dependencies recorded or removed and new books leave intact. -/
structure Enduring (holds : Index → Prop) : Prop where
  modify : ∀ {index : Index} {f : Item → Item} (id : ItemId), (∀ item, (f item).id = item.id) →
    Item.KeepsLinks f → holds index → holds (index.modify id f)
  store : ∀ {index : Index} {id : ItemId} {name : String} {kind : ItemKind} {parent : Option ItemId},
    id.generation = index.generation → holds index → holds (index.store (.fresh id name kind parent))
  addDependency : ∀ {index : Index} (source target : ItemId), holds index →
    holds (index.addDependency source target).2
  removeDependency : ∀ {index : Index} (source target : ItemId), holds index →
    holds (index.removeDependency source target).2
  books : ∀ {a b : Index}, SameItems b a → holds a → holds b

/-- A property that items changed in place but for their dependencies, items without links stored under
any number, new items, dependencies recorded or removed and a new registry leave intact.  Unlike one
that is enduring it may depend on the next number. -/
structure Lasting (holds : Index → Prop) : Prop where
  modify : ∀ {index : Index} {f : Item → Item} (id : ItemId), (∀ item, (f item).id = item.id) →
    Item.KeepsLinks f → holds index → holds (index.modify id f)
  store : ∀ {index : Index} {id : ItemId} {name : String} {kind : ItemKind} {parent : Option ItemId},
    id.generation = index.generation → holds index → holds (index.store (.fresh id name kind parent))
  insertItem : ∀ {index : Index} {name : String} {kind : ItemKind} (parent : Option ItemId),
    holds index → holds (index.insertItem parent name kind).2
  addDependency : ∀ {index : Index} (source target : ItemId), holds index →
    holds (index.addDependency source target).2
  removeDependency : ∀ {index : Index} (source target : ItemId), holds index →
    holds (index.removeDependency source target).2
  rebuildRegistry : ∀ {index : Index}, holds index → holds index.rebuildRegistry

theorem Enduring.lasting (h : Enduring holds) : Lasting holds where
  modify := h.modify
  store := h.store
  insertItem := by
    intro index name kind parent hindex
    have hstored : holds (index.stored parent name kind) :=
      h.store rfl (h.books (sameItems_allocate index) hindex)
    rw [insertItem_eq]
    refine h.books (sameItems_register _ _) ?_
    cases parent with
    | none => exact hstored
    | some owner => exact h.modify owner (fun _ => rfl) (fun _ => ⟨rfl, rfl⟩) hstored
  addDependency := h.addDependency
  removeDependency := h.removeDependency
  rebuildRegistry := fun hindex => h.books (sameItems_rebuildRegistry _) hindex

namespace Lasting

variable {index after : Index} (h : Lasting holds)

include h

theorem sturdy : Sturdy holds where
  modify := fun id hplace hlinks hindex => h.modify id (fun item => (hplace item).1) hlinks hindex
  insertItem := fun parent _ hindex => h.insertItem parent hindex
  addDependency := h.addDependency
  removeDependency := h.removeDependency

theorem insertRaw (hindex : holds index) {raw : UInt32} {name : String} {kind : ItemKind}
    {id : ItemId} (hinsert : index.insertRaw raw name kind = .ok (id, after)) : holds after := by
  rw [Index.insertRaw] at hinsert
  split at hinsert
  · exact absurd hinsert (by simp)
  · dsimp only at hinsert
    split at hinsert
    · exact absurd hinsert (by simp)
    · obtain ⟨_, rfl⟩ := Prod.mk.inj (Except.ok.inj hinsert)
      exact h.store rfl hindex

theorem copyUp (hindex : holds index) (id : ItemId) : holds (index.copyUp id) := by
  rcases index.copyUp_cases id with heq | heq
  · rw [heq]
    exact hindex
  · rw [heq]
    exact h.modify id (fun _ => rfl) (fun _ => ⟨rfl, rfl⟩) hindex

/-- A link keeps a lasting property, refused or not. -/
theorem linkParent (hindex : holds index) (child parent : ItemId) :
    holds (index.linkParent child parent).2 := by
  rw [Index.linkParent]
  split
  · exact hindex
  · split
    · exact hindex
    · split
      · exact h.copyUp hindex child
      · exact h.modify parent (fun _ => rfl) (fun _ => ⟨rfl, rfl⟩)
          (h.modify child (fun _ => rfl) (fun _ => ⟨rfl, rfl⟩) hindex)

theorem setParent (hindex : holds index) {child parent : ItemId}
    (hset : index.setParent child parent = .ok after) : holds after := by
  have hlinked := h.linkParent hindex child parent
  rw [Index.setParent] at hset
  split at hset
  · rename_i linked hlink
    obtain rfl := Except.ok.inj hset
    rwa [hlink] at hlinked
  · exact absurd hset (by simp)

end Lasting

/-- A property that items changed in place, items stored under any number and new books leave intact. -/
structure Lifelong (holds : Index → Prop) : Prop where
  modify : ∀ {index : Index} {f : Item → Item} (id : ItemId), (∀ item, (f item).id = item.id) →
    holds index → holds (index.modify id f)
  store : ∀ {index : Index} {item : Item}, item.id.generation = index.generation → holds index →
    holds (index.store item)
  books : ∀ {a b : Index}, SameItems b a → holds a → holds b

theorem Lifelong.enduring (h : Lifelong holds) : Enduring holds where
  modify := fun id hid _ hindex => h.modify id hid hindex
  store := fun hgeneration hindex => h.store hgeneration hindex
  addDependency := by
    intro index source target hindex
    rw [Index.addDependency]
    split
    · exact hindex
    · exact h.modify target (fun _ => rfl) (h.modify source (fun _ => rfl) hindex)
  removeDependency := fun source target hindex =>
    h.modify target (fun _ => rfl) (h.modify source (fun _ => rfl) hindex)
  books := h.books

end Index

end CodeAtlas
