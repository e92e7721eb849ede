/-
# What is refused changes nothing

Everything that an index can be asked to make, to store or to link may be refused, and what was changed
up to then is kept.  Each request checks before it makes: what comes before the last check reads only,
and what comes after it is never refused.  Linking is the one request that changes the index and is then
refused, when a child that has an owner was copied up; the copy is the item that it was made of, so
that no lookup tells the index from what it was.
-/
import CodeAtlas.Proofs.Index.Durable
import CodeAtlas.Proofs.Index.Reachable

namespace CodeAtlas

open Index

variable {α β : Type}

/-! ## Checks first, changes after -/

/-- A change that leaves the index alone. -/
def Edit.IsCheck (change : Edit α) : Prop :=
  ∀ index, (change.run.run index).2 = index

/-- A change that is never refused. -/
def Edit.IsSure (change : Edit α) : Prop :=
  ∀ index error after, change.run.run index ≠ (.error error, after)

/-- A change that leaves an index as it looks when it is refused. -/
def Edit.IsAtomic (change : Edit α) : Prop :=
  ∀ index error after, change.run.run index = (.error error, after) → AnswersAlike index after

namespace Edit

theorem IsCheck.eq_of_run {change : Edit α} (h : change.IsCheck) {index after : Index}
    {result : Except GraphError α} (hrun : change.run.run index = (result, after)) :
    after = index := by
  have hindex := h index
  rwa [hrun] at hindex

theorem isCheck_checkOwner (owner : ItemId) (kind : ItemKind) (name : String) :
    Edit.IsCheck (Index.checkOwner owner kind name) := by
  intro index
  rw [run_checkOwner]

theorem isCheck_classPlace (id : ItemId) (error : GraphError) :
    Edit.IsCheck (Index.classPlace id error) := by
  intro index
  rw [Index.classPlace, run_get_bind]
  cases index.get? id with
  | none => rfl
  | some item =>
    dsimp only
    split
    · cases item.parent <;> rfl
    · rfl

theorem isSure_pure (value : α) : Edit.IsSure (pure value : Edit α) := by
  intro index error after hrun
  cases hrun

theorem isSure_lift (change : StateM Index α) : Edit.IsSure (ExceptT.lift change : Edit α) := by
  intro index error after hrun
  rw [run_lift] at hrun
  cases hrun

theorem IsSure.bind {change : Edit α} {next : α → Edit β} (hchange : change.IsSure)
    (h : ∀ value, (next value).IsSure) : (change >>= next : Edit β).IsSure := by
  intro index error after hrun
  rcases hfirst : change.run.run index with ⟨refusal | value, middle⟩
  · exact hchange index refusal middle hfirst
  · rw [run_bind_of_ok hfirst] at hrun
    exact h value middle error after hrun

/-- What the index shows can be read at any point. -/
theorem IsSure.get_bind {next : Index → Edit β} (h : ∀ index, (next index).IsSure) :
    (get >>= next : Edit β).IsSure :=
  fun index => h index index

namespace IsAtomic

theorem of_isCheck {change : Edit α} (h : change.IsCheck) : change.IsAtomic := by
  intro index error after hrun
  rw [h.eq_of_run hrun]
  exact AnswersAlike.refl index

theorem of_isSure {change : Edit α} (h : change.IsSure) : change.IsAtomic :=
  fun index error after hrun => absurd hrun (h index error after)

theorem get_bind {next : Index → Edit β} (h : ∀ index, (next index).IsAtomic) :
    (get >>= next : Edit β).IsAtomic :=
  fun index => h index index

/-- A check in front of what is atomic. -/
theorem check_bind {change : Edit α} {next : α → Edit β} (hchange : change.IsCheck)
    (h : ∀ value, (next value).IsAtomic) : (change >>= next : Edit β).IsAtomic := by
  intro index error after hrun
  rcases hfirst : change.run.run index with ⟨refusal | value, middle⟩
  · rw [run_bind_of_error hfirst] at hrun
    obtain ⟨_, rfl⟩ := Prod.mk.inj hrun
    rw [hchange.eq_of_run hfirst]
    exact AnswersAlike.refl index
  · rw [run_bind_of_ok hfirst, hchange.eq_of_run hfirst] at hrun
    exact h value index error after hrun

/-- What is atomic in front of what is never refused. -/
theorem bind_sure {change : Edit α} {next : α → Edit β} (hchange : change.IsAtomic)
    (h : ∀ value, (next value).IsSure) : (change >>= next : Edit β).IsAtomic := by
  intro index error after hrun
  rcases hfirst : change.run.run index with ⟨refusal | value, middle⟩
  · rw [run_bind_of_error hfirst] at hrun
    obtain ⟨_, rfl⟩ := Prod.mk.inj hrun
    exact hchange index refusal middle hfirst
  · rw [run_bind_of_ok hfirst] at hrun
    exact absurd hrun (h value middle error after)

end IsAtomic

end Edit

namespace Index

open Edit

/-! ## Creating -/

/-- An item is made for its owner once the owner is known to take it. -/
theorem isAtomic_createOwned (owner : ItemId) (name : String) (kind : ItemKind) :
    Edit.IsAtomic (checkOwner owner kind name >>= fun _ =>
      ExceptT.lift (intern (some owner) name kind)) :=
  IsAtomic.check_bind (isCheck_checkOwner owner kind name)
    (fun _ => IsAtomic.of_isSure (isSure_lift _))

theorem isAtomic_createInnerClass (outer : ItemId) (simple : String) :
    Edit.IsAtomic (createInnerClass outer simple) := by
  apply IsAtomic.check_bind (isCheck_classPlace outer (.notClass outer))
  rintro ⟨package, outerName⟩
  -- once the class is made, both directions of the nesting are recorded without a check
  apply IsAtomic.bind_sure (isAtomic_createOwned package (outerName ++ "." ++ simple) .class)
  intro inner
  exact (isSure_lift _).bind (fun _ => (isSure_lift _).bind (fun _ => isSure_pure inner))

theorem isAtomic_createMethod (owner : ItemId) (name : String) (params : Option (List ItemId)) :
    Edit.IsAtomic (createMethod owner name params) := by
  apply IsAtomic.check_bind (isCheck_checkOwner owner .method name)
  intro _
  apply IsAtomic.of_isSure
  apply IsSure.get_bind
  intro index
  dsimp only
  split
  · exact isSure_pure _
  · have hinsert : Edit.IsSure (modifyGet
        (fun index : Index => index.insertItem (some owner) name .method) : Edit ItemId) :=
      isSure_lift (fun index : Index => index.insertItem (some owner) name .method)
    apply hinsert.bind
    intro id
    cases params with
    | none => exact isSure_pure id
    | some types => exact (isSure_lift _).bind (fun _ => isSure_pure id)

theorem isAtomic_createArrayClass (base : ItemId) (dims : Nat) :
    Edit.IsAtomic (createArrayClass base dims) := by
  apply IsAtomic.get_bind
  intro index
  dsimp only
  split
  · exact IsAtomic.of_isSure (isSure_pure _)
  · apply IsAtomic.check_bind (isCheck_classPlace _ _)
    rintro ⟨package, name⟩
    apply IsAtomic.bind_sure (isAtomic_createOwned package _ .class)
    intro array
    exact (isSure_lift _).bind (fun _ => isSure_pure array)

theorem isAtomic_createPrimitive (name : String) : Edit.IsAtomic (createPrimitive name) := by
  rw [createPrimitive]
  split
  · exact IsAtomic.of_isSure ((isSure_lift _).bind (fun _ => isSure_lift _))
  · exact IsAtomic.of_isCheck (fun _ => rfl)

/-! ## Linking -/

/-- A copy of an item in the upper layer is the item. -/
theorem get?_copyUp (index : Index) (id other : ItemId) :
    (index.copyUp id).get? other = index.get? other := by
  rcases index.copyUp_cases id with heq | heq
  · rw [heq]
  · rw [heq, get?_modify]
    by_cases hid : other = id
    · rw [if_pos hid, hid, Option.map_id_fun']
      rfl
    · rw [if_neg hid]

/-- Copying an item up is not noticed by any lookup. -/
theorem answersAlike_copyUp (index : Index) (id : ItemId) : AnswersAlike index (index.copyUp id) := by
  -- beside the copies nothing is touched, neither items nor registry nor numbers
  have hcopies : ∃ shadows, index.copyUp id =
      { index with top := { index.top with shadows := shadows } } := by
    rw [copyUp]
    split
    · exact ⟨index.top.shadows, rfl⟩
    · split
      · exact ⟨_, rfl⟩
      · exact ⟨index.top.shadows, rfl⟩
  obtain ⟨shadows, hcopy⟩ := hcopies
  have hget := get?_copyUp index id
  rw [hcopy] at hget ⊢
  exact ⟨hget, rfl, fun _ _ _ => rfl, fun _ _ _ => rfl, fun _ _ => rfl, rfl, rfl, rfl⟩

/-- A link that is refused is not noticed. -/
theorem answersAlike_linkParent {index after : Index} {child parent : ItemId} {error : GraphError}
    (h : index.linkParent child parent = (.error error, after)) : AnswersAlike index after := by
  have hsame : AnswersAlike index index := AnswersAlike.refl index
  unfold linkParent at h
  split at h
  · obtain ⟨_, rfl⟩ := Prod.mk.inj h
    exact hsame
  · split at h
    · obtain ⟨_, rfl⟩ := Prod.mk.inj h
      exact hsame
    · split at h
      · obtain ⟨_, rfl⟩ := Prod.mk.inj h
        exact answersAlike_copyUp index child
      · cases h

end Index

/-! ## Requests -/

/-- What an index is asked to make, to store or to link. -/
inductive Request where
  | package (project : ItemId) (name : String)
  | class (package : ItemId) (name : String)
  | innerClass (outer : ItemId) (simple : String)
  | method (owner : ItemId) (name : String) (params : Option (List ItemId))
  | field (owner : ItemId) (name : String)
  | arrayClass (base : ItemId) (dims : Nat)
  | primitive (name : String)
  | raw (number : UInt32) (name : String) (kind : ItemKind)
  | parent (child owner : ItemId)
deriving DecidableEq, Repr

namespace Request

open Edit

/-- What a request does to an index.  It gives the item that was made, if it is one that makes items. -/
def edit : Request → Edit (Option ItemId)
  | package project name => return some (← Index.createPackage project name)
  | .class owner name => return some (← Index.createClass owner name)
  | innerClass outer simple => return some (← Index.createInnerClass outer simple)
  | method owner name params => return some (← Index.createMethod owner name params)
  | field owner name => return some (← Index.createField owner name)
  | arrayClass base dims => return some (← Index.createArrayClass base dims)
  | primitive name => return some (← Index.createPrimitive name)
  | raw number name kind => do
    match (← get).insertRaw number name kind with
    | .ok (id, after) =>
      set after
      return some id
    | .error error => throw error
  | parent child owner => do
    ExceptT.mk (fun index : Index => index.linkParent child owner)
    return none

/-- A request that is refused is not noticed. -/
theorem isAtomic_edit (request : Request) : request.edit.IsAtomic := by
  cases request with
  | package project name =>
    exact (isAtomic_createOwned project name .package).bind_sure (fun _ => isSure_pure _)
  | «class» package name =>
    exact (isAtomic_createOwned package name .class).bind_sure (fun _ => isSure_pure _)
  | innerClass outer simple =>
    exact (isAtomic_createInnerClass outer simple).bind_sure (fun _ => isSure_pure _)
  | method owner name params =>
    exact (isAtomic_createMethod owner name params).bind_sure (fun _ => isSure_pure _)
  | field owner name =>
    exact (isAtomic_createOwned owner name .field).bind_sure (fun _ => isSure_pure _)
  | arrayClass base dims =>
    exact (isAtomic_createArrayClass base dims).bind_sure (fun _ => isSure_pure _)
  | primitive name => exact (isAtomic_createPrimitive name).bind_sure (fun _ => isSure_pure _)
  | raw number name kind =>
    apply IsAtomic.get_bind
    intro index
    split
    · rename_i after _
      have hset : Edit.IsSure (set after : Edit PUnit) := isSure_lift (set after)
      exact .of_isSure (hset.bind (fun _ => isSure_pure _))
    · exact .of_isCheck (fun _ => rfl)
  | parent child owner =>
    have hlink : Edit.IsAtomic
        (ExceptT.mk (fun index : Index => index.linkParent child owner) : Edit Unit) :=
      fun _ _ _ hrun => answersAlike_linkParent hrun
    exact hlink.bind_sure (fun _ => isSure_pure _)

end Request

namespace Index

/-- Indices that no lookup tells apart have the same items. -/
theorem AnswersAlike.items_eq {a b : Index} (h : AnswersAlike a b) : b.items = a.items := by
  unfold items
  rw [h.ids_eq]
  apply List.filterMap_congr
  intro id _
  exact h.get?_eq id

/-- A refused request leaves every index, with or without a base, as it was for all lookups: it has the
same items, hands out the same numbers and finds the same. -/
theorem refused_request_changes_nothing {index after : Index} {request : Request}
    {error : GraphError} (h : request.edit.run.run index = (.error error, after)) :
    AnswersAlike index after ∧ after.items = index.items :=
  have hsame := request.isAtomic_edit index error after h
  ⟨hsame, hsame.items_eq⟩

/-- A class of the base is given a second owner. -/
def reownedApp : Except GraphError (Option ItemId) × Index :=
  (Request.parent ⟨2, 1⟩ ⟨0, 1⟩).edit.run.run (onBase 3 layeredApp)

/-- The refusal leaves a copy of the class in the upper layer, which no lookup shows. -/
theorem refused_request_changes_nothing_layeredApp :
    (reownedApp.2.top.shadows.contains ⟨2, 1⟩ = true ∧
      (onBase 3 layeredApp).top.shadows.contains ⟨2, 1⟩ = false) ∧
      AnswersAlike (onBase 3 layeredApp) reownedApp.2 ∧
      reownedApp.2.items = (onBase 3 layeredApp).items := by
  have hrefused : reownedApp.1 = .error (.alreadyOwned ⟨2, 1⟩ ⟨1, 1⟩) := by decide +kernel
  exact ⟨by decide +kernel, refused_request_changes_nothing (Prod.ext hrefused rfl)⟩

end Index

end CodeAtlas
