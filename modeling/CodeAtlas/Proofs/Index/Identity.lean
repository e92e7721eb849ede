/-
# Creating an item again

An operation that creates an item finds that item when it is run again, however many items were created
in between and in whichever layer, and changes nothing.  What it answered is a fact about the items of
the index that later operations retain.

Handles cannot be made up: an operation is given handles of items that are there, or handles of other
indices, which are told by their `foreign` generations.
-/
import CodeAtlas.Proofs.Index.Creation
import Mathlib.Data.List.Find

namespace CodeAtlas

/-! ## Operations that create items -/

namespace Operation

open Index

/-- An operation that creates items may be run: it gives no class the name of an array, it gives no
nested class a name with a dot, and the handles it records or extends are known. -/
def Creates (foreign : Nat → Prop) (index : Index) : Operation ItemId → Prop
  | project _ | package _ _ | field _ _ | builtinProject | primitive _ | wildcard => True
  | .class _ name => ¬ Item.NamesArray name
  | innerClass _ simple => ¬ Item.NamesArray simple ∧ '.' ∉ simple.toList
  | method _ _ params => ∀ param ∈ params.getD [], index.Knows foreign param
  | arrayClass base _ => index.Knows foreign base
  | set _ _ | addDependency _ _ | removeDependency _ _ | call _ _ _ | propagateThirdParty => False

instance (foreign : Nat → Prop) [DecidablePred foreign] (index : Index) (id : ItemId) :
    Decidable (index.Knows foreign id) :=
  inferInstanceAs (Decidable (_ ∨ _))

instance (foreign : Nat → Prop) [DecidablePred foreign] (index : Index) :
    (operation : Operation ItemId) → Decidable (operation.Creates foreign index)
  | project _ | package _ _ | field _ _ | builtinProject | primitive _ | wildcard =>
    inferInstanceAs (Decidable True)
  | .class _ name => inferInstanceAs (Decidable (¬ Item.NamesArray name))
  | innerClass _ simple => inferInstanceAs (Decidable (¬ Item.NamesArray simple ∧ '.' ∉ simple.toList))
  | method _ _ params =>
    inferInstanceAs (Decidable (∀ param ∈ params.getD [], index.Knows foreign param))
  | arrayClass base _ => inferInstanceAs (Decidable (index.Knows foreign base))
  | set _ _ | addDependency _ _ | removeDependency _ _ | call _ _ _ | propagateThirdParty =>
    inferInstanceAs (Decidable False)

/-- What an index holds once an operation that creates items has answered with a handle. -/
def Answered (index : Index) (id : ItemId) : Operation ItemId → Prop
  | project name => index.Has id none .project name
  | package owner name =>
    index.refusal? owner .package name = none ∧ index.Has id (some owner) .package name
  | .class owner name =>
    index.refusal? owner .class name = none ∧ index.Has id (some owner) .class name
  | field owner name =>
    index.refusal? owner .field name = none ∧ index.Has id (some owner) .field name
  | innerClass outer simple => ∃ package name outerItem item,
      index.Has outer (some package) .class name ∧
      index.Has id (some package) .class (name ++ "." ++ simple) ∧
      index.get? outer = some outerItem ∧ id ∈ outerItem.innerClasses ∧
      index.get? id = some item ∧ item.outerClass = some outer
  | method owner name params =>
    index.refusal? owner .method name = none ∧ index.overload? owner name (params.getD []) = some id
  | arrayClass base dims => index.arrayShape base dims = (id, 0) ∨
      ∃ root total package name, index.arrayShape base dims = (root, total) ∧ total ≠ 0 ∧
        index.Has root (some package) .class name ∧
        index.Has id (some package) .class (Item.arrayName name total)
  | builtinProject => index.Has id none .project CodeAtlas.builtinProject
  | primitive name => primitives.contains name = true ∧ index.IsBuiltin id name
  | wildcard => index.IsBuiltin id wildcardName
  | set _ _ | addDependency _ _ | removeDependency _ _ | call _ _ _ | propagateThirdParty => False

variable {a b index : Index} {foreign : Nat → Prop}

/-! ### What was answered stays -/

theorem refusal?_retains (h : Retains a b) {owner : ItemId} {kind : ItemKind} {name : String}
    (hnone : a.refusal? owner kind name = none) : b.refusal? owner kind name = none := by
  obtain ⟨htake, hname⟩ := refusal?_eq_none_iff.1 hnone
  exact refusal?_eq_none_iff.2 ⟨h.canTake htake, hname⟩

/-- The shape of an array over a known class is settled. -/
theorem arrayShape_retains (hb : b.Laid foreign) (h : Retains a b) {base : ItemId}
    (hbase : a.Knows foreign base) (dims : Nat) : b.arrayShape base dims = a.arrayShape base dims := by
  rw [arrayShape, arrayShape]
  cases hget : a.get? base with
  | none =>
    have hforeign : foreign base.generation :=
      hbase.resolve_left (fun hcontains => by simp [contains, hget] at hcontains)
    cases hlater : b.get? base with
    | none => rfl
    | some later =>
      exact absurd hforeign (hb.not_foreign (Option.isSome_iff_exists.2 ⟨later, hlater⟩))
  | some item =>
    obtain ⟨later, hlater, hgrows⟩ := h.keeps hget
    rw [hlater]
    simp only [hgrows.arrayBase_eq, Item.arrayDims, hgrows.name_eq]

/-- The overloads of a method are listed in the order in which they were created. -/
theorem findAll_retains (ha : a.Coherent) (hb : b.Coherent) (h : Retains a b) (parent : Option ItemId)
    (name : String) (kind : ItemKind) :
    a.findAll parent name kind <+: b.findAll parent name kind := by
  obtain ⟨rest, hrest⟩ := h.ids_prefix
  rw [ha.registered.findAll_eq, hb.registered.findAll_eq, ← hrest, List.filter_append]
  have hold : a.ids.filter (b.bears ⟨parent, kind, name⟩) =
      a.ids.filter (a.bears ⟨parent, kind, name⟩) := by
    refine List.filter_congr (fun id hid => ?_)
    have hcontains := (mem_ids_iff ha.stacked).1 hid
    rw [Bool.eq_iff_iff, ← has_iff_bears, ← has_iff_bears]
    exact ⟨h.has_of_contains hcontains, h.has⟩
  rw [hold]
  exact List.prefix_append _ _

/-- The first overload that matches stays the first. -/
theorem overload?_retains (ha : a.Settled foreign) (hb : b.Settled foreign) (h : Retains a b)
    {owner id : ItemId} {name : String} {params : List ItemId}
    (hparams : ∀ param ∈ params, a.Knows foreign param)
    (hfound : a.overload? owner name params = some id) : b.overload? owner name params = some id := by
  obtain ⟨rest, hrest⟩ := findAll_retains ha.coherent hb.coherent h (some owner) name .method
  rw [overload?, ← hrest, List.find?_append]
  have hold : (a.findAll (some owner) name .method).find? (fun candidate =>
      b.paramsMatch (((b.get? candidate).map Item.paramTypes).getD []) params) = some id := by
    rw [← hfound, overload?]
    refine List.find?_congr (fun candidate hcandidate => ?_)
    obtain ⟨item, hget, _, hkind, _⟩ := ha.coherent.mem_findAll_iff.1 hcandidate
    obtain ⟨later, hlater, hgrows⟩ := h.keeps hget
    rw [hget, hlater]
    simp only [Option.map_some, Option.getD_some, hgrows.paramTypes_eq]
    exact h.paramsMatch_eq ha.toLaid hb.toLaid (ha.known hget hkind) hparams
  rw [hold]
  rfl

theorem Answered.retains {operation : Operation ItemId} {id : ItemId} (ha : a.Settled foreign)
    (hb : b.Settled foreign) (h : Retains a b) (hcreates : operation.Creates foreign a)
    (hanswered : operation.Answered a id) : operation.Answered b id := by
  cases operation with
  | project name => exact h.has hanswered
  | package owner name => exact ⟨refusal?_retains h hanswered.1, h.has hanswered.2⟩
  | «class» owner name => exact ⟨refusal?_retains h hanswered.1, h.has hanswered.2⟩
  | field owner name => exact ⟨refusal?_retains h hanswered.1, h.has hanswered.2⟩
  | innerClass outer simple =>
    obtain ⟨package, name, outerItem, item, houter, hid, hgetOuter, hmem, hget, hitemOuter⟩ := hanswered
    obtain ⟨outerLater, houterLater, houterGrows⟩ := h.keeps hgetOuter
    obtain ⟨later, hlater, hgrows⟩ := h.keeps hget
    exact ⟨package, name, outerLater, later, h.has houter, h.has hid, houterLater,
      houterGrows.innerClasses_subset hmem, hlater, hgrows.outerClass_eq hitemOuter⟩
  | method owner name params =>
    exact ⟨refusal?_retains h hanswered.1, overload?_retains ha hb h hcreates hanswered.2⟩
  | arrayClass base dims =>
    have hshape := arrayShape_retains hb.toLaid h hcreates dims
    rcases hanswered with hzero | ⟨root, total, package, name, hroot, htotal, hhas, hid⟩
    · exact Or.inl (hshape.trans hzero)
    · exact Or.inr ⟨root, total, package, name, hshape.trans hroot, htotal, h.has hhas, h.has hid⟩
  | builtinProject => exact h.has hanswered
  | primitive name => exact ⟨hanswered.1, h.isBuiltin hanswered.2⟩
  | wildcard => exact h.isBuiltin hanswered
  | _ => exact hanswered

/-- An operation that may be run may be run later. -/
theorem Creates.retains {operation : Operation ItemId} (hcreates : operation.Creates foreign a)
    (h : Retains a b) : operation.Creates foreign b := by
  cases operation with
  | method owner name params => exact fun param hparam => h.knows (hcreates param hparam)
  | arrayClass base dims => exact h.knows hcreates
  | _ => exact hcreates

/-! ### Running an operation -/

theorem run_of_ok {operation : Operation ItemId} {change : Edit ItemId} {id : ItemId} {after : Index}
    (hedit : operation.edit = change >>= fun id => pure (.item id))
    (hrun : change.run.run index = (.ok id, after)) : operation.run index = (.item id, after) := by
  rw [run, hedit, Edit.run_bind_of_ok hrun]
  rfl

theorem run_of_error {operation : Operation ItemId} {change : Edit ItemId} {error : GraphError}
    {after : Index} (hedit : operation.edit = change >>= fun id => pure (.item id))
    (hrun : change.run.run index = (.error error, after)) :
    operation.run index = (.refused error.message, after) := by
  rw [run, hedit, Edit.run_bind_of_error hrun]

theorem edit_primitive {name : String} (hname : primitives.contains name = true) :
    (primitive name : Operation ItemId).edit =
      (ExceptT.lift (createBuiltin name) : Edit ItemId) >>= fun id => pure (.item id) := by
  show (createPrimitive name >>= fun id => pure (.item id) : Edit (Answer ItemId)) = _
  rw [createPrimitive, if_pos hname]
  rfl

/-- What a run may come to: a refusal that changes nothing, or a new index that retains the old one
and holds what was answered. -/
def Outcome (foreign : Nat → Prop) (index : Index) (operation : Operation ItemId) : Prop :=
  (∃ message, operation.run index = (.refused message, index)) ∨
    ∃ id after, operation.run index = (.item id, after) ∧ after.Settled foreign ∧
      Retains index after ∧ operation.Answered after id

theorem outcome_createOwned (h : index.Settled foreign) {operation : Operation ItemId}
    {owner : ItemId} {kind : ItemKind} {name : String} (hkind : kind ≠ .method)
    (hname : kind = .class → ¬ Item.NamesArray name)
    (hedit : operation.edit = (checkOwner owner kind name >>= fun _ =>
      (ExceptT.lift (intern (some owner) name kind) : Edit ItemId)) >>= fun id => pure (.item id))
    (hroom : (operation.run index).2.size < 2 ^ 32) :
    (∃ message, operation.run index = (.refused message, index)) ∨
      ∃ id after, operation.run index = (.item id, after) ∧ after.Settled foreign ∧
        Retains index after ∧ after.refusal? owner kind name = none ∧
        after.Has id (some owner) kind name := by
  have hrun := run_createOwned owner kind name index
  cases hrefusal : index.refusal? owner kind name with
  | some error =>
    rw [hrefusal] at hrun
    exact Or.inl ⟨error.message, run_of_error hedit hrun⟩
  | none =>
    rw [hrefusal] at hrun
    have hop := run_of_ok hedit hrun
    rw [hop] at hroom
    obtain ⟨hsettled, hretains, hhas⟩ :=
      h.interned hkind (refusal?_eq_none_iff.1 hrefusal).1 hname hroom
    exact Or.inr ⟨_, _, hop, hsettled, hretains, refusal?_retains hretains hrefusal, hhas⟩

theorem outcome_innerClass (h : index.Settled foreign) {outer : ItemId} {simple : String}
    (hcreates : (innerClass outer simple).Creates foreign index)
    (hroom : ((innerClass outer simple).run index).2.size < 2 ^ 32) :
    Outcome foreign index (innerClass outer simple) := by
  rcases run_classPlace outer (.notClass outer) index with
    ⟨_, refusal, hrefused⟩ | ⟨package, name, houter, _⟩
  · have hrun : (createInnerClass outer simple).run.run index = (.error refusal, index) :=
      Edit.run_bind_of_error hrefused
    exact Or.inl ⟨refusal.message, run_of_error rfl hrun⟩
  · have hrun := run_createInnerClass_of_has houter (h.coherent.exists_owner houter) simple
    rcases hintern : intern (some package) (name ++ "." ++ simple) .class index with ⟨inner, after⟩
    rw [hintern] at hrun
    have hop : (innerClass outer simple).run index = (.item inner, after.nest outer inner) :=
      run_of_ok rfl hrun
    rw [hop] at hroom
    have hless : after.size < 2 ^ 32 := Nat.lt_of_le_of_lt
      ((continues_modify _ _ _).trans (continues_modify _ _ _)).size_le hroom
    obtain ⟨hsettled, hretains, hinner⟩ :=
      h.createInner houter hcreates.1 hcreates.2 hintern hless
    obtain ⟨outerItem, hgetOuter, _⟩ := (hretains.has houter).isKind
    obtain ⟨item, hget, _⟩ := hinner.isKind
    obtain ⟨outerBefore, _, rfl⟩ := exists_of_get?_nest hgetOuter
    obtain ⟨before, _, rfl⟩ := exists_of_get?_nest hget
    refine Or.inr ⟨inner, _, hop, hsettled, hretains, package, name, _, _, hretains.has houter, hinner,
      hgetOuter, mem_innerClasses_nestItem outer inner outerBefore, hget, ?_⟩
    rw [outerClass_nestItem, if_pos rfl]

theorem outcome_arrayClass (h : index.Settled foreign) {base : ItemId} {dims : Nat}
    (hcreates : (arrayClass base dims).Creates foreign index)
    (hroom : ((arrayClass base dims).run index).2.size < 2 ^ 32) :
    Outcome foreign index (arrayClass base dims) := by
  have hunfold := run_createArrayClass base dims index
  rcases hshape : index.arrayShape base dims with ⟨root, total⟩
  rw [hshape] at hunfold
  by_cases htotal : total = 0
  · subst htotal
    refine Or.inr ⟨root, index, run_of_ok rfl hunfold, h, ?_, Or.inl hshape⟩
    exact Retains.of_get? h.coherent.stacked h.coherent.stacked (fun _ => rfl)
  · rcases run_classPlace root (.badArrayBase root) index with
      ⟨_, refusal, hrefused⟩ | ⟨package, name, hroot, _⟩
    · have hrun : (createArrayOver root total).run.run index = (.error refusal, index) := by
        rw [createArrayOver, if_neg htotal]
        exact Edit.run_bind_of_error hrefused
      exact Or.inl ⟨refusal.message, run_of_error rfl (hunfold.trans hrun)⟩
    · have hrun := run_createArrayOver_of_has hroot (h.coherent.exists_owner hroot) htotal
      rcases hintern : intern (some package) (Item.arrayName name total) .class index with
        ⟨array, after⟩
      rw [hintern] at hrun
      have hop : (arrayClass base dims).run index = _ := run_of_ok rfl (hunfold.trans hrun)
      rw [hop] at hroom
      have hless : after.size < 2 ^ 32 :=
        Nat.lt_of_le_of_lt (continues_modify _ _ _).size_le hroom
      obtain ⟨rootItem, hrootGet, _⟩ := hroot.isKind
      obtain ⟨hsettled, hretains, harray⟩ := h.createArray hroot hrootGet
        (h.arrayBase_arrayShape hshape hrootGet) htotal hintern hless
      refine Or.inr ⟨array, _, hop, hsettled, hretains, Or.inr ⟨root, total, package, name, ?_, htotal,
        hretains.has hroot, harray⟩⟩
      rw [arrayShape_retains hsettled.toLaid hretains hcreates, hshape]

theorem outcome_method (h : index.Settled foreign) {owner : ItemId} {name : String}
    {params : Option (List ItemId)} (hcreates : (method owner name params).Creates foreign index)
    (hroom : ((method owner name params).run index).2.size < 2 ^ 32) :
    Outcome foreign index (method owner name params) := by
  have hrun := run_createMethod owner name params index
  cases hrefusal : index.refusal? owner .method name with
  | some error =>
    rw [hrefusal] at hrun
    exact Or.inl ⟨error.message, run_of_error rfl hrun⟩
  | none =>
    rw [hrefusal] at hrun
    cases hfound : index.overload? owner name (params.getD []) with
    | some id =>
      rw [hfound] at hrun
      refine Or.inr ⟨id, index, run_of_ok rfl hrun, h, ?_, hrefusal, hfound⟩
      exact Retains.of_get? h.coherent.stacked h.coherent.stacked (fun _ => rfl)
    | none =>
      rw [hfound] at hrun
      have hop : (method owner name params).run index = _ := run_of_ok rfl hrun
      rw [hop] at hroom
      obtain ⟨hsettled, hretains, hoverload⟩ :=
        h.createMethod (refusal?_eq_none_iff.1 hrefusal).1 hcreates hfound hroom
      exact Or.inr ⟨_, _, hop, hsettled, hretains, refusal?_retains hretains hrefusal, hoverload⟩

theorem outcome_builtin (h : index.Settled foreign) {operation : Operation ItemId} {name : String}
    (hname : ¬ Item.NamesArray name)
    (hedit : operation.edit = (ExceptT.lift (createBuiltin name) : Edit ItemId) >>= fun id =>
      pure (.item id))
    (hroom : (operation.run index).2.size < 2 ^ 32) :
    ∃ id after, operation.run index = (.item id, after) ∧ after.Settled foreign ∧
      Retains index after ∧ after.IsBuiltin id name := by
  have hop := run_of_ok hedit (Edit.run_lift (createBuiltin name) index)
  rw [hop] at hroom
  obtain ⟨hsettled, hretains, hbuiltin⟩ := h.builtin hname hroom
  exact ⟨_, _, hop, hsettled, hretains, hbuiltin⟩

theorem outcome_project (h : index.Settled foreign) {operation : Operation ItemId} {name : String}
    (hedit : operation.edit = (ExceptT.lift (createProject name) : Edit ItemId) >>= fun id =>
      pure (.item id))
    (hroom : (operation.run index).2.size < 2 ^ 32) :
    ∃ id after, operation.run index = (.item id, after) ∧ after.Settled foreign ∧
      Retains index after ∧ after.Has id none .project name := by
  have hop := run_of_ok hedit (Edit.run_lift (createProject name) index)
  rw [hop] at hroom
  obtain ⟨hsettled, hretains, hhas⟩ := h.interned (by decide)
    (show index.CanTake none .project from rfl) (fun hclass => by cases hclass) hroom
  exact ⟨_, _, hop, hsettled, hretains, hhas⟩

/-- Every operation that creates items is refused and changes nothing, or does what it answers. -/
theorem outcome (h : index.Settled foreign) {operation : Operation ItemId}
    (hcreates : operation.Creates foreign index)
    (hroom : (operation.run index).2.size < 2 ^ 32) : Outcome foreign index operation := by
  cases operation with
  | project name => exact Or.inr (outcome_project h rfl hroom)
  | package owner name =>
    exact outcome_createOwned h (by decide) (fun hclass => by cases hclass) rfl hroom
  | «class» owner name => exact outcome_createOwned h (by decide) (fun _ => hcreates) rfl hroom
  | innerClass outer simple => exact outcome_innerClass h hcreates hroom
  | method owner name params => exact outcome_method h hcreates hroom
  | field owner name =>
    exact outcome_createOwned h (by decide) (fun hclass => by cases hclass) rfl hroom
  | arrayClass base dims => exact outcome_arrayClass h hcreates hroom
  | builtinProject => exact Or.inr (outcome_project h rfl hroom)
  | primitive name =>
    by_cases hname : primitives.contains name = true
    · obtain ⟨id, after, hrun, hsettled, hretains, hbuiltin⟩ :=
        outcome_builtin h (not_namesArray_primitive hname) (edit_primitive hname) hroom
      exact Or.inr ⟨id, after, hrun, hsettled, hretains, hname, hbuiltin⟩
    · have hrun : (createPrimitive name).run.run index = (.error (.notPrimitive name), index) := by
        rw [createPrimitive, if_neg hname]
        rfl
      exact Or.inl ⟨(GraphError.notPrimitive name).message, run_of_error rfl hrun⟩
  | wildcard => exact Or.inr (outcome_builtin h (by decide) rfl hroom)
  | _ => exact absurd hcreates (fun hfalse => hfalse)

/-! ### Running an operation again -/

theorem run_createOwned_of_has (h : index.Laid foreign) {operation : Operation ItemId}
    {owner id : ItemId} {kind : ItemKind} {name : String} (hkind : kind ≠ .method)
    (hedit : operation.edit = (checkOwner owner kind name >>= fun _ =>
      (ExceptT.lift (intern (some owner) name kind) : Edit ItemId)) >>= fun id => pure (.item id))
    (hrefusal : index.refusal? owner kind name = none) (hhas : index.Has id (some owner) kind name) :
    operation.run index = (.item id, index) := by
  have hrun := run_createOwned owner kind name index
  rw [hrefusal, h.intern_of_has hkind hhas] at hrun
  exact run_of_ok hedit hrun

theorem run_project_of_has (h : index.Laid foreign) {operation : Operation ItemId} {id : ItemId}
    {name : String}
    (hedit : operation.edit = (ExceptT.lift (createProject name) : Edit ItemId) >>= fun id =>
      pure (.item id))
    (hhas : index.Has id none .project name) : operation.run index = (.item id, index) := by
  have hcreate : createProject name index = (id, index) := h.intern_of_has (by decide) hhas
  refine run_of_ok hedit ((Edit.run_lift (createProject name) index).trans ?_)
  show (Except.ok (createProject name index).1, (createProject name index).2) = _
  rw [hcreate]

theorem run_builtin_of_isBuiltin (h : index.Laid foreign) {operation : Operation ItemId} {id : ItemId}
    {name : String}
    (hedit : operation.edit = (ExceptT.lift (createBuiltin name) : Edit ItemId) >>= fun id =>
      pure (.item id))
    (hbuiltin : index.IsBuiltin id name) : operation.run index = (.item id, index) := by
  refine run_of_ok hedit ((Edit.run_lift (createBuiltin name) index).trans ?_)
  show (Except.ok (createBuiltin name index).1, (createBuiltin name index).2) = _
  rw [h.builtin_of_isBuiltin hbuiltin]

/-- An operation whose answer is in the index already gives that answer and changes no item. -/
theorem Answered.run_eq {operation : Operation ItemId} {id : ItemId} (h : index.Settled foreign)
    (hanswered : operation.Answered index id) :
    ∃ after, operation.run index = (.item id, after) ∧ ∀ other, after.get? other = index.get? other := by
  have hsame : operation.run index = (.item id, index) → ∃ after,
      operation.run index = (.item id, after) ∧ ∀ other, after.get? other = index.get? other :=
    fun hrun => ⟨index, hrun, fun _ => rfl⟩
  cases operation with
  | project name => exact hsame (run_project_of_has h.toLaid rfl hanswered)
  | package owner name =>
    exact hsame (run_createOwned_of_has h.toLaid (by decide) rfl hanswered.1 hanswered.2)
  | «class» owner name =>
    exact hsame (run_createOwned_of_has h.toLaid (by decide) rfl hanswered.1 hanswered.2)
  | field owner name =>
    exact hsame (run_createOwned_of_has h.toLaid (by decide) rfl hanswered.1 hanswered.2)
  | innerClass outer simple =>
    obtain ⟨package, name, outerItem, item, houter, hid, hgetOuter, hmem, hget, hitemOuter⟩ := hanswered
    have hrun := run_createInnerClass_of_has houter (h.coherent.exists_owner houter) simple
    rw [h.intern_of_has (by decide) hid] at hrun
    refine ⟨index.nest outer id, run_of_ok rfl hrun, fun other => ?_⟩
    rw [get?_nest]
    cases hother : index.get? other with
    | none => rfl
    | some found =>
      refine congrArg some (nestItem_eq_self ?_ ?_)
      · rintro rfl
        obtain rfl := Option.some.inj (hget.symm.trans hother)
        exact hitemOuter
      · rintro rfl
        obtain rfl := Option.some.inj (hgetOuter.symm.trans hother)
        exact hmem
  | method owner name params =>
    have hrun := run_createMethod owner name params index
    rw [hanswered.1] at hrun
    simp only [hanswered.2] at hrun
    exact hsame (run_of_ok rfl hrun)
  | arrayClass base dims =>
    have hunfold := run_createArrayClass base dims index
    rcases hanswered with hzero | ⟨root, total, package, name, hshape, htotal, hroot, hid⟩
    · rw [hzero] at hunfold
      exact hsame (run_of_ok rfl hunfold)
    · rw [hshape] at hunfold
      have hrun := run_createArrayOver_of_has hroot (h.coherent.exists_owner hroot) htotal
      rw [h.intern_of_has (by decide) hid] at hrun
      refine ⟨_, run_of_ok rfl (hunfold.trans hrun), get?_modify_setId (fun item hitem => ?_)⟩
      obtain ⟨rootItem, hrootGet, _⟩ := hroot.isKind
      exact h.arrayBase_of_has hroot hrootGet (h.arrayBase_arrayShape hshape hrootGet) htotal hid hitem
  | builtinProject => exact hsame (run_project_of_has h.toLaid rfl hanswered)
  | primitive name =>
    exact hsame (run_builtin_of_isBuiltin h.toLaid (edit_primitive hanswered.1) hanswered.2)
  | wildcard => exact hsame (run_builtin_of_isBuiltin h.toLaid rfl hanswered)
  | _ => exact hanswered.elim

end Operation

/-! ## Runs -/

namespace Index

variable {a b index : Index} {foreign : Nat → Prop}

/-- One step of building an index: an operation that creates items, or a new layer. -/
inductive Creation (foreign : Nat → Prop) : Index → Index → Prop
  | operation {operation : Operation ItemId} {index : Index}
      (hcreates : operation.Creates foreign index) : Creation foreign index (operation.run index).2
  | layer {base : Index} {generation : Nat}
      (hnew : ∀ layer ∈ base.layers, layer.generation ≠ generation) (hown : ¬ foreign generation) :
      Creation foreign base (onBase generation base)

/-- The indices that such steps lead to. -/
def Builds (foreign : Nat → Prop) : Index → Index → Prop :=
  Relation.ReflTransGen (Creation foreign)

theorem Creation.size_le (h : Creation foreign a b) : a.size ≤ b.size := by
  cases h with
  | operation _ => exact (Operation.continues_run _ a).size_le
  | layer _ _ => exact Nat.le_of_eq (size_onBase _ a).symm

theorem Builds.size_le (h : Builds foreign a b) : a.size ≤ b.size := by
  induction h with
  | refl => exact Nat.le_refl _
  | tail _ hstep ih => exact Nat.le_trans ih hstep.size_le

theorem Creation.settled (h : Creation foreign a b) (ha : a.Settled foreign)
    (hroom : b.size < 2 ^ 32) : b.Settled foreign ∧ Retains a b := by
  cases h with
  | operation hcreates =>
    rcases Operation.outcome ha hcreates hroom with ⟨_, hrun⟩ | ⟨_, _, hrun, hsettled, hretains, _⟩
    · rw [hrun]
      exact ⟨ha, Retains.of_get? ha.coherent.stacked ha.coherent.stacked (fun _ => rfl)⟩
    · rw [hrun]
      exact ⟨hsettled, hretains⟩
  | layer hnew hown =>
    have hfree := generation_ne_of_mem_ids ha.coherent.stacked hnew
    refine ha.of_get? (coherent_onBase ha.coherent hfree) ?_ (get?_onBase ha.coherent.stacked hfree)
    intro layer hlayer
    rcases List.mem_cons.1 hlayer with rfl | hbelow
    · exact hown
    · exact ha.own layer hbelow

theorem Builds.settled (h : Builds foreign a b) (ha : a.Settled foreign) (hroom : b.size < 2 ^ 32) :
    b.Settled foreign ∧ Retains a b := by
  induction h with
  | refl => exact ⟨ha, Retains.of_get? ha.coherent.stacked ha.coherent.stacked (fun _ => rfl)⟩
  | tail _ hstep ih =>
    obtain ⟨hmiddle, hfirst⟩ := ih (Nat.lt_of_le_of_lt hstep.size_le hroom)
    obtain ⟨hsettled, hlast⟩ := hstep.settled hmiddle hroom
    exact ⟨hsettled, hfirst.trans hlast⟩

theorem settled_empty {generation : Nat} (hown : ¬ foreign generation) :
    (empty generation).Settled foreign := by
  have hnone : ∀ {id : ItemId} {item : Item}, ¬ (empty generation).get? id = some item := by
    intro id item hget
    rw [get?_empty] at hget
    exact absurd hget (by simp)
  refine ⟨⟨⟨coherent_empty generation, (orderly_empty generation).distinct,
    fun hget => absurd hget hnone⟩, ?_, fun hget => absurd hget hnone⟩,
    fun hget => absurd hget hnone, fun hget => absurd hget hnone⟩
  intro layer hlayer
  obtain rfl := List.mem_singleton.1 hlayer
  exact hown

/-- No two items have the same owner, kind and name, unless they are methods whose signatures do not
match. -/
def TellsApart (index : Index) : Prop :=
  ∀ (id other : ItemId) (item otherItem : Item), index.get? id = some item →
    index.get? other = some otherItem → item.parent = otherItem.parent →
    item.kind = otherItem.kind → item.name = otherItem.name →
    (item.kind = .method → index.paramsMatch item.paramTypes otherItem.paramTypes = true) → id = other

theorem Settled.tellsApart (h : index.Settled foreign) : index.TellsApart := by
  intro id other item otherItem hget hother hparent hkind hname hmatch
  by_cases hmethod : item.kind = .method
  · exact h.overloads hget hother hmethod (hkind ▸ hmethod) hparent hname (hmatch hmethod)
  · refine h.distinct ⟨item.parent, item.kind, item.name⟩ hmethod id other ?_ ?_
    · exact has_iff_bears.1 ⟨item, hget, rfl, rfl, rfl⟩
    · exact has_iff_bears.1 ⟨otherItem, hother, hparent.symm, hkind.symm, hname.symm⟩

/-- In an index that was built by operations that create items, in one layer or several, items are told
apart, and every operation that has created an item finds it and changes none when it is run again. -/
theorem identity_stable {generation : Nat} (hown : ¬ foreign generation)
    (hbuilds : Builds foreign (empty generation) index) (hroom : index.size < 2 ^ 32) :
    index.TellsApart ∧
      ∀ (earlier : Index) (operation : Operation ItemId) (id : ItemId),
        Builds foreign (empty generation) earlier → operation.Creates foreign earlier →
        (operation.run earlier).1 = .item id → Builds foreign (operation.run earlier).2 index →
        (operation.run index).1 = .item id ∧
          ∀ other, (operation.run index).2.get? other = index.get? other := by
  have hsettled := (hbuilds.settled (settled_empty hown) hroom).1
  refine ⟨hsettled.tellsApart, fun earlier operation id hearlier hcreates hanswer hlater => ?_⟩
  have hafterRoom := Nat.lt_of_le_of_lt hlater.size_le hroom
  have hstep : Creation foreign earlier (operation.run earlier).2 := .operation hcreates
  have hearlierSettled := (hearlier.settled (settled_empty hown)
    (Nat.lt_of_le_of_lt hstep.size_le hafterRoom)).1
  rcases Operation.outcome hearlierSettled hcreates hafterRoom with
    ⟨_, hrun⟩ | ⟨found, after, hrun, hafter, hfirst, hanswered⟩
  · rw [hrun] at hanswer
    exact absurd hanswer (by simp)
  · rw [hrun] at hanswer hlater
    obtain rfl : found = id := by simpa using hanswer
    have hlast := (hlater.settled hafter hroom).2
    -- what is known to the index at first stays known
    have hkeeps : operation.Creates foreign after := hcreates.retains hfirst
    obtain ⟨final, hfinal, hsame⟩ :=
      (hanswered.retains hafter hsettled hlast hkeeps).run_eq hsettled
    rw [hfinal]
    exact ⟨rfl, hsame⟩

/-! ## A method found again among overloads -/

/-- A class `C` in the base of an index and the type `int`. -/
def overloadedBase : Index :=
  [Operation.project "app", .package ⟨0, 1⟩ "p", .class ⟨1, 1⟩ "C", .primitive "int"].foldl
    (fun index operation => (operation.run index).2) (empty 1)

/-- The method `m(int)` of `C`. -/
def intOverload : Operation ItemId :=
  .method ⟨2, 1⟩ "m" (some [⟨5, 1⟩])

/-- The index with `m(int)`, and over it a layer with the wildcard, an array of it and a method of
that array. -/
def overloadedApp : Index :=
  [Operation.wildcard, .arrayClass ⟨7, 2⟩ 1, .method ⟨2, 1⟩ "m" (some [⟨8, 2⟩])].foldl
    (fun index operation => (operation.run index).2) (onBase 2 (intOverload.run overloadedBase).2)

theorem builds_overloadedBase : Builds (fun _ => False) (empty 1) overloadedBase := by
  iterate 4 refine Relation.ReflTransGen.tail ?_ (.operation (by decide +kernel))
  exact Relation.ReflTransGen.refl

theorem creates_intOverload : intOverload.Creates (fun _ => False) overloadedBase := by
  decide +kernel

theorem builds_overloadedApp :
    Builds (fun _ => False) (intOverload.run overloadedBase).2 overloadedApp := by
  iterate 3 refine Relation.ReflTransGen.tail ?_ (.operation (by decide +kernel))
  exact Relation.ReflTransGen.single (.layer (by decide +kernel) (by simp))

theorem identity_stable_overloadedApp :
    (intOverload.run overloadedBase).1 = .item ⟨6, 1⟩ ∧ overloadedApp.size = 10 ∧
      overloadedApp.TellsApart ∧ (intOverload.run overloadedApp).1 = .item ⟨6, 1⟩ ∧
      ∀ other, (intOverload.run overloadedApp).2.get? other = overloadedApp.get? other := by
  have hanswer : (intOverload.run overloadedBase).1 = .item ⟨6, 1⟩ := by decide +kernel
  have hsize : overloadedApp.size = 10 := by decide +kernel
  obtain ⟨happart, hagain⟩ := @identity_stable _ (fun _ => False) 1 (by simp)
    ((builds_overloadedBase.tail (.operation creates_intOverload)).trans builds_overloadedApp)
    (by rw [hsize]; decide)
  exact ⟨hanswer, hsize, happart, hagain overloadedBase intOverload ⟨6, 1⟩ builds_overloadedBase
    creates_intOverload hanswer builds_overloadedApp⟩

end Index

end CodeAtlas
