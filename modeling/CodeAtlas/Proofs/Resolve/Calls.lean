/-
# The calls of a source file

The traversal of a source file keeps only classes as types: of the variables in sight, of the classes
around the place and of the expressions it has worked out.  So every call it records names classes
that may declare its target.
-/
import CodeAtlas.Proofs.Resolve.Classes
import CodeAtlas.Resolve.Variables

namespace CodeAtlas

open Source

/-! ## Actions that keep a property of their state -/

section Keeps

variable {σ α β : Type} {holds : σ → Prop}

/-- An action that keeps a property of the state and gives a value of which something is known. -/
def Keeps (holds : σ → Prop) (action : StateM σ α) (post : α → Prop) : Prop :=
  ∀ state, holds state → holds (action.run state).2 ∧ post (action.run state).1

theorem Keeps.pure {post : α → Prop} {value : α} (h : post value) :
    Keeps holds (Pure.pure value) post :=
  fun _ hstate => ⟨hstate, h⟩

theorem Keeps.bind {action : StateM σ α} {next : α → StateM σ β} {post : α → Prop}
    {final : β → Prop} (h : Keeps holds action post)
    (hnext : ∀ value, post value → Keeps holds (next value) final) :
    Keeps holds (action >>= next) final := by
  intro state hstate
  obtain ⟨hafter, hvalue⟩ := h state hstate
  exact hnext _ hvalue _ hafter

theorem Keeps.get : Keeps holds get holds :=
  fun _ hstate => ⟨hstate, hstate⟩

theorem Keeps.modify {f : σ → σ} (h : ∀ state, holds state → holds (f state)) :
    Keeps holds (modify f) (fun _ => True) :=
  fun state hstate => ⟨h state hstate, trivial⟩

theorem Keeps.ite {p : Prop} [Decidable p] {first second : StateM σ α} {post : α → Prop}
    (hfirst : Keeps holds first post) (hsecond : Keeps holds second post) :
    Keeps holds (if p then first else second) post := by
  split
  · exact hfirst
  · exact hsecond

theorem Keeps.forIn {list : List α} {step : α → β → StateM σ (ForInStep β)}
    (h : ∀ value ∈ list, ∀ state, Keeps holds (step value state) (fun _ => True)) (start : β) :
    Keeps holds (ForIn.forIn list start step) (fun _ => True) := by
  induction list generalizing start with
  | nil => exact Keeps.pure trivial
  | cons first rest ih =>
    rw [List.forIn_cons]
    refine (h first List.mem_cons_self start).bind (fun result _ => ?_)
    cases result with
    | done value => exact Keeps.pure trivial
    | yield value => exact ih (fun other hother => h other (List.mem_cons_of_mem _ hother)) value

end Keeps

/-! ## What the traversal keeps -/

/-- A value that is a class, if it is known. -/
def Index.IsClass? (index : Index) (type : Option ItemId) : Prop :=
  ∀ id, type = some id → index.IsKind id .class

/-- A call that names a method and classes that may declare it. -/
structure CallSite.Sound (index : Index) (site : CallSite) : Prop where
  name_ne : site.name ≠ ""
  owners : ∀ owner ∈ site.owners, index.IsKind owner .class

/-- Every type that the traversal keeps is a class. -/
structure CallTracker.Sound (index : Index) (tracker : CallTracker) : Prop where
  scope : ∀ binding ∈ tracker.scope.frames.flatten, index.IsClass? binding.type
  classes : ∀ type ∈ tracker.classes, index.IsClass? type
  calls : ∀ site ∈ tracker.calls, site.Sound index
  exprTypes : ∀ {expr : Nat} {type : Option ItemId}, tracker.exprTypes[expr]? = some type →
    index.IsClass? type

namespace CallTracker

variable {index : Index} {tracker : CallTracker}

theorem sound_start (index : Index) : start.Sound index :=
  ⟨by simp [start, Scope.empty], by simp [start], by simp [start], by simp [start]⟩

theorem Sound.bind (h : tracker.Sound index) {name : String} {type : Option ItemId}
    (htype : index.IsClass? type) : (tracker.bind name type).Sound index := by
  refine ⟨fun binding hbinding => ?_, h.classes, h.calls, h.exprTypes⟩
  have hcases : binding ∈ tracker.scope.frames.flatten ∨ binding = ⟨name, type⟩ := by
    cases hframes : tracker.scope.frames with
    | nil => simpa [CallTracker.bind, Scope.bind, hframes] using hbinding
    | cons frame outer =>
      simp only [CallTracker.bind, Scope.bind, hframes, List.flatten_cons, List.cons_append,
        List.mem_cons] at hbinding
      rcases hbinding with hnew | hold
      · exact Or.inr hnew
      · exact Or.inl (by simpa using hold)
  rcases hcases with hold | rfl
  · exact h.scope binding hold
  · exact htype

theorem Sound.currentClass (h : tracker.Sound index) : index.IsClass? tracker.currentClass := by
  intro id hid
  rw [CallTracker.currentClass, Option.join_eq_some_iff] at hid
  exact h.classes (some id) (List.mem_of_mem_head? hid) id rfl

theorem isClass?_currentSuperclass (tracker : CallTracker) (hindex : index.Sound) :
    index.IsClass? (tracker.currentSuperclass index) := by
  intro id hid
  rw [currentSuperclass] at hid
  obtain ⟨item, hitem, hsuper⟩ := Option.bind_eq_some_iff.1 hid
  obtain ⟨cls, _, hget⟩ := Option.bind_eq_some_iff.1 hitem
  exact hindex.isKind_of_id? hget hsuper

theorem Sound.knownClasses (h : tracker.Sound index) :
    ∀ id ∈ tracker.knownClasses, index.IsKind id .class := by
  intro id hid
  obtain ⟨type, htype, hsome⟩ := List.mem_filterMap.1 hid
  exact h.classes type htype id hsome

end CallTracker

namespace CallContext

variable {context : CallContext}

/-- The index is sound and the names in the source text are not empty. -/
structure Sound (context : CallContext) : Prop where
  index : context.index.Sound
  named : ∀ {id : Nat} {name : String}, context.ast.nameOf id = some name → name ≠ ""

theorem isClass?_declared (h : context.Sound) (decl : Nat) :
    context.index.IsClass? (context.declared decl) := by
  intro id hid
  obtain ⟨_, _, hlookup⟩ := Option.bind_eq_some_iff.1 hid
  exact TypeResolver.isKind_of_lookupType h.index.findsClasses hlookup

theorem isClass?_literalType {index : Index} (h : index.Sound) (kind : LiteralKind) :
    index.IsClass? (literalType index kind) := by
  intro id hid
  cases kind with
  | string => exact Index.isKind_of_mem_findClasses h.findsClasses (List.mem_of_mem_head? hid)
  | null => simp [literalType] at hid
  | _ => exact Index.isKind_of_findPrimitive h.findsClasses hid

theorem isClass?_fieldType {index : Index} (h : index.Sound) (field : Option ItemId) :
    index.IsClass? ((field.bind index.get?).bind Item.fieldType) := by
  intro id hid
  obtain ⟨item, hitem, htype⟩ := Option.bind_eq_some_iff.1 hid
  obtain ⟨_, _, hget⟩ := Option.bind_eq_some_iff.1 hitem
  exact h.isKind_of_id? hget htype

theorem isClass?_nameType (h : context.Sound) {tracker : CallTracker}
    (htracker : tracker.Sound context.index) (id : Nat) (name : String) :
    context.index.IsClass? (context.nameType tracker id name) := by
  rw [nameType]
  split
  · rename_i binding hlookup
    exact htracker.scope binding (List.mem_of_find?_eq_some hlookup)
  · split
    · rename_i field _
      exact isClass?_fieldType h.index (some field)
    · intro cls hcls
      exact TypeResolver.isKind_of_lookupClassName h.index.findsClasses hcls

theorem isKind_of_mem_staticImportOwners (h : context.Sound) {name : String} {id : ItemId}
    (hid : id ∈ context.staticImportOwners name) : context.index.IsKind id .class := by
  obtain ⟨_, _, hid⟩ := List.mem_flatMap.1 hid
  exact Index.isKind_of_mem_findClasses h.index.findsClasses hid

/-- A way to find the types of expressions that gives classes only. -/
def Types (context : CallContext) (typeOf : TypeOf) : Prop :=
  ∀ expr, Keeps (CallTracker.Sound context.index) (typeOf expr) context.index.IsClass?

theorem keeps_methodOwners (h : context.Sound) {typeOf : TypeOf} (htypes : context.Types typeOf)
    (call : Nat) (name : String) :
    Keeps (CallTracker.Sound context.index) (context.methodOwners typeOf call name)
      (fun owners => ∀ owner ∈ owners, context.index.IsKind owner .class) := by
  rw [methodOwners]
  split
  · rename_i receiver _
    refine (htypes receiver).bind (fun type htype => Keeps.pure ?_)
    intro owner howner
    exact htype owner (Option.mem_toList.1 howner)
  · refine Keeps.get.bind (fun tracker htracker => Keeps.pure ?_)
    intro owner howner
    rw [← Array.foldl_toList, mem_foldl_insertNew] at howner
    rcases howner with hknown | himported
    · exact htracker.knownClasses owner (by simpa using hknown)
    · rw [Array.mem_toList_iff, mem_distinct] at himported
      exact isKind_of_mem_staticImportOwners h himported

theorem keeps_callSite? (h : context.Sound) {typeOf : TypeOf} (htypes : context.Types typeOf)
    (call : Nat) :
    Keeps (CallTracker.Sound context.index) (context.callSite? typeOf call)
      (fun site => ∀ found, site = some found → found.Sound context.index) := by
  have hconstructor : constructorName ≠ "" := by decide
  rw [callSite?]
  dsimp only
  split
  · split
    · exact Keeps.pure (by simp)
    · rename_i name hname
      refine (keeps_methodOwners h htypes call name).bind (fun owners howners => Keeps.pure ?_)
      intro found hfound
      cases hfound
      exact ⟨h.named hname, howners⟩
  · refine Keeps.pure (fun found hfound => ?_)
    cases hfound
    refine ⟨hconstructor, fun owner howner => ?_⟩
    exact isClass?_declared h call owner (Option.mem_toList.1 howner)
  · refine Keeps.get.bind (fun tracker htracker => Keeps.pure (fun found hfound => ?_))
    cases hfound
    refine ⟨hconstructor, fun owner howner => ?_⟩
    have howner' := Option.mem_toList.1 howner
    split at howner'
    · exact htracker.currentClass owner howner'
    · exact tracker.isClass?_currentSuperclass h.index owner howner'
  · exact Keeps.pure (by simp)

theorem keeps_fieldAccessType (h : context.Sound) {typeOf : TypeOf}
    (htypes : context.Types typeOf) (expr : Nat) :
    Keeps (CallTracker.Sound context.index) (context.fieldAccessType typeOf expr)
      context.index.IsClass? := by
  rw [fieldAccessType]
  split
  · rename_i field receiver _ _
    split
    · exact Keeps.pure (fun id hid => TypeResolver.isKind_of_lookupClassName h.index.findsClasses hid)
    · refine (htypes receiver).bind (fun type _ => ?_)
      cases type with
      | some owner => exact Keeps.pure (isClass?_fieldType h.index _)
      | none => exact Keeps.pure (fun id hid => TypeResolver.isKind_of_lookupClassName h.index.findsClasses hid)
  · exact Keeps.pure (by simp [Index.IsClass?])

theorem isClass?_returnType {index : Index} (h : index.Sound) (method : Option ItemId) :
    index.IsClass? ((method.bind index.get?).bind Item.returnType) := by
  intro id hid
  obtain ⟨item, hitem, htype⟩ := Option.bind_eq_some_iff.1 hid
  obtain ⟨_, _, hget⟩ := Option.bind_eq_some_iff.1 hitem
  exact h.isKind_of_id? hget htype

theorem keeps_computeType (h : context.Sound) {typeOf : TypeOf} (htypes : context.Types typeOf) :
    context.Types (context.computeType typeOf) := by
  have hnone : context.index.IsClass? none := by simp [Index.IsClass?]
  intro expr
  rw [computeType]
  split
  · exact Keeps.get.bind (fun tracker htracker => Keeps.pure (isClass?_nameType h htracker _ _))
  · exact Keeps.pure (fun id hid => TypeResolver.isKind_of_lookupClassName h.index.findsClasses hid)
  · exact Keeps.get.bind (fun tracker htracker => Keeps.pure htracker.currentClass)
  · exact Keeps.get.bind (fun tracker _ => Keeps.pure (tracker.isClass?_currentSuperclass h.index))
  · exact keeps_fieldAccessType h htypes expr
  · refine (keeps_callSite? h htypes expr).bind (fun site _ => ?_)
    cases site with
    | none => exact Keeps.pure hnone
    | some site => exact Keeps.pure (isClass?_returnType h.index _)
  · exact Keeps.pure (isClass?_declared h expr)
  · exact Keeps.pure (isClass?_declared h expr)
  · split
    · exact htypes _
    · exact Keeps.pure hnone
  · exact Keeps.pure (isClass?_literalType h.index _)
  · exact Keeps.pure hnone

/-- The types of expressions are classes, however deep one looks. -/
theorem types_exprTypeWithin (h : context.Sound) (steps : Nat) :
    context.Types (context.exprTypeWithin steps) := by
  induction steps with
  | zero => exact fun expr => Keeps.pure (by simp [Index.IsClass?])
  | succ steps ih =>
    intro expr
    rw [exprTypeWithin]
    refine Keeps.get.bind (fun tracker htracker => ?_)
    split
    · rename_i type htype
      exact Keeps.pure (htracker.exprTypes htype)
    · refine (keeps_computeType h ih expr).bind (fun type htype => ?_)
      refine (Keeps.modify (fun state hstate => ?_)).bind (fun _ _ => Keeps.pure htype)
      refine ⟨hstate.scope, hstate.classes, hstate.calls, ?_⟩
      intro other otherType hother
      rw [Std.TreeMap.getElem?_insert] at hother
      split at hother
      · cases hother
        exact htype
      · exact hstate.exprTypes hother

theorem types_exprType (h : context.Sound) : context.Types context.exprType :=
  types_exprTypeWithin h _

/-! ## The traversal -/

theorem keeps_bindLocals (h : context.Sound) (decl : Nat) :
    Keeps (CallTracker.Sound context.index) (context.bindLocals decl) (fun _ => True) := by
  have hbind : ∀ (name : String) (action : StateM CallTracker (Option ItemId)),
      Keeps (CallTracker.Sound context.index) action context.index.IsClass? →
      Keeps (CallTracker.Sound context.index)
        (action >>= fun type => modify (fun tracker => tracker.bind name type) >>= fun _ =>
          pure (ForInStep.yield PUnit.unit)) (fun _ => True) := by
    intro name action haction
    refine haction.bind (fun type htype => ?_)
    refine (Keeps.modify (fun tracker htracker => ?_)).bind (fun _ _ => Keeps.pure trivial)
    exact htracker.bind htype
  rw [bindLocals]
  refine (Keeps.forIn (fun declarator _ state => ?_) _).bind (fun _ _ => Keeps.pure trivial)
  dsimp only
  split
  · exact Keeps.pure trivial
  · rename_i name _
    refine Keeps.ite ?_ (hbind name _ (Keeps.pure (isClass?_declared h decl)))
    split
    · exact hbind name _ (types_exprType h _)
    · exact hbind name _ (Keeps.pure (by simp [Index.IsClass?]))

theorem keeps_bindDeclared (h : context.Sound) (decl : Nat) :
    Keeps (CallTracker.Sound context.index) (context.bindDeclared decl) (fun _ => True) := by
  rw [bindDeclared]
  split
  · exact Keeps.modify (fun tracker htracker => htracker.bind (isClass?_declared h decl))
  · exact Keeps.pure trivial

theorem sound_openNode (h : context.Sound) (id : Nat) {tracker : CallTracker}
    (htracker : tracker.Sound context.index) : (context.openNode id tracker).Sound context.index := by
  rw [openNode]
  split
  · refine ⟨by simpa [Scope.push] using htracker.scope, ?_, htracker.calls, htracker.exprTypes⟩
    intro type htype
    rcases List.mem_cons.1 htype with rfl | htype
    · exact fun cls hcls => TypeResolver.isKind_of_classOfDecl h.index.findsClasses hcls
    · exact htracker.classes type htype
  · split
    · exact ⟨by simpa [Scope.push] using htracker.scope, htracker.classes, htracker.calls,
        htracker.exprTypes⟩
    · exact htracker

theorem sound_leaveNode (id : Nat) {tracker : CallTracker} {index : Index}
    (htracker : tracker.Sound index) : (context.leaveNode id tracker).Sound index := by
  have hpop : ∀ binding ∈ tracker.scope.pop.frames.flatten, index.IsClass? binding.type := by
    intro binding hbinding
    refine htracker.scope binding ?_
    cases hframes : tracker.scope.frames with
    | nil => simp [Scope.pop, hframes] at hbinding
    | cons frame outer =>
      rw [List.flatten_cons]
      exact List.mem_append_right _ (by simpa [Scope.pop, hframes] using hbinding)
  rw [leaveNode]
  split
  · exact ⟨hpop, fun type htype => htracker.classes type (List.mem_of_mem_tail htype),
      htracker.calls, htracker.exprTypes⟩
  · split
    · exact ⟨hpop, htracker.classes, htracker.calls, htracker.exprTypes⟩
    · exact htracker

/-- At a call the tracker changes as the search for its site changes it, and records the site. -/
theorem keeps_recordCall {inv : CallTracker → Prop} {post : Option CallSite → Prop} {id : Nat}
    (hsite : Keeps inv (context.callSite? context.exprType id) post)
    (hrecord : ∀ (site : CallSite) {tracker : CallTracker}, post (some site) → inv tracker →
      inv { tracker with calls := site :: tracker.calls }) :
    Keeps inv (do
      match ← context.callSite? context.exprType id with
      | some site => modify (fun tracker => { tracker with calls := site :: tracker.calls })
      | none => pure ()) (fun _ => True) := by
  refine hsite.bind (fun site hpost => ?_)
  cases site with
  | none => exact Keeps.pure trivial
  | some site => exact Keeps.modify (fun _ htracker => hrecord site hpost htracker)

theorem keeps_enterNode (h : context.Sound) (id : Nat) :
    Keeps (CallTracker.Sound context.index) (context.enterNode id) (fun _ => True) := by
  have hcall := keeps_recordCall (keeps_callSite? h (types_exprType h) id)
    (fun site tracker hsite htracker => ⟨htracker.scope, htracker.classes,
      List.forall_mem_cons.2 ⟨hsite site rfl, htracker.calls⟩, htracker.exprTypes⟩)
  rw [enterNode]
  refine (Keeps.modify (fun tracker htracker => sound_openNode h id htracker)).bind (fun _ _ => ?_)
  split
  · exact keeps_bindDeclared h id
  · exact keeps_bindDeclared h id
  · split
    · exact Keeps.modify (fun tracker htracker => htracker.bind (by simp [Index.IsClass?]))
    · exact Keeps.pure trivial
  · exact keeps_bindLocals h id
  · exact hcall
  · exact hcall
  · exact hcall
  · exact Keeps.pure trivial

/-- A traversal keeps what entering and leaving a node keep. -/
theorem runStack_induct {σ : Type} {visitor : Visitor σ} {holds : σ → Prop}
    (henter : ∀ state id, holds state → holds (visitor.enter state id).2)
    (hleave : ∀ state id, holds state → holds (visitor.leave state id)) (stack : List Visitor.Frame)
    (state : σ) (h : holds state) : holds (visitor.runStack stack state) := by
  fun_induction visitor.runStack stack state with
  | case1 state => exact h
  | case2 id rest state ih => exact ih (hleave state id h)
  | case3 id info children rest state next hnext ih =>
    exact ih (by simpa [hnext] using henter state id h)
  | case4 id info children rest state descend next hnext hdescend ih =>
    exact ih (by simpa [hnext] using henter state id h)

/-- Every call of a source file names a method and classes that may declare it. -/
theorem sound_of_mem_calls (h : context.Sound) {site : CallSite} (hsite : site ∈ context.calls) :
    site.Sound context.index := by
  have hwalk : (context.ast.walk context.visitor .start).Sound context.index := by
    refine runStack_induct (fun tracker id htracker => ?_) (fun tracker id htracker => ?_) _ _
      (CallTracker.sound_start context.index)
    · exact (keeps_enterNode h id tracker htracker).1
    · exact sound_leaveNode id htracker
  exact hwalk.calls site (List.mem_reverse.1 hsite)

end CallContext

end CodeAtlas
