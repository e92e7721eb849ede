/-
# What resolving a source file reads

The traversal that collects the calls of a unit asks the index for classes, fields and methods.  The
answers it gets are logged here, in the order in which it gets them: the log of a step is worked out
beside the step, from the same state, and the log of the traversal is that of all its steps.

Only what is found counts.  The type of a field or of a method is part of what was found there, and
so are the owner and the supertypes of a class.
-/
import CodeAtlas.Proofs.Index.Sealing
import CodeAtlas.Proofs.Resolve.Calls
import CodeAtlas.Query.Search

namespace CodeAtlas

open Source

/-! ## Names and types -/

/-- The class of the arrays over a class, if it exists. -/
def Index.arrayOver (index : Index) (dims : Nat) (id : ItemId) : Option ItemId :=
  if dims = 0 then some id
  else
    match index.get? id with
    | none => none
    | some item => index.findItem item.parent (Item.arrayName item.name dims) .class

namespace TypeResolver

/-- The class that a name stands for in a type; a type parameter stands for the wildcard. -/
def namedType (types : TypeResolver) (index : Index) (id : Nat) (name : String) : Option ItemId :=
  if !name.toList.contains '.' && types.isTypeVariable id name then index.findWildcard
  else types.lookupClassName index id name

theorem lookupType_eq (types : TypeResolver) (index : Index) (use : TypeUse) :
    types.lookupType index use = (types.unit.ast.typeName use.node).bind (fun type =>
      (types.namedType index use.node type.1).bind (index.arrayOver (type.2 + use.extraDims))) := by
  rw [lookupType]
  cases types.unit.ast.typeName use.node with
  | none => rfl
  | some type =>
    dsimp only [Option.bind_some]
    rw [resolveName, namedType]
    by_cases hvar : (!type.1.toList.contains '.' && types.isTypeVariable use.node type.1) = true
    · rw [if_pos hvar, if_pos hvar]
      cases index.findWildcard <;> rfl
    · rw [if_neg hvar, if_neg hvar]
      cases types.lookupClassName index use.node type.1 <;> rfl

/-- The answers behind the class of a name: the class itself, and the class of the first segment
where that is asked for its members. -/
def nameReads (types : TypeResolver) (index : Index) (id : Nat) (name : String) : List ItemId :=
  let head :=
    match Text.splitOnce '.' name, types.ownClass index name with
    | some (head, _), none => types.lookupSimple index id head
    | _, _ => none
  (types.lookupClassName index id name).toList ++ head.toList

/-- The answers behind the class of a type use: those of its name or the wildcard, and the class of
the array. -/
def typeReads (types : TypeResolver) (index : Index) (use : TypeUse) : List ItemId :=
  match types.unit.ast.typeName use.node with
  | none => []
  | some (name, _) =>
    let base :=
      if !name.toList.contains '.' && types.isTypeVariable use.node name then index.findWildcard.toList
      else types.nameReads index use.node name
    base ++ (types.lookupType index use).toList

end TypeResolver

/-! ## Expressions -/

namespace CallContext

/-- The answers behind the declared type of a declaration. -/
def declaredReads (context : CallContext) (decl : Nat) : List ItemId :=
  ((context.ast.declaredType decl).map (context.types.typeReads context.index)).getD []

/-- The answers behind the type of a simple name. -/
def simpleReads (context : CallContext) (tracker : CallTracker) (id : Nat) (name : String) :
    List ItemId :=
  match tracker.scope.lookup name with
  | some _ => []
  | none =>
    match tracker.knownClasses.findSome? (fun owner => context.index.findField owner name) with
    | some field => [field]
    | none => context.types.nameReads context.index id name

/-- The logs of expressions below the one at hand. -/
abbrev ReadsOf := Nat → CallTracker → List ItemId

/-- The answers behind the classes that may declare the target of a call. -/
def callReads (context : CallContext) (readsOf : ReadsOf) (call : Nat) (tracker : CallTracker) :
    List ItemId :=
  match context.ast.kind call with
  | .methodInvocation =>
    match context.ast.nameOf call, context.ast.childInRole call .receiver with
    | some _, some receiver => readsOf receiver tracker
    | some name, none => context.staticImportOwners name
    | none, _ => []
  | .objectCreation => context.declaredReads call
  | _ => []

/-- The answers behind the type of a field access. -/
def fieldAccessReads (context : CallContext) (typeOf : TypeOf) (readsOf : ReadsOf) (expr : Nat)
    (tracker : CallTracker) : List ItemId :=
  let ast := context.ast
  match ast.childInRole expr .name, ast.childInRole expr .receiver with
  | some field, some receiver =>
    if ast.kind field = .this then
      context.types.nameReads context.index expr (ast.text receiver)
    else
      let below := readsOf receiver tracker
      match ((typeOf receiver).run tracker).1 with
      | some owner => below ++ (context.index.findField owner (ast.text field)).toList
      | none =>
        below ++ context.types.nameReads context.index expr (Text.dropBlanks (ast.text expr))
  | _, _ => []

/-- The answers behind the type of an expression, given those below it. -/
def computeReads (context : CallContext) (typeOf : TypeOf) (readsOf : ReadsOf) (expr : Nat)
    (tracker : CallTracker) : List ItemId :=
  let ast := context.ast
  match ast.kind expr with
  | .name => context.simpleReads tracker expr (ast.text expr)
  | .qualifiedName => context.types.nameReads context.index expr (ast.text expr)
  | .fieldAccess => context.fieldAccessReads typeOf readsOf expr tracker
  | .methodInvocation =>
    let site := ((context.callSite? typeOf expr).run tracker).1
    context.callReads readsOf expr tracker ++ (site.bind context.index.resolveCall).toList
  | .objectCreation | .cast => context.declaredReads expr
  | .parenthesized =>
    match (ast.children expr).head? with
    | some inner => readsOf inner tracker
    | none => []
  | .literal kind => (literalType context.index kind).toList
  | _ => []

/-- The answers behind the type of an expression, looking at most `steps` nodes deep.  A type that
is known already takes none. -/
def exprReadsWithin (context : CallContext) : Nat → ReadsOf
  | 0, _, _ => []
  | steps + 1, expr, tracker =>
    match tracker.exprTypes[expr]? with
    | some _ => []
    | none =>
      context.computeReads (context.exprTypeWithin steps) (context.exprReadsWithin steps) expr tracker

/-- The answers behind the type of an expression. -/
def exprReads (context : CallContext) : ReadsOf :=
  context.exprReadsWithin (context.ast.size + 1)

/-! ## The traversal -/

/-- Whether the type of a local declaration is that of the initial value. -/
def isInferred (ast : Ast) (decl : Nat) : Bool :=
  match ast.declaredType decl with
  | some use => ast.text use.node == "var"
  | none => false

/-- Binds one variable of a local declaration. -/
def bindLocal (context : CallContext) (decl declarator : Nat) : StateM CallTracker PUnit := do
  let ast := context.ast
  match ast.nameOf declarator with
  | none => pure ()
  | some name =>
    let type ←
      if isInferred ast decl then
        match ast.childInRole declarator .value with
        | some value => context.exprType value
        | none => pure none
      else pure (context.declared decl)
    modify (fun tracker => tracker.bind name type)

/-- A loop without an early exit makes one step after the other. -/
theorem forIn_eq_forM {α σ : Type} {body : α → PUnit → StateM σ (ForInStep PUnit)}
    {step : α → StateM σ PUnit}
    (h : ∀ value, body value ⟨⟩ = (step value >>= fun _ => pure (.yield ⟨⟩))) (list : List α) :
    forIn list ⟨⟩ body = list.forM step := by
  induction list with
  | nil => rfl
  | cons first rest ih =>
    rw [List.forIn_cons, h, bind_assoc]
    exact congrArg (step first >>= fun _ => ·) ih

theorem bindLocals_eq_forM (context : CallContext) (decl : Nat) :
    context.bindLocals decl =
      (context.ast.childrenInRole decl .declarator).forM (context.bindLocal decl) := by
  refine forIn_eq_forM (fun declarator => ?_) _
  rw [bindLocal]
  cases context.ast.nameOf declarator with
  | none => rfl
  | some name =>
    dsimp only
    by_cases hinferred : isInferred context.ast decl = true
    · rw [if_pos hinferred]
      refine (if_pos hinferred).trans ?_
      cases context.ast.childInRole declarator .value <;> rfl
    · rw [if_neg hinferred]
      exact if_neg hinferred

/-- The answers behind the type of one variable of a local declaration. -/
def localReads (context : CallContext) (decl declarator : Nat) (tracker : CallTracker) :
    List ItemId :=
  if isInferred context.ast decl then
    match context.ast.childInRole declarator .value with
    | some value => context.exprReads value tracker
    | none => []
  else context.declaredReads decl

/-- The answers behind the types of the variables of a local declaration. -/
def localsReads (context : CallContext) (decl : Nat) : List Nat → CallTracker → List ItemId
  | [], _ => []
  | declarator :: rest, tracker =>
    context.localReads decl declarator tracker ++
      localsReads context decl rest ((context.bindLocal decl declarator).run tracker).2

/-- The answers that entering a node takes. -/
def enterReads (context : CallContext) (id : Nat) (tracker : CallTracker) : List ItemId :=
  let tracker := context.openNode id tracker
  match context.ast.kind id with
  | .formalParameter | .enhancedFor => context.declaredReads id
  | .localVariableDeclaration =>
    context.localsReads id (context.ast.childrenInRole id .declarator) tracker
  | .methodInvocation | .objectCreation | .constructorInvocation =>
    context.callReads context.exprReads id tracker
  | _ => []

/-- The visitor that records the calls of a unit, with the log of its steps. -/
def readsVisitor (context : CallContext) : Visitor (CallTracker × List ItemId) where
  enter state id :=
    (true, (context.visitor.enter state.1 id).2, state.2 ++ context.enterReads id state.1)
  leave state id := (context.visitor.leave state.1 id, state.2)

/-- The answers behind the calls of a unit and their targets. -/
def callsReads (context : CallContext) : List ItemId :=
  (context.ast.walk context.readsVisitor (.start, [])).2 ++
    context.calls.filterMap context.index.resolveCall

end CallContext

/-! ## What is read is there -/

namespace Index

variable {index : Index}

/-- The handles of a list name items. -/
def Holds (index : Index) (ids : List ItemId) : Prop :=
  ∀ id ∈ ids, index.contains id

theorem holds_nil : index.Holds [] :=
  fun _ hid => absurd hid List.not_mem_nil

theorem Holds.append {ids others : List ItemId} (h : index.Holds ids)
    (hothers : index.Holds others) : index.Holds (ids ++ others) :=
  List.forall_mem_append.2 ⟨h, hothers⟩

theorem holds_toList {found : Option ItemId} (h : ∀ id, found = some id → index.contains id) :
    index.Holds found.toList :=
  fun id hid => h id (Option.mem_toList.1 hid)

theorem Coherent.contains_of_findField (h : index.Coherent) {owner id : ItemId} {name : String}
    (hfound : index.findField owner name = some id) : index.contains id := by
  obtain ⟨_, _, hfind⟩ := List.exists_of_findSome?_eq_some hfound
  exact (h.isKind_of_findItem (by decide) hfind).contains

theorem Coherent.contains_of_resolveCall (h : index.Coherent) {site : CallSite} {id : ItemId}
    (hfound : index.resolveCall site = some id) : index.contains id := by
  obtain ⟨_, _, hmethod⟩ := List.exists_of_findSome?_eq_some hfound
  obtain ⟨_, _, hfind⟩ := List.exists_of_findSome?_eq_some hmethod
  have hmem := List.mem_of_find?_eq_some hfind
  rw [h.registered.findAll_eq] at hmem
  exact (mem_ids_iff h.stacked).1 (List.mem_filter.1 hmem).1

end Index

namespace TypeResolver

variable {types : TypeResolver} {index : Index}

theorem holds_nameReads (h : index.Coherent) (id : Nat) (name : String) :
    index.Holds (types.nameReads index id name) := by
  rw [nameReads]
  refine (Index.holds_toList (fun cls hcls =>
    (isKind_of_lookupClassName h.findsClasses hcls).contains)).append
    (Index.holds_toList (fun cls hcls => ?_))
  split at hcls
  · exact (isKind_of_lookupSimple h.findsClasses hcls).contains
  · simp at hcls

theorem holds_typeReads (h : index.Coherent) (use : TypeUse) :
    index.Holds (types.typeReads index use) := by
  rw [typeReads]
  split
  · exact Index.holds_nil
  · refine Index.Holds.append ?_ (Index.holds_toList (fun cls hcls =>
      (isKind_of_lookupType h.findsClasses hcls).contains))
    split
    · exact Index.holds_toList (fun cls hcls =>
        (Index.isKind_of_findBuiltin h.findsClasses hcls).contains)
    · exact holds_nameReads h _ _

end TypeResolver

namespace CallContext

variable {context : CallContext}

theorem holds_declaredReads (h : context.index.Coherent) (decl : Nat) :
    context.index.Holds (context.declaredReads decl) := by
  rw [declaredReads]
  cases context.ast.declaredType decl with
  | none => exact Index.holds_nil
  | some use => exact TypeResolver.holds_typeReads h use

theorem holds_simpleReads (h : context.index.Coherent) (tracker : CallTracker) (id : Nat)
    (name : String) : context.index.Holds (context.simpleReads tracker id name) := by
  rw [simpleReads]
  split
  · exact Index.holds_nil
  · split
    · rename_i field hfield
      obtain ⟨_, _, hfound⟩ := List.exists_of_findSome?_eq_some hfield
      exact List.forall_mem_singleton.2 (h.contains_of_findField hfound)
    · exact TypeResolver.holds_nameReads h id name

theorem holds_staticImportOwners (h : context.index.Coherent) (name : String) :
    context.index.Holds (context.staticImportOwners name) := by
  intro id hid
  obtain ⟨_, _, hid⟩ := List.mem_flatMap.1 hid
  exact (Index.isKind_of_mem_findClasses h.findsClasses hid).contains

theorem holds_callReads (h : context.index.Coherent) {readsOf : ReadsOf}
    (hbelow : ∀ expr tracker, context.index.Holds (readsOf expr tracker)) (call : Nat)
    (tracker : CallTracker) : context.index.Holds (context.callReads readsOf call tracker) := by
  rw [callReads]
  split
  · split
    · exact hbelow _ tracker
    · exact holds_staticImportOwners h _
    · exact Index.holds_nil
  · exact holds_declaredReads h call
  · exact Index.holds_nil

theorem holds_fieldAccessReads (h : context.index.Coherent) (typeOf : TypeOf) {readsOf : ReadsOf}
    (hbelow : ∀ expr tracker, context.index.Holds (readsOf expr tracker)) (expr : Nat)
    (tracker : CallTracker) :
    context.index.Holds (context.fieldAccessReads typeOf readsOf expr tracker) := by
  rw [fieldAccessReads]
  dsimp only
  split
  · split
    · exact TypeResolver.holds_nameReads h _ _
    · split
      · exact (hbelow _ tracker).append
          (Index.holds_toList (fun _ hfound => h.contains_of_findField hfound))
      · exact (hbelow _ tracker).append (TypeResolver.holds_nameReads h _ _)
  · exact Index.holds_nil

theorem holds_literalType (h : context.index.Coherent) (kind : LiteralKind) :
    context.index.Holds (literalType context.index kind).toList := by
  refine Index.holds_toList (fun id hid => ?_)
  cases kind with
  | string =>
    exact (Index.isKind_of_mem_findClasses h.findsClasses (List.mem_of_mem_head? hid)).contains
  | null => simp [literalType] at hid
  | _ => exact (Index.isKind_of_findPrimitive h.findsClasses hid).contains

theorem holds_computeReads (h : context.index.Coherent) (typeOf : TypeOf) {readsOf : ReadsOf}
    (hbelow : ∀ expr tracker, context.index.Holds (readsOf expr tracker)) (expr : Nat)
    (tracker : CallTracker) :
    context.index.Holds (context.computeReads typeOf readsOf expr tracker) := by
  rw [computeReads]
  dsimp only
  split
  · exact holds_simpleReads h tracker _ _
  · exact TypeResolver.holds_nameReads h _ _
  · exact holds_fieldAccessReads h typeOf hbelow expr tracker
  · refine (holds_callReads h hbelow expr tracker).append (Index.holds_toList (fun id hid => ?_))
    obtain ⟨_, _, hmethod⟩ := Option.bind_eq_some_iff.1 hid
    exact h.contains_of_resolveCall hmethod
  · exact holds_declaredReads h expr
  · exact holds_declaredReads h expr
  · split
    · exact hbelow _ tracker
    · exact Index.holds_nil
  · exact holds_literalType h _
  · exact Index.holds_nil

theorem holds_exprReadsWithin (h : context.index.Coherent) (steps expr : Nat)
    (tracker : CallTracker) : context.index.Holds (context.exprReadsWithin steps expr tracker) := by
  induction steps generalizing expr tracker with
  | zero => exact Index.holds_nil
  | succ steps ih =>
    rw [exprReadsWithin]
    split
    · exact Index.holds_nil
    · exact holds_computeReads h _ ih expr tracker

theorem holds_localsReads (h : context.index.Coherent) (decl : Nat) (declarators : List Nat)
    (tracker : CallTracker) : context.index.Holds (context.localsReads decl declarators tracker) := by
  induction declarators generalizing tracker with
  | nil => exact Index.holds_nil
  | cons declarator rest ih =>
    refine Index.Holds.append ?_ (ih _)
    rw [localReads]
    split
    · split
      · exact holds_exprReadsWithin h _ _ tracker
      · exact Index.holds_nil
    · exact holds_declaredReads h decl

theorem holds_enterReads (h : context.index.Coherent) (id : Nat) (tracker : CallTracker) :
    context.index.Holds (context.enterReads id tracker) := by
  have hcall : ∀ state, context.index.Holds (context.callReads context.exprReads id state) :=
    holds_callReads h (holds_exprReadsWithin h _) id
  rw [enterReads]
  split
  · exact holds_declaredReads h id
  · exact holds_declaredReads h id
  · exact holds_localsReads h id _ _
  · exact hcall _
  · exact hcall _
  · exact hcall _
  · exact Index.holds_nil

/-- The answers that a traversal gets are items of the index. -/
theorem holds_callsReads (h : context.index.Coherent) : context.index.Holds context.callsReads := by
  refine Index.Holds.append ?_ (fun id hid => ?_)
  · refine @runStack_induct _ context.readsVisitor (fun state => context.index.Holds state.2)
      (fun state id hlog => ?_) (fun state id hlog => hlog) _ _ Index.holds_nil
    exact hlog.append (holds_enterReads h id state.1)
  · obtain ⟨site, _, hmethod⟩ := List.mem_filterMap.1 hid
    exact h.contains_of_resolveCall hmethod

end CallContext

end CodeAtlas
