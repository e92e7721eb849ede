/-
# Variables in scope

The traversal of a source file opens a frame at every node that opens a scope and closes it when the
node is left.  Whatever was bound on the way and is in scope at a node is therefore in the frames when
the node is reached, what was bound last in front; so a variable is looked up lexically.  In the same
way the classes that are kept are those of the type declarations around the node.
-/
import CodeAtlas.Proofs.Resolve.Traversal
import CodeAtlas.Proofs.Source.Preorder

namespace CodeAtlas

open Source

/-! ## Scopes of a syntax tree -/

namespace Source.Ast

/-- Whether a node opens a scope: type declarations do, and what opens a scope for local
variables. -/
def opensScope (ast : Ast) (id : Nat) : Bool :=
  (ast.kind id).isTypeDeclaration || (ast.kind id).opensScope

/-- The innermost node that opens a scope, of a node and those around it; none in the outermost
scope of a unit. -/
def scopeOf (ast : Ast) (id : Nat) : Option Nat :=
  (ast.withAncestors id).find? ast.opensScope

/-- Whether the scope of a node is that of one of the given nodes, or the outermost one. -/
def scopeIsAmong (ast : Ast) (around : List Nat) (id : Nat) : Bool :=
  (ast.scopeOf id).all (around.contains ·)

/-- Whether what is bound at a node is in scope at a place: the node that opens the scope of the
binding is around the place. -/
def InScope (ast : Ast) (id place : Nat) : Prop :=
  ∀ opener, ast.scopeOf id = some opener → opener ∈ ast.ancestors place

/-- Whether a node binds a variable of a name: parameters, variables of loops over collections,
untyped parameters of lambdas and declarations of local variables do. -/
def Binds (ast : Ast) (id : Nat) (name : String) : Prop :=
  match ast.kind id with
  | .formalParameter | .enhancedFor => ast.nameOf id = some name
  | .name => CallContext.isLambdaParameter ast id = true ∧ ast.text id = name
  | .localVariableDeclaration =>
    ∃ declarator ∈ ast.childrenInRole id .declarator, ast.nameOf declarator = some name
  | _ => False

variable {ast : Ast} {id place opener : Nat}

theorem scopeIsAmong_ancestors_iff :
    ast.scopeIsAmong (ast.ancestors place) id = true ↔ ast.InScope id place := by
  rw [scopeIsAmong, InScope, Option.all_eq_true]
  simp only [List.contains_iff_mem]

/-- A scope is opened by a node that is not entered later. -/
theorem IsOrdered.le_of_scopeOf (h : ast.IsOrdered) (hscope : ast.scopeOf id = some opener) :
    opener ≤ id := by
  rcases List.mem_cons.1 (List.mem_of_find?_eq_some hscope) with rfl | houter
  · exact Nat.le_refl _
  · exact Nat.le_of_lt (h.lt_of_mem_ancestors houter)

end Source.Ast

/-! ## Several bindings -/

namespace Scope

/-- Binds variables, the last of the list first. -/
def bindAll (scope : Scope) (bindings : List Binding) : Scope :=
  bindings.foldr (fun binding scope => scope.bind binding.name binding.type) scope

theorem bindAll_append (scope : Scope) (bindings others : List Binding) :
    scope.bindAll (bindings ++ others) = (scope.bindAll others).bindAll bindings :=
  List.foldr_append

@[simp] theorem flatten_bind (scope : Scope) (name : String) (type : Option ItemId) :
    (scope.bind name type).frames.flatten = ⟨name, type⟩ :: scope.frames.flatten := by
  unfold bind
  split
  · rename_i hnone
    rw [hnone]
    rfl
  · rename_i frame outer hsome
    rw [hsome]
    rfl

/-- New bindings come in front of those that are there. -/
theorem flatten_bindAll (scope : Scope) (bindings : List Binding) :
    (scope.bindAll bindings).frames.flatten = bindings ++ scope.frames.flatten := by
  induction bindings with
  | nil => rfl
  | cons binding rest ih => exact (flatten_bind _ _ _).trans (congrArg (binding :: ·) ih)

theorem tail_bind (scope : Scope) (name : String) (type : Option ItemId) :
    (scope.bind name type).frames.tail = scope.frames.tail := by
  unfold bind
  split
  · rename_i hnone
    rw [hnone]
    rfl
  · rename_i frame outer hsome
    rw [hsome]
    rfl

/-- The outer frames stay as they are. -/
theorem tail_bindAll (scope : Scope) (bindings : List Binding) :
    (scope.bindAll bindings).frames.tail = scope.frames.tail := by
  induction bindings with
  | nil => rfl
  | cons binding rest ih => exact (tail_bind _ _ _).trans ih

end Scope

namespace CallContext

variable {context : CallContext}

/-! ## Types of expressions are worked out in place -/

section InPlace

/-- The variables and the classes around are the same. -/
def InPlace (tracker later : CallTracker) : Prop :=
  later.scope = tracker.scope ∧ later.classes = tracker.classes

variable {tracker : CallTracker} {typeOf : TypeOf}
  (htypes : ∀ expr, Keeps (InPlace tracker) (typeOf expr) (fun _ => True))

include htypes in
theorem inPlace_methodOwners (call : Nat) (name : String) :
    Keeps (InPlace tracker) (context.methodOwners typeOf call name) (fun _ => True) := by
  rw [methodOwners]
  split
  · exact (htypes _).bind (fun _ _ => Keeps.pure trivial)
  · exact Keeps.get.bind (fun _ _ => Keeps.pure trivial)

include htypes in
theorem inPlace_callSite? (call : Nat) :
    Keeps (InPlace tracker) (context.callSite? typeOf call) (fun _ => True) := by
  rw [callSite?]
  dsimp only
  split
  · split
    · exact Keeps.pure trivial
    · exact (inPlace_methodOwners htypes call _).bind (fun _ _ => Keeps.pure trivial)
  · exact Keeps.pure trivial
  · exact Keeps.get.bind (fun _ _ => Keeps.pure trivial)
  · exact Keeps.pure trivial

include htypes in
theorem inPlace_fieldAccessType (expr : Nat) :
    Keeps (InPlace tracker) (context.fieldAccessType typeOf expr) (fun _ => True) := by
  rw [fieldAccessType]
  split
  · split
    · exact Keeps.pure trivial
    · refine (htypes _).bind (fun type _ => ?_)
      cases type <;> exact Keeps.pure trivial
  · exact Keeps.pure trivial

include htypes in
theorem inPlace_computeType (expr : Nat) :
    Keeps (InPlace tracker) (context.computeType typeOf expr) (fun _ => True) := by
  rw [computeType]
  split
  · exact Keeps.get.bind (fun _ _ => Keeps.pure trivial)
  · exact Keeps.pure trivial
  · exact Keeps.get.bind (fun _ _ => Keeps.pure trivial)
  · exact Keeps.get.bind (fun _ _ => Keeps.pure trivial)
  · exact inPlace_fieldAccessType htypes expr
  · refine (inPlace_callSite? htypes expr).bind (fun site _ => ?_)
    cases site <;> exact Keeps.pure trivial
  · exact Keeps.pure trivial
  · exact Keeps.pure trivial
  · split
    · exact htypes _
    · exact Keeps.pure trivial
  · exact Keeps.pure trivial
  · exact Keeps.pure trivial

theorem inPlace_exprTypeWithin (steps expr : Nat) :
    Keeps (InPlace tracker) (context.exprTypeWithin steps expr) (fun _ => True) := by
  induction steps generalizing expr with
  | zero => exact Keeps.pure trivial
  | succ steps ih =>
    rw [exprTypeWithin]
    refine Keeps.get.bind (fun _ _ => ?_)
    split
    · exact Keeps.pure trivial
    · refine (inPlace_computeType ih expr).bind (fun type _ => ?_)
      refine (Keeps.modify (fun later hplace => ?_)).bind (fun _ _ => Keeps.pure trivial)
      exact hplace

/-- Working out the type of an expression leaves the variables and the classes around alone. -/
theorem inPlace_exprType (expr : Nat) :
    Keeps (InPlace tracker) (context.exprType expr) (fun _ => True) :=
  inPlace_exprTypeWithin _ expr

end InPlace

/-! ## What a node binds -/

/-- The type with which a declarator binds its variable: the declared one, or for `var` that of the
initial value. -/
def declaratorType (context : CallContext) (decl declarator : Nat) :
    StateM CallTracker (Option ItemId) :=
  if (context.ast.declaredType decl).any (fun use => context.ast.text use.node == "var") then
    match context.ast.childInRole declarator .value with
    | some value => context.exprType value
    | none => pure none
  else pure (context.declared decl)

/-- The state after a declarator. -/
def afterDeclarator (context : CallContext) (decl : Nat) (tracker : CallTracker)
    (declarator : Nat) : CallTracker :=
  match context.ast.nameOf declarator with
  | none => tracker
  | some name =>
    ((context.declaratorType decl declarator).run tracker).2.bind name
      ((context.declaratorType decl declarator).run tracker).1

/-- What declarators bind one after the other, the last first. -/
def localBindings (context : CallContext) (decl : Nat) : List Nat → CallTracker → List Binding
  | [], _ => []
  | declarator :: rest, tracker =>
    localBindings context decl rest (context.afterDeclarator decl tracker declarator) ++
      ((context.ast.nameOf declarator).map (fun name =>
        ⟨name, ((context.declaratorType decl declarator).run tracker).1⟩)).toList

/-- What a node binds when it is reached in a state, the last first. -/
def made (context : CallContext) (id : Nat) (tracker : CallTracker) : List Binding :=
  match context.ast.kind id with
  | .formalParameter | .enhancedFor =>
    ((context.ast.nameOf id).map (fun name => ⟨name, context.declared id⟩)).toList
  | .name => if isLambdaParameter context.ast id then [⟨context.ast.text id, none⟩] else []
  | .localVariableDeclaration =>
    context.localBindings id (context.ast.childrenInRole id .declarator) tracker
  | _ => []

theorem inPlace_declaratorType {tracker : CallTracker} (decl declarator : Nat) :
    Keeps (InPlace tracker) (context.declaratorType decl declarator) (fun _ => True) := by
  rw [declaratorType]
  refine Keeps.ite ?_ (Keeps.pure trivial)
  split
  · exact inPlace_exprType _
  · exact Keeps.pure trivial

/-- Declarators add their bindings to the scope. -/
theorem scope_foldl_afterDeclarator (decl : Nat) (declarators : List Nat) (tracker : CallTracker) :
    (declarators.foldl (context.afterDeclarator decl) tracker).scope =
        tracker.scope.bindAll (context.localBindings decl declarators tracker) ∧
      (declarators.foldl (context.afterDeclarator decl) tracker).classes = tracker.classes := by
  induction declarators generalizing tracker with
  | nil => exact ⟨rfl, rfl⟩
  | cons declarator rest ih =>
    obtain ⟨hscope, hclasses⟩ := ih (context.afterDeclarator decl tracker declarator)
    obtain ⟨hsame, hsameClasses⟩ : InPlace tracker
        ((context.declaratorType decl declarator).run tracker).2 :=
      (inPlace_declaratorType decl declarator tracker ⟨rfl, rfl⟩).1
    rw [List.foldl_cons, hscope, hclasses, localBindings, Scope.bindAll_append]
    unfold afterDeclarator
    cases context.ast.nameOf declarator with
    | none => exact ⟨rfl, rfl⟩
    | some name => exact ⟨by simp [CallTracker.bind, Scope.bindAll, hsame], hsameClasses⟩

/-- A loop whose every round goes on is a fold over its states. -/
theorem run_forIn {σ α : Type} {step : α → PUnit → StateM σ (ForInStep PUnit)}
    {after : σ → α → σ}
    (hstep : ∀ value state, (step value ⟨⟩).run state = (.yield ⟨⟩, after state value))
    (list : List α) (state : σ) :
    (ForIn.forIn list ⟨⟩ step : StateM σ PUnit).run state = (⟨⟩, list.foldl after state) := by
  induction list generalizing state with
  | nil => rfl
  | cons value rest ih =>
    rw [List.forIn_cons, List.foldl_cons, ← ih]
    rw [StateT.run_bind, hstep]
    rfl

theorem run_bindLocals (decl : Nat) (tracker : CallTracker) :
    ((context.bindLocals decl).run tracker).2 =
      (context.ast.childrenInRole decl .declarator).foldl (context.afterDeclarator decl) tracker := by
  rw [bindLocals]
  refine congrArg Prod.snd (run_forIn (fun declarator state => ?_) _ tracker)
  unfold afterDeclarator declaratorType declared
  cases context.ast.nameOf declarator with
  | none => rfl
  | some name =>
    dsimp only
    cases context.ast.declaredType decl with
    | none => rfl
    | some use =>
      rw [Option.any_some]
      dsimp only
      split
      · cases context.ast.childInRole declarator .value <;> rfl
      · rfl

/-! ## Frames that are opened and closed -/

theorem openNode_eq (context : CallContext) (id : Nat) (tracker : CallTracker) :
    (context.openNode id tracker).scope =
        (if context.ast.opensScope id then tracker.scope.push else tracker.scope) ∧
      (context.openNode id tracker).classes =
        (if (context.ast.kind id).isTypeDeclaration then
          context.types.classOfDecl context.index id :: tracker.classes else tracker.classes) := by
  unfold openNode Ast.opensScope
  dsimp only
  cases (context.ast.kind id).isTypeDeclaration <;> cases (context.ast.kind id).opensScope <;>
    exact ⟨rfl, rfl⟩

theorem leaveNode_eq (context : CallContext) (id : Nat) (tracker : CallTracker) :
    (context.leaveNode id tracker).scope =
        (if context.ast.opensScope id then tracker.scope.pop else tracker.scope) ∧
      (context.leaveNode id tracker).classes =
        (if (context.ast.kind id).isTypeDeclaration then tracker.classes.tail
          else tracker.classes) := by
  unfold leaveNode Ast.opensScope
  dsimp only
  cases (context.ast.kind id).isTypeDeclaration <;> cases (context.ast.kind id).opensScope <;>
    exact ⟨rfl, rfl⟩

/-- Entering a node opens its scope and binds there what the node binds. -/
theorem enterNode_eq (context : CallContext) (id : Nat) (tracker : CallTracker) :
    ((context.enterNode id).run tracker).2.scope =
        (context.openNode id tracker).scope.bindAll (context.made id tracker) ∧
      ((context.enterNode id).run tracker).2.classes = (context.openNode id tracker).classes := by
  have hcall := keeps_recordCall
    (@inPlace_callSite? context (context.openNode id tracker) _ inPlace_exprType id)
    (fun _ _ _ hplace => hplace)
  rw [enterNode, run_modify_bind]
  unfold made
  cases hkind : context.ast.kind id with
  | formalParameter | enhancedFor =>
    simp only [bindDeclared]
    cases context.ast.nameOf id <;> exact ⟨rfl, rfl⟩
  | name =>
    dsimp only
    cases isLambdaParameter context.ast id <;> exact ⟨rfl, rfl⟩
  | localVariableDeclaration =>
    have hopen : context.openNode id tracker = tracker := by
      simp [openNode, hkind, Kind.isTypeDeclaration, Kind.opensScope]
    dsimp only
    rw [hopen, run_bindLocals]
    exact scope_foldl_afterDeclarator id _ tracker
  | methodInvocation | objectCreation | constructorInvocation =>
    exact (hcall _ ⟨rfl, rfl⟩).1
  | _ => exact ⟨rfl, rfl⟩

/-! ## The frames at a place -/

/-- What is in scope inside given nodes of what was bound before, the last first. -/
def visible (context : CallContext) (around : List Nat) (earlier : List (Nat × CallTracker)) :
    List Binding :=
  (earlier.filter (fun note => context.ast.scopeIsAmong around note.1)).flatMap
    (fun note => context.made note.1 note.2)

/-- The frames inside given nodes: without the frames of the scopes that inner nodes open, they hold
what is in scope outside of these nodes.  The classes are those of the type declarations among the
nodes. -/
structure Framed (context : CallContext) (around : List Nat) (earlier : List (Nat × CallTracker))
    (tracker : CallTracker) : Prop where
  frames : ∀ inner outer, around = inner ++ outer →
    (tracker.scope.frames.drop (inner.countP context.ast.opensScope)).flatten =
      context.visible outer earlier
  classes : tracker.classes =
    (around.filter (fun outer => (context.ast.kind outer).isTypeDeclaration)).map
      (context.types.classOfDecl context.index)

variable {id : Nat} {earlier : List (Nat × CallTracker)} {tracker : CallTracker}

theorem framed_start (context : CallContext) : context.Framed [] [] .start := by
  refine ⟨fun inner outer h => ?_, rfl⟩
  obtain ⟨rfl, rfl⟩ := List.nil_eq_append_iff.1 h
  rfl

/-- Leaving a node takes away the frame of its scope. -/
theorem Framed.leave {around : List Nat} (h : context.Framed (id :: around) earlier tracker) :
    context.Framed around earlier (context.leaveNode id tracker) := by
  obtain ⟨hscope, hclasses⟩ := leaveNode_eq context id tracker
  have hframes : (context.leaveNode id tracker).scope.frames =
      tracker.scope.frames.drop ([id].countP context.ast.opensScope) := by
    rw [hscope]
    cases hopens : context.ast.opensScope id <;> simp [hopens, Scope.pop]
  refine ⟨fun inner outer haround => ?_, ?_⟩
  · rw [hframes, List.drop_drop, ← List.countP_append]
    exact h.frames (id :: inner) outer (congrArg (id :: ·) haround)
  · rw [hclasses, h.classes, List.filter_cons]
    cases (context.ast.kind id).isTypeDeclaration <;> rfl

/-- Before a node nothing was bound in its scope. -/
theorem visible_cons_of_later (hordered : context.ast.IsOrdered)
    (hearlier : ∀ note ∈ earlier, note.1 < id) (around : List Nat) :
    context.visible (id :: around) earlier = context.visible around earlier := by
  unfold visible
  congr 1
  refine List.filter_congr (fun note hnote => ?_)
  unfold Ast.scopeIsAmong
  cases hscope : context.ast.scopeOf note.1 with
  | none => rfl
  | some opener =>
    have hlt := Nat.lt_of_le_of_lt (hordered.le_of_scopeOf hscope) (hearlier note hnote)
    simp [Nat.ne_of_lt hlt]

theorem visible_cons_note (around : List Nat) :
    context.visible around ((id, tracker) :: earlier) =
      if context.ast.scopeIsAmong around id then
        context.made id tracker ++ context.visible around earlier
      else context.visible around earlier := by
  unfold visible
  rw [List.filter_cons]
  split <;> rfl

/-- The scope of a node is opened outside of the inner ones of the nodes around it exactly when none
of these opens a scope. -/
theorem scopeIsAmong_of_split (hordered : context.ast.IsOrdered) {inner outer : List Nat}
    (hsplit : context.ast.withAncestors id = inner ++ outer) :
    context.ast.scopeIsAmong outer id = decide (inner.countP context.ast.opensScope = 0) := by
  have hnodup : (inner ++ outer).Nodup := by
    rw [← hsplit]
    exact (hordered.pairwise_withAncestors id).imp (fun hlt => Nat.ne_of_gt hlt)
  unfold Ast.scopeIsAmong Ast.scopeOf
  rw [hsplit, List.find?_append]
  cases hinner : inner.find? context.ast.opensScope with
  | none =>
    rw [List.find?_eq_none] at hinner
    rw [decide_eq_true (List.countP_eq_zero.2 hinner), Option.none_or, Option.all_eq_true]
    intro opener hopener
    exact List.contains_iff_mem.2 (List.mem_of_find?_eq_some hopener)
  | some opener =>
    have hmem := List.mem_of_find?_eq_some hinner
    have hcount : inner.countP context.ast.opensScope ≠ 0 := fun hzero =>
      List.countP_eq_zero.1 hzero opener hmem (List.find?_some hinner)
    have hout : opener ∉ outer := fun hopener =>
      (List.nodup_append.1 hnodup).2.2 opener hmem opener hopener rfl
    rw [decide_eq_false hcount, Option.some_or, Option.all_some]
    simpa using hout

/-- Entering a node opens the frame of its scope, if it opens one, and adds what it binds to the
innermost frame. -/
theorem Framed.enter (hordered : context.ast.IsOrdered) (hearlier : ∀ note ∈ earlier, note.1 < id)
    (h : context.Framed (context.ast.ancestors id) earlier tracker) :
    context.Framed (id :: context.ast.ancestors id) ((id, tracker) :: earlier)
      ((context.enterNode id).run tracker).2 := by
  obtain ⟨hscope, hclasses⟩ := enterNode_eq context id tracker
  obtain ⟨hopened, hopenedClasses⟩ := openNode_eq context id tracker
  refine ⟨fun inner outer hsplit => ?_, ?_⟩
  · rw [visible_cons_note, scopeIsAmong_of_split hordered hsplit, hscope]
    cases inner with
    | nil =>
      -- Seen from the node itself, its bindings are in front.
      obtain rfl : id :: context.ast.ancestors id = outer := hsplit
      have hsame : (context.openNode id tracker).scope.frames.flatten =
          tracker.scope.frames.flatten := by
        rw [hopened]
        split <;> rfl
      rw [List.countP_nil, List.drop_zero, Scope.flatten_bindAll, hsame,
        visible_cons_of_later hordered hearlier]
      exact congrArg (context.made id tracker ++ ·) (h.frames [] _ rfl)
    | cons first rest =>
      obtain ⟨rfl, haround⟩ := List.cons.inj hsplit
      have hframes := h.frames rest outer haround
      rw [List.countP_cons]
      cases hopens : context.ast.opensScope id with
      | true =>
        -- What the node binds is in its own frame, which is left out.
        rw [hopens, if_pos rfl] at hopened
        rw [if_pos rfl, if_neg (by simp), ← List.drop_tail, Scope.tail_bindAll, hopened]
        exact hframes
      | false =>
        rw [hopens, if_neg (by simp)] at hopened
        rw [if_neg (by simp), Nat.add_zero, hopened]
        cases hcount : rest.countP context.ast.opensScope with
        | zero =>
          rw [hcount, List.drop_zero] at hframes
          rw [if_pos (by simp), List.drop_zero, Scope.flatten_bindAll, hframes]
        | succ count =>
          rw [hcount, ← List.drop_tail] at hframes
          rw [if_neg (by simp), ← List.drop_tail, Scope.tail_bindAll, hframes]
  · rw [hclasses, hopenedClasses, h.classes, List.filter_cons]
    cases (context.ast.kind id).isTypeDeclaration <;> rfl

/-! ## Looking up a variable -/

/-- The binding of a name that a node makes when it is reached in a state. -/
def bindingOf (context : CallContext) (id : Nat) (tracker : CallTracker) (name : String) :
    Option Binding :=
  (context.made id tracker).find? (fun binding => binding.name == name)

theorem find?_localBindings_eq_none_iff (decl : Nat) (declarators : List Nat)
    (tracker : CallTracker) (name : String) :
    (context.localBindings decl declarators tracker).find? (fun binding => binding.name == name) =
        none ↔ ¬ ∃ declarator ∈ declarators, context.ast.nameOf declarator = some name := by
  induction declarators generalizing tracker with
  | nil => simp [localBindings]
  | cons declarator rest ih =>
    rw [localBindings, List.find?_append, Option.or_eq_none_iff, ih]
    cases hname : context.ast.nameOf declarator with
    | none => simp [hname]
    | some other => simp [hname, and_comm]

/-- Whether a node binds a name does not depend on the state in which it is reached. -/
theorem bindingOf_eq_none_iff (id : Nat) (tracker : CallTracker) (name : String) :
    context.bindingOf id tracker name = none ↔ ¬ context.ast.Binds id name := by
  unfold bindingOf made Ast.Binds
  cases context.ast.kind id with
  | formalParameter | enhancedFor => cases context.ast.nameOf id <;> simp
  | name => cases isLambdaParameter context.ast id <;> simp
  | localVariableDeclaration => exact find?_localBindings_eq_none_iff id _ tracker name
  | _ => simp

/-- In notes that are in order, the first result is that of the last node that has one. -/
theorem findSome?_eq_some_iff_last {α β : Type} {notes : List (Nat × α)}
    (h : notes.Pairwise (fun later earlier => earlier.1 < later.1)) {f : Nat × α → Option β}
    {result : β} : notes.findSome? f = some result ↔
      ∃ note ∈ notes, f note = some result ∧
        ∀ other ∈ notes, note.1 < other.1 → f other = none := by
  induction h with
  | nil => simp
  | @cons last earlier hlast _ ih =>
    rw [List.findSome?_cons]
    cases hresult : f last with
    | some found =>
      constructor
      · rintro ⟨⟩
        refine ⟨last, List.mem_cons_self, hresult, fun other hother hlt => ?_⟩
        rcases List.mem_cons.1 hother with rfl | hother
        · exact absurd hlt (Nat.lt_irrefl _)
        · exact absurd (Nat.lt_trans hlt (hlast other hother)) (Nat.lt_irrefl _)
      · rintro ⟨note, hnote, hsome, hnone⟩
        rcases List.mem_cons.1 hnote with rfl | hnote
        · exact hresult.symm.trans hsome
        · have hgone := hnone last List.mem_cons_self (hlast note hnote)
          simp [hresult] at hgone
    | none =>
      rw [ih]
      constructor
      · rintro ⟨note, hnote, hsome, hnone⟩
        refine ⟨note, List.mem_cons_of_mem _ hnote, hsome, fun other hother hlt => ?_⟩
        rcases List.mem_cons.1 hother with rfl | hother
        · exact hresult
        · exact hnone other hother hlt
      · rintro ⟨note, hnote, hsome, hnone⟩
        rcases List.mem_cons.1 hnote with rfl | hnote
        · simp [hresult] at hsome
        · exact ⟨note, hnote, hsome,
            fun other hother hlt => hnone other (List.mem_cons_of_mem _ hother) hlt⟩

/-- A variable is looked up among what the nodes before have bound in scope, the last first. -/
theorem Framed.lookup_eq (h : context.Framed (context.ast.ancestors id) earlier tracker)
    (name : String) : tracker.scope.lookup name =
      (earlier.filter (fun note =>
        context.ast.scopeIsAmong (context.ast.ancestors id) note.1)).findSome?
          (fun note => context.bindingOf note.1 note.2 name) := by
  rw [Scope.lookup]
  have hframes := h.frames [] _ rfl
  rw [List.countP_nil, List.drop_zero] at hframes
  rw [hframes, visible, List.find?_flatMap]
  rfl

section Notes

variable (h : context.Framed (context.ast.ancestors id) earlier tracker)
  (hids : earlier.map Prod.fst = (List.range id).reverse)

include hids in
theorem exists_note_iff {other : Nat} : (∃ state, (other, state) ∈ earlier) ↔ other < id := by
  have hmem : other ∈ earlier.map Prod.fst ↔ other < id := by
    rw [hids, List.mem_reverse, List.mem_range]
  rw [← hmem, List.mem_map]
  constructor
  · rintro ⟨state, hnote⟩
    exact ⟨(other, state), hnote, rfl⟩
  · rintro ⟨⟨_, state⟩, hnote, rfl⟩
    exact ⟨state, hnote⟩

include h hids in
/-- A variable that nothing before has bound in scope is not found. -/
theorem Framed.lookup_eq_none_iff (name : String) : tracker.scope.lookup name = none ↔
    ∀ other < id, context.ast.InScope other id → ¬ context.ast.Binds other name := by
  rw [h.lookup_eq, List.findSome?_eq_none_iff]
  simp only [List.mem_filter, Ast.scopeIsAmong_ancestors_iff, bindingOf_eq_none_iff]
  constructor
  · intro hnone other hother hin
    obtain ⟨state, hnote⟩ := (exists_note_iff hids).2 hother
    exact hnone (other, state) ⟨hnote, hin⟩
  · rintro hnone ⟨other, state⟩ ⟨hnote, hin⟩
    exact hnone other ((exists_note_iff hids).1 ⟨state, hnote⟩) hin

include h hids in
/-- A variable is found as the last node before has bound it in scope. -/
theorem Framed.lookup_eq_some_iff (name : String) (binding : Binding) :
    tracker.scope.lookup name = some binding ↔
      ∃ note ∈ earlier, context.ast.InScope note.1 id ∧
        context.bindingOf note.1 note.2 name = some binding ∧
        ∀ other, note.1 < other → other < id → context.ast.InScope other id →
          ¬ context.ast.Binds other name := by
  have hordered : earlier.Pairwise (fun later earlier => earlier.1 < later.1) := by
    rw [← List.pairwise_map (f := Prod.fst) (R := fun later earlier => earlier < later), hids,
      List.pairwise_reverse]
    exact List.pairwise_lt_range
  rw [h.lookup_eq, findSome?_eq_some_iff_last (hordered.filter _)]
  simp only [List.mem_filter, Ast.scopeIsAmong_ancestors_iff, bindingOf_eq_none_iff]
  constructor
  · rintro ⟨note, ⟨hnote, hin⟩, hsome, hlast⟩
    refine ⟨note, hnote, hin, hsome, fun other hlt hother hscope => ?_⟩
    obtain ⟨state, hmem⟩ := (exists_note_iff hids).2 hother
    exact hlast (other, state) ⟨hmem, hscope⟩ hlt
  · rintro ⟨note, hnote, hin, hsome, hlast⟩
    refine ⟨note, ⟨hnote, hin⟩, hsome, ?_⟩
    rintro ⟨other, state⟩ ⟨hother, hscope⟩ hlt
    exact hlast other hlt ((exists_note_iff hids).1 ⟨state, hother⟩) hscope

end Notes

/-- Entering and leaving nodes keeps the frames. -/
theorem carries_framed (hordered : context.ast.IsOrdered) :
    context.ast.Carries context.visitor context.Framed where
  enter hids h := by
    refine h.enter hordered (fun note hnote => ?_)
    exact (exists_note_iff hids).1 ⟨note.2, hnote⟩
  leave h := h.leave

/-- Scoping is lexical.  The traversal reaches the nodes of a unit in pre-order.  When it reaches a
node, a variable is found as the last node before it has bound it that binds it in a scope around the
node, and it is not found when there is no such node.  The classes that are kept are those of the
type declarations around the node, the outermost last. -/
theorem lookup_noted (h : context.ast.IsNumbered) :
    let reached := context.ast.noted context.visitor .start
    (context.ast.walk context.visitor.noting (.start, [])).1 =
        context.ast.walk context.visitor .start ∧
    reached.reverse.map Prod.fst = context.ast.ids ∧
    ∀ id tracker, (id, tracker) ∈ reached →
      (∀ name binding, tracker.scope.lookup name = some binding ↔
        ∃ binder before, (binder, before) ∈ reached ∧ binder < id ∧
          context.ast.InScope binder id ∧ context.bindingOf binder before name = some binding ∧
          ∀ other, binder < other → other < id → context.ast.InScope other id →
            ¬ context.ast.Binds other name) ∧
      (∀ name, tracker.scope.lookup name = none ↔
        ∀ other < id, context.ast.InScope other id → ¬ context.ast.Binds other name) ∧
      tracker.classes.reverse =
        ((context.ast.ancestors id).reverse.filter
          (fun outer => (context.ast.kind outer).isTypeDeclaration)).map
          (context.types.classOfDecl context.index) := by
  intro reached
  obtain ⟨hnotes, hlength⟩ := h.notesHold_noted (fun _ _ => rfl) (carries_framed h.isOrdered)
    (framed_start context)
  refine ⟨Ast.fst_walk_noting _ _ _, ?_, fun id tracker hmem => ?_⟩
  · rw [List.map_reverse, hnotes.map_fst, List.reverse_reverse, hlength, Ast.ids]
  · obtain ⟨earlier, hids, hframed, hiff⟩ := hnotes.exists_earlier hmem
    refine ⟨fun name binding => ?_, hframed.lookup_eq_none_iff hids, ?_⟩
    · rw [hframed.lookup_eq_some_iff hids]
      constructor
      · rintro ⟨⟨binder, before⟩, hnote, hrest⟩
        obtain ⟨hreached, hlt⟩ := (hiff _).1 hnote
        exact ⟨binder, before, hreached, hlt, hrest⟩
      · rintro ⟨binder, before, hreached, hlt, hrest⟩
        exact ⟨(binder, before), (hiff _).2 ⟨hreached, hlt⟩, hrest⟩
    · rw [hframed.classes, ← List.map_reverse, ← List.filter_reverse]

/-- A method whose parameter is hidden by a variable of an inner block. -/
def hidingUnit : CompilationUnit :=
  .parse "A.java" "class A \x7b void f(R x) \x7b \x7b U x; x.g(); \x7d x.h(); \x7d \x7d"
    ⟨.node "program" none 0 50 [.node "class_declaration" none 0 50
      [.node "identifier" (some "name") 6 7 [], .node "class_body" (some "body") 8 50
        [.node "method_declaration" none 10 48 [.node "void_type" (some "type") 10 14 [],
          .node "identifier" (some "name") 15 16 [],
          .node "formal_parameters" (some "parameters") 16 21 [.node "formal_parameter" none 17 20
            [.node "type_identifier" (some "type") 17 18 [],
              .node "identifier" (some "name") 19 20 []]],
          .node "block" (some "body") 22 48
            [.node "block" none 24 39
              [.node "local_variable_declaration" none 26 30
                [.node "type_identifier" (some "type") 26 27 [],
                  .node "variable_declarator" (some "declarator") 28 29
                    [.node "identifier" (some "name") 28 29 []]],
              .node "expression_statement" none 31 37 [.node "method_invocation" none 31 36
                [.node "identifier" (some "object") 31 32 [],
                  .node "identifier" (some "name") 33 34 [],
                  .node "argument_list" (some "arguments") 34 36 []]]],
            .node "expression_statement" none 40 46 [.node "method_invocation" none 40 45
              [.node "identifier" (some "object") 40 41 [],
                .node "identifier" (some "name") 42 43 [],
                .node "argument_list" (some "arguments") 43 45 []]]]]]]], false⟩

/-- The class of that method and the classes of the two variables. -/
def hidingIndex : Index :=
  [Operation.project "app", .package ⟨0, 1⟩ "", .class ⟨1, 1⟩ "A", .class ⟨1, 1⟩ "R",
    .class ⟨1, 1⟩ "U"].foldl (fun index operation => (operation.run index).2) (.empty 1)

/-- Inside the block the variable is found, behind it the parameter is. -/
theorem lookup_noted_hidingUnit :
    let context : CallContext := ⟨hidingIndex, ⟨hidingUnit, none⟩⟩
    let reached := context.ast.noted context.visitor .start
    context.ast.IsNumbered ∧
    (reached.reverse.filter (fun note => context.ast.kind note.1 = .methodInvocation)).map
        (fun note => (note.1, note.2.scope.lookup "x", note.2.classes)) =
      [(16, some ⟨"x", some ⟨4, 1⟩⟩, [some ⟨2, 1⟩]), (20, some ⟨"x", some ⟨3, 1⟩⟩, [some ⟨2, 1⟩])] ∧
    ∃ binder before, (binder, before) ∈ reached ∧ binder < 20 ∧ context.ast.InScope binder 20 ∧
      context.bindingOf binder before "x" = some ⟨"x", some ⟨3, 1⟩⟩ ∧
      ∀ other, binder < other → other < 20 → context.ast.InScope other 20 →
        ¬ context.ast.Binds other "x" := by
  intro context reached
  have hnumbered : context.ast.IsNumbered := CompilationUnit.isNumbered_parse _ _ _
  have hfound : ∃ note ∈ reached, note.1 = 20 ∧
      note.2.scope.lookup "x" = some ⟨"x", some ⟨3, 1⟩⟩ := by
    decide +kernel
  obtain ⟨⟨_, tracker⟩, hmem, rfl, hlookup⟩ := hfound
  exact ⟨hnumbered, by decide +kernel,
    (((lookup_noted hnumbered).2.2 20 tracker hmem).1 "x" _).1 hlookup⟩

end CallContext

end CodeAtlas
