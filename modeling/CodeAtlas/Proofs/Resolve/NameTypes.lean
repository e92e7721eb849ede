/-
# Where names get their types

The type of a name is worked out when it is first asked for: by a call whose receiver rests on the
name, or by a declaration with `var` whose initial value does.  It is kept and never changed, so it
is the type that the name has in the state in which that call or declaration is reached.
-/
import CodeAtlas.Proofs.Resolve.Scoping

namespace CodeAtlas

open Source

/-! ## Who asks for the type of a name -/

namespace Source.Ast

/-- Working out the type of the first node may ask for the type of the second. -/
inductive RestsOn (ast : Ast) : Nat → Nat → Prop
  | self (expr : Nat) : RestsOn ast expr expr
  | receiver {expr receiver place : Nat}
      (hkind : ast.kind expr = .methodInvocation ∨ ast.kind expr = .fieldAccess)
      (hreceiver : ast.childInRole expr .receiver = some receiver)
      (hrest : RestsOn ast receiver place) : RestsOn ast expr place
  | inner {expr inner place : Nat} (hkind : ast.kind expr = .parenthesized)
      (hinner : (ast.children expr).head? = some inner)
      (hrest : RestsOn ast inner place) : RestsOn ast expr place

/-- Whether a node asks for the type of another when it is entered: method calls ask for that of
their receiver, declarations for those of the initial values. -/
def AsksFor (ast : Ast) (asker place : Nat) : Prop :=
  match ast.kind asker with
  | .methodInvocation =>
    ∃ receiver, ast.childInRole asker .receiver = some receiver ∧ ast.RestsOn receiver place
  | .localVariableDeclaration =>
    ∃ declarator ∈ ast.childrenInRole asker .declarator, ∃ value,
      ast.childInRole declarator .value = some value ∧ ast.RestsOn value place
  | _ => False

variable {ast : Ast}

theorem mem_children_of_childInRole {id child : Nat} {role : Role}
    (h : ast.childInRole id role = some child) :
    child ∈ ast.children id ∧ ast.role child = role := by
  refine ⟨List.mem_of_find?_eq_some h, ?_⟩
  simpa using List.find?_some h

theorem mem_childrenInRole_iff {id child : Nat} {role : Role} :
    child ∈ ast.childrenInRole id role ↔ child ∈ ast.children id ∧ ast.role child = role := by
  simp [childrenInRole]

end Source.Ast

/-! ## Variables in two states -/

theorem Scope.lookup_bind_of_ne (scope : Scope) {name other : String} (type : Option ItemId)
    (h : other ≠ name) : (scope.bind other type).lookup name = scope.lookup name := by
  rw [Scope.lookup, Scope.lookup, Scope.flatten_bind, List.find?_cons_of_neg]
  simpa using h

namespace CallContext

variable {context : CallContext}

/-- The type of a simple name depends on its variable and the classes around only. -/
theorem nameType_congr {tracker other : CallTracker} {name : String}
    (hlookup : tracker.scope.lookup name = other.scope.lookup name)
    (hclasses : tracker.classes = other.classes) (id : Nat) :
    context.nameType tracker id name = context.nameType other id name := by
  rw [nameType, nameType, hlookup, CallTracker.knownClasses, CallTracker.knownClasses, hclasses]

/-! ## One expression -/

/-- What working out types from a state on leaves alone, and what is known of the types of names
that are kept. -/
structure Steady (context : CallContext) (good : Nat → Option ItemId → Prop)
    (base tracker : CallTracker) : Prop where
  inPlace : InPlace base tracker
  calls : tracker.calls = base.calls
  names : ∀ {place : Nat} {type : Option ItemId}, context.ast.kind place = .name →
    tracker.exprTypes[place]? = some type → good place type

section Expressions

variable {good : Nat → Option ItemId → Prop} {base : CallTracker} {typeOf : TypeOf}

/-- The names on which an expression rests have good types in a state. -/
def GivesGood (context : CallContext) (good : Nat → Option ItemId → Prop) (base : CallTracker)
    (expr : Nat) : Prop :=
  ∀ place, context.ast.RestsOn expr place → context.ast.kind place = .name →
    good place (context.nameType base place (context.ast.text place))

/-- The classes that may declare the target of a call are that of its receiver, if it has one. -/
theorem keeps_methodOwners_of_receiver {holds : CallTracker → Prop}
    {post : Nat → Option ItemId → Prop} {call : Nat} {name : String}
    (h : ∀ receiver, context.ast.childInRole call .receiver = some receiver →
      Keeps holds (typeOf receiver) (post receiver)) :
    Keeps holds (context.methodOwners typeOf call name) (fun owners =>
      ∀ receiver, context.ast.childInRole call .receiver = some receiver →
        ∃ type, owners = type.toList ∧ post receiver type) := by
  rw [methodOwners]
  cases hreceiver : context.ast.childInRole call .receiver with
  | some receiver =>
    refine (h receiver hreceiver).bind (fun type htype => Keeps.pure ?_)
    intro other hother
    obtain rfl := Option.some.inj hother
    exact ⟨type, rfl, htype⟩
  | none =>
    refine Keeps.get.bind (fun _ _ => Keeps.pure ?_)
    intro other hother
    exact absurd hother (by simp)

/-- What the site of a call says of the receiver. -/
def OwnersFrom (context : CallContext) (post : Nat → Option ItemId → Prop) (site : CallSite) :
    Prop :=
  context.ast.kind site.node = .methodInvocation → ∀ receiver,
    context.ast.childInRole site.node .receiver = some receiver →
      ∃ type, site.owners = type.toList ∧ post receiver type

theorem keeps_callSite?_of_receiver {holds : CallTracker → Prop}
    {post : Nat → Option ItemId → Prop} {call : Nat}
    (h : context.ast.kind call = .methodInvocation → ∀ receiver,
      context.ast.childInRole call .receiver = some receiver →
      Keeps holds (typeOf receiver) (post receiver)) :
    Keeps holds (context.callSite? typeOf call)
      (fun site => ∀ found, site = some found → context.OwnersFrom post found) := by
  have hother : ∀ {site : CallSite}, site.node = call →
      context.ast.kind call ≠ .methodInvocation → context.OwnersFrom post site := by
    intro site hnode hkind hcall
    rw [hnode] at hcall
    exact absurd hcall hkind
  rw [callSite?]
  dsimp only
  split
  · rename_i hkind
    split
    · exact Keeps.pure (by simp)
    · refine (keeps_methodOwners_of_receiver (h hkind)).bind (fun owners howners => Keeps.pure ?_)
      intro found hfound _
      cases hfound
      exact howners
  · rename_i hkind
    refine Keeps.pure (fun found hfound => ?_)
    cases hfound
    exact hother rfl (by rw [hkind]; simp)
  · rename_i hkind
    refine Keeps.get.bind (fun _ _ => Keeps.pure (fun found hfound => ?_))
    cases hfound
    exact hother rfl (by rw [hkind]; simp)
  · exact Keeps.pure (by simp)

theorem GivesGood.receiver {expr receiver : Nat} (h : context.GivesGood good base expr)
    (hkind : context.ast.kind expr = .methodInvocation ∨ context.ast.kind expr = .fieldAccess)
    (hreceiver : context.ast.childInRole expr .receiver = some receiver) :
    context.GivesGood good base receiver :=
  fun place hrest => h place (.receiver hkind hreceiver hrest)

/-- One step of working out the type of an expression is right about a name, and keeps what is
known of names when the types below the expression are worked out so. -/
theorem steady_computeType
    (htypes : ∀ sub, context.GivesGood good base sub →
      Keeps (context.Steady good base) (typeOf sub) (fun _ => True))
    {expr : Nat} (h : context.GivesGood good base expr) :
    Keeps (context.Steady good base) (context.computeType typeOf expr)
      (fun type => context.ast.kind expr = .name → good expr type) := by
  have hother : ∀ {action : StateM CallTracker (Option ItemId)},
      context.ast.kind expr ≠ .name → Keeps (context.Steady good base) action (fun _ => True) →
      Keeps (context.Steady good base) action
        (fun type => context.ast.kind expr = .name → good expr type) := by
    intro action hkind haction state hstate
    exact ⟨(haction state hstate).1, fun hsame => absurd hsame hkind⟩
  rw [computeType]
  split
  · -- A name has the type it has in the state from which the work started.
    rename_i hkind
    refine Keeps.get.bind (fun tracker htracker => Keeps.pure (fun _ => ?_))
    rw [nameType_congr (by rw [htracker.inPlace.1]) htracker.inPlace.2]
    exact h expr (.self expr) hkind
  case h_11 hkind _ _ _ _ _ _ _ _ _ => exact hother hkind (Keeps.pure trivial)
  all_goals
    rename_i hkind
    refine hother (by rw [hkind]; simp) ?_
  · exact Keeps.pure trivial
  · exact Keeps.get.bind (fun _ _ => Keeps.pure trivial)
  · exact Keeps.get.bind (fun _ _ => Keeps.pure trivial)
  · rw [fieldAccessType]
    split
    · rename_i hreceiver
      split
      · exact Keeps.pure trivial
      · refine (htypes _ (h.receiver (Or.inr hkind) hreceiver)).bind (fun type _ => ?_)
        cases type <;> exact Keeps.pure trivial
    · exact Keeps.pure trivial
  · have hsite := @keeps_callSite?_of_receiver context typeOf _ _ expr
      (fun hcall receiver hreceiver => htypes receiver (h.receiver (Or.inl hcall) hreceiver))
    refine hsite.bind (fun site _ => ?_)
    cases site <;> exact Keeps.pure trivial
  · exact Keeps.pure trivial
  · exact Keeps.pure trivial
  · split
    · rename_i inner hinner
      exact htypes inner (fun place hrest => h place (.inner hkind hinner hrest))
    · exact Keeps.pure trivial
  · exact Keeps.pure trivial

/-- However deep one looks, what is known of names is kept; one step suffices for a name itself. -/
theorem steady_exprTypeWithin (steps : Nat) {expr : Nat} (h : context.GivesGood good base expr) :
    Keeps (context.Steady good base) (context.exprTypeWithin steps expr)
      (fun type => steps ≠ 0 → context.ast.kind expr = .name → good expr type) := by
  induction steps generalizing expr with
  | zero => exact Keeps.pure (fun hzero => absurd rfl hzero)
  | succ steps ih =>
    have htypes : ∀ sub, context.GivesGood good base sub →
        Keeps (context.Steady good base) (context.exprTypeWithin steps sub) (fun _ => True) :=
      fun sub hsub state hstate => ⟨(ih hsub state hstate).1, trivial⟩
    rw [exprTypeWithin]
    refine Keeps.get.bind (fun tracker htracker => ?_)
    split
    · rename_i type htype
      exact Keeps.pure (fun _ hkind => htracker.names hkind htype)
    · refine (steady_computeType htypes h).bind (fun type hgood => ?_)
      refine (Keeps.modify (fun later hlater => ?_)).bind
        (fun _ _ => Keeps.pure (fun _ => hgood))
      refine ⟨hlater.inPlace, hlater.calls, fun hkind hknown => ?_⟩
      rw [Std.TreeMap.getElem?_insert] at hknown
      split at hknown
      · rename_i hsame
        obtain rfl := Std.LawfulEqCmp.eq_of_compare hsame
        cases hknown
        exact hgood hkind
      · exact hlater.names hkind hknown

theorem steady_exprType {expr : Nat} (h : context.GivesGood good base expr) :
    Keeps (context.Steady good base) (context.exprType expr)
      (fun type => context.ast.kind expr = .name → good expr type) := by
  intro state hstate
  obtain ⟨hafter, hgood⟩ := steady_exprTypeWithin (context.ast.size + 1) h state hstate
  exact ⟨hafter, hgood (Nat.succ_ne_zero _)⟩

end Expressions

/-! ## Along the traversal -/

/-- A type that a name was given at a node that asked for it: the type of the name in the state in
which that node was reached, if the node does not bind the name itself. -/
def TypedAt (context : CallContext) (notes : List (Nat × CallTracker)) (place : Nat)
    (type : Option ItemId) : Prop :=
  ∃ note ∈ notes, context.ast.AsksFor note.1 place ∧
    (¬ context.ast.Binds note.1 (context.ast.text place) →
      type = context.nameType note.2 place (context.ast.text place))

/-- The types of names that are kept, and those of the names on which methods are called, were
given at nodes that have been reached. -/
structure NamesTyped (context : CallContext) (notes : List (Nat × CallTracker))
    (tracker : CallTracker) : Prop where
  recorded : ∀ {place : Nat} {type : Option ItemId}, context.ast.kind place = .name →
    tracker.exprTypes[place]? = some type → context.TypedAt notes place type
  called : ∀ site ∈ tracker.calls, context.OwnersFrom
    (fun receiver type => context.ast.kind receiver = .name →
      context.TypedAt notes receiver type) site

variable {notes earlier : List (Nat × CallTracker)} {tracker : CallTracker} {id : Nat}

theorem TypedAt.mono {place : Nat} {type : Option ItemId} (h : context.TypedAt earlier place type)
    (hsub : ∀ note ∈ earlier, note ∈ notes) : context.TypedAt notes place type := by
  obtain ⟨note, hnote, hrest⟩ := h
  exact ⟨note, hsub note hnote, hrest⟩

theorem OwnersFrom.imp {post final : Nat → Option ItemId → Prop} {site : CallSite}
    (h : context.OwnersFrom post site) (himp : ∀ receiver type, post receiver type →
      final receiver type) : context.OwnersFrom final site := by
  intro hkind receiver hreceiver
  obtain ⟨type, howners, hpost⟩ := h hkind receiver hreceiver
  exact ⟨type, howners, himp receiver type hpost⟩

theorem NamesTyped.mono (h : context.NamesTyped earlier tracker)
    (hsub : ∀ note ∈ earlier, note ∈ notes) : context.NamesTyped notes tracker where
  recorded hkind hknown := (h.recorded hkind hknown).mono hsub
  called site hsite := (h.called site hsite).imp
    (fun _ _ htyped hkind => (htyped hkind).mono hsub)

theorem NamesTyped.congr {later : CallTracker} (h : context.NamesTyped notes tracker)
    (htypes : later.exprTypes = tracker.exprTypes) (hcalls : later.calls = tracker.calls) :
    context.NamesTyped notes later where
  recorded hkind hknown := h.recorded hkind (htypes ▸ hknown)
  called site hsite := h.called site (hcalls ▸ hsite)

/-- Types that are worked out from a state on are given at the node that is entered there. -/
theorem NamesTyped.of_steady {base : CallTracker} (h : context.NamesTyped notes base)
    (hsteady : context.Steady (context.TypedAt notes) base tracker) :
    context.NamesTyped notes tracker where
  recorded hkind hknown := hsteady.names hkind hknown
  called site hsite := h.called site (hsteady.calls ▸ hsite)

theorem NamesTyped.steady (h : context.NamesTyped notes tracker) :
    context.Steady (context.TypedAt notes) tracker tracker :=
  ⟨⟨rfl, rfl⟩, rfl, fun hkind hknown => h.recorded hkind hknown⟩

/-! ### Calls -/

/-- At a call the receiver gets its type in the state in which the call is reached. -/
theorem NamesTyped.recordCall (h : context.NamesTyped notes tracker)
    (hnote : (id, tracker) ∈ notes) :
    context.NamesTyped notes ((do
      match ← context.callSite? context.exprType id with
      | some site => modify (fun tracker => { tracker with calls := site :: tracker.calls })
      | none => pure () : StateM CallTracker PUnit).run tracker).2 := by
  let holds : CallTracker → Prop := fun later =>
    InPlace tracker later ∧ context.NamesTyped notes later
  have hsite : Keeps holds (context.callSite? context.exprType id)
      (fun site => ∀ found, site = some found → context.OwnersFrom
        (fun receiver type => context.ast.kind receiver = .name →
          context.TypedAt notes receiver type) found) := by
    refine keeps_callSite?_of_receiver (fun hkind receiver hreceiver => ?_)
    rintro later ⟨⟨hscope, hclasses⟩, htyped⟩
    have hgood : context.GivesGood (context.TypedAt notes) later receiver := by
      intro place hrest _
      refine ⟨(id, tracker), hnote, ?_, fun _ => ?_⟩
      · rw [Ast.AsksFor, hkind]
        exact ⟨receiver, hreceiver, hrest⟩
      · exact nameType_congr (by rw [hscope]) hclasses place
    obtain ⟨hafter, htype⟩ := steady_exprType hgood later htyped.steady
    obtain ⟨hsame, hsameClasses⟩ := hafter.inPlace
    exact ⟨⟨⟨hsame.trans hscope, hsameClasses.trans hclasses⟩, htyped.of_steady hafter⟩, htype⟩
  have hrecord := keeps_recordCall hsite (fun site later hpost hlater =>
    ⟨hlater.1, hlater.2.recorded,
      List.forall_mem_cons.2 ⟨hpost site rfl, hlater.2.called⟩⟩)
  exact (hrecord tracker ⟨⟨rfl, rfl⟩, h⟩).1.2

/-! ### Local declarations -/

/-- A state amid the declarators of a declaration that was reached in another state: only variables
that the declaration binds may be new. -/
structure AmidLocals (context : CallContext) (notes : List (Nat × CallTracker)) (decl : Nat)
    (start tracker : CallTracker) : Prop where
  lookup : ∀ name, ¬ context.ast.Binds decl name →
    tracker.scope.lookup name = start.scope.lookup name
  classes : tracker.classes = start.classes
  typed : context.NamesTyped notes tracker

/-- A declarator may ask for the type of its initial value and binds its variable. -/
theorem AmidLocals.afterDeclarator {decl declarator : Nat} {start : CallTracker}
    (h : context.AmidLocals notes decl start tracker) (hnote : (decl, start) ∈ notes)
    (hkind : context.ast.kind decl = .localVariableDeclaration)
    (hdeclarator : declarator ∈ context.ast.childrenInRole decl .declarator) :
    context.AmidLocals notes decl start (context.afterDeclarator decl tracker declarator) := by
  have hgood : ∀ value, context.ast.childInRole declarator .value = some value →
      context.GivesGood (context.TypedAt notes) tracker value := by
    intro value hvalue place hrest _
    refine ⟨(decl, start), hnote, ?_, fun hbinds => ?_⟩
    · rw [Ast.AsksFor, hkind]
      exact ⟨declarator, hdeclarator, value, hvalue, hrest⟩
    · exact nameType_congr (h.lookup _ hbinds) h.classes place
  have hsteady : Keeps (context.Steady (context.TypedAt notes) tracker)
      (context.declaratorType decl declarator) (fun _ => True) := by
    rw [declaratorType]
    refine Keeps.ite ?_ (Keeps.pure trivial)
    cases hvalue : context.ast.childInRole declarator .value with
    | some value =>
      exact fun state hstate => ⟨(steady_exprType (hgood value hvalue) state hstate).1, trivial⟩
    | none => exact Keeps.pure trivial
  have hafter := (hsteady tracker h.typed.steady).1
  rw [CallContext.afterDeclarator]
  cases hname : context.ast.nameOf declarator with
  | none => exact h
  | some name =>
    refine ⟨fun other hother => ?_, ?_, ?_⟩
    · have hne : name ≠ other := by
        rintro rfl
        refine hother ?_
        rw [Ast.Binds, hkind]
        exact ⟨declarator, hdeclarator, hname⟩
      rw [← h.lookup other hother, ← hafter.inPlace.1]
      exact Scope.lookup_bind_of_ne _ _ hne
    · exact hafter.inPlace.2.trans h.classes
    · exact (h.typed.of_steady hafter).congr rfl rfl

theorem AmidLocals.foldl {decl : Nat} {start : CallTracker} {declarators : List Nat}
    (h : context.AmidLocals notes decl start tracker) (hnote : (decl, start) ∈ notes)
    (hkind : context.ast.kind decl = .localVariableDeclaration)
    (hdeclarators : ∀ declarator ∈ declarators,
      declarator ∈ context.ast.childrenInRole decl .declarator) :
    context.AmidLocals notes decl start
      (declarators.foldl (context.afterDeclarator decl) tracker) := by
  induction declarators generalizing tracker with
  | nil => exact h
  | cons declarator rest ih =>
    rw [List.forall_mem_cons] at hdeclarators
    exact ih (h.afterDeclarator hnote hkind hdeclarators.1) hdeclarators.2

/-! ### Entering and leaving nodes -/

theorem NamesTyped.openNode (h : context.NamesTyped notes tracker) (id : Nat) :
    context.NamesTyped notes (context.openNode id tracker) := by
  rw [CallContext.openNode]
  split
  · exact h.congr rfl rfl
  · split <;> exact h.congr rfl rfl

/-- Every type that a name gets when a node is entered is given at this node. -/
theorem NamesTyped.enter (h : context.NamesTyped earlier tracker) (id : Nat) :
    context.NamesTyped ((id, tracker) :: earlier) ((context.enterNode id).run tracker).2 := by
  have hnow : context.NamesTyped ((id, tracker) :: earlier) tracker :=
    h.mono (fun _ hnote => List.mem_cons_of_mem _ hnote)
  have hopen : ∀ {kind : Kind}, context.ast.kind id = kind → kind.isTypeDeclaration = false →
      kind.opensScope = false → context.openNode id tracker = tracker := by
    intro kind hkind hdecl hscope
    simp [CallContext.openNode, hkind, hdecl, hscope]
  rw [enterNode, run_modify_bind]
  cases hkind : context.ast.kind id with
  | formalParameter | enhancedFor =>
    simp only [bindDeclared]
    cases context.ast.nameOf id <;> exact (hnow.openNode id).congr rfl rfl
  | name =>
    dsimp only
    cases isLambdaParameter context.ast id <;> exact (hnow.openNode id).congr rfl rfl
  | localVariableDeclaration =>
    dsimp only
    rw [hopen hkind rfl rfl, run_bindLocals]
    have hstart : context.AmidLocals ((id, tracker) :: earlier) id tracker tracker :=
      ⟨fun _ _ => rfl, rfl, hnow⟩
    exact (hstart.foldl List.mem_cons_self hkind (fun _ hmem => hmem)).typed
  | methodInvocation | objectCreation | constructorInvocation =>
    dsimp only
    rw [hopen hkind rfl rfl]
    exact hnow.recordCall List.mem_cons_self
  | _ => exact hnow.openNode id

theorem NamesTyped.leave (h : context.NamesTyped notes tracker) (id : Nat) :
    context.NamesTyped notes (context.leaveNode id tracker) := by
  rw [leaveNode]
  split
  · exact h.congr rfl rfl
  · split <;> exact h.congr rfl rfl

theorem carries_namesTyped (context : CallContext) :
    context.ast.Carries context.visitor (fun _ => context.NamesTyped) where
  enter _ h := h.enter _
  leave h := h.leave _

theorem namesTyped_start (context : CallContext) : context.NamesTyped [] .start where
  recorded _ hknown := by simp [CallTracker.start] at hknown
  called _ hsite := by simp [CallTracker.start] at hsite

end CallContext

end CodeAtlas
