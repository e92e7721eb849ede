/-
# The calls of a unit in an index that lies in another

The traversal of a unit is made twice, against an index and against one that lies in it.  As long as
the answers that the first one gets have new names, the second one gets the new names, and so the two
keep the same variables, classes and calls.
-/
import CodeAtlas.Proofs.Resolve.Calls
import CodeAtlas.Proofs.Resolve.Lookups

namespace CodeAtlas

open Source

variable {rename? : ItemId → Option ItemId}

/-! ## States that go together -/

/-- The same variable, with the new name of its type. -/
structure Binding.Follows (rename? : ItemId → Option ItemId) (binding binding' : Binding) : Prop where
  name_eq : binding'.name = binding.name
  type : Sends? rename? binding.type binding'.type

/-- The same call, with the new names of the classes that may declare its target. -/
structure CallSite.Follows (rename? : ItemId → Option ItemId) (site site' : CallSite) : Prop where
  node_eq : site'.node = site.node
  name_eq : site'.name = site.name
  argCount_eq : site'.argCount = site.argCount
  owners : List.Forall₂ (Sends rename?) site.owners site'.owners

/-- The same variables, classes, calls and types, under their new names. -/
structure CallTracker.Follows (rename? : ItemId → Option ItemId) (tracker tracker' : CallTracker) :
    Prop where
  scope : List.Forall₂ (List.Forall₂ (Binding.Follows rename?)) tracker.scope.frames
    tracker'.scope.frames
  classes : List.Forall₂ (Sends? rename?) tracker.classes tracker'.classes
  calls : List.Forall₂ (CallSite.Follows rename?) tracker.calls tracker'.calls
  exprTypes : ∀ expr : Nat,
    Option.Rel (Sends? rename?) tracker.exprTypes[expr]? tracker'.exprTypes[expr]?

theorem forall₂_tail {α : Type} {together : α → α → Prop} {list list' : List α}
    (h : List.Forall₂ together list list') : List.Forall₂ together list.tail list'.tail := by
  cases h with
  | nil => exact .nil
  | cons _ hrest => exact hrest

theorem forall₂_toList {found found' : Option ItemId} (h : Sends? rename? found found') :
    List.Forall₂ (Sends rename?) found.toList found'.toList := by
  cases h with
  | none => exact .nil
  | some hsends => exact .cons hsends .nil

namespace CallTracker

variable {tracker tracker' : CallTracker}

theorem follows_start : start.Follows rename? start :=
  ⟨.nil, .nil, .nil, fun _ => by rw [start, Std.TreeMap.getElem?_emptyc]; exact .none⟩

theorem Follows.bind (h : tracker.Follows rename? tracker') (name : String)
    {type type' : Option ItemId} (htype : Sends? rename? type type') :
    (tracker.bind name type).Follows rename? (tracker'.bind name type') := by
  refine ⟨?_, h.classes, h.calls, h.exprTypes⟩
  have hscope := h.scope
  rw [CallTracker.bind, CallTracker.bind, Scope.bind, Scope.bind]
  dsimp only
  generalize tracker.scope.frames = frames at hscope
  generalize tracker'.scope.frames = frames' at hscope
  cases hscope with
  | nil => exact .cons (.cons ⟨rfl, htype⟩ .nil) .nil
  | cons hframe houter => exact .cons (.cons ⟨rfl, htype⟩ hframe) houter

theorem Follows.lookup (h : tracker.Follows rename? tracker') (name : String) :
    Option.Rel (Binding.Follows rename?) (tracker.scope.lookup name) (tracker'.scope.lookup name) := by
  have hfind : ∀ {bindings bindings' : List Binding},
      List.Forall₂ (Binding.Follows rename?) bindings bindings' →
      Option.Rel (Binding.Follows rename?) (bindings.find? (fun binding => binding.name == name))
        (bindings'.find? (fun binding => binding.name == name)) := by
    intro bindings bindings' hall
    induction hall with
    | nil => exact .none
    | cons hfirst _ ih =>
      rw [List.find?_cons, List.find?_cons, hfirst.name_eq]
      split
      · exact .some hfirst
      · exact ih
  exact hfind (List.rel_flatten h.scope)

theorem Follows.currentClass (h : tracker.Follows rename? tracker') :
    Sends? rename? tracker.currentClass tracker'.currentClass := by
  have hclasses := h.classes
  rw [CallTracker.currentClass, CallTracker.currentClass]
  generalize tracker.classes = classes at hclasses
  generalize tracker'.classes = classes' at hclasses
  cases hclasses with
  | nil => exact .none
  | cons hfirst _ => exact hfirst

theorem Follows.knownClasses (h : tracker.Follows rename? tracker') :
    List.Forall₂ (Sends rename?) tracker.knownClasses tracker'.knownClasses :=
  List.rel_filterMap (fun _ _ hid => hid) h.classes

end CallTracker

/-! ## What is found at an item -/

namespace Index.Embeds

variable {a b : Index}

/-- A link of an item with a new name. -/
theorem rel_link (h : a.Embeds rename? b) {link : Item → Option ItemId}
    (hlink : ∀ {item image : Item}, item.IsImage rename? image →
      Sends? rename? (link item) (link image))
    {found found' : Option ItemId} (hfound : Sends? rename? found found') :
    Sends? rename? ((found.bind a.get?).bind link) ((found'.bind b.get?).bind link) := by
  cases hfound with
  | none => exact .none
  | some hsends =>
    obtain ⟨item, image, hget, hget', himage⟩ := h.image hsends
    rw [Option.bind_some, Option.bind_some, hget, hget']
    exact hlink himage

end Index.Embeds

namespace CallContext

/-! ## Actions that go together -/

theorem run_bind {σ α β : Type} (action : StateM σ α) (next : α → StateM σ β) (state : σ) :
    (action >>= next).run state = (next (action.run state).1).run (action.run state).2 :=
  rfl

theorem run_pure {σ α : Type} (value : α) (state : σ) :
    (pure value : StateM σ α).run state = (value, state) :=
  rfl

theorem run_modify_bind {σ α : Type} (f : σ → σ) (next : PUnit → StateM σ α) (state : σ) :
    (modify f >>= next).run state = (next ⟨⟩).run (f state) :=
  rfl

theorem run_get_bind {σ α : Type} (next : σ → StateM σ α) (state : σ) :
    (get >>= next).run state = (next state).run state :=
  rfl

/-- Two traversals go together when entering and leaving a node do. -/
theorem runStack_relate {σ τ : Type} {visitor : Visitor σ} {visitor' : Visitor τ}
    (together : σ → τ → Prop)
    (henter : ∀ state state' id, together state state' →
      (visitor.enter state id).1 = (visitor'.enter state' id).1 ∧
        together (visitor.enter state id).2 (visitor'.enter state' id).2)
    (hleave : ∀ state state' id, together state state' →
      together (visitor.leave state id) (visitor'.leave state' id))
    (stack : List Visitor.Frame) (state : σ) (state' : τ) (h : together state state') :
    together (visitor.runStack stack state) (visitor'.runStack stack state') := by
  fun_induction visitor.runStack stack state generalizing state' with
  | case1 state =>
    rw [Visitor.runStack]
    exact h
  | case2 id rest state ih =>
    rw [Visitor.runStack]
    exact ih _ (hleave state state' id h)
  | case3 id info children rest state next hnext ih =>
    obtain ⟨hdescend, hafter⟩ := henter state state' id h
    generalize hout : visitor'.enter state' id = out at hdescend hafter
    obtain ⟨descend', next'⟩ := out
    rw [hnext] at hdescend hafter
    obtain rfl : true = descend' := hdescend
    rw [@Visitor.runStack.eq_3, hout]
    exact ih next' hafter
  | case4 id info children rest state descend next hnext hfalse ih =>
    obtain ⟨hdescend, hafter⟩ := henter state state' id h
    generalize hout : visitor'.enter state' id = out at hdescend hafter
    obtain ⟨descend', next'⟩ := out
    rw [hnext] at hdescend hafter
    obtain rfl : descend = descend' := hdescend
    rw [@Visitor.runStack.eq_3 _ visitor', hout]
    dsimp only
    rw [if_neg hfalse]
    exact ih next' hafter

/-- Keeping a log does not change the traversal. -/
theorem fst_walk_readsVisitor (context : CallContext) :
    (context.ast.walk context.readsVisitor (.start, [])).1 = context.ast.walk context.visitor .start :=
  runStack_relate (fun (state : CallTracker × List ItemId) tracker => state.1 = tracker)
    (fun state tracker id h => by subst h; exact ⟨rfl, rfl⟩)
    (fun state tracker id h => by subst h; rfl) _ _ _ rfl

/-- Two actions go together when they lead from states that go together to such states and to values
of which something is known, as long as the answers behind the first have new names. -/
def Parallel (rename? : ItemId → Option ItemId) {α : Type} (reads : CallTracker → List ItemId)
    (action action' : StateM CallTracker α) (post : α → α → Prop) : Prop :=
  ∀ {tracker tracker' : CallTracker}, tracker.Follows rename? tracker' →
    Kept rename? (reads tracker) →
    post (action.run tracker).1 (action'.run tracker').1 ∧
      (action.run tracker).2.Follows rename? (action'.run tracker').2

/-- Ways to find the types of expressions that go together. -/
def ParallelTypes (rename? : ItemId → Option ItemId) (readsOf : ReadsOf) (typeOf typeOf' : TypeOf) :
    Prop :=
  ∀ expr, Parallel rename? (readsOf expr) (typeOf expr) (typeOf' expr) (Sends? rename?)

namespace Embeds

variable {context context' : CallContext}

theorem rel_currentSuperclass (h : context.Embeds rename? context') {tracker tracker' : CallTracker}
    (ht : tracker.Follows rename? tracker') :
    Sends? rename? (tracker.currentSuperclass context.index)
      (tracker'.currentSuperclass context'.index) :=
  h.index.rel_link (fun himage => himage.superclass) ht.currentClass

theorem rel_literalType (h : context.Embeds rename? context') (kind : LiteralKind)
    (hkept : Kept rename? (literalType context.index kind).toList) :
    Sends? rename? (literalType context.index kind) (literalType context'.index kind) := by
  rw [kept_toList] at hkept
  refine Echoes.rel ?_ hkept
  cases kind with
  | string =>
    rw [literalType, literalType, h.index.findClasses_eq]
    exact Echoes.head?_filterMap _
  | null => exact Echoes.nothing
  | _ => exact .of_bind (h.index.findPrimitive_eq _)

theorem rel_nameType (h : context.Embeds rename? context') {tracker tracker' : CallTracker}
    (ht : tracker.Follows rename? tracker') {id : Nat} {name : String}
    (hkept : Kept rename? (context.simpleReads tracker id name)) :
    Sends? rename? (context.nameType tracker id name) (context'.nameType tracker' id name) := by
  have hlookup := ht.lookup name
  have hfield := Echoes.findSome?_forall₂ ht.knownClasses
    (fun _ _ howner => h.index.echoes_findField howner name)
  rw [simpleReads] at hkept
  rw [nameType, nameType]
  generalize tracker.scope.lookup name = binding at hlookup hkept
  generalize tracker'.scope.lookup name = binding' at hlookup
  cases hlookup with
  | some hbinding => exact hbinding.type
  | none =>
    dsimp only at hkept ⊢
    cases hfound : tracker.knownClasses.findSome?
        (fun owner => context.index.findField owner name) with
    | some field =>
      rw [hfound] at hkept
      have hrel := hfield.rel (by rw [hfound]; exact kept_toList.1 hkept)
      rw [hfound] at hrel
      generalize tracker'.knownClasses.findSome?
        (fun owner => context'.index.findField owner name) = field' at hrel
      cases hrel with
      | some hsends => exact h.index.rel_link (fun himage => himage.fieldType) (.some hsends)
    | none =>
      rw [hfound] at hkept
      rw [hfield.ofNone hfound]
      exact h.rel_lookupClassName hkept

/-! ### Calls -/

theorem forall₂_staticImportOwners (h : context.Embeds rename? context') {name : String}
    (hkept : Kept rename? (context.staticImportOwners name)) :
    List.Forall₂ (Sends rename?) (context.staticImportOwners name)
      (context'.staticImportOwners name) := by
  refine forall₂_sends_iff.2 ⟨hkept, ?_⟩
  rw [staticImportOwners, staticImportOwners, h.unit_eq, List.filterMap_flatMap]
  exact List.flatMap_congr (fun cls _ => h.index.findClasses_eq cls)

theorem parallel_methodOwners (h : context.Embeds rename? context') {readsOf : ReadsOf}
    {typeOf typeOf' : TypeOf} (htypes : ParallelTypes rename? readsOf typeOf typeOf') (call : Nat)
    (name : String) :
    Parallel rename?
      (fun tracker =>
        match context.ast.childInRole call .receiver with
        | some receiver => readsOf receiver tracker
        | none => context.staticImportOwners name)
      (context.methodOwners typeOf call name) (context'.methodOwners typeOf' call name)
      (List.Forall₂ (Sends rename?)) := by
  intro tracker tracker' ht hkept
  rw [methodOwners, methodOwners, h.ast_eq]
  cases hreceiver : context.ast.childInRole call .receiver with
  | some receiver =>
    rw [hreceiver] at hkept
    obtain ⟨htype, hafter⟩ := htypes receiver ht hkept
    exact ⟨forall₂_toList htype, hafter⟩
  | none =>
    rw [hreceiver] at hkept
    have himported := h.forall₂_staticImportOwners hkept
    refine ⟨?_, ht⟩
    change List.Forall₂ (Sends rename?)
      ((distinct (context.staticImportOwners name)).foldl insertNew tracker.knownClasses.toArray).toList
      ((distinct (context'.staticImportOwners name)).foldl insertNew
        tracker'.knownClasses.toArray).toList
    rw [← Array.foldl_toList, ← Array.foldl_toList]
    exact forall₂_foldl_insertNew h.index.injective
      (forall₂_foldl_insertNew h.index.injective himported .nil) ht.knownClasses

theorem parallel_callSite? (h : context.Embeds rename? context') {readsOf : ReadsOf}
    {typeOf typeOf' : TypeOf} (htypes : ParallelTypes rename? readsOf typeOf typeOf') (call : Nat) :
    Parallel rename? (context.callReads readsOf call) (context.callSite? typeOf call)
      (context'.callSite? typeOf' call) (Option.Rel (CallSite.Follows rename?)) := by
  intro tracker tracker' ht hkept
  rw [callReads] at hkept
  rw [callSite?, callSite?, h.ast_eq]
  dsimp only
  split
  · rename_i hkind
    rw [hkind] at hkept
    dsimp only at hkept
    cases hname : context.ast.nameOf call with
    | none => exact ⟨.none, ht⟩
    | some name =>
      rw [hname] at hkept
      obtain ⟨howners, hafter⟩ := h.parallel_methodOwners htypes call name ht (by
        cases hreceiver : context.ast.childInRole call .receiver <;>
          rwa [hreceiver] at hkept)
      exact ⟨.some ⟨rfl, rfl, rfl, howners⟩, hafter⟩
  · rename_i hkind
    rw [hkind] at hkept
    exact ⟨.some ⟨rfl, rfl, rfl, forall₂_toList (h.rel_declared hkept)⟩, ht⟩
  · refine ⟨.some ⟨rfl, rfl, rfl, forall₂_toList ?_⟩, ht⟩
    split
    · exact ht.currentClass
    · exact h.rel_currentSuperclass ht
  · exact ⟨.none, ht⟩

/-! ### Expressions -/

theorem parallel_fieldAccessType (h : context.Embeds rename? context') {readsOf : ReadsOf}
    {typeOf typeOf' : TypeOf} (htypes : ParallelTypes rename? readsOf typeOf typeOf') (expr : Nat) :
    Parallel rename? (context.fieldAccessReads typeOf readsOf expr)
      (context.fieldAccessType typeOf expr) (context'.fieldAccessType typeOf' expr)
      (Sends? rename?) := by
  intro tracker tracker' ht hkept
  rw [fieldAccessReads] at hkept
  rw [fieldAccessType, fieldAccessType, h.ast_eq]
  dsimp only at hkept ⊢
  split
  · rename_i field receiver hfield hreceiver
    rw [hfield, hreceiver] at hkept
    dsimp only at hkept
    split
    · rename_i hthis
      rw [if_pos hthis] at hkept
      exact ⟨h.rel_lookupClassName hkept, ht⟩
    · rename_i hthis
      rw [if_neg hthis] at hkept
      have hbelow : Kept rename? (readsOf receiver tracker) := by
        split at hkept <;> exact (kept_append.1 hkept).1
      obtain ⟨htype, hafter⟩ := htypes receiver ht hbelow
      rw [run_bind, run_bind]
      generalize (typeOf receiver).run tracker = out at hkept htype hafter
      generalize (typeOf' receiver).run tracker' = out' at htype hafter
      obtain ⟨owner, after⟩ := out
      obtain ⟨owner', after'⟩ := out'
      cases htype with
      | none =>
        dsimp only [run_pure] at hkept ⊢
        exact ⟨h.rel_lookupClassName (kept_append.1 hkept).2, hafter⟩
      | some howner =>
        refine ⟨h.index.rel_link (fun himage => himage.fieldType) ?_, hafter⟩
        exact (h.index.echoes_findField howner _).rel (kept_toList.1 (kept_append.1 hkept).2)
  · exact ⟨.none, ht⟩

theorem parallel_computeType (h : context.Embeds rename? context') {readsOf : ReadsOf}
    {typeOf typeOf' : TypeOf} (htypes : ParallelTypes rename? readsOf typeOf typeOf') :
    ParallelTypes rename? (context.computeReads typeOf readsOf) (context.computeType typeOf)
      (context'.computeType typeOf') := by
  intro expr tracker tracker' ht hkept
  rw [computeReads] at hkept
  rw [computeType, computeType, h.ast_eq]
  dsimp only at hkept ⊢
  split
  case h_11 => exact ⟨.none, ht⟩
  all_goals
    rename_i hkind
    rw [hkind] at hkept
  case h_1 => exact ⟨h.rel_nameType ht hkept, ht⟩
  case h_2 => exact ⟨h.rel_lookupClassName hkept, ht⟩
  case h_3 => exact ⟨ht.currentClass, ht⟩
  case h_4 => exact ⟨h.rel_currentSuperclass ht, ht⟩
  case h_5 => exact h.parallel_fieldAccessType htypes expr ht hkept
  case h_6 =>
    obtain ⟨hreads, hmethod⟩ := kept_append.1 hkept
    obtain ⟨hsite, hafter⟩ := h.parallel_callSite? htypes expr ht hreads
    rw [run_bind, run_bind]
    generalize (context.callSite? typeOf expr).run tracker = out at hmethod hsite hafter
    generalize (context'.callSite? typeOf' expr).run tracker' = out' at hsite hafter
    obtain ⟨site, after⟩ := out
    obtain ⟨site', after'⟩ := out'
    cases hsite with
    | none => exact ⟨.none, hafter⟩
    | some hsite =>
      refine ⟨h.index.rel_link (fun himage => himage.returnType) ?_, hafter⟩
      exact (h.index.echoes_resolveCall hsite.owners hsite.name_eq hsite.argCount_eq).rel
        (kept_toList.1 hmethod)
  case h_7 => exact ⟨h.rel_declared hkept, ht⟩
  case h_8 => exact ⟨h.rel_declared hkept, ht⟩
  case h_9 =>
    cases hinner : (context.ast.children expr).head? with
    | none => exact ⟨.none, ht⟩
    | some inner =>
      rw [hinner] at hkept
      exact htypes inner ht hkept
  case h_10 => exact ⟨h.rel_literalType _ hkept, ht⟩

/-- The types of expressions are the same, however deep one looks. -/
theorem parallel_exprTypeWithin (h : context.Embeds rename? context') (steps : Nat) :
    ParallelTypes rename? (context.exprReadsWithin steps) (context.exprTypeWithin steps)
      (context'.exprTypeWithin steps) := by
  induction steps with
  | zero => exact fun _ _ _ ht _ => ⟨.none, ht⟩
  | succ steps ih =>
    intro expr tracker tracker' ht hkept
    have hknown := ht.exprTypes expr
    rw [exprReadsWithin] at hkept
    rw [exprTypeWithin, exprTypeWithin, run_get_bind, run_get_bind]
    generalize tracker.exprTypes[expr]? = known at hknown hkept
    generalize tracker'.exprTypes[expr]? = known' at hknown
    cases hknown with
    | some htype => exact ⟨htype, ht⟩
    | none =>
      obtain ⟨htype, hafter⟩ := h.parallel_computeType ih expr ht hkept
      refine ⟨htype, hafter.scope, hafter.classes, hafter.calls, fun other => ?_⟩
      change Option.Rel (Sends? rename?) (Std.TreeMap.insert _ expr _)[other]?
        (Std.TreeMap.insert _ expr _)[other]?
      rw [Std.TreeMap.getElem?_insert, Std.TreeMap.getElem?_insert]
      split
      · exact .some htype
      · exact hafter.exprTypes other

theorem parallel_exprType (h : context.Embeds rename? context') :
    ParallelTypes rename? context.exprReads context.exprType context'.exprType := by
  intro expr
  rw [exprReads, exprType, exprType, h.ast_eq]
  exact h.parallel_exprTypeWithin _ expr

/-! ### Variables -/

theorem parallel_bindLocal (h : context.Embeds rename? context') (decl declarator : Nat) :
    Parallel rename? (context.localReads decl declarator) (context.bindLocal decl declarator)
      (context'.bindLocal decl declarator) (fun _ _ => True) := by
  intro tracker tracker' ht hkept
  rw [localReads] at hkept
  rw [bindLocal, bindLocal, h.ast_eq]
  cases context.ast.nameOf declarator with
  | none => exact ⟨trivial, ht⟩
  | some name =>
    dsimp only
    split
    · rename_i hinferred
      rw [if_pos hinferred] at hkept
      cases hvalue : context.ast.childInRole declarator .value with
      | none => exact ⟨trivial, ht.bind name .none⟩
      | some value =>
        rw [hvalue] at hkept
        obtain ⟨htype, hafter⟩ := h.parallel_exprType value ht hkept
        exact ⟨trivial, hafter.bind name htype⟩
    · rename_i hinferred
      rw [if_neg hinferred] at hkept
      exact ⟨trivial, ht.bind name (h.rel_declared hkept)⟩

theorem parallel_forM_bindLocal (h : context.Embeds rename? context') (decl : Nat)
    (declarators : List Nat) :
    Parallel rename? (context.localsReads decl declarators)
      (declarators.forM (context.bindLocal decl)) (declarators.forM (context'.bindLocal decl))
      (fun _ _ => True) := by
  induction declarators with
  | nil => exact fun ht _ => ⟨trivial, ht⟩
  | cons declarator rest ih =>
    intro tracker tracker' ht hkept
    obtain ⟨hfirst, hrest⟩ := kept_append.1 hkept
    obtain ⟨_, hafter⟩ := h.parallel_bindLocal decl declarator ht hfirst
    exact ih hafter hrest

theorem parallel_bindLocals (h : context.Embeds rename? context') (decl : Nat) :
    Parallel rename? (context.localsReads decl (context.ast.childrenInRole decl .declarator))
      (context.bindLocals decl) (context'.bindLocals decl) (fun _ _ => True) := by
  rw [bindLocals_eq_forM, bindLocals_eq_forM, h.ast_eq]
  exact h.parallel_forM_bindLocal decl _

theorem parallel_bindDeclared (h : context.Embeds rename? context') (decl : Nat) :
    Parallel rename? (fun _ => context.declaredReads decl) (context.bindDeclared decl)
      (context'.bindDeclared decl) (fun _ _ => True) := by
  intro tracker tracker' ht hkept
  rw [bindDeclared, bindDeclared, h.ast_eq]
  cases context.ast.nameOf decl with
  | none => exact ⟨trivial, ht⟩
  | some name => exact ⟨trivial, ht.bind name (h.rel_declared hkept)⟩

/-! ### Entering and leaving nodes -/

theorem follows_openNode (h : context.Embeds rename? context') (id : Nat)
    {tracker tracker' : CallTracker} (ht : tracker.Follows rename? tracker') :
    (context.openNode id tracker).Follows rename? (context'.openNode id tracker') := by
  rw [openNode, openNode, h.ast_eq]
  split
  · rename_i hdecl
    exact ⟨.cons .nil ht.scope, .cons (h.rel_classOfDecl hdecl) ht.classes, ht.calls, ht.exprTypes⟩
  · split
    · exact ⟨.cons .nil ht.scope, ht.classes, ht.calls, ht.exprTypes⟩
    · exact ht

theorem follows_leaveNode (h : context.Embeds rename? context') (id : Nat)
    {tracker tracker' : CallTracker} (ht : tracker.Follows rename? tracker') :
    (context.leaveNode id tracker).Follows rename? (context'.leaveNode id tracker') := by
  rw [leaveNode, leaveNode, h.ast_eq]
  split
  · exact ⟨forall₂_tail ht.scope, forall₂_tail ht.classes, ht.calls, ht.exprTypes⟩
  · split
    · exact ⟨forall₂_tail ht.scope, ht.classes, ht.calls, ht.exprTypes⟩
    · exact ht

/-- A call is recorded in both traversals. -/
theorem parallel_record (h : context.Embeds rename? context') (id : Nat) :
    Parallel rename? (context.callReads context.exprReads id)
      (context.callSite? context.exprType id >>= fun site =>
        match site with
        | some site => modify (fun tracker => { tracker with calls := site :: tracker.calls })
        | none => pure ())
      (context'.callSite? context'.exprType id >>= fun site =>
        match site with
        | some site => modify (fun tracker => { tracker with calls := site :: tracker.calls })
        | none => pure ())
      (fun _ _ => True) := by
  intro tracker tracker' ht hkept
  obtain ⟨hsite, hafter⟩ := h.parallel_callSite? h.parallel_exprType id ht hkept
  rw [run_bind, run_bind]
  generalize (context.callSite? context.exprType id).run tracker = out at hsite hafter
  generalize (context'.callSite? context'.exprType id).run tracker' = out' at hsite hafter
  obtain ⟨site, after⟩ := out
  obtain ⟨site', after'⟩ := out'
  cases hsite with
  | none => exact ⟨trivial, hafter⟩
  | some hsite =>
    exact ⟨trivial, hafter.scope, hafter.classes, .cons hsite hafter.calls, hafter.exprTypes⟩

theorem follows_enterNode (h : context.Embeds rename? context') (id : Nat)
    {tracker tracker' : CallTracker} (ht : tracker.Follows rename? tracker')
    (hkept : Kept rename? (context.enterReads id tracker)) :
    ((context.enterNode id).run tracker).2.Follows rename? ((context'.enterNode id).run tracker').2 := by
  have hopen := h.follows_openNode id ht
  rw [enterReads] at hkept
  rw [enterNode, enterNode, h.ast_eq, run_modify_bind, run_modify_bind]
  split
  case h_8 => exact hopen
  all_goals
    rename_i hkind
    rw [hkind] at hkept
  case h_1 => exact (h.parallel_bindDeclared id hopen hkept).2
  case h_2 => exact (h.parallel_bindDeclared id hopen hkept).2
  case h_3 =>
    split
    · exact hopen.bind _ .none
    · exact hopen
  case h_4 => exact (h.parallel_bindLocals id hopen hkept).2
  all_goals exact (h.parallel_record id hopen hkept).2

/-! ### The traversal -/

theorem follows_walk (h : context.Embeds rename? context')
    (hkept : Kept rename? (context.ast.walk context.readsVisitor (.start, [])).2) :
    (context.ast.walk context.readsVisitor (.start, [])).1.Follows rename?
      (context'.ast.walk context'.visitor .start) := by
  -- the log only grows, so it is kept at a step when it is kept in the end
  have hrelated := @runStack_relate _ _ context.readsVisitor context'.visitor
    (fun (state : CallTracker × List ItemId) (tracker' : CallTracker) =>
      Kept rename? state.2 → state.1.Follows rename? tracker')
    (fun state tracker' id hstate => ⟨rfl, fun hlog => ?_⟩)
    (fun state tracker' id hstate hlog => h.follows_leaveNode id (hstate hlog))
    [.enter context.ast.tree] (.start, []) .start (fun _ => CallTracker.follows_start)
  · rw [h.ast_eq]
    exact hrelated hkept
  · obtain ⟨hbefore, hreads⟩ := kept_append.1 hlog
    exact h.follows_enterNode id (hstate hbefore) hreads

/-- The calls of a unit are the same when the answers behind them have new names. -/
theorem forall₂_calls (h : context.Embeds rename? context') (hkept : Kept rename? context.callsReads) :
    List.Forall₂ (CallSite.Follows rename?) context.calls context'.calls := by
  rw [calls, calls, ← fst_walk_readsVisitor]
  exact List.rel_reverse (h.follows_walk (kept_append.1 hkept).1).calls

end Embeds

end CallContext

end CodeAtlas
