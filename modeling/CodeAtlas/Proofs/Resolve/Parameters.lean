/-
# Parameters in scope

A parameter of a method, a constructor, a lambda or a catch clause hides what lies outside under its
name, for the names in the body that nothing in between redeclares.  It is bound when its name is a
child of its own.  The name of a parameter that takes any number of arguments stands in a declarator
of its own below it; such a parameter binds nothing, so in the body its name is looked up as in
front of it.
-/
import CodeAtlas.Proofs.Resolve.NameTypes

namespace CodeAtlas

open Source

namespace Source.Ast

/-! ## Parameters and bodies -/

/-- The declarations that have parameters and a body in which they are in scope. -/
def takesParameters : Kind → Bool
  | .methodDeclaration | .constructorDeclaration | .lambda | .catchClause => true
  | _ => false

/-- Whether a node is a parameter of another: typed, or an untyped one of a lambda. -/
structure IsParameterOf (ast : Ast) (param owner : Nat) : Prop where
  parent : ast.parent param = some owner
  owner : takesParameters (ast.kind owner) = true
  kind : ast.kind param = .formalParameter ∨
    ast.kind param = .name ∧ CallContext.isLambdaParameter ast param = true

/-- The name of a parameter.  An untyped parameter is its name; a typed one has its name as a child,
or in a declarator when it takes any number of arguments. -/
def parameterName (ast : Ast) (param : Nat) : Option String :=
  if ast.kind param = .name then some (ast.text param)
  else (ast.nameOf param).or ((ast.childInRole param .declarator).bind ast.nameOf)

/-- Whether the name of a parameter stands in a declarator of its own. -/
def IsNamedByDeclarator (ast : Ast) (param : Nat) : Prop :=
  ast.kind param ≠ .name ∧ ast.nameOf param = none

/-- Whether a node is the body of another. -/
structure IsBodyOf (ast : Ast) (body owner : Nat) : Prop where
  parent : ast.parent body = some owner
  role : ast.role body = .body

variable {ast : Ast} {param owner body place : Nat} {name : String}

/-- A parameter binds its name exactly when this does not stand in a declarator. -/
theorem IsParameterOf.binds_iff (h : ast.IsParameterOf param owner)
    (hname : ast.parameterName param = some name) :
    ast.Binds param name ↔ ¬ ast.IsNamedByDeclarator param := by
  rw [parameterName] at hname
  rw [Binds, IsNamedByDeclarator]
  rcases h.kind with hkind | ⟨hkind, hlambda⟩
  · rw [if_neg (by rw [hkind]; simp)] at hname
    rw [hkind]
    cases hown : ast.nameOf param with
    | some own =>
      rw [hown, Option.some_or] at hname
      simpa using hname
    | none => simp
  · rw [if_pos hkind] at hname
    rw [hkind]
    simpa [hlambda] using Option.some.inj hname

theorem IsParameterOf.not_opensScope (h : ast.IsParameterOf param owner) :
    ast.opensScope param = false := by
  rcases h.kind with hkind | ⟨hkind, _⟩ <;> rw [opensScope, hkind] <;> rfl

/-! ## What lies between a node and its surroundings -/

theorem IsOrdered.le_of_mem_withAncestors (h : ast.IsOrdered) {id outer : Nat}
    (houter : outer ∈ ast.withAncestors id) : outer ≤ id := by
  rcases List.mem_cons.1 houter with rfl | houter
  · exact Nat.le_refl _
  · exact Nat.le_of_lt (h.lt_of_mem_ancestors houter)

theorem IsOrdered.mem_ancestors_of_child (h : ast.IsOrdered) {id child : Nat}
    (hparent : ast.parent child = some id) (hchild : child ∈ ast.withAncestors place) :
    id ∈ ast.ancestors place := by
  have hmem : id ∈ ast.ancestors child := by
    rw [h.ancestors_of_parent hparent]
    exact List.mem_cons_self
  rcases List.mem_cons.1 hchild with rfl | hchild
  · exact hmem
  · exact h.mem_ancestors_trans hchild hmem

/-- What is around a child of a node is the child or around the node. -/
theorem IsOrdered.mem_withAncestors_of_child (h : ast.IsOrdered) {id child outer : Nat}
    (hparent : ast.parent child = some id) (houter : outer ∈ ast.withAncestors child)
    (hne : outer ≠ child) : outer ∈ ast.withAncestors id := by
  rw [withAncestors, h.ancestors_of_parent hparent] at houter
  exact (List.mem_cons.1 houter).resolve_left hne

/-- A binding made before a node was reached is in scope there exactly if it is at the nodes below
it. -/
theorem IsOrdered.inScope_iff_of_lt (h : ast.IsOrdered) {id middle : Nat}
    (hmiddle : middle ∈ ast.withAncestors place) (hlt : id < middle) :
    ast.InScope id middle ↔ ast.InScope id place := by
  rcases List.mem_cons.1 hmiddle with rfl | hmiddle
  · exact Iff.rfl
  constructor
  · intro hin opener hopener
    exact h.mem_ancestors_trans hmiddle (hin opener hopener)
  · intro hin opener hopener
    exact h.mem_ancestors_of_lt hmiddle (hin opener hopener)
      (Nat.lt_of_le_of_lt (h.le_of_scopeOf hopener) hlt)

/-- What is in scope at a parameter is in scope at the body behind it. -/
theorem IsOrdered.inScope_body_iff (h : ast.IsOrdered) {id : Nat}
    (hparam : ast.IsParameterOf param owner) (hbody : ast.IsBodyOf body owner) :
    ast.InScope id body ↔ ast.InScope id param := by
  rw [InScope, InScope, h.ancestors_of_parent hbody.parent, h.ancestors_of_parent hparam.parent]

/-- A parameter is in scope at the body. -/
theorem IsOrdered.inScope_parameter (h : ast.IsOrdered) (hparam : ast.IsParameterOf param owner)
    (hbody : ast.IsBodyOf body owner) : ast.InScope param body := by
  rw [h.inScope_body_iff hparam hbody]
  intro opener hopener
  have hopens : ast.opensScope opener = true := List.find?_some hopener
  rcases List.mem_cons.1 (List.mem_of_find?_eq_some hopener) with rfl | houter
  · rw [hparam.not_opensScope] at hopens
    exact absurd hopens (by simp)
  · exact houter

/-! ## Who asks for a name in a body -/

/-- A child of a node without parameters is not the body of a node that has them. -/
theorem IsBodyOf.ne_of_parent (h : ast.IsBodyOf body owner)
    (howner : takesParameters (ast.kind owner) = true) {id child : Nat}
    (hparent : ast.parent child = some id) (hkind : takesParameters (ast.kind id) = false) :
    body ≠ child := by
  rintro rfl
  have hsame := hparent.symm.trans h.parent
  rw [Option.some.inj hsame, howner] at hkind
  exact absurd hkind (by simp)

/-- What rests on a name in a body stands in that body itself, around the name. -/
theorem IsNumbered.restsOn_body (h : ast.IsNumbered) (hbody : ast.IsBodyOf body owner)
    (howner : takesParameters (ast.kind owner) = true) {expr : Nat}
    (hrest : ast.RestsOn expr place) (hin : body ∈ ast.withAncestors place) :
    expr ∈ ast.withAncestors place ∧ body ∈ ast.withAncestors expr := by
  have hup : ∀ {id child : Nat}, child ∈ ast.children id →
      takesParameters (ast.kind id) = false → child ∈ ast.withAncestors place →
      body ∈ ast.withAncestors child →
      id ∈ ast.withAncestors place ∧ body ∈ ast.withAncestors id := by
    intro id child hchild hkind hplace hbelow
    have hparent := h.parent_of_mem_children hchild
    exact ⟨List.mem_cons_of_mem _ (h.isOrdered.mem_ancestors_of_child hparent hplace),
      h.isOrdered.mem_withAncestors_of_child hparent hbelow
        (hbody.ne_of_parent howner hparent hkind)⟩
  induction hrest with
  | self expr => exact ⟨List.mem_cons_self, hin⟩
  | receiver hkind hreceiver _ ih =>
    obtain ⟨hplace, hbelow⟩ := ih hin hup
    refine hup (mem_children_of_childInRole hreceiver).1 ?_ hplace hbelow
    rcases hkind with hkind | hkind <;> rw [hkind] <;> rfl
  | inner hkind hinner _ ih =>
    obtain ⟨hplace, hbelow⟩ := ih hin hup
    refine hup (List.mem_of_mem_head? hinner) ?_ hplace hbelow
    rw [hkind]
    rfl

/-- Who asks for the type of a name in a body stands in that body itself, around the name. -/
theorem IsNumbered.asksFor_body (h : ast.IsNumbered) (hbody : ast.IsBodyOf body owner)
    (howner : takesParameters (ast.kind owner) = true) {asker : Nat}
    (hasks : ast.AsksFor asker place) (hin : body ∈ ast.withAncestors place) :
    asker ∈ ast.ancestors place ∧ body ∈ ast.withAncestors asker := by
  unfold AsksFor at hasks
  split at hasks
  · rename_i hkind
    obtain ⟨receiver, hreceiver, hrest⟩ := hasks
    have hparent := h.parent_of_mem_children (mem_children_of_childInRole hreceiver).1
    obtain ⟨hplace, hbelow⟩ := h.restsOn_body hbody howner hrest hin
    have hne := hbody.ne_of_parent howner hparent (by rw [hkind]; rfl)
    exact ⟨h.isOrdered.mem_ancestors_of_child hparent hplace,
      h.isOrdered.mem_withAncestors_of_child hparent hbelow hne⟩
  · rename_i hkind
    obtain ⟨declarator, hdeclarator, value, hvalue, hrest⟩ := hasks
    have hparent := h.parent_of_mem_children (mem_childrenInRole_iff.1 hdeclarator).1
    have hvalueParent := h.parent_of_mem_children (mem_children_of_childInRole hvalue).1
    obtain ⟨hplace, hbelow⟩ := h.restsOn_body hbody howner hrest hin
    have habove := h.isOrdered.mem_ancestors_of_child hvalueParent hplace
    -- An initial value is no body, whatever the declarator is.
    have hvalueNe : body ≠ value := by
      rintro rfl
      have hrole := (mem_children_of_childInRole hvalue).2
      rw [hbody.role] at hrole
      exact absurd hrole (by simp)
    have hdeclaratorBelow :=
      h.isOrdered.mem_withAncestors_of_child hvalueParent hbelow hvalueNe
    have hne := hbody.ne_of_parent howner hparent (by rw [hkind]; rfl)
    exact ⟨h.isOrdered.mem_ancestors_of_child hparent (List.mem_cons_of_mem _ habove),
      h.isOrdered.mem_withAncestors_of_child hparent hdeclaratorBelow hne⟩
  · exact hasks.elim

/-- What a node that asks for the type of a name binds is in scope where the node is. -/
theorem AsksFor.inScope {asker : Nat} (h : ast.AsksFor asker place) :
    ast.InScope asker asker := by
  intro opener hopener
  have hopens : ast.opensScope opener = true := List.find?_some hopener
  rcases List.mem_cons.1 (List.mem_of_find?_eq_some hopener) with rfl | houter
  · unfold AsksFor at h
    unfold opensScope at hopens
    split at h
    · rename_i hkind
      rw [hkind] at hopens
      exact absurd hopens (by decide)
    · rename_i hkind
      rw [hkind] at hopens
      exact absurd hopens (by decide)
    · exact h.elim
  · exact houter

end Source.Ast

namespace CallContext

variable {context : CallContext} {param owner body place : Nat} {name : String}

/-! ## The variable of a parameter -/

/-- The type with which a parameter is bound: the declared one, and none for an untyped one. -/
def parameterType (context : CallContext) (param : Nat) : Option ItemId :=
  if context.ast.kind param = .name then none else context.declared param

/-- A parameter is bound with its type, in every state. -/
theorem bindingOf_parameter (hparam : context.ast.IsParameterOf param owner)
    (hname : context.ast.parameterName param = some name)
    (hown : ¬ context.ast.IsNamedByDeclarator param) (tracker : CallTracker) :
    context.bindingOf param tracker name = some ⟨name, context.parameterType param⟩ := by
  have hbinds := (hparam.binds_iff hname).2 hown
  rw [bindingOf, made, parameterType]
  rw [Ast.Binds] at hbinds
  rcases hparam.kind with hkind | ⟨hkind, hlambda⟩
  · rw [hkind] at hbinds ⊢
    dsimp only at hbinds ⊢
    rw [hbinds, if_neg (by simp)]
    simp
  · rw [hkind] at hbinds ⊢
    dsimp only at hbinds ⊢
    rw [if_pos hlambda, if_pos rfl, hbinds.2]
    simp

theorem binds_of_bindingOf {id : Nat} {tracker : CallTracker} {binding : Binding}
    (h : context.bindingOf id tracker name = some binding) : context.ast.Binds id name := by
  by_contra hnot
  rw [(bindingOf_eq_none_iff id tracker name).2 hnot] at h
  simp at h

/-- In a body a variable is found as right behind a parameter, as long as nothing between the
parameter and the place redeclares it. -/
theorem lookup_in_body (h : context.ast.IsNumbered)
    (hparam : context.ast.IsParameterOf param owner) (hbody : context.ast.IsBodyOf body owner)
    (hbehind : param < body) {asker : Nat} {before tracker : CallTracker}
    (hin : body ∈ context.ast.withAncestors asker)
    (hbefore : (param, before) ∈ context.ast.noted context.visitor .start)
    (hreached : (asker, tracker) ∈ context.ast.noted context.visitor .start)
    (hkept : ∀ other, param < other → other < asker → context.ast.InScope other asker →
      ¬ context.ast.Binds other name) :
    tracker.scope.lookup name =
      (context.bindingOf param before name).or (before.scope.lookup name) := by
  have hordered := h.isOrdered
  obtain ⟨hnotes, -⟩ := h.notesHold_noted (fun _ _ => rfl) (carries_framed hordered)
    (framed_start context)
  obtain ⟨earlier, hids, hframed, hiff⟩ := hnotes.exists_earlier hreached
  obtain ⟨first, hfirstIds, hfirst, hfirstIff⟩ := hnotes.exists_earlier hbefore
  have hlt : param < asker :=
    Nat.lt_of_lt_of_le hbehind (hordered.le_of_mem_withAncestors hin)
  have hscope : ∀ {id : Nat}, id < body →
      (context.ast.InScope id asker ↔ context.ast.InScope id param) := by
    intro id hid
    rw [← hordered.inScope_iff_of_lt hin hid, hordered.inScope_body_iff hparam hbody]
  cases hbinding : context.bindingOf param before name with
  | some binding =>
    rw [Option.some_or, hframed.lookup_eq_some_iff hids]
    refine ⟨(param, before), (hiff _).2 ⟨hbefore, hlt⟩, ?_, hbinding, hkept⟩
    rw [← hordered.inScope_iff_of_lt hin hbehind]
    exact hordered.inScope_parameter hparam hbody
  | none =>
    -- The same bindings are the last ones, seen from the parameter and from the place.
    have hparamBinds := (bindingOf_eq_none_iff param before name).1 hbinding
    have hfront : ∀ other, other < asker → context.ast.InScope other asker →
        context.ast.Binds other name → other < param := by
      intro other hother hotherScope hbinds
      rcases Nat.lt_trichotomy other param with hless | rfl | hmore
      · exact hless
      · exact absurd hbinds hparamBinds
      · exact absurd hbinds (hkept other hmore hother hotherScope)
    rw [Option.none_or]
    refine Option.ext (fun binding => ?_)
    rw [hframed.lookup_eq_some_iff hids, hfirst.lookup_eq_some_iff hfirstIds]
    constructor
    · rintro ⟨note, hnote, hinScope, hbound, hlast⟩
      obtain ⟨hnoted, hnoteLt⟩ := (hiff note).1 hnote
      have hbeforeParam := hfront note.1 hnoteLt hinScope (binds_of_bindingOf hbound)
      refine ⟨note, (hfirstIff note).2 ⟨hnoted, hbeforeParam⟩,
        (hscope (Nat.lt_trans hbeforeParam hbehind)).1 hinScope, hbound, ?_⟩
      intro other hless hother hotherScope
      exact hlast other hless (Nat.lt_trans hother hlt)
        ((hscope (Nat.lt_trans hother hbehind)).2 hotherScope)
    · rintro ⟨note, hnote, hinScope, hbound, hlast⟩
      obtain ⟨hnoted, hbeforeParam⟩ := (hfirstIff note).1 hnote
      refine ⟨note, (hiff note).2 ⟨hnoted, Nat.lt_trans hbeforeParam hlt⟩,
        (hscope (Nat.lt_trans hbeforeParam hbehind)).2 hinScope, hbound, ?_⟩
      intro other hless hother hotherScope hbinds
      have hbeforeOther := hfront other hother hotherScope hbinds
      exact hlast other hless hbeforeOther
        ((hscope (Nat.lt_trans hbeforeOther hbehind)).1 hotherScope) hbinds

/-! ## The answers that a traversal gives -/

/-- A type that the traversal gives a name: it is kept for the name, or given when the name itself
is reached, or it is the class that may declare the target of a call on the name. -/
inductive GivesType (context : CallContext) (place : Nat) : Option ItemId → Prop
  | kept {type : Option ItemId}
      (hkept : (context.ast.walk context.visitor .start).exprTypes[place]? = some type) :
      GivesType context place type
  | asked {tracker : CallTracker}
      (hreached : (place, tracker) ∈ context.ast.noted context.visitor .start) :
      GivesType context place ((context.exprType place).run tracker).1
  | called {site : CallSite} {type : Option ItemId} (hsite : site ∈ context.calls)
      (hkind : context.ast.kind site.node = .methodInvocation)
      (hreceiver : context.ast.childInRole site.node .receiver = some place)
      (howners : site.owners = type.toList) : GivesType context place type

theorem toList_inj {α : Type} {first second : Option α} (h : first.toList = second.toList) :
    first = second := by
  cases first <;> cases second <;> simp_all

/-- Every type that a name is given was given at a node that asked for it, or at the name. -/
theorem GivesType.typedAt (h : context.ast.IsNumbered) (hplace : context.ast.kind place = .name)
    {type : Option ItemId} (hgives : context.GivesType place type) :
    context.TypedAt (context.ast.noted context.visitor .start) place type ∨
      ∃ tracker, (place, tracker) ∈ context.ast.noted context.visitor .start ∧
        type = context.nameType tracker place (context.ast.text place) := by
  have hend := h.holds_walk (fun _ _ => rfl) (carries_namesTyped context)
    (namesTyped_start context)
  cases hgives with
  | kept hkept => exact Or.inl (hend.recorded hplace hkept)
  | asked hreached =>
    rename_i tracker
    obtain ⟨hnotes, -⟩ := h.notesHold_noted (fun _ _ => rfl) (carries_namesTyped context)
      (namesTyped_start context)
    obtain ⟨earlier, -, htyped, hiff⟩ := hnotes.exists_earlier hreached
    cases hknown : tracker.exprTypes[place]? with
    | some type =>
      refine Or.inl ((htyped.recorded hplace ?_).mono (fun note hnote => ((hiff note).1 hnote).1))
      rw [hknown, exprType, exprTypeWithin, run_get_bind, hknown]
      rfl
    | none =>
      refine Or.inr ⟨tracker, hreached, ?_⟩
      rw [exprType, exprTypeWithin, run_get_bind, hknown, computeType, hplace]
      rfl
  | called hsite hkind hreceiver howners =>
    obtain ⟨other, hother, htyped⟩ :=
      hend.called _ (List.mem_reverse.1 hsite) hkind place hreceiver
    rw [toList_inj (howners.symm.trans hother)]
    exact Or.inl (htyped hplace)

/-- Every node is reached. -/
theorem exists_noted (h : context.ast.IsNumbered) {id : Nat} (hid : id < context.ast.size) :
    ∃ tracker, (id, tracker) ∈ context.ast.noted context.visitor .start := by
  obtain ⟨hnotes, hlength⟩ := h.notesHold_noted (fun _ _ => rfl) (carries_namesTyped context)
    (namesTyped_start context)
  have hmem : id ∈ (context.ast.noted context.visitor .start).map Prod.fst := by
    rw [hnotes.map_fst, hlength, List.mem_reverse, List.mem_range]
    exact hid
  obtain ⟨⟨_, tracker⟩, hnote, rfl⟩ := List.mem_map.1 hmem
  exact ⟨tracker, hnote⟩

/-- Every type that a name in a body is given is the one it has with the variable that is found right
behind a parameter, if nothing in between redeclares that. -/
theorem GivesType.in_body (h : context.ast.IsNumbered)
    (hparam : context.ast.IsParameterOf param owner) (hbody : context.ast.IsBodyOf body owner)
    (hbehind : param < body) (hin : body ∈ context.ast.withAncestors place)
    (hplace : context.ast.kind place = .name) (htext : context.ast.text place = name)
    (hkept : ∀ other, param < other → other < place → context.ast.InScope other place →
      ¬ context.ast.Binds other name) {before : CallTracker}
    (hbefore : (param, before) ∈ context.ast.noted context.visitor .start)
    {type : Option ItemId} (hgives : context.GivesType place type) :
    ∃ asker tracker, (asker, tracker) ∈ context.ast.noted context.visitor .start ∧
      asker ∈ context.ast.withAncestors place ∧ body ∈ context.ast.withAncestors asker ∧
      tracker.scope.lookup name =
        (context.bindingOf param before name).or (before.scope.lookup name) ∧
      type = context.nameType tracker place name := by
  have hordered := h.isOrdered
  rcases hgives.typedAt h hplace with ⟨⟨asker, tracker⟩, hreached, hasks, htype⟩ | hhere
  · obtain ⟨haround, hbelow⟩ := h.asksFor_body hbody hparam.owner hasks hin
    have hlt := hordered.lt_of_mem_ancestors haround
    have hunbound : ¬ context.ast.Binds asker name :=
      hkept asker (Nat.lt_of_lt_of_le hbehind (hordered.le_of_mem_withAncestors hbelow)) hlt
        (fun opener hopener => hordered.mem_ancestors_trans haround
          (hasks.inScope opener hopener))
    rw [htext] at htype
    refine ⟨asker, tracker, hreached, List.mem_cons_of_mem _ haround, hbelow, ?_,
      htype hunbound⟩
    refine lookup_in_body h hparam hbody hbehind hbelow hbefore hreached ?_
    intro other hmore hother hscope
    refine hkept other hmore (Nat.lt_trans hother hlt) ?_
    exact (hordered.inScope_iff_of_lt (List.mem_cons_of_mem _ haround) hother).1 hscope
  · obtain ⟨tracker, hreached, htype⟩ := hhere
    rw [htext] at htype
    exact ⟨place, tracker, hreached, List.mem_cons_self, hin,
      lookup_in_body h hparam hbody hbehind hin hbefore hreached hkept, htype⟩

/-- Parameters and the names in the body.  Let a name in the body of a method, constructor, lambda or
catch clause be that of a parameter, with nothing in between that redeclares it.  If the name of the
parameter is a child of its own, the traversal gives the name the type with which the parameter is
bound, and no other.  If it stands in a declarator, the traversal gives the name the types that it
has with the variable found in front of the parameter: that of an outer variable, or if there is none
that of a field or class. -/
theorem names_in_body_typed (h : context.ast.IsNumbered)
    (hparam : context.ast.IsParameterOf param owner)
    (hname : context.ast.parameterName param = some name)
    (hbody : context.ast.IsBodyOf body owner) (hbehind : param < body)
    (hin : body ∈ context.ast.withAncestors place) (hplace : context.ast.kind place = .name)
    (htext : context.ast.text place = name)
    (hkept : ∀ other, param < other → other < place → context.ast.InScope other place →
      ¬ context.ast.Binds other name) :
    (∃ type, context.GivesType place type) ∧
    (¬ context.ast.IsNamedByDeclarator param →
      ∀ type, context.GivesType place type → type = context.parameterType param) ∧
    (context.ast.IsNamedByDeclarator param →
      ∃ before, (param, before) ∈ context.ast.noted context.visitor .start ∧
        ∀ type, context.GivesType place type → ∃ asker tracker,
          (asker, tracker) ∈ context.ast.noted context.visitor .start ∧
          asker ∈ context.ast.withAncestors place ∧ body ∈ context.ast.withAncestors asker ∧
          tracker.scope.lookup name = before.scope.lookup name ∧
          type = context.nameType tracker place name) := by
  have hparamSize : param < context.ast.size := by
    by_contra hle
    have hnone := Ast.parent_eq_none_of_size_le (Nat.le_of_not_lt hle)
    rw [hparam.parent] at hnone
    exact absurd hnone (by simp)
  have hplaceSize : place < context.ast.size := by
    by_contra hle
    have hnone : context.ast.node? place = none := Array.getElem?_eq_none (Nat.le_of_not_lt hle)
    rw [Ast.kind, hnone] at hplace
    exact absurd hplace (by simp)
  obtain ⟨before, hbefore⟩ := exists_noted h hparamSize
  obtain ⟨tracker, hreached⟩ := exists_noted h hplaceSize
  refine ⟨⟨_, .asked hreached⟩, fun hown type hgives => ?_,
    fun hdeclarator => ⟨before, hbefore, fun type hgives => ?_⟩⟩
  · obtain ⟨_, state, _, _, _, hlookup, htype⟩ :=
      hgives.in_body h hparam hbody hbehind hin hplace htext hkept hbefore
    rw [bindingOf_parameter hparam hname hown, Option.some_or] at hlookup
    rw [htype, nameType, hlookup]
  · obtain ⟨asker, state, hasker, haround, hbelow, hlookup, htype⟩ :=
      hgives.in_body h hparam hbody hbehind hin hplace htext hkept hbefore
    have hunbound : context.bindingOf param before name = none := by
      rw [bindingOf_eq_none_iff, hparam.binds_iff hname, not_not]
      exact hdeclarator
    rw [hunbound, Option.none_or] at hlookup
    exact ⟨asker, state, hasker, haround, hbelow, hlookup, htype⟩

/-- A method with a parameter that takes any number of arguments, in a class with a field of the same
name. -/
def varargsUnit : CompilationUnit :=
  .parse "A.java" ("class L \x7b void run() \x7b\x7d \x7d class G \x7b void run() \x7b\x7d \x7d " ++
      "class A \x7b G args; void f(L... args) \x7b args.run(); \x7d \x7d")
    ⟨.node "program" none 0 105 [.node "class_declaration" none 0 25
      [.node "identifier" (some "name") 6 7 [], .node "class_body" (some "body") 8 25
        [.node "method_declaration" none 10 23 [.node "void_type" (some "type") 10 14 [],
          .node "identifier" (some "name") 15 18 [],
          .node "formal_parameters" (some "parameters") 18 20 [],
          .node "block" (some "body") 21 23 []]]],
    .node "class_declaration" none 26 51
      [.node "identifier" (some "name") 32 33 [], .node "class_body" (some "body") 34 51
        [.node "method_declaration" none 36 49 [.node "void_type" (some "type") 36 40 [],
          .node "identifier" (some "name") 41 44 [],
          .node "formal_parameters" (some "parameters") 44 46 [],
          .node "block" (some "body") 47 49 []]]],
    .node "class_declaration" none 52 105
      [.node "identifier" (some "name") 58 59 [], .node "class_body" (some "body") 60 105
        [.node "field_declaration" none 62 69 [.node "type_identifier" (some "type") 62 63 [],
          .node "variable_declarator" (some "declarator") 64 68
            [.node "identifier" (some "name") 64 68 []]],
        .node "method_declaration" none 70 103 [.node "void_type" (some "type") 70 74 [],
          .node "identifier" (some "name") 75 76 [],
          .node "formal_parameters" (some "parameters") 76 87 [.node "spread_parameter" none 77 86
            [.node "type_identifier" none 77 78 [],
              .node "variable_declarator" none 82 86 [.node "identifier" (some "name") 82 86 []]]],
          .node "block" (some "body") 88 103 [.node "expression_statement" none 90 101
            [.node "method_invocation" none 90 100 [.node "identifier" (some "object") 90 94 [],
              .node "identifier" (some "name") 95 98 [],
              .node "argument_list" (some "arguments") 98 100 []]]]]]]], false⟩

/-- The classes of that unit, the field, the two methods that may be called, and the arrays of the
type of the parameter. -/
def varargsIndex : Index :=
  [Operation.project "app", .package ⟨0, 1⟩ "", .class ⟨1, 1⟩ "L", .class ⟨1, 1⟩ "G",
    .class ⟨1, 1⟩ "A", .field ⟨4, 1⟩ "args", .set ⟨5, 1⟩ (.one ⟨.fieldType, rfl⟩ ⟨3, 1⟩),
    .method ⟨2, 1⟩ "run" (some []), .method ⟨3, 1⟩ "run" (some []), .arrayClass ⟨2, 1⟩ 1].foldl
    (fun index operation => (operation.run index).2) (.empty 1)

/-- The name in the body gets the type of the field, not the array type of the parameter; the
parameter of a fixed number of arguments is what the name behind the inner block stands for. -/
theorem names_in_body_typed_varargs :
    let context : CallContext := ⟨varargsIndex, ⟨varargsUnit, some ⟨0, 1⟩⟩⟩
    let nested : CallContext := ⟨hidingIndex, ⟨hidingUnit, none⟩⟩
    (context.ast.IsNumbered ∧ context.ast.parameterName 22 = some "args" ∧
      context.ast.text 29 = "args" ∧ context.parameterType 22 = some ⟨8, 1⟩ ∧
      ∀ type, context.GivesType 29 type → type = some ⟨3, 1⟩) ∧
    (nested.ast.IsNumbered ∧ nested.ast.parameterName 6 = some "x" ∧ nested.ast.text 21 = "x" ∧
      ∀ type, nested.GivesType 21 type → type = some ⟨3, 1⟩) := by
  intro context nested
  have hnumbered : context.ast.IsNumbered := CompilationUnit.isNumbered_parse _ _ _
  have hnested : nested.ast.IsNumbered := CompilationUnit.isNumbered_parse _ _ _
  obtain ⟨⟨hparent, howner, hkind⟩, ⟨hbodyParent, hrole⟩, hname, htext, hplace, hin, htyped, hfree,
      hfield⟩ :
      (context.ast.parent 22 = some 19 ∧ Ast.takesParameters (context.ast.kind 19) = true ∧
        context.ast.kind 22 = .formalParameter) ∧
      (context.ast.parent 26 = some 19 ∧ context.ast.role 26 = .body) ∧
      (context.ast.parameterName 22 = some "args" ∧ context.ast.text 29 = "args" ∧
      context.ast.kind 29 = .name ∧ 26 ∈ context.ast.withAncestors 29 ∧
      (context.parameterType 22 = some ⟨8, 1⟩ ∧ context.ast.nameOf 22 = none) ∧
      (∀ other < 29, context.bindingOf other .start "args" = none) ∧
      ∀ note ∈ context.ast.noted context.visitor .start, 26 ∈ context.ast.withAncestors note.1 →
        context.nameType note.2 29 "args" = some ⟨3, 1⟩) := by
    decide +kernel
  obtain ⟨⟨hnestedParent, hnestedOwner, hnestedKind⟩, ⟨hnestedBody, hnestedRole⟩, hnestedName,
      hnestedText, hnestedPlace, hnestedIn, ⟨hnestedType, hnestedOwn⟩, hnestedFree⟩ :
      (nested.ast.parent 6 = some 3 ∧ Ast.takesParameters (nested.ast.kind 3) = true ∧
        nested.ast.kind 6 = .formalParameter) ∧
      (nested.ast.parent 9 = some 3 ∧ nested.ast.role 9 = .body) ∧
      (nested.ast.parameterName 6 = some "x" ∧ nested.ast.text 21 = "x" ∧
      nested.ast.kind 21 = .name ∧ 9 ∈ nested.ast.withAncestors 21 ∧
      (nested.parameterType 6 = some ⟨3, 1⟩ ∧ nested.ast.nameOf 6 ≠ none) ∧
      ∀ other < 21, 6 < other → nested.ast.scopeIsAmong (nested.ast.ancestors 21) other = true →
        nested.bindingOf other .start "x" = none) := by
    decide +kernel
  refine ⟨⟨hnumbered, hname, htext, htyped.1, fun type hgives => ?_⟩,
    hnested, hnestedName, hnestedText, fun type hgives => ?_⟩
  · obtain ⟨-, -, hbefore⟩ := names_in_body_typed hnumbered ⟨hparent, howner, Or.inl hkind⟩ hname
      ⟨hbodyParent, hrole⟩ (by decide) hin hplace htext
      (fun other _ hother _ => (bindingOf_eq_none_iff other .start "args").1 (hfree other hother))
    obtain ⟨before, -, htypes⟩ := hbefore ⟨by rw [hkind]; simp, htyped.2⟩
    obtain ⟨asker, tracker, hreached, -, hbelow, -, rfl⟩ := htypes type hgives
    exact hfield (asker, tracker) hreached hbelow
  · obtain ⟨-, hbound, -⟩ := names_in_body_typed hnested
      ⟨hnestedParent, hnestedOwner, Or.inl hnestedKind⟩ hnestedName ⟨hnestedBody, hnestedRole⟩
      (by decide) hnestedIn hnestedPlace hnestedText
      (fun other hmore hother hscope => (bindingOf_eq_none_iff other .start "x").1
        (hnestedFree other hother hmore (Ast.scopeIsAmong_ancestors_iff.2 hscope)))
    exact (hbound (fun hnamed => hnestedOwn hnamed.2) type hgives).trans hnestedType

end CallContext

end CodeAtlas
