/-
# Searching an index that lies in another

A search reads the index in two ways: it asks for the classes of its candidates, and it follows the
supertypes of those classes.  Where the answers to the first have new names, those to the second
have too, and so every filter judges a candidate as before.
-/
import CodeAtlas.Proofs.Query.Screening
import CodeAtlas.Proofs.Resolve.Traversal

namespace CodeAtlas

open Source

variable {rename? : ItemId → Option ItemId}

/-! ## What a query asks for -/

mutual

/-- Whether a filter asks for the class of a candidate.  A class is known by its name, so the filter
on class names looks up the classes of methods only. -/
def Filter.asksClass (isMethod : Bool) : Filter → Bool
  | .className _ => isMethod
  | .hasSupertype _ => true
  | .not filters => asksAny isMethod filters
  | .and filters => asksAny isMethod filters
  | _ => false

/-- Whether one of several filters asks for the class of a candidate. -/
def Filter.asksAny (isMethod : Bool) : List Filter → Bool
  | [] => false
  | filter :: rest => filter.asksClass isMethod || asksAny isMethod rest

end

theorem Filter.asksAny_eq_any (isMethod : Bool) (filters : List Filter) :
    asksAny isMethod filters = filters.any (asksClass isMethod) := by
  induction filters with
  | nil => rfl
  | cons filter rest ih => rw [asksAny, ih, List.any_cons]

/-- The order in which filters are tried does not matter for what they ask. -/
theorem Query.asksAny_orderedFilters (query : Query) (isMethod : Bool) :
    Filter.asksAny isMethod query.orderedFilters = Filter.asksAny isMethod query.filters := by
  rw [orderedFilters]
  split
  · rw [Filter.asksAny_eq_any, Filter.asksAny_eq_any]
    exact (List.mergeSort_perm _ _).any_eq
  · rfl

namespace CallContext

/-- The classes of the types that are spelled out. -/
def referencedClasses (context : CallContext) : List ItemId :=
  context.ast.ids.filterMap fun id =>
    (referencedName context.types.unit id).bind (context.types.ownClass context.index)

/-- The answers behind the classes of the references that a query looks at, if its filters ask for
them. -/
def referenceReads (context : CallContext) (query : Query) : List ItemId :=
  match query.kind with
  | .classRef => if Filter.asksAny false query.filters then context.referencedClasses else []
  | .methodRef => if Filter.asksAny true query.filters then context.callsReads else []
  | _ => []

/-- The answers behind what a query finds: the classes that the unit declares, and what the classes
of references rest on. -/
def queryReads (context : CallContext) (query : Query) : List ItemId :=
  context.declaredClasses ++ context.referenceReads query

/-- The answers that a search gets are items of the index. -/
theorem holds_queryReads {context : CallContext} (h : context.index.Coherent) (query : Query) :
    context.index.Holds (context.queryReads query) := by
  refine Index.Holds.append (fun id hid => ?_) ?_
  · obtain ⟨decl, _, hcls⟩ := List.mem_filterMap.1 hid
    exact (TypeResolver.isKind_of_classOfDecl h.findsClasses hcls).contains
  · rw [referenceReads]
    split
    · split
      · intro id hid
        obtain ⟨node, _, hname⟩ := List.mem_filterMap.1 hid
        obtain ⟨name, _, hcls⟩ := Option.bind_eq_some_iff.1 hname
        exact (TypeResolver.isKind_of_ownClass h.findsClasses hcls).contains
      · exact Index.holds_nil
    · split
      · exact holds_callsReads h
      · exact Index.holds_nil
    · exact Index.holds_nil

/-! ## Candidates -/

/-- The same node with the same spelling.  If the class is asked for, it is the same under its new
name. -/
structure Alike (rename? : ItemId → Option ItemId) (context context' : CallContext) (asked : Prop)
    (candidate candidate' : Candidate) : Prop where
  node_eq : candidate'.node = candidate.node
  isMethod_eq : candidate'.isMethod = candidate.isMethod
  name_eq : candidate'.name = candidate.name
  argCount_eq : candidate'.argCount = candidate.argCount
  owner : asked → Sends? rename? (candidate.owner context) (candidate'.owner context')
  ownerName_eq : (candidate.isMethod → asked) →
    candidate'.ownerName context' = candidate.ownerName context

theorem Alike.mono {context context' : CallContext} {asked asked' : Prop}
    {candidate candidate' : Candidate} (h : Alike rename? context context' asked candidate candidate')
    (himp : asked' → asked) : Alike rename? context context' asked' candidate candidate' :=
  ⟨h.node_eq, h.isMethod_eq, h.name_eq, h.argCount_eq, fun hasked => h.owner (himp hasked),
    fun hasked => h.ownerName_eq (fun hmethod => himp (hasked hmethod))⟩

namespace Embeds

variable {context context' : CallContext}

theorem bind_qualifiedName_eq (h : context.Embeds rename? context') {cls cls' : Option ItemId}
    (hcls : Sends? rename? cls cls') :
    cls'.bind context'.index.qualifiedName = cls.bind context.index.qualifiedName := by
  cases hcls with
  | none => rfl
  | some hsends => exact h.index.qualifiedName_eq hsends

/-- Candidates for a class that is known. -/
theorem alike_known (node : Nat) (name : String) {cls cls' : Option ItemId}
    (hcls : Sends? rename? cls cls') :
    Alike rename? context context' True (.ofClass node name (.known cls))
      (.ofClass node name (.known cls')) :=
  ⟨rfl, rfl, rfl, rfl, fun _ => hcls, fun _ => rfl⟩

/-- Method declarations. -/
theorem alike_ofDeclaration? (h : context.Embeds rename? context') {decl : Nat}
    {candidate : Candidate} (hcandidate : Candidate.ofDeclaration? context.ast decl = some candidate) :
    Alike rename? context context' True candidate candidate := by
  rw [Candidate.ofDeclaration?] at hcandidate
  split at hcandidate
  · rename_i name outer _ houter
    cases hcandidate
    have howner := h.rel_classOfDecl (by simpa using List.find?_some houter)
    exact ⟨rfl, rfl, rfl, rfl, fun _ => howner, fun _ => h.bind_qualifiedName_eq howner⟩
  · simp at hcandidate

/-- References to a class by its name. -/
theorem alike_name (h : context.Embeds rename? context') (node : Nat) (name : String)
    {asked : Prop}
    (hkept : asked → ∀ id ∈ context.types.ownClass context.index name, (rename? id).isSome) :
    Alike rename? context context' asked (.ofClass node name (.name name))
      (.ofClass node name (.name name)) :=
  ⟨rfl, rfl, rfl, rfl, fun hasked => (h.echoes_ownClass name).rel (hkept hasked), fun _ => rfl⟩

/-! ### Filters -/

theorem findSome?_eq {β : Type} {f g : ItemId → Option β} {ids ids' : List ItemId}
    (hids : List.Forall₂ (Sends rename?) ids ids')
    (hfg : ∀ id new, Sends rename? id new → g new = f id) :
    ids'.findSome? g = ids.findSome? f := by
  induction hids with
  | nil => rfl
  | cons hfirst _ ih => rw [List.findSome?_cons, List.findSome?_cons, hfg _ _ hfirst, ih]

theorem filterMap_eq {α β : Type} {together : α → α → Prop} {f g : α → Option β}
    {list list' : List α} (hlist : List.Forall₂ together list list')
    (hfg : ∀ value value', together value value' → g value' = f value) :
    list'.filterMap g = list.filterMap f := by
  induction hlist with
  | nil => rfl
  | cons hfirst _ ih => rw [List.filterMap_cons, List.filterMap_cons, hfg _ _ hfirst, ih]

mutual

/-- A filter judges a candidate as before. -/
theorem accept_eq (h : context.Embeds rename? context') {asked : Prop}
    {candidate candidate' : Candidate} :
    ∀ filter : Filter, (filter.asksClass candidate.isMethod → asked) →
      Alike rename? context context' asked candidate candidate' →
      context'.accept filter candidate' = context.accept filter candidate
  | .name matcher, _, halike => by
    rw [accept, accept, halike.name_eq]
  | .className matcher, hasked, halike => by
    rw [accept, accept, halike.ownerName_eq hasked]
  | .hasParam count, _, halike => by
    rw [accept, accept, halike.argCount_eq]
  | .hasSupertype filters, hasked, halike => by
    have howner := halike.owner (hasked rfl)
    rw [accept, accept]
    generalize candidate.owner context = cls at howner
    generalize candidate'.owner context' = cls' at howner
    cases howner with
    | none => rfl
    | some hsends =>
      refine findSome?_eq (h.index.forall₂_supertypes hsends) (fun ancestor new hancestor => ?_)
      rw [h.index.qualifiedName_eq hancestor, halike.node_eq]
      cases context.index.qualifiedName ancestor with
      | none => rfl
      | some name =>
        exact acceptAll_eq h filters (fun _ => trivial) (alike_known _ name (.some hancestor))
  | .isSupertype, _, halike => by
    rw [accept, accept, Candidate.isSupertype, Candidate.isSupertype, halike.node_eq, h.ast_eq]
  | .isInMethod filters, _, halike => by
    rw [accept, accept, halike.node_eq, h.ast_eq]
    cases henclosing : (context.ast.enclosingMethod candidate.node).bind
        (Candidate.ofDeclaration? context.ast) with
    | none => rfl
    | some method =>
      obtain ⟨decl, _, hdecl⟩ := Option.bind_eq_some_iff.1 henclosing
      exact acceptAll_eq h filters (fun _ => trivial) (h.alike_ofDeclaration? hdecl)
  | .not filters, hasked, halike => by
    rw [accept, accept, acceptAll_eq h filters hasked halike]
  | .and filters, hasked, halike => by
    rw [accept, accept, acceptAll_eq h filters hasked halike]

/-- Filters judge a candidate as before. -/
theorem acceptAll_eq (h : context.Embeds rename? context') {asked : Prop}
    {candidate candidate' : Candidate} :
    ∀ filters : List Filter, (Filter.asksAny candidate.isMethod filters → asked) →
      Alike rename? context context' asked candidate candidate' →
      context'.acceptAll filters candidate' = context.acceptAll filters candidate
  | [], _, _ => by rw [acceptAll, acceptAll]
  | filter :: rest, hasked, halike => by
    rw [Filter.asksAny] at hasked
    rw [acceptAll, acceptAll,
      accept_eq h filter (fun hfirst => hasked (by rw [hfirst, Bool.true_or])) halike,
      acceptAll_eq h rest (fun hrest => hasked (by rw [hrest, Bool.or_true])) halike]

end

/-! ### The nodes a query looks at -/

theorem forall₂_filterMap {α β : Type} {together : β → β → Prop} {f g : α → Option β}
    {list : List α} (h : ∀ value ∈ list, Option.Rel together (f value) (g value)) :
    List.Forall₂ together (list.filterMap f) (list.filterMap g) := by
  have hsame : List.Forall₂ (fun value value' => value = value' ∧ value ∈ list) list list :=
    List.forall₂_same.2 (fun value hvalue => ⟨rfl, hvalue⟩)
  refine List.rel_filterMap ?_ hsame
  rintro value _ ⟨rfl, hvalue⟩
  exact h value hvalue

theorem forall₂_classDeclarations (h : context.Embeds rename? context') :
    List.Forall₂ (Alike rename? context context' True) context.classDeclarations
      context'.classDeclarations := by
  rw [classDeclarations, classDeclarations, h.unit_eq]
  refine forall₂_filterMap (fun decl hdecl => ?_)
  have hcls := h.rel_classOfDecl (List.mem_filter.1 hdecl).2
  dsimp only
  rw [h.bind_qualifiedName_eq hcls]
  cases (context.types.classOfDecl context.index decl).bind context.index.qualifiedName with
  | none => exact .none
  | some name => exact .some (alike_known decl name hcls)

theorem forall₂_classReferences (h : context.Embeds rename? context') {asked : Prop}
    (hkept : asked → Kept rename? context.referencedClasses) :
    List.Forall₂ (Alike rename? context context' asked) context.classReferences
      context'.classReferences := by
  rw [classReferences, classReferences, h.ast_eq, h.unit_eq]
  refine forall₂_filterMap (fun id hid => ?_)
  cases hname : referencedName context.types.unit id with
  | none => exact .none
  | some name =>
    refine .some (h.alike_name id name (fun hasked cls hcls => hkept hasked cls ?_))
    exact List.mem_filterMap.2 ⟨id, hid, by rw [hname]; exact hcls⟩

theorem forall₂_methodDeclarations (h : context.Embeds rename? context') :
    List.Forall₂ (Alike rename? context context' True) context.methodDeclarations
      context'.methodDeclarations := by
  rw [methodDeclarations, methodDeclarations, h.ast_eq]
  refine List.forall₂_same.2 (fun candidate hcandidate => ?_)
  obtain ⟨decl, _, hdecl⟩ := List.mem_filterMap.1 hcandidate
  exact h.alike_ofDeclaration? hdecl

/-- The call that is recorded last for a node. -/
theorem rel_callTable {together : CallSite → CallSite → Prop}
    (hnode : ∀ {site site' : CallSite}, together site site' → site'.node = site.node)
    {sites sites' : List CallSite} (hsites : List.Forall₂ together sites sites') (id : Nat) :
    Option.Rel together
      (Std.TreeMap.ofList (sites.map (fun site => (site.node, site))))[id]?
      (Std.TreeMap.ofList (sites'.map (fun site => (site.node, site))))[id]? := by
  have hinsert : ∀ {table table' : Std.TreeMap Nat CallSite},
      Option.Rel together table[id]? table'[id]? →
      Option.Rel together (table.insertMany (sites.map (fun site => (site.node, site))))[id]?
        (table'.insertMany (sites'.map (fun site => (site.node, site))))[id]? := by
    induction hsites with
    | nil => exact fun htable => htable
    | cons hfirst _ ih =>
      intro table table' htable
      rw [List.map_cons, List.map_cons, Std.TreeMap.insertMany_cons, Std.TreeMap.insertMany_cons]
      refine ih ?_
      rw [Std.TreeMap.getElem?_insert, Std.TreeMap.getElem?_insert, hnode hfirst]
      split
      · exact .some hfirst
      · exact htable
  rw [Std.TreeMap.ofList_eq_insertMany_empty, Std.TreeMap.ofList_eq_insertMany_empty]
  exact hinsert (by rw [Std.TreeMap.getElem?_emptyc]; exact .none)

/-- Calls that are resolved to methods with new names. -/
theorem rel_callOwner (h : context.Embeds rename? context') {site site' : CallSite}
    (hsite : site.Follows rename? site')
    (hkept : ∀ id ∈ context.index.resolveCall site, (rename? id).isSome) :
    Sends? rename?
      ((((context.index.resolveCall site).bind context.index.get?).bind Item.parent).or
        site.owners.head?)
      ((((context'.index.resolveCall site').bind context'.index.get?).bind Item.parent).or
        site'.owners.head?) := by
  have hmethod := (h.index.echoes_resolveCall hsite.owners hsite.name_eq hsite.argCount_eq).rel hkept
  have hparent := h.index.rel_link (fun himage => himage.parent) hmethod
  have howners := hsite.owners
  generalize ((context.index.resolveCall site).bind context.index.get?).bind Item.parent = parent
    at hparent
  generalize ((context'.index.resolveCall site').bind context'.index.get?).bind Item.parent = parent'
    at hparent
  generalize site.owners = owners at howners
  generalize site'.owners = owners' at howners
  cases hparent with
  | some hsends => exact .some hsends
  | none =>
    cases howners with
    | nil => exact .none
    | cons hfirst _ => exact .some hfirst

/-- Calls with what was recorded for them, if anything was. -/
theorem alike_call (h : context.Embeds rename? context') (id : Nat) (name : String) (count : Nat)
    {asked : Prop} {found found' : Option CallSite} :
    (asked → Option.Rel (fun site site' =>
      (∀ id ∈ context.index.resolveCall site, (rename? id).isSome) ∧ site.Follows rename? site')
      found found') →
    Alike rename? context context' asked
      (.ofMethod id name count (.ofRecorded found)) (.ofMethod id name count (.ofRecorded found')) := by
  intro hfound
  refine ⟨rfl, rfl, rfl, rfl, fun hasked => ?_, fun hasked => ?_⟩
  · cases hfound hasked with
    | none => exact .none
    | some hsite => exact h.rel_callOwner hsite.2 hsite.1
  · cases hfound (hasked rfl) with
    | none => rfl
    | some hsite => exact h.bind_qualifiedName_eq (h.rel_callOwner hsite.2 hsite.1)

theorem forall₂_methodReferences (h : context.Embeds rename? context') {asked : Prop}
    (hkept : asked → Kept rename? context.callsReads) :
    List.Forall₂ (Alike rename? context context' asked) context.methodReferences
      context'.methodReferences := by
  rw [methodReferences, methodReferences, h.ast_eq]
  refine forall₂_filterMap (fun id _ => ?_)
  cases hname : calledName context.ast id with
  | none =>
    rw [Option.map_none, Option.map_none]
    exact .none
  | some name =>
    refine .some (h.alike_call id name _ (fun hasked => ?_))
    refine rel_callTable (fun hsite => hsite.2.node_eq) ?_ id
    refine (List.forall₂_and_left _ _).2 ⟨fun site hsite method hmethod => ?_,
      h.forall₂_calls (hkept hasked)⟩
    exact hkept hasked method
      (List.mem_append_right _ (List.mem_filterMap.2 ⟨site, hsite, hmethod⟩))

/-- The nodes a query looks at, with their classes if its filters ask for them. -/
theorem forall₂_candidates (h : context.Embeds rename? context') {query : Query}
    (hkept : Kept rename? (context.queryReads query)) :
    List.Forall₂ (fun candidate candidate' =>
      Alike rename? context context' (Filter.asksAny candidate.isMethod query.filters)
        candidate candidate')
      (context.candidates query.kind) (context'.candidates query.kind) := by
  have hreads := (kept_append.1 hkept).2
  cases hkind : query.kind with
  | classDecl => exact h.forall₂_classDeclarations.imp (fun _ _ halike => halike.mono (fun _ => trivial))
  | methodDecl => exact h.forall₂_methodDeclarations.imp (fun _ _ halike => halike.mono (fun _ => trivial))
  | classRef =>
    rw [referenceReads, hkind] at hreads
    dsimp only at hreads
    have hall := h.forall₂_classReferences (fun hasked => by rwa [if_pos hasked] at hreads)
    have hclass : ∀ candidate ∈ context.classReferences, candidate.isMethod = false := by
      intro candidate hcandidate
      obtain ⟨id, _, hname⟩ := List.mem_filterMap.1 hcandidate
      obtain ⟨name, _, rfl⟩ := Option.map_eq_some_iff.1 hname
      rfl
    refine ((List.forall₂_and_left _ _).2 ⟨hclass, hall⟩).imp (fun _ _ halike => ?_)
    rw [halike.1]
    exact halike.2
  | methodRef =>
    rw [referenceReads, hkind] at hreads
    dsimp only at hreads
    have hall := h.forall₂_methodReferences (fun hasked => by rwa [if_pos hasked] at hreads)
    have hmethod : ∀ candidate ∈ context.methodReferences, candidate.isMethod = true := by
      intro candidate hcandidate
      obtain ⟨id, _, hname⟩ := List.mem_filterMap.1 hcandidate
      obtain ⟨name, _, rfl⟩ := Option.map_eq_some_iff.1 hname
      rfl
    refine ((List.forall₂_and_left _ _).2 ⟨hmethod, hall⟩).imp (fun _ _ halike => ?_)
    rw [halike.1]
    exact halike.2

/-- A query finds the same when the answers behind it have new names. -/
theorem search_eq (h : context.Embeds rename? context') {query : Query}
    (hkept : Kept rename? (context.queryReads query)) :
    context'.search query = context.search query := by
  rw [search_eq_hits, search_eq_hits, hits, hits, h.unit_eq]
  refine filterMap_eq (h.forall₂_candidates hkept) (fun candidate candidate' halike => ?_)
  rw [halike.node_eq, acceptAll_eq h _ (fun hasked => ?_) halike]
  rwa [query.asksAny_orderedFilters] at hasked

end Embeds

end CallContext

end CodeAtlas
