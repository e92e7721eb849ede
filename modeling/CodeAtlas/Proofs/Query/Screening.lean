/-
# Calls that are screened

A search for calls first looks at what the calls spell out, in the order of the ranks of its
filters, and resolves the calls of a unit only for those that pass.  The filters of the screen ask
nothing about a class, so they judge a call alike before and after it is resolved, and a call that
they turn down is turned down by all filters together.  The screen, the early end and the order of
the filters therefore leave the nodes that are found as they are.
-/
import Mathlib.Data.List.Basic
import CodeAtlas.Query.Search

namespace CodeAtlas

open Source

/-! ## The order of filters -/

/-- Filters are passed together when each of them is passed. -/
theorem CallContext.isSome_acceptAll (context : CallContext) (filters : List Filter)
    (candidate : Candidate) :
    (context.acceptAll filters candidate).isSome =
      filters.all (fun filter => (context.accept filter candidate).isSome) := by
  induction filters with
  | nil => rw [acceptAll]; rfl
  | cons filter rest ih =>
    rw [acceptAll, List.all_cons, ← ih]
    cases context.accept filter candidate with
    | none => rfl
    | some captures => simp

/-- Ordering filters by rank keeps every filter. -/
theorem Query.orderedFilters_perm (query : Query) : query.orderedFilters.Perm query.filters := by
  unfold orderedFilters
  split
  · exact List.mergeSort_perm _ _
  · exact List.Perm.refl _

namespace CallContext

variable {context : CallContext}

/-! ## The screen -/

/-- A filter on what a call spells out does not look at what the call is resolved to. -/
theorem accept_with_source {filter : Filter} (h : filter.isSyntactic) (candidate : Candidate)
    (source : ClassSource) :
    context.accept filter { candidate with source := source } = context.accept filter candidate := by
  cases filter with
  | name matcher => rw [accept, accept]
  | hasParam count => rw [accept, accept]
  | _ => simp [Filter.isSyntactic, Filter.rank] at h

/-- A screen judges a call alike before and after it is resolved. -/
theorem isSome_screen_with_source (filters : List Filter) (candidate : Candidate)
    (source : ClassSource) :
    (context.acceptAll (filters.filter Filter.isSyntactic)
      { candidate with source := source }).isSome =
      (context.acceptAll (filters.filter Filter.isSyntactic) candidate).isSome := by
  rw [isSome_acceptAll, isSome_acceptAll, Bool.eq_iff_iff, List.all_eq_true, List.all_eq_true]
  refine forall₂_congr (fun filter hfilter => ?_)
  rw [accept_with_source (List.mem_filter.1 hfilter).2]

/-! ## Recorded calls -/

/-- The call that is recorded last for a node. -/
def recorded? (context : CallContext) (id : Nat) : Option CallSite :=
  context.calls.reverse.find? (fun site => site.node == id)

/-- A table holds for each node what was recorded last for it. -/
theorem getElem?_callTable (id : Nat) : context.callTable[id]? = context.recorded? id := by
  have hinsert : ∀ (sites : List CallSite) (table : Std.TreeMap Nat CallSite),
      (table.insertMany (sites.map (fun site => (site.node, site))))[id]? =
        (sites.reverse.find? (fun site => site.node == id)).or table[id]? := by
    intro sites
    -- The induction is on the calls, for any table: a later call replaces what the table has.
    induction sites with
    | nil => intro table; rfl
    | cons site rest ih =>
      intro table
      rw [List.map_cons, Std.TreeMap.insertMany_cons, ih, Std.TreeMap.getElem?_insert,
        List.reverse_cons, List.find?_append, Option.or_assoc]
      congr 1
      by_cases hnode : site.node = id
      · simp [hnode]
      · simp [hnode]
  unfold callTable recorded?
  rw [Std.TreeMap.ofList_eq_insertMany_empty, hinsert, Std.TreeMap.getElem?_emptyc, Option.or_none]

/-- The call at a node, with what is recorded for it. -/
def callAt? (context : CallContext) (id : Nat) : Option Candidate :=
  (calledName context.ast id).map fun name =>
    .ofMethod id name (context.ast.arguments id).length (.ofRecorded (context.recorded? id))

/-- Whether a node is a call that passes every filter once it is resolved. -/
def passes (context : CallContext) (filters : List Filter) (id : Nat) : Bool :=
  (context.callAt? id).any fun call =>
    filters.all fun filter => (context.accept filter call).isSome

theorem node_of_callAt? {id : Nat} {call : Candidate} (h : context.callAt? id = some call) :
    call.node = id := by
  obtain ⟨name, _, rfl⟩ := Option.map_eq_some_iff.1 h
  rfl

/-- The calls of a unit are the calls at its nodes. -/
theorem methodReferences_eq (context : CallContext) :
    context.methodReferences = context.ast.ids.filterMap context.callAt? := by
  unfold methodReferences callAt?
  simp only [getElem?_callTable]

/-- Taking what is given from a table changes nothing for calls at different nodes. -/
theorem withRecorded_eq_map {calls : List Candidate} (hnodes : (calls.map Candidate.node).Nodup)
    (table : Std.TreeMap Nat CallSite) :
    withRecorded table calls =
      calls.map (fun call => { call with source := .ofRecorded table[call.node]? }) := by
  induction calls generalizing table with
  | nil => rfl
  | cons call rest ih =>
    obtain ⟨hfirst, hrest⟩ := List.nodup_cons.1 hnodes
    rw [withRecorded, List.map_cons, ih hrest]
    congr 1
    refine List.map_congr_left (fun other hother => ?_)
    have hne : call.node ≠ other.node := by
      intro heq
      exact hfirst (heq ▸ List.mem_map_of_mem hother)
    rw [Std.TreeMap.getElem?_erase]
    simp [hne]

/-- What is made of some nodes, each node giving a candidate of its own, stands at these nodes. -/
theorem map_node_filterMap_sublist {make : Nat → Option Candidate}
    (hnode : ∀ id candidate, make id = some candidate → candidate.node = id) (ids : List Nat) :
    ((ids.filterMap make).map Candidate.node).Sublist ids := by
  induction ids with
  | nil => exact List.Sublist.slnil
  | cons id rest ih =>
    rw [List.filterMap_cons]
    cases hmake : make id with
    | none => exact ih.cons id
    | some candidate =>
      obtain rfl := hnode id candidate hmake
      exact ih.cons_cons candidate.node

/-- Different calls that are spelled out stand at different nodes. -/
theorem nodup_spelledCalls (context : CallContext) :
    (context.spelledCalls.map Candidate.node).Nodup := by
  refine List.nodup_range.sublist (map_node_filterMap_sublist ?_ context.ast.ids)
  intro id call hcall
  obtain ⟨name, _, rfl⟩ := Option.map_eq_some_iff.1 hcall
  rfl

/-- The calls that are spelled out, with what is recorded for them, are the calls. -/
theorem withRecorded_spelledCalls (context : CallContext) :
    withRecorded context.callTable context.spelledCalls = context.methodReferences := by
  rw [withRecorded_eq_map context.nodup_spelledCalls, methodReferences_eq]
  unfold spelledCalls
  rw [List.map_filterMap]
  refine List.filterMap_congr (fun id _ => ?_)
  rw [callAt?, Option.map_map]
  cases calledName context.ast id with
  | none => rfl
  | some name => simp only [Option.map_some, Function.comp_apply, getElem?_callTable]; rfl

/-! ## What a search finds -/

/-- A screen whose filters are among those of the search takes away nothing that is found. -/
theorem resolvedHits_screenedCalls {screen filters : List Filter} (h : screen ⊆ filters) :
    context.resolvedHits filters (context.screenedCalls screen) =
      context.resolvedHits filters context.spelledCalls := by
  have hnodes := context.nodup_spelledCalls
  have hscreened : ((context.screenedCalls screen).map Candidate.node).Nodup :=
    hnodes.sublist (List.filter_sublist.map _)
  unfold resolvedHits
  rw [withRecorded_eq_map hnodes, withRecorded_eq_map hscreened]
  unfold hits screenedCalls
  rw [List.filterMap_map, List.filterMap_map, List.filterMap_filter]
  refine List.filterMap_congr (fun call _ => ?_)
  split
  · rfl
  · rename_i hscreen
    -- A resolved call that passed all filters would have passed the screen.
    symm
    rw [Function.comp_apply, Option.map_eq_none_iff, ← Option.not_isSome_iff_eq_none]
    intro hpasses
    apply hscreen
    rw [← isSome_screen_with_source, isSome_acceptAll, List.all_eq_true]
    rw [isSome_acceptAll, List.all_eq_true] at hpasses
    intro filter hfilter
    exact hpasses filter (h (List.mem_filter.1 hfilter).1)

/-- Among no calls nothing is found, so the early end of a search for calls changes nothing. -/
theorem callHits_eq (filters : List Filter) :
    context.callHits filters = context.hits filters context.methodReferences := by
  rw [← withRecorded_spelledCalls]
  show _ = context.resolvedHits filters context.spelledCalls
  rw [← resolvedHits_screenedCalls (List.Subset.refl filters)]
  unfold callHits
  dsimp only
  split
  · rename_i hnone
    rw [List.isEmpty_iff.1 hnone]
    rfl
  · rfl

/-- A search finds what its filters find among the nodes it looks at. -/
theorem search_eq_hits (query : Query) :
    context.search query = context.hits query.orderedFilters (context.candidates query.kind) := by
  unfold search
  cases hkind : query.kind with
  | methodRef => exact callHits_eq query.orderedFilters
  | _ => rfl

/-- The nodes that filters find among candidates are those of the candidates that pass. -/
theorem map_node_hits (filters : List Filter) (candidates : List Candidate) :
    (context.hits filters candidates).map SearchHit.node =
      (candidates.filter (fun candidate => (context.acceptAll filters candidate).isSome)).map
        Candidate.node := by
  induction candidates with
  | nil => rfl
  | cons candidate rest ih =>
    unfold hits at ih ⊢
    rw [List.filterMap_cons, List.filter_cons]
    cases context.acceptAll filters candidate with
    | none => exact ih
    | some captures => exact congrArg (candidate.node :: ·) ih

/-- What filters find among the calls, in any order. -/
theorem map_node_hits_methodReferences {filters others : List Filter} (h : others.Perm filters) :
    (context.hits others context.methodReferences).map SearchHit.node =
      context.ast.ids.filter (context.passes filters) := by
  rw [map_node_hits, methodReferences_eq]
  have hpasses : ∀ call, (context.acceptAll others call).isSome =
      filters.all (fun filter => (context.accept filter call).isSome) := by
    intro call
    rw [isSome_acceptAll, h.all_eq]
  simp only [hpasses]
  induction context.ast.ids with
  | nil => rfl
  | cons id rest ih =>
    rw [List.filterMap_cons, List.filter_cons, passes]
    cases hcall : context.callAt? id with
    | none => exact ih
    | some call =>
      rw [List.filter_cons, Option.any_some]
      split
      · rw [List.map_cons, ih, node_of_callAt? hcall]
      · exact ih

end CallContext

/-- A search for calls finds the calls that pass every filter once they are resolved, in source
order.  It finds the same nodes with its filters in any order, and so do the calls that a screen
leaves, with the early end and without, and the calls that were not screened. -/
theorem map_node_search_methodRef (index : Index) (unit : CompilationUnit) (project : Option ItemId)
    {filters others : List Filter} (hothers : others.Perm filters) :
    let context : CallContext := ⟨index, ⟨unit, project⟩⟩
    let found := unit.ast.ids.filter (context.passes filters)
    (context.search ⟨.methodRef, filters⟩).map SearchHit.node = found ∧
    (context.search ⟨.methodRef, others⟩).map SearchHit.node = found ∧
    (context.callHits others).map SearchHit.node = found ∧
    (context.resolvedHits others (context.screenedCalls filters)).map SearchHit.node = found ∧
    (context.resolvedHits others context.spelledCalls).map SearchHit.node = found := by
  intro context found
  have hfound : ∀ tried : List Filter, tried.Perm filters →
      (context.hits tried context.methodReferences).map SearchHit.node = found :=
    fun tried htried => CallContext.map_node_hits_methodReferences htried
  have hresolved : (context.resolvedHits others context.spelledCalls).map SearchHit.node = found := by
    unfold CallContext.resolvedHits
    rw [CallContext.withRecorded_spelledCalls]
    exact hfound others hothers
  refine ⟨?_, ?_, ?_, ?_, hresolved⟩
  · rw [CallContext.search_eq_hits]
    exact hfound _ (Query.orderedFilters_perm _)
  · rw [CallContext.search_eq_hits]
    exact hfound _ ((Query.orderedFilters_perm _).trans hothers)
  · rw [CallContext.callHits_eq]
    exact hfound others hothers
  · rw [CallContext.resolvedHits_screenedCalls hothers.symm.subset]
    exact hresolved

/-- A class whose initializer creates an object and calls a method. -/
def creatingUnit : CompilationUnit :=
  .parse "A.java" "class A \x7b \x7b new A(); run(1); \x7d \x7d" ⟨.node "program" none 0 32
    [.node "class_declaration" none 0 32 [.node "identifier" (some "name") 6 7 [],
      .node "class_body" (some "body") 8 32 [.node "block" none 10 30
        [.node "expression_statement" none 12 20 [.node "object_creation_expression" none 12 19
          [.node "type_identifier" (some "type") 16 17 [],
            .node "argument_list" (some "arguments") 17 19 []]],
        .node "expression_statement" none 21 28 [.node "method_invocation" none 21 27
          [.node "identifier" (some "name") 21 24 [],
            .node "argument_list" (some "arguments") 24 27
              [.node "decimal_integer_literal" none 25 26 []]]]]]]], false⟩

/-- The calls with one argument of methods of other classes, with the filters in both orders. -/
theorem map_node_search_creatingUnit :
    let filters : List Filter := [.not [.className (.literal "A")], .hasParam ⟨.eq, 1⟩]
    let others : List Filter := [.hasParam ⟨.eq, 1⟩, .not [.className (.literal "A")]]
    let context : CallContext := ⟨.empty 1, ⟨creatingUnit, none⟩⟩
    others.Perm filters ∧ creatingUnit.ast.ids.filter (context.passes filters) = [8] ∧
    (context.search ⟨.methodRef, filters⟩).map SearchHit.node = [8] ∧
    (context.search ⟨.methodRef, others⟩).map SearchHit.node = [8] ∧
    (context.resolvedHits others context.spelledCalls).map SearchHit.node = [8] := by
  intro filters others context
  have hothers : others.Perm filters := List.Perm.swap _ _ _
  have hfound : creatingUnit.ast.ids.filter (context.passes filters) = [8] := by decide +kernel
  obtain ⟨hsearch, hswapped, -, -, hplain⟩ :=
    map_node_search_methodRef (.empty 1) creatingUnit none hothers
  exact ⟨hothers, hfound, hsearch.trans hfound, hswapped.trans hfound, hplain.trans hfound⟩

end CodeAtlas
