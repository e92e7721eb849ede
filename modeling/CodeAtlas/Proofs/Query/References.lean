/-
# References to classes by their names

A search for references to classes finds what spells a class out: the imports of single classes, the
types that name such an import, and the types that are qualified.  Imports on demand and static
imports are never consulted, so a simple name that no import of a single class brings in is not found.
Filters on names, on numbers of parameters and on places ask for nothing that the file does not show,
so what they find does not depend on the index.
-/
import CodeAtlas.Query.Search
import Mathlib.Data.List.Basic

namespace CodeAtlas

open Source

/-! ## Filters that ask for no class -/

mutual

/-- Whether a filter asks only for names, class names, numbers of parameters and supertype positions. -/
def Filter.isPlain : Filter → Bool
  | .name _ | .className _ | .hasParam _ | .isSupertype => true
  | .hasSupertype _ | .isInMethod _ => false
  | .not filters => arePlain filters
  | .and filters => arePlain filters

/-- Whether all of several filters are built so. -/
def Filter.arePlain : List Filter → Bool
  | [] => true
  | filter :: rest => filter.isPlain && arePlain rest

end

namespace CallContext

variable {context other : CallContext}

/-- The classes of candidates are the same, and so is what the index says of them. -/
structure SharesOwners (context other : CallContext) : Prop where
  index_eq : other.index = context.index
  owner_eq : ∀ candidate : Candidate, candidate.owner other = candidate.owner context

theorem SharesOwners.ownerName_eq (h : context.SharesOwners other) (candidate : Candidate) :
    candidate.ownerName other = candidate.ownerName context := by
  unfold Candidate.ownerName
  rw [h.owner_eq, h.index_eq]

mutual

/-- A filter judges a candidate by its syntax tree, its own name and that of its class; only a filter
that is not plain asks for more. -/
theorem accept_congr (hast : other.ast = context.ast) :
    ∀ (filter : Filter) {candidate : Candidate},
      candidate.ownerName other = candidate.ownerName context →
      filter.isPlain = true ∨ context.SharesOwners other →
      other.accept filter candidate = context.accept filter candidate
  | .name _, _, _, _ => by rw [accept, accept]
  | .className _, _, hname, _ => by rw [accept, accept, hname]
  | .hasParam _, _, _, _ => by rw [accept, accept]
  | .hasSupertype filters, candidate, _, hplain => by
    have hshares := hplain.resolve_left Bool.false_ne_true
    rw [accept, accept, hshares.owner_eq, hshares.index_eq]
    cases candidate.owner context with
    | none => rfl
    | some cls =>
      dsimp only
      congr 1
      funext ancestor
      congr 1
      funext name
      exact acceptAll_congr hast filters (hshares.ownerName_eq _) (Or.inr hshares)
  | .isSupertype, _, _, _ => by rw [accept, accept, hast]
  | .isInMethod filters, _, _, hplain => by
    have hshares := hplain.resolve_left Bool.false_ne_true
    rw [accept, accept, hast]
    congr 1
    funext method
    exact acceptAll_congr hast filters (hshares.ownerName_eq method) (Or.inr hshares)
  | .not filters, _, hname, hplain => by
    rw [accept, accept, acceptAll_congr hast filters hname hplain]
  | .and filters, _, hname, hplain => by
    rw [accept, accept, acceptAll_congr hast filters hname hplain]

theorem acceptAll_congr (hast : other.ast = context.ast) :
    ∀ (filters : List Filter) {candidate : Candidate},
      candidate.ownerName other = candidate.ownerName context →
      Filter.arePlain filters = true ∨ context.SharesOwners other →
      other.acceptAll filters candidate = context.acceptAll filters candidate
  | [], _, _, _ => by rw [acceptAll, acceptAll]
  | filter :: rest, _, hname, hplain => by
    rw [Filter.arePlain, Bool.and_eq_true] at hplain
    rw [acceptAll, acceptAll, accept_congr hast filter hname (hplain.imp_left And.left),
      acceptAll_congr hast rest hname (hplain.imp_left And.right)]

end

/-! ## Searching for references -/

theorem search_of_classRef (context : CallContext) {query : Query} (hkind : query.kind = .classRef) :
    context.search query = context.hits query.filters context.classReferences := by
  unfold search Query.orderedFilters
  rw [hkind]
  rfl

/-- The class of a reference has the name that the reference spells out, whatever the index. -/
theorem ownerName_of_mem_classReferences {candidate : Candidate}
    (h : candidate ∈ context.classReferences) (other another : CallContext) :
    candidate.ownerName other = candidate.ownerName another := by
  obtain ⟨id, _, hcandidate⟩ := List.mem_filterMap.1 h
  obtain ⟨name, _, rfl⟩ := Option.map_eq_some_iff.1 hcandidate
  rfl

/-- A search for references finds the same where the same is spelled out, unless a filter asks for
more. -/
theorem search_classRef_congr {query : Query} (hkind : query.kind = .classRef)
    (hast : other.ast = context.ast)
    (hpath : other.types.unit.path = context.types.unit.path)
    (hreferences : other.classReferences = context.classReferences)
    (hplain : Filter.arePlain query.filters = true ∨ context.SharesOwners other) :
    other.search query = context.search query := by
  rw [search_of_classRef other hkind, search_of_classRef context hkind, hreferences]
  unfold hits
  apply List.filterMap_congr
  intro candidate hcandidate
  rw [acceptAll_congr hast query.filters (ownerName_of_mem_classReferences hcandidate other context)
    hplain]
  congr 1
  funext captures
  unfold hit
  rw [hpath, show other.types.unit.ast = context.types.unit.ast from hast]

end CallContext

/-! ## Imports -/

/-- What was filtered out would not have been found. -/
theorem find?_filter_and {α : Type} (keep test : α → Bool) (list : List α) :
    (list.filter keep).find? (fun value => keep value && test value) =
      list.find? (fun value => keep value && test value) := by
  rw [List.find?_filter]
  congr 1
  funext value
  cases keep value <;> simp

namespace Source.CompilationUnit

/-- The unit with the imports of single classes and no others. -/
def onlySingleTypes (unit : CompilationUnit) : CompilationUnit :=
  { unit with imports := unit.imports.filter Import.isSingleType }

theorem explicitImport?_onlySingleTypes (unit : CompilationUnit) (simple : String) :
    unit.onlySingleTypes.explicitImport? simple = unit.explicitImport? simple := by
  unfold explicitImport? onlySingleTypes
  exact find?_filter_and Import.isSingleType _ unit.imports

/-- The last segments of the imports of single classes. -/
def importedNames (unit : CompilationUnit) : List String :=
  (unit.imports.filter Import.isSingleType).map Import.simpleName

theorem mem_importedNames {unit : CompilationUnit} {simple : String} {imp : Import}
    (h : unit.explicitImport? simple = some imp) : simple ∈ unit.importedNames := by
  have hmem := List.mem_of_find?_eq_some h
  have hfound := List.find?_some h
  rw [Bool.and_eq_true, beq_iff_eq] at hfound
  exact List.mem_map.2 ⟨imp, List.mem_filter.2 ⟨hmem, hfound.1⟩, hfound.2⟩

end Source.CompilationUnit

namespace CallContext

/-- Imports on demand and static imports spell out no class. -/
theorem referencedName_onlySingleTypes (unit : CompilationUnit) (id : Nat) :
    referencedName unit.onlySingleTypes id = referencedName unit id := by
  have himports : (unit.onlySingleTypes.imports.reverse.find?
      fun imp => imp.isSingleType && imp.node == id) =
      unit.imports.reverse.find? fun imp => imp.isSingleType && imp.node == id := by
    unfold CompilationUnit.onlySingleTypes
    rw [← List.filter_reverse]
    exact find?_filter_and Import.isSingleType _ unit.imports.reverse
  unfold referencedName
  rw [himports]
  simp only [CompilationUnit.explicitImport?_onlySingleTypes]
  rfl

theorem classReferences_onlySingleTypes (index : Index) (unit : CompilationUnit)
    (project : Option ItemId) :
    classReferences ⟨index, ⟨unit.onlySingleTypes, project⟩⟩ =
      classReferences ⟨index, ⟨unit, project⟩⟩ := by
  unfold classReferences
  show unit.ast.ids.filterMap _ = unit.ast.ids.filterMap _
  apply List.filterMap_congr
  intro id _
  rw [referencedName_onlySingleTypes]

/-- No filter looks at the imports of a unit. -/
theorem sharesOwners_onlySingleTypes (index : Index) (unit : CompilationUnit)
    (project : Option ItemId) :
    SharesOwners ⟨index, ⟨unit, project⟩⟩ ⟨index, ⟨unit.onlySingleTypes, project⟩⟩ := by
  refine ⟨rfl, fun candidate => ?_⟩
  unfold Candidate.owner
  cases candidate.source <;> rfl

/-- A simple type is a reference only if an import of a single class brings its name in. -/
theorem mem_importedNames_of_mem_search (context : CallContext) {query : Query}
    (hkind : query.kind = .classRef) {id : Nat} (hsimple : context.ast.kind id = .simpleType)
    (hnode : id ∈ (context.search query).map SearchHit.node) :
    Text.dropBlanks (context.ast.text id) ∈ context.types.unit.importedNames := by
  obtain ⟨found, hfound, rfl⟩ := List.mem_map.1 hnode
  rw [search_of_classRef context hkind, hits] at hfound
  obtain ⟨candidate, hcandidate, htaken⟩ := List.mem_filterMap.1 hfound
  obtain ⟨captures, _, rfl⟩ := Option.map_eq_some_iff.1 htaken
  obtain ⟨id, _, hid⟩ := List.mem_filterMap.1 hcandidate
  obtain ⟨name, hname, rfl⟩ := Option.map_eq_some_iff.1 hid
  have hkindOf : context.types.unit.ast.kind id = .simpleType := hsimple
  unfold referencedName at hname
  rw [hkindOf] at hname
  obtain ⟨imp, himp, _⟩ := Option.map_eq_some_iff.1 hname
  exact CompilationUnit.mem_importedNames himp

/-- References to classes are found by what the file spells out.  With filters on names, numbers of
parameters and positions, any two indices and projects give the same results.  Whatever the filters,
imports on demand and static imports change no result, and a simple type whose name no import of a
single class ends in is never found. -/
theorem class_references_spelled_out (unit : CompilationUnit) {query : Query}
    (hkind : query.kind = .classRef) :
    (Filter.arePlain query.filters = true →
      ∀ (index another : Index) (project owner : Option ItemId),
        search ⟨another, ⟨unit, owner⟩⟩ query = search ⟨index, ⟨unit, project⟩⟩ query) ∧
    ∀ (index : Index) (project : Option ItemId),
      search ⟨index, ⟨unit.onlySingleTypes, project⟩⟩ query =
        search ⟨index, ⟨unit, project⟩⟩ query ∧
      ∀ id, unit.ast.kind id = .simpleType →
        Text.dropBlanks (unit.ast.text id) ∉ unit.importedNames →
        id ∉ (search ⟨index, ⟨unit, project⟩⟩ query).map SearchHit.node := by
  constructor
  · intro hplain index another project owner
    exact search_classRef_congr hkind rfl rfl rfl (Or.inl hplain)
  · intro index project
    constructor
    · refine search_classRef_congr hkind ?_ ?_ ?_
        (Or.inr (sharesOwners_onlySingleTypes index unit project))
      · rfl
      · rfl
      · exact classReferences_onlySingleTypes index unit project
    · intro id hsimple hname hfound
      let context : CallContext := ⟨index, ⟨unit, project⟩⟩
      exact hname (mem_importedNames_of_mem_search context hkind hsimple hfound)

/-- A class that extends a class it imports, and uses one that an import on demand may bring in. -/
def importingUnit : CompilationUnit :=
  .parse "A.java" "import p.List; import q.*; class A extends List \x7b Set s; \x7d"
    ⟨.node "program" none 0 58
      [.node "import_declaration" none 0 14 [.node "scoped_identifier" none 7 13 []],
        .node "import_declaration" none 15 26 [.node "identifier" none 22 23 [],
          .node "asterisk" none 24 25 []],
        .node "class_declaration" none 27 58 [.node "identifier" (some "name") 33 34 [],
          .node "superclass" (some "superclass") 35 47 [.node "type_identifier" none 43 47 []],
          .node "class_body" (some "body") 48 58 [.node "field_declaration" none 50 56
            [.node "type_identifier" (some "type") 50 53 [],
              .node "variable_declarator" (some "declarator") 54 55
                [.node "identifier" (some "name") 54 55 []]]]]], false⟩

/-- In every index, the import and the supertype are the references; the type of the field is none. -/
theorem class_references_of_importingUnit :
    let query : Query := ⟨.classRef, [.not [.className (.literal "q.Set")],
      .not [.isSupertype, .hasParam ⟨.eq, 0⟩]]⟩
    query.kind = .classRef ∧ Filter.arePlain query.filters = true ∧
    importingUnit.ast.kind 10 = .simpleType ∧ importingUnit.importedNames = ["List"] ∧
    (importingUnit.imports.length, importingUnit.onlySingleTypes.imports.length) = (2, 1) ∧
    ∀ (index : Index) (project : Option ItemId),
      (search ⟨index, ⟨importingUnit, project⟩⟩ query).map SearchHit.node = [1, 8] ∧
      (search ⟨index, ⟨importingUnit.onlySingleTypes, project⟩⟩ query).map SearchHit.node =
        [1, 8] ∧
      10 ∉ (search ⟨index, ⟨importingUnit, project⟩⟩ query).map SearchHit.node := by
  intro query
  have hplain : Filter.arePlain query.filters = true := rfl
  have hsimple : importingUnit.ast.kind 10 = .simpleType := by decide +kernel
  have hnames : importingUnit.importedNames = ["List"] := by decide +kernel
  have hkind : query.kind = .classRef := rfl
  have hfound : (search ⟨.empty 1, ⟨importingUnit, none⟩⟩ query).map SearchHit.node = [1, 8] := by
    decide +kernel
  obtain ⟨hindices, hspelled⟩ := class_references_spelled_out importingUnit hkind
  refine ⟨rfl, hplain, hsimple, hnames, by decide +kernel, fun index project => ?_⟩
  obtain ⟨himports, hnone⟩ := hspelled index project
  rw [himports, hindices hplain (.empty 1) index none project]
  refine ⟨hfound, hfound, ?_⟩
  rw [← hindices hplain (.empty 1) index none project]
  exact hnone 10 hsimple (by decide +kernel)

end CallContext

end CodeAtlas
