/-
# Names among builtin classes and arrays

Builtin classes and arrays have reserved names, so an index with more of them lies around the index as
it was, and a name that holds no reserved segment is resolved alike in both.
-/
import CodeAtlas.Proofs.Resolve.Lookups
import CodeAtlas.Proofs.Resolve.Names

namespace CodeAtlas

open Source

/-! ## An index among what was made later -/

namespace Index

variable {a b index : Index}

/-- The handles of an index, and no others. -/
def keep? (index : Index) (id : ItemId) : Option ItemId :=
  if index.contains id then some id else none

theorem keep?_eq_some {id : ItemId} (h : index.contains id) : index.keep? id = some id :=
  if_pos h

theorem contains_of_keep? {id new : ItemId} (h : index.keep? id = some new) :
    index.contains id ∧ new = id := by
  rw [keep?] at h
  split at h
  · rename_i hin
    exact ⟨hin, (Option.some.inj h).symm⟩
  · simp at h

theorem rel_keep? {found : Option ItemId} (h : ∀ id ∈ found, index.contains id) :
    Sends? index.keep? found found := by
  cases found with
  | none => exact .none
  | some id => exact .some (keep?_eq_some (h id rfl))

theorem eq_of_rel_keep? {found found' : Option ItemId} (h : Sends? index.keep? found found') :
    found' = found := by
  cases h with
  | none => rfl
  | some hsends => rw [(contains_of_keep? hsends).2]

theorem Assembled.isImage_keep? (h : index.Assembled) {id : ItemId} {item later : Item}
    (hget : index.get? id = some item) (hstays : item.Stays later) :
    later.IsImage index.keep? item := by
  have hlink : ∀ key, key ≠ AttrKey.paramTypes →
      Sends? index.keep? (later.attributes.id? key) (item.attributes.id? key) := by
    intro key hkey
    rw [hstays.attributes_eq]
    exact rel_keep? (fun target htarget => h.joined hget key target hkey (Item.records_of_id? htarget))
  refine ⟨hstays.name_eq.symm, hstays.kind_eq.symm, ?_, hlink .superclass (by decide), ?_,
    hlink .returnType (by decide), hlink .fieldType (by decide), ?_⟩
  · rw [hstays.parent_eq]
    refine rel_keep? (fun owner howner => ?_)
    have hparent : item.parent = some owner := howner
    exact h.coherent.consistent.resolves id item hget owner (by simp [hparent])
  · have hsame : later.superinterfaces = item.superinterfaces := by
      rw [Item.superinterfaces, Item.superinterfaces, hstays.attributes_eq]
    rw [hsame, List.forall₂_same]
    exact fun target htarget => keep?_eq_some
      (h.joined hget _ target (by decide) (Item.records_of_mem_superinterfaces htarget))
  · rw [Item.paramTypes, Item.paramTypes, Item.paramTypes?, Item.paramTypes?, hstays.attributes_eq]

namespace Furnishes

theorem bears_eq (h : Furnishes a b) (key : ItemKey) {id : ItemId} (hid : a.contains id) :
    b.bears key id = a.bears key id := by
  rw [Bool.eq_iff_iff]
  exact ⟨fun hb => has_iff_bears.1 (h.has_of_contains hid (has_iff_bears.2 hb)),
    fun ha => has_iff_bears.1 (h.has (has_iff_bears.2 ha))⟩

theorem bearsName_eq (h : Furnishes a b) (key : NameKey) {id : ItemId} (hid : a.contains id) :
    b.bearsName key id = a.bearsName key id := by
  obtain ⟨item, hget⟩ := Option.isSome_iff_exists.1 hid
  obtain ⟨later, hlater, hstays⟩ := h.stays hget
  rw [bearsName, bearsName, hget, hlater]
  simp [hstays.name_eq, hstays.kind_eq]

/-- A list of items by a test that both indices agree on. -/
theorem filterMap_filter_ids (h : Furnishes a b) (ha : a.IsStacked) (hb : b.IsStacked)
    {p q : ItemId → Bool} (hpq : ∀ id, a.contains id → q id = p id) :
    (b.ids.filter q).filterMap a.keep? = a.ids.filter p := by
  obtain ⟨rest, hrest⟩ := h.ids_prefix
  have hnodup := ids_nodup hb
  rw [← hrest] at hnodup
  have hnew : ∀ id ∈ rest, a.keep? id = none := by
    intro id hid
    rw [keep?, if_neg]
    intro hin
    exact (List.nodup_append.1 hnodup).2.2 id ((mem_ids_iff ha).2 hin) id hid rfl
  have hold : a.ids.filter q = a.ids.filter p :=
    List.filter_congr (fun id hid => hpq id ((mem_ids_iff ha).1 hid))
  rw [← hrest, List.filter_append, List.filterMap_append, hold]
  have hlast : (rest.filter q).filterMap a.keep? = [] :=
    List.filterMap_eq_nil_iff.2 (fun id hid => hnew id (List.mem_filter.1 hid).1)
  have hfirst : (a.ids.filter p).filterMap a.keep? = (a.ids.filter p).map id := by
    rw [← List.filterMap_eq_map]
    refine List.filterMap_congr (fun id hid => ?_)
    exact keep?_eq_some ((mem_ids_iff ha).1 (List.mem_filter.1 hid).1)
  rw [hfirst, hlast, List.map_id, List.append_nil]

theorem findItem_eq (h : Furnishes a b) (ha : a.Assembled) (hb : b.Assembled)
    (owner : Option ItemId) (name : String) {kind : ItemKind} (hkind : kind ≠ .method) :
    a.findItem owner name kind = (b.findItem owner name kind).bind a.keep? := by
  have hback : ∀ {id : ItemId}, a.findItem owner name kind = some id →
      b.findItem owner name kind = some id := fun hfound =>
    (hb.findItem_eq_some_iff hkind).2 (h.has ((ha.findItem_eq_some_iff hkind).1 hfound))
  cases hfound : b.findItem owner name kind with
  | none =>
    cases hbefore : a.findItem owner name kind with
    | none => rfl
    | some id => exact absurd ((hback hbefore).symm.trans hfound) (by simp)
  | some id =>
    rw [Option.bind_some, keep?]
    split
    · rename_i hin
      have hhas := (hb.findItem_eq_some_iff hkind).1 hfound
      exact (ha.findItem_eq_some_iff hkind).2 (h.has_of_contains hin hhas)
    · rename_i hout
      cases hbefore : a.findItem owner name kind with
      | none => rfl
      | some other =>
        obtain rfl := Option.some.inj ((hback hbefore).symm.trans hfound)
        exact absurd ((ha.findItem_eq_some_iff hkind).1 hbefore).isKind.contains hout

/-- An index lies in what it was furnished to. -/
theorem embeds (h : Furnishes a b) (ha : a.Assembled) (hb : b.Assembled) : b.Embeds a.keep? a where
  coherent := hb.coherent
  source := hb.walkable
  target := ha.walkable
  injective := by
    intro id other new hid hother
    rw [← (contains_of_keep? hid).2, (contains_of_keep? hother).2]
  image := by
    intro id new hnew
    obtain ⟨hin, rfl⟩ := contains_of_keep? hnew
    obtain ⟨item, hget⟩ := Option.isSome_iff_exists.1 hin
    obtain ⟨later, hlater, hstays⟩ := h.stays hget
    exact ⟨later, item, hlater, hget, ha.isImage_keep? hget hstays⟩
  findItem_eq := by
    intro owner new howner name kind hkind
    rw [eq_of_rel_keep? howner]
    exact h.findItem_eq ha hb owner name hkind
  findMethods_eq := by
    intro owner new hnew name
    rw [(contains_of_keep? hnew).2, ha.coherent.registered.findAll_eq,
      hb.coherent.registered.findAll_eq]
    exact (h.filterMap_filter_ids ha.coherent.stacked hb.coherent.stacked
      (fun id hid => h.bears_eq _ hid)).symm
  findPackages_eq := by
    intro name
    rw [ha.coherent.registered.findByName_eq, hb.coherent.registered.findByName_eq]
    exact (h.filterMap_filter_ids ha.coherent.stacked hb.coherent.stacked
      (fun id hid => h.bearsName_eq _ hid)).symm

/-- A class whose name ends in no reserved segment was there before. -/
theorem contains_of_endsLike (h : Furnishes a b) {id : ItemId} {name : String}
    (hid : b.EndsLike id name) (hname : ¬ Item.IsReserved (Text.lastPiece '.' name)) :
    a.contains id := by
  obtain ⟨item, hget, hkind, hitem⟩ := hid
  refine h.contains_of_not_reserved hget hkind (fun hreserved => hname ?_)
  rw [← hitem]
  exact hreserved.lastPiece

/-- What was there before stands in a project that was there before. -/
theorem projectOf_ne (h : Furnishes a b) (ha : a.Assembled) (hb : b.Assembled) {id project : ItemId}
    (hid : a.contains id) (hproject : ¬ a.contains project) : b.projectOf id ≠ some project := by
  intro howner
  have hrel := (h.embeds ha hb).rel_ownerOfKind .project (keep?_eq_some hid)
  rw [projectOf] at howner
  rw [howner] at hrel
  generalize a.ownerOfKind .project id = owner at hrel
  cases hrel with
  | some hsends => exact hproject (contains_of_keep? hsends).1

end Furnishes

end Index

/-! ## A project that is not in the index -/

namespace TypeResolver

variable {a b : Index} {unit : CompilationUnit} {project : ItemId}

/-- Two lookups that agree at each place agree. -/
theorem congr_orElse {first first' second second' : Option ItemId} :
    first = first' → second = second' →
      (match first with | some id => some id | none => second) =
        (match first' with | some id => some id | none => second') := by
  rintro rfl rfl
  rfl

theorem findSome?_congr {α : Type} {f g : α → Option ItemId} {list : List α}
    (h : ∀ value ∈ list, f value = g value) : list.findSome? f = list.findSome? g := by
  induction list with
  | nil => rfl
  | cons first rest ih =>
    rw [List.findSome?_cons, List.findSome?_cons, h first List.mem_cons_self,
      ih (fun value hvalue => h value (List.mem_cons_of_mem _ hvalue))]

theorem ownClass_of_foreign (h : Index.Furnishes a b) (ha : a.Assembled) (hb : b.Assembled)
    (hproject : ¬ a.contains project) {name : String}
    (hname : ¬ Item.IsReserved (Text.lastPiece '.' name)) :
    ownClass ⟨unit, some project⟩ b name = ownClass ⟨unit, none⟩ b name := by
  rw [ownClass, ownClass, preferOwn, preferOwn, Index.preferProject, Index.preferProject]
  have hnone : (b.findClasses name).find? (fun id => b.projectOf id == some project) = none := by
    rw [List.find?_eq_none]
    intro id hid howner
    have hin := h.contains_of_endsLike (hb.coherent.endsLike_of_mem_findClasses hid) hname
    exact h.projectOf_ne ha hb hin hproject (beq_iff_eq.1 howner)
  rw [Option.bind_some, hnone, Option.bind_none]

/-- Asking the packages of a project first does not matter where these have nothing to answer. -/
theorem findSome?_filter_append {α β : Type} {f : α → Option β} {p : α → Bool} (list : List α)
    (h : ∀ value ∈ list, p value = true → f value = none) :
    (list.filter p ++ list.filter (fun value => !p value)).findSome? f = list.findSome? f := by
  have hfirst : (list.filter p).findSome? f = none := by
    rw [List.findSome?_eq_none_iff]
    intro value hvalue
    obtain ⟨hin, hp⟩ := List.mem_filter.1 hvalue
    exact h value hin hp
  rw [List.findSome?_append, hfirst, Option.none_or]
  clear hfirst
  induction list with
  | nil => rfl
  | cons first rest ih =>
    have hrest := ih (fun value hvalue => h value (List.mem_cons_of_mem _ hvalue))
    rw [List.filter_cons, List.findSome?_cons]
    cases hp : p first with
    | true => simpa [h first List.mem_cons_self hp] using hrest
    | false =>
      rw [Bool.not_false, if_pos rfl, List.findSome?_cons, hrest]

theorem classInPackage_of_foreign (h : Index.Furnishes a b) (ha : a.Assembled) (hb : b.Assembled)
    (hproject : ¬ a.contains project) {name : String} (hname : ¬ Item.IsReserved name) :
    classInPackage ⟨unit, some project⟩ b name = classInPackage ⟨unit, none⟩ b name := by
  refine findSome?_filter_append (b.findByName .package unit.package) (fun package _ howner => ?_)
  cases hfind : b.findItem (some package) name .class with
  | none => rfl
  | some id =>
    -- the class was there before, and so was its package
    obtain ⟨item, hget, hparent, hkind, rfl⟩ := hb.coherent.get?_of_findItem (by decide) hfind
    have hin := h.contains_of_not_reserved hget hkind hname
    obtain ⟨before, hbefore, howned, _⟩ :=
      h.has_of_contains hin ⟨item, hget, hparent, hkind, rfl⟩
    have hpackage : a.contains package :=
      ha.coherent.consistent.resolves id before hbefore package (by simp [howned])
    exact absurd (beq_iff_eq.1 howner) (h.projectOf_ne ha hb hpackage hproject)

theorem classInSight_of_foreign (h : Index.Furnishes a b) (ha : a.Assembled) (hb : b.Assembled)
    (hproject : ¬ a.contains project)
    (hdeclared : ∀ decl ∈ unit.typeDeclarations, ∀ nested ∈ unit.ast.nestedName decl,
      ¬ Item.IsReserved nested) (simple : String) {decl : Nat} (hdecl : decl ∈ unit.typeDeclarations) :
    classInSight ⟨unit, some project⟩ b simple decl = classInSight ⟨unit, none⟩ b simple decl := by
  have hclass : classOfDecl ⟨unit, some project⟩ b decl = classOfDecl ⟨unit, none⟩ b decl := by
    rw [classOfDecl, classOfDecl]
    dsimp only
    cases hnested : unit.ast.nestedName decl with
    | none => rfl
    | some nested => exact classInPackage_of_foreign h ha hb hproject (hdeclared decl hdecl nested hnested)
  rw [classInSight, classInSight, hclass]

theorem lookupSimple_of_foreign (h : Index.Furnishes a b) (ha : a.Assembled) (hb : b.Assembled)
    (hproject : ¬ a.contains project)
    (hdeclared : ∀ decl ∈ unit.typeDeclarations, ∀ nested ∈ unit.ast.nestedName decl,
      ¬ Item.IsReserved nested) {simple : String} (hdot : '.' ∉ simple.toList)
    (hsimple : ¬ Item.IsReserved simple) (node : Nat) :
    lookupSimple ⟨unit, some project⟩ b node simple = lookupSimple ⟨unit, none⟩ b node simple := by
  have hlast : ∀ {name : String}, Text.lastPiece '.' name = Text.lastPiece '.' simple →
      ownClass ⟨unit, some project⟩ b name = ownClass ⟨unit, none⟩ b name := by
    intro name hname
    rw [Text.lastPiece_eq_self hdot] at hname
    exact ownClass_of_foreign h ha hb hproject (hname ▸ hsimple)
  rw [lookupSimple, lookupSimple]
  refine congr_orElse ?_ (congr_orElse ?_ (congr_orElse ?_ (congr_orElse ?_ ?_)))
  · refine findSome?_congr (fun decl hdecl => ?_)
    exact classInSight_of_foreign h ha hb hproject hdeclared simple
      (CompilationUnit.mem_typeDeclarations (List.mem_filter.1 hdecl).2)
  · cases himp : unit.explicitImport? simple with
    | none => rfl
    | some imp =>
      have hfound := List.find?_some himp
      simp only [Bool.and_eq_true, beq_iff_eq] at hfound
      refine hlast ?_
      rw [Text.lastPiece_eq_self hdot]
      exact hfound.2
  · exact classInPackage_of_foreign h ha hb hproject hsimple
  · exact findSome?_congr (fun imp _ => hlast (Text.lastPiece_dotted imp.name simple))
  · exact hlast (Text.lastPiece_dotted "java.lang" simple)

/-- A project that is not in the index has no say in what a name stands for. -/
theorem lookupClassName_of_foreign (h : Index.Furnishes a b) (ha : a.Assembled) (hb : b.Assembled)
    (hproject : ¬ a.contains project)
    (hdeclared : ∀ decl ∈ unit.typeDeclarations, ∀ nested ∈ unit.ast.nestedName decl,
      ¬ Item.IsReserved nested) {name : String}
    (hname : ∀ segment ∈ Text.splitOn '.' name, ¬ Item.IsReserved segment) (node : Nat) :
    lookupClassName ⟨unit, some project⟩ b node name = lookupClassName ⟨unit, none⟩ b node name := by
  have hsimple := fun {simple : String} (hdot : '.' ∉ simple.toList)
      (hin : simple ∈ Text.splitOn '.' name) =>
    lookupSimple_of_foreign h ha hb hproject hdeclared hdot (hname simple hin) node
  rw [lookupClassName, lookupClassName]
  refine congr_orElse rfl ?_
  cases hsplit : Text.splitOnce '.' name with
  | none =>
    have hdot : '.' ∉ name.toList := Text.notMem_of_splitOnce_eq_none hsplit
    refine hsimple hdot ?_
    rw [Text.splitOn_eq_singleton hdot]
    exact List.mem_singleton_self name
  | some cut =>
    obtain ⟨head, rest⟩ := cut
    refine congr_orElse (ownClass_of_foreign h ha hb hproject
      (hname _ (Text.lastPiece_mem_splitOn '.' name))) ?_
    rw [hsimple (Text.exists_of_splitOnce hsplit).2 (Text.head_mem_splitOn hsplit)]

end TypeResolver

/-! ## Names that are resolved alike -/

namespace TypeResolver

variable {types : TypeResolver} {a b : Index}

/-- The types that a unit declares, and the segments of a type name written in it, have no reserved
names; a keyword is written by itself. -/
structure Spells (types : TypeResolver) (name : String) : Prop where
  declared : ∀ decl ∈ types.unit.typeDeclarations, ∀ nested ∈ types.unit.ast.nestedName decl,
    ¬ Item.IsReserved nested
  written : primitives.contains name = true ∨
    ∀ segment ∈ Text.splitOn '.' name, ¬ Item.IsReserved segment

theorem kept_declaredClasses (h : Index.Furnishes a b) (hb : b.Coherent)
    (hdeclared : ∀ decl ∈ types.unit.typeDeclarations, ∀ nested ∈ types.unit.ast.nestedName decl,
      ¬ Item.IsReserved nested) :
    Kept a.keep? (CallContext.declaredClasses ⟨b, types⟩) := by
  intro id hid
  obtain ⟨decl, hdecl, hclass⟩ := List.mem_filterMap.1 hid
  obtain ⟨nested, hnested, hfound⟩ := Option.bind_eq_some_iff.1 hclass
  obtain ⟨package, _, hfind⟩ := List.exists_of_findSome?_eq_some hfound
  obtain ⟨item, hget, _, hkind, rfl⟩ := hb.get?_of_findItem (by decide) hfind
  have hin := h.contains_of_not_reserved hget hkind (hdeclared decl hdecl item.name hnested)
  exact Option.isSome_iff_exists.2 ⟨id, Index.keep?_eq_some hin⟩

theorem kept_nameReads (h : Index.Furnishes a b) (hb : b.Coherent) {name : String}
    (hname : ∀ segment ∈ Text.splitOn '.' name, ¬ Item.IsReserved segment) (node : Nat) :
    Kept a.keep? (types.nameReads b node name) := by
  have hkept : ∀ {id : ItemId} {segment : String}, b.EndsLike id segment →
      ¬ Item.IsReserved (Text.lastPiece '.' segment) → (a.keep? id).isSome := fun hid hsegment =>
    Option.isSome_iff_exists.2 ⟨_, Index.keep?_eq_some (h.contains_of_endsLike hid hsegment)⟩
  rw [nameReads, kept_append, kept_toList, kept_toList]
  refine ⟨fun id hid => ?_, fun id hid => ?_⟩
  · exact hkept (endsLike_of_lookupClassName hb hid) (hname _ (Text.lastPiece_mem_splitOn '.' name))
  · split at hid
    · rename_i head rest hsplit _
      refine hkept (endsLike_of_lookupSimple hb hid) ?_
      rw [Text.lastPiece_eq_self (Text.exists_of_splitOnce hsplit).2]
      exact hname head (Text.head_mem_splitOn hsplit)
    · simp at hid

/-- A name without reserved segments is resolved alike however many builtin classes and arrays there
are. -/
theorem lookupClassName_furnishes (h : Index.Furnishes a b) (ha : a.Assembled) (hb : b.Assembled)
    (hdeclared : ∀ decl ∈ types.unit.typeDeclarations, ∀ nested ∈ types.unit.ast.nestedName decl,
      ¬ Item.IsReserved nested)
    {name : String} (hname : ∀ segment ∈ Text.splitOn '.' name, ¬ Item.IsReserved segment)
    (node : Nat) : types.lookupClassName b node name = types.lookupClassName a node name := by
  have hknown : ∀ project : Option ItemId, (∀ id ∈ project, a.contains id) →
      lookupClassName ⟨types.unit, project⟩ b node name =
        lookupClassName ⟨types.unit, project⟩ a node name := by
    intro project hproject
    have hembeds : CallContext.Embeds a.keep? ⟨b, ⟨types.unit, project⟩⟩ ⟨a, ⟨types.unit, project⟩⟩ :=
      ⟨h.embeds ha hb, rfl, Index.rel_keep? hproject, kept_declaredClasses h hb.coherent hdeclared⟩
    exact (Index.eq_of_rel_keep?
      (hembeds.rel_lookupClassName (kept_nameReads h hb.coherent hname node))).symm
  obtain ⟨unit, project⟩ := types
  cases project with
  | none => exact hknown none (by simp)
  | some project =>
    by_cases hproject : a.contains project
    · exact hknown (some project) (by simpa using hproject)
    · rw [lookupClassName_of_foreign h ha hb hproject hdeclared hname,
        lookupClassName_of_foreign (Index.Furnishes.refl a) ha ha hproject hdeclared hname]
      exact hknown none (by simp)

end TypeResolver

end CodeAtlas
