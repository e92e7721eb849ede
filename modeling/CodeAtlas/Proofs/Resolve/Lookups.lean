/-
# Names in an index that lies in another

A unit is resolved against an index and against one that lies in it.  A lookup that tries several
places stops at the first answer, so it gives the same class in both as soon as the classes it rests
on have new names.
-/
import CodeAtlas.Proofs.Index.Embedding
import CodeAtlas.Proofs.Resolve.Reads

namespace CodeAtlas

open Source

variable {rename? : ItemId → Option ItemId}

/-! ## Kept handles -/

/-- Every handle of a list has a new name. -/
def Kept (rename? : ItemId → Option ItemId) (ids : List ItemId) : Prop :=
  ∀ id ∈ ids, (rename? id).isSome

theorem kept_append {ids others : List ItemId} :
    Kept rename? (ids ++ others) ↔ Kept rename? ids ∧ Kept rename? others :=
  List.forall_mem_append

theorem kept_toList {found : Option ItemId} :
    Kept rename? found.toList ↔ ∀ id ∈ found, (rename? id).isSome := by
  simp only [Kept, Option.mem_toList, Option.mem_def]

/-- Renaming and a test that it does not change can be exchanged. -/
theorem filter_filterMap {p q : ItemId → Bool}
    (hpq : ∀ id new, rename? id = some new → q new = p id) (ids : List ItemId) :
    (ids.filterMap rename?).filter q = (ids.filter p).filterMap rename? := by
  induction ids with
  | nil => rfl
  | cons first rest ih =>
    rw [List.filter_cons]
    cases hfirst : rename? first with
    | none =>
      rw [List.filterMap_cons_none hfirst, ih]
      split
      · rw [List.filterMap_cons_none hfirst]
      · rfl
    | some new =>
      rw [List.filterMap_cons_some hfirst, List.filter_cons, hpq first new hfirst, ih]
      split
      · rw [List.filterMap_cons_some hfirst]
      · rfl

/-- A second lookup where the first finds nothing. -/
theorem Echoes.orElse {found found' other other' : Option ItemId} :
    Echoes rename? found found' → Echoes rename? other other' →
      Echoes rename? (match found with | some id => some id | none => other)
        (match found' with | some id => some id | none => other') := by
  intro h hother
  have hor : ∀ first second : Option ItemId,
      (match first with | some id => some id | none => second) = first.or second := by
    intro first second
    cases first <;> rfl
  rw [hor, hor]
  exact h.or hother

/-- A lookup that depends on a value that both know. -/
theorem Echoes.bind {α : Type} {f g : α → Option ItemId} (value : Option α)
    (h : ∀ known, Echoes rename? (f known) (g known)) :
    Echoes rename? (value.bind f) (value.bind g) := by
  cases value with
  | none => exact Echoes.nothing
  | some known => exact h known

/-- The arrays over a class with a new name. -/
theorem Index.Embeds.echoes_arrayOver {a b : Index} (h : a.Embeds rename? b) {id new : ItemId}
    (hnew : Sends rename? id new) (dims : Nat) :
    Echoes rename? (a.arrayOver dims id) (b.arrayOver dims new) := by
  obtain ⟨item, image, hget, hget', himage⟩ := h.image hnew
  rw [Index.arrayOver, Index.arrayOver, hget, hget']
  split
  · exact .of_rel (.some hnew)
  · dsimp only
    rw [himage.name_eq]
    exact .of_bind (h.findItem_eq himage.parent _ .class (by decide))

/-! ## Contexts -/

/-- A node with a kind of its own is a node of the tree. -/
theorem Source.Ast.mem_ids_of_kind_ne {ast : Ast} {id : Nat} (h : ast.kind id ≠ .other) :
    id ∈ ast.ids := by
  rw [Ast.ids, List.mem_range, Ast.size]
  by_contra hout
  have hnode : ast.node? id = none := Array.getElem?_eq_none (Nat.le_of_not_lt hout)
  rw [Ast.kind, hnode] at h
  exact h rfl

theorem Source.CompilationUnit.mem_typeDeclarations {unit : CompilationUnit} {decl : Nat}
    (h : (unit.ast.kind decl).isTypeDeclaration) : decl ∈ unit.typeDeclarations := by
  refine List.mem_filter.2 ⟨Ast.mem_ids_of_kind_ne (fun hother => ?_), h⟩
  rw [hother] at h
  simp [Kind.isTypeDeclaration] at h

namespace CallContext

/-- The classes of the type declarations of the unit. -/
def declaredClasses (context : CallContext) : List ItemId :=
  context.types.unit.typeDeclarations.filterMap (context.types.classOfDecl context.index)

/-- The same unit against an index and against one that lies in it.  The classes that the unit
declares have new names. -/
structure Embeds (rename? : ItemId → Option ItemId) (context context' : CallContext) : Prop where
  index : context.index.Embeds rename? context'.index
  unit_eq : context'.types.unit = context.types.unit
  project : Sends? rename? context.types.project context'.types.project
  declared : Kept rename? context.declaredClasses

namespace Embeds

variable {context context' : CallContext}

theorem ast_eq (h : context.Embeds rename? context') : context'.ast = context.ast :=
  congrArg CompilationUnit.ast h.unit_eq

/-! ### Classes of the unit -/

theorem unitPackages_eq (h : context.Embeds rename? context') :
    context'.types.unitPackages context'.index =
      (context.types.unitPackages context.index).filterMap rename? := by
  have hproject := h.project
  rw [TypeResolver.unitPackages, TypeResolver.unitPackages, h.unit_eq, h.index.findPackages_eq]
  generalize context.types.project = project at hproject
  generalize context'.types.project = project' at hproject
  cases hproject with
  | none => rfl
  | @some project project' hsends =>
    have hown := fun id new (hnew : rename? id = some new) => h.index.projectOf_beq hnew hsends
    dsimp only
    rw [List.filterMap_append, filter_filterMap hown, filter_filterMap (fun id new hnew =>
      congrArg (!·) (hown id new hnew))]

theorem echoes_classInPackage (h : context.Embeds rename? context') (name : String) :
    Echoes rename? (context.types.classInPackage context.index name)
      (context'.types.classInPackage context'.index name) := by
  rw [TypeResolver.classInPackage, TypeResolver.classInPackage, h.unitPackages_eq]
  refine Echoes.findSome?_filterMap _ (fun package new hnew => ?_)
    (fun package found hfound hsome => h.index.isSome_owner (by decide) hfound hsome)
  exact .of_bind (h.index.findItem_eq (.some hnew) name .class (by decide))

theorem echoes_classOfDecl (h : context.Embeds rename? context') (decl : Nat) :
    Echoes rename? (context.types.classOfDecl context.index decl)
      (context'.types.classOfDecl context'.index decl) := by
  rw [TypeResolver.classOfDecl, TypeResolver.classOfDecl, h.unit_eq]
  exact Echoes.bind _ h.echoes_classInPackage

/-- The class of a type declaration has a new name. -/
theorem rel_classOfDecl (h : context.Embeds rename? context') {decl : Nat}
    (hdecl : (context.ast.kind decl).isTypeDeclaration) :
    Sends? rename? (context.types.classOfDecl context.index decl)
      (context'.types.classOfDecl context'.index decl) := by
  refine (h.echoes_classOfDecl decl).rel (fun id hid => h.declared id ?_)
  exact List.mem_filterMap.2 ⟨decl, CompilationUnit.mem_typeDeclarations hdecl, hid⟩

theorem echoes_classInSight (h : context.Embeds rename? context') (simple : String) {decl : Nat}
    (hdecl : (context.ast.kind decl).isTypeDeclaration) :
    Echoes rename? (context.types.classInSight context.index simple decl)
      (context'.types.classInSight context'.index simple decl) := by
  have hrel := h.rel_classOfDecl hdecl
  rw [TypeResolver.classInSight, TypeResolver.classInSight, h.unit_eq]
  generalize context.types.classOfDecl context.index decl = cls at hrel
  generalize context'.types.classOfDecl context'.index decl = cls' at hrel
  cases hrel with
  | none => exact Echoes.nothing
  | some hsends =>
    dsimp only
    split
    · exact .of_rel (.some hsends)
    · refine Echoes.or (.of_bind (h.index.memberClass_eq hsends simple)) ?_
      exact Echoes.findSome?_forall₂ (h.index.forall₂_supertypes hsends)
        (fun _ _ hparent => .of_bind (h.index.memberClass_eq hparent simple))

/-! ### Names -/

theorem echoes_ownClass (h : context.Embeds rename? context') (name : String) :
    Echoes rename? (context.types.ownClass context.index name)
      (context'.types.ownClass context'.index name) := by
  rw [TypeResolver.ownClass, TypeResolver.ownClass, h.index.findClasses_eq]
  exact h.index.echoes_preferProject h.project _

theorem echoes_lookupSimple (h : context.Embeds rename? context') (id : Nat) (simple : String) :
    Echoes rename? (context.types.lookupSimple context.index id simple)
      (context'.types.lookupSimple context'.index id simple) := by
  rw [TypeResolver.lookupSimple, TypeResolver.lookupSimple, h.unit_eq]
  refine Echoes.orElse ?_ (Echoes.orElse ?_ (Echoes.orElse ?_ (Echoes.orElse ?_ ?_)))
  · exact Echoes.findSome? (fun decl hdecl => h.echoes_classInSight simple (List.mem_filter.1 hdecl).2)
  · exact Echoes.bind _ (fun imp => h.echoes_ownClass imp.name)
  · exact h.echoes_classInPackage simple
  · exact Echoes.findSome? (fun imp _ => h.echoes_ownClass _)
  · exact h.echoes_ownClass _

/-- The class of a name is the same when the answers behind it have new names. -/
theorem rel_lookupClassName (h : context.Embeds rename? context') {id : Nat} {name : String}
    (hkept : Kept rename? (context.types.nameReads context.index id name)) :
    Sends? rename? (context.types.lookupClassName context.index id name)
      (context'.types.lookupClassName context'.index id name) := by
  rw [TypeResolver.nameReads, kept_append, kept_toList, kept_toList] at hkept
  obtain ⟨hfound, hhead⟩ := hkept
  refine Echoes.rel ?_ hfound
  rw [TypeResolver.lookupClassName, TypeResolver.lookupClassName]
  refine Echoes.orElse (.of_bind (h.index.findPrimitive_eq name)) ?_
  cases hsplit : Text.splitOnce '.' name with
  | none => exact h.echoes_lookupSimple id name
  | some cut =>
    obtain ⟨head, rest⟩ := cut
    dsimp only
    cases hown : context.types.ownClass context.index name with
    | some found =>
      refine ⟨fun hnone => absurd hnone (by simp), fun hsome hnew => ?_⟩
      cases hsome
      rw [(h.echoes_ownClass name).ofSome hown hnew]
    | none =>
      rw [(h.echoes_ownClass name).ofNone hown]
      -- the members of the first segment's class are looked at in both indices
      rw [hsplit, hown] at hhead
      have hrel := (h.echoes_lookupSimple id head).rel hhead
      generalize context.types.lookupSimple context.index id head = outer at hrel
      generalize context'.types.lookupSimple context'.index id head = outer' at hrel
      cases hrel with
      | none => exact Echoes.nothing
      | some hsends => exact .of_bind (h.index.memberClass_eq hsends rest)

/-! ### Type uses -/

theorem isTypeVariable_eq (h : context.Embeds rename? context') (id : Nat) (name : String) :
    context'.types.isTypeVariable id name = context.types.isTypeVariable id name := by
  rw [TypeResolver.isTypeVariable, TypeResolver.isTypeVariable, h.unit_eq]

theorem rel_namedType (h : context.Embeds rename? context') {id : Nat} {name : String}
    (hkept : Kept rename? (if !name.toList.contains '.' && context.types.isTypeVariable id name then
      context.index.findWildcard.toList else context.types.nameReads context.index id name)) :
    Sends? rename? (context.types.namedType context.index id name)
      (context'.types.namedType context'.index id name) := by
  rw [TypeResolver.namedType, TypeResolver.namedType, h.isTypeVariable_eq]
  split
  · rename_i hvar
    rw [if_pos hvar, kept_toList] at hkept
    exact (Echoes.of_bind (h.index.findBuiltin_eq wildcardName)).rel hkept
  · rename_i hvar
    rw [if_neg hvar] at hkept
    exact h.rel_lookupClassName hkept

/-- The class of a type use is the same when the answers behind it have new names. -/
theorem rel_lookupType (h : context.Embeds rename? context') {use : TypeUse}
    (hkept : Kept rename? (context.types.typeReads context.index use)) :
    Sends? rename? (context.types.lookupType context.index use)
      (context'.types.lookupType context'.index use) := by
  rw [TypeResolver.typeReads, TypeResolver.lookupType_eq] at hkept
  rw [TypeResolver.lookupType_eq, TypeResolver.lookupType_eq, h.unit_eq]
  cases htype : context.types.unit.ast.typeName use.node with
  | none => exact .none
  | some type =>
    obtain ⟨name, dims⟩ := type
    simp only [htype, kept_append, kept_toList, Option.bind_some] at hkept
    obtain ⟨hname, hfound⟩ := hkept
    have hnamed := h.rel_namedType hname
    dsimp only [Option.bind_some]
    generalize context.types.namedType context.index use.node name = base at hnamed hfound
    generalize context'.types.namedType context'.index use.node name = base' at hnamed
    cases hnamed with
    | none => exact .none
    | some hsends => exact (h.index.echoes_arrayOver hsends _).rel hfound

theorem rel_declared (h : context.Embeds rename? context') {decl : Nat}
    (hkept : Kept rename? (context.declaredReads decl)) :
    Sends? rename? (context.declared decl) (context'.declared decl) := by
  rw [declaredReads] at hkept
  rw [CallContext.declared, CallContext.declared, h.ast_eq]
  cases htype : context.ast.declaredType decl with
  | none => exact .none
  | some use =>
    rw [htype] at hkept
    exact h.rel_lookupType hkept

end Embeds

end CallContext

end CodeAtlas
