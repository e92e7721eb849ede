/-
# Dimensions of declared variables

A declared type has a dimension for each pair of brackets behind its element type, and the variable has
one more for each pair behind its name and for the dots of a parameter that takes any number of
arguments.  Lowering keeps no bracket: it drops `dimensions` nodes and makes one kind of all
parameters.  So the dimensions are read off the text, between the element type and the end of the array
type for the brackets and in front of the name for the dots.  Brackets behind the name are not looked
at, and the stray ones behind the element type count.
-/
import CodeAtlas.Proofs.Index.Identity
import CodeAtlas.Proofs.Resolve.Materialize
import CodeAtlas.Proofs.Source.Brackets

namespace CodeAtlas

open Source

/-! ## Types as they are written -/

namespace Source

/-- The source text of a concrete node. -/
def Cst.text (source : String) (node : Cst) : String :=
  (Text.sliceBytes? source node.span.start node.span.stop).getD ""

namespace Kept

/-- The first node below that has a role. -/
def inRole (source : String) (kept : Kept) (role : Role) : Option Kept :=
  (kept.below source).find? (fun inner => inner.role == role)

/-- The first node below that denotes the type of a node. -/
def type? (source : String) (kept : Kept) : Option Kept :=
  (kept.below source).find? (fun inner => inner.role == .type && inner.kind.isType)

/-- A type is written with a name and with bracket pairs behind its element types, among which stray
brackets stand. -/
inductive Spells (source : String) : Kept → String → Nat → Nat → Prop
  | named {type : Kept}
      (hkind : type.kind = .simpleType ∨ type.kind = .qualifiedType ∨ type.kind = .primitiveType) :
      Spells source type (Text.dropBlanks (type.node.text source)) 0 0
  | applied {type raw : Kept} {name : String} {pairs strays : Nat}
      (hkind : type.kind = .parameterizedType) (hraw : type.type? source = some raw)
      (h : Spells source raw name pairs strays) : Spells source type name pairs strays
  | array {type element : Kept} {before behind : List Cst} {name : String} {pairs strays : Nat}
      (hkind : type.kind = .arrayType) (helement : type.inRole source .type = some element)
      (hplace : type.node.children = before ++ element.node :: behind)
      (h : Spells source element name pairs strays) :
      Spells source type name (pairs + bracketPairs source behind)
        (strays + strayBrackets source element.node.span.stop type.node.span.stop behind)

end Kept

/-! ## Types as they are read -/

namespace Ast

variable {ast : Ast}

theorem source_lower (source : String) (root : Cst) : (lower source root).source = source := by
  cases root
  rfl

section Nodes

variable (h : ast.IsNumbered) {kept : Kept} {id : Nat} (hholds : ast.Holds kept id)

include h hholds

theorem IsNumbered.kind_of_holds : ast.kind id = kept.kind := by
  obtain ⟨node, hnode, hkind, _⟩ := h.exists_node?_of_holds hholds
  rw [kind, hnode]
  exact hkind

theorem IsNumbered.role_of_holds : ast.role id = kept.role := by
  obtain ⟨node, hnode, _, hrole, _⟩ := h.exists_node?_of_holds hholds
  rw [role, hnode]
  exact hrole

theorem IsNumbered.span_of_holds : ast.span id = kept.node.span := by
  obtain ⟨node, hnode, _, _, hspan, _⟩ := h.exists_node?_of_holds hholds
  rw [span, hnode]
  exact hspan

theorem IsNumbered.children_of_holds :
    List.Forall₂ ast.Holds (kept.below ast.source) (ast.children id) := by
  obtain ⟨node, hnode, _, _, _, hchildren⟩ := h.exists_node?_of_holds hholds
  rw [children, hnode]
  exact hchildren

theorem IsNumbered.lt_size_of_holds : id < ast.size := by
  obtain ⟨node, hnode, _⟩ := h.exists_node?_of_holds hholds
  by_contra hle
  rw [node?, Array.getElem?_eq_none (Nat.le_of_not_lt hle)] at hnode
  simp at hnode

/-- The first child in a role was kept for the first node in that role. -/
theorem IsNumbered.rel_childInRole (role : Role) :
    Option.Rel ast.Holds (kept.inRole ast.source role) (ast.childInRole id role) :=
  rel_find?_of_forall₂ (h.children_of_holds hholds)
    (fun _ _ hinner => by rw [h.role_of_holds hinner])

/-- The first child that denotes a type was kept for the first node that does. -/
theorem IsNumbered.rel_typeChild :
    Option.Rel ast.Holds (kept.type? ast.source)
      ((ast.childrenInRole id .type).find? (fun child => (ast.kind child).isType)) := by
  rw [childrenInRole, List.find?_filter]
  exact rel_find?_of_forall₂ (h.children_of_holds hholds)
    (fun _ _ hinner => by
      rw [h.role_of_holds hinner, h.kind_of_holds hinner, Bool.decide_and, Bool.decide_eq_true,
        Bool.decide_eq_true])

theorem IsNumbered.text_of_holds : ast.text id = kept.node.text ast.source := by
  rw [text, h.span_of_holds hholds]
  rfl

end Nodes

/-- A child has a greater number, so a descent into it leaves fewer nodes. -/
theorem IsNumbered.size_sub_lt (h : ast.IsNumbered) {id child : Nat} (hchild : child ∈ ast.children id)
    (hsize : child < ast.size) : ast.size - child < ast.size - id := by
  have hlt := h.isOrdered child id (h.parent_of_mem_children hchild)
  omega

/-- The brackets of an array type are those between its element type and its end. -/
theorem IsNumbered.arrayDims_eq (h : ast.IsNumbered) {type element : Kept} {id elementId : Nat}
    (hholds : ast.Holds type id) (helement : ast.Holds element elementId)
    (hchild : ast.childInRole id .type = some elementId) :
    ast.arrayDims id =
      bracketsBetween ast.source element.node.span.stop type.node.span.stop := by
  simp only [arrayDims, hchild, h.span_of_holds hholds, h.span_of_holds helement]
  rfl

/-- The name and the dimensions of a type are those it is written with, the stray brackets counted. -/
theorem IsNumbered.typeNameWithin_of_spells (h : ast.IsNumbered) {root : Cst}
    (hlaid : root.isLaidOut ast.source = true) {type : Kept} {name : String} {pairs strays : Nat}
    (hspells : type.Spells ast.source name pairs strays) (hbelow : type.node.Below root) {id : Nat}
    (hholds : ast.Holds type id) {steps : Nat} (hsteps : ast.size - id < steps) :
    ast.typeNameWithin steps id = some (name, pairs + strays) := by
  induction hspells generalizing id steps with
  | named hkind =>
    obtain ⟨steps, rfl⟩ := Nat.exists_eq_succ_of_ne_zero (Nat.ne_zero_of_lt hsteps)
    rw [typeNameWithin, h.kind_of_holds hholds, ← h.text_of_holds hholds]
    rcases hkind with hkind | hkind | hkind
    all_goals rw [hkind]
  | @applied type raw name pairs strays hkind hraw _ ih =>
    obtain ⟨steps, rfl⟩ := Nat.exists_eq_succ_of_ne_zero (Nat.ne_zero_of_lt hsteps)
    obtain ⟨child, hchild, hrawHolds⟩ := exists_of_rel_left (hraw ▸ h.rel_typeChild hholds)
    have hmem : child ∈ ast.children id :=
      List.mem_of_mem_filter (List.mem_of_find?_eq_some hchild)
    have hless := h.size_sub_lt hmem (h.lt_size_of_holds hrawHolds)
    rw [typeNameWithin, h.kind_of_holds hholds, hkind]
    dsimp only
    rw [hchild]
    exact ih ((Kept.below_of_mem_below (List.mem_of_find?_eq_some hraw)).trans hbelow) hrawHolds
      (by omega)
  | @array type element before behind name pairs strays hkind helement hplace _ ih =>
    obtain ⟨steps, rfl⟩ := Nat.exists_eq_succ_of_ne_zero (Nat.ne_zero_of_lt hsteps)
    obtain ⟨child, hchild, helementHolds⟩ :=
      exists_of_rel_left (helement ▸ h.rel_childInRole hholds .type)
    have hmem : child ∈ ast.children id := List.mem_of_find?_eq_some hchild
    have hless := h.size_sub_lt hmem (h.lt_size_of_holds helementHolds)
    have hname : ast.typeNameWithin steps child = some (name, pairs + strays) :=
      ih ((Kept.below_of_mem_below (List.mem_of_find?_eq_some helement)).trans hbelow) helementHolds
        (by omega)
    -- what is behind the element type stands in order, and so does what is below it
    have horder := Cst.standInOrder_of_below hlaid hbelow
    rw [hplace] at horder
    have hbrackets := bracketsBetween_eq_pairs_add_strays (standInOrder_of_append horder)
      (fun node hnode => Cst.standInOrder_of_below hlaid
        ((Cst.below_of_mem_children (by rw [hplace]; simp [hnode])).trans hbelow))
    rw [typeNameWithin, h.kind_of_holds hholds, hkind]
    dsimp only
    rw [hchild, Option.bind_some, hname]
    dsimp only
    rw [h.arrayDims_eq hholds helementHolds hchild, hbrackets]
    simp only [Option.some.injEq, Prod.mk.injEq, true_and]
    omega

end Ast

/-! ## Declared variables -/

/-- Declarations of parameters, fields and local variables. -/
def Kind.declaresVariable : Kind → Bool
  | formalParameter | fieldDeclaration | localVariableDeclaration => true
  | _ => false

namespace Kept

/-- Where the text behind the type of a parameter ends: in front of its declarator or its name. -/
def endOfDots (source : String) (decl : Kept) : Nat :=
  match (decl.inRole source .declarator).or (decl.inRole source .name) with
  | some next => next.node.span.start
  | none => decl.node.span.stop

/-- Whether three dots stand in the text behind the type of a parameter. -/
def hasDots (source : String) (decl type : Kept) : Bool :=
  decl.kind == .formalParameter &&
    match Text.sliceBytes? source type.node.span.stop (decl.endOfDots source) with
    | some gap => Text.occursIn ['.', '.', '.'] gap.toList
    | none => false

/-- The nodes that the names of a declaration stand in: its declarators or else itself. -/
def nameHolders (source : String) (decl : Kept) : List Cst :=
  match (decl.below source).filter (fun inner => inner.role == .declarator) with
  | [] => [decl.node]
  | declarators => declarators.map Kept.node

end Kept

/-- A variable that is declared in a text, with the type that it is given there. -/
structure DeclaredVariable (source : String) (root : Cst) where
  id : Nat
  decl : Kept
  holds : (lower source root).Holds decl id
  below : decl.node.Below root
  declares : decl.kind.declaresVariable = true
  holder : Cst
  mem_holders : holder ∈ decl.nameHolders source
  type : Kept
  type_eq : decl.type? source = some type
  name : String
  pairs : Nat
  strays : Nat
  spells : type.Spells source name pairs strays

namespace DeclaredVariable

variable {source : String} {root : Cst}

/-- The dimensions of a variable in the language: a pair of brackets adds one, behind its element type
or behind its name, and so does a parameter that takes any number of arguments. -/
def dims (var : DeclaredVariable source root) : Nat :=
  var.pairs + bracketPairs source var.holder.children +
    (if var.decl.node.kind = "spread_parameter" then 1 else 0)

/-- The dimensions that are read off the text. -/
def resolvedDims (var : DeclaredVariable source root) : Nat :=
  var.pairs + var.strays + (if var.decl.hasDots source var.type then 1 else 0)

end DeclaredVariable

namespace Ast

variable {ast : Ast}

/-- The dots of a parameter are looked for between its type and its declarator or name. -/
theorem IsNumbered.isSpread_eq (h : ast.IsNumbered) {decl type : Kept} {id typeId : Nat}
    (hholds : ast.Holds decl id) (htype : ast.Holds type typeId) :
    (ast.kind id == .formalParameter && ast.isSpread id typeId) = decl.hasDots ast.source type := by
  have hrel := rel_or (h.rel_childInRole hholds .declarator) (h.rel_childInRole hholds .name)
  rw [Kept.hasDots, Kept.endOfDots, h.kind_of_holds hholds, isSpread, h.span_of_holds htype]
  cases hnext : (decl.inRole ast.source .declarator).or (decl.inRole ast.source .name) with
  | some next =>
    rw [hnext] at hrel
    obtain ⟨child, hchild, hinner⟩ := exists_of_rel_left hrel
    rw [hchild]
    dsimp only
    rw [h.span_of_holds hinner]
    rfl
  | none =>
    rw [hnext] at hrel
    rw [eq_none_of_rel_none hrel]
    dsimp only
    rw [h.span_of_holds hholds]
    rfl

/-- The name of the declared type, with all the dimensions of what is declared. -/
def declaredDims (ast : Ast) (decl : Nat) : Option (String × Nat) :=
  (ast.declaredType decl).bind fun use =>
    (ast.typeName use.node).map fun type => (type.1, type.2 + use.extraDims)

/-- The use of the declared type. -/
theorem declaredType_of_variable {source : String} {root : Cst}
    (var : DeclaredVariable source root) :
    ∃ typeId, (lower source root).Holds var.type typeId ∧
      (lower source root).declaredType var.id =
        some ⟨typeId, if var.decl.hasDots source var.type then 1 else 0⟩ := by
  have h := isNumbered_lower source root
  have hsource := source_lower source root
  have hkind := h.kind_of_holds var.holds
  obtain ⟨typeId, htype, hholds⟩ :=
    exists_of_rel_left (var.type_eq ▸ hsource ▸ h.rel_typeChild var.holds)
  refine ⟨typeId, hholds, ?_⟩
  have hrole : ¬ (lower source root).kind var.id = .methodDeclaration := by
    intro hmethod
    have := var.declares
    rw [← hkind, hmethod] at this
    exact absurd this (by decide)
  have hdots := h.isSpread_eq var.holds hholds
  rw [hsource] at hdots
  rw [declaredType, if_neg hrole]
  dsimp only
  rw [htype]
  dsimp only
  rw [hdots]

end Ast

end Source

/-! ## Overloads -/

namespace Index

variable {index : Index}

/-- Arrays over a class match when they have as many dimensions. -/
theorem Patterned.typesMatch_arrayOver_iff (h : index.Patterned) {base package x y : ItemId}
    {name : String} {m n : Nat} (hbase : index.Has base (some package) .class name)
    (hplain : ¬ Item.NamesArray name) (hwildcard : index.findWildcard ≠ some base)
    (hx : index.arrayOver m base = some x) (hy : index.arrayOver n base = some y) :
    index.typesMatch x y = true ↔ m = n := by
  have hnotWild : ∀ {dims : Nat} {array : ItemId}, index.arrayOver dims base = some array →
      index.findWildcard ≠ some array := by
    intro dims array harray hwild
    obtain ⟨_, _, _, _, hnamed⟩ := (h.coherent.findBuiltin_eq_some_iff h.distinct).1 hwild
    obtain ⟨_, hname⟩ := hnamed.place_eq ((h.arrayOver_eq_some_iff hbase).1 harray)
    by_cases hdims : dims = 0
    · rw [arrayOver, if_pos hdims] at harray
      exact hwildcard (harray ▸ hwild)
    · exact absurd (hname ▸ Item.namesArray_arrayName name hdims) (by decide)
  have hdims : ∀ {dims : Nat} {array base' : ItemId} {item : Item},
      index.arrayOver dims base = some array → index.get? array = some item →
      item.arrayBase = some base' → item.arrayDims = dims := by
    intro dims array base' item harray hget hroot
    obtain ⟨found, hfound, _, _, hname⟩ := (h.arrayOver_eq_some_iff hbase).1 harray
    obtain rfl := Option.some.inj (hget.symm.trans hfound)
    obtain ⟨_, element, _, _, _, _, hnot, _, hitem⟩ := h.exists_element hget hroot
    exact (Item.arrayName_inj hnot hplain (hitem.symm.trans hname)).2
  rw [h.typesMatch_iff]
  constructor
  · rintro ((rfl | hwild | hwild) | ⟨xItem, yItem, xBase, yBase, hxGet, hyGet, hxBase, hyBase, heq, _⟩)
    · obtain ⟨_, hname⟩ := ((h.arrayOver_eq_some_iff hbase).1 hx).place_eq
        ((h.arrayOver_eq_some_iff hbase).1 hy)
      exact (Item.arrayName_inj hplain hplain hname).2
    · exact absurd hwild (hnotWild hx)
    · exact absurd hwild (hnotWild hy)
    · rw [← hdims hx hxGet hxBase, ← hdims hy hyGet hyBase, heq]
  · rintro rfl
    exact Or.inl (Or.inl (Option.some.inj (hx.symm.trans hy)))

/-- A method is found again by its own signature, and only by one that matches it. -/
theorem Patterned.createMethod_eq (h : index.Patterned) (htells : index.TellsApart)
    {owner first second : ItemId} {name : String} {params others : List ItemId} {after : Index}
    (hfirst : index.Has first (some owner) .method name)
    (hparams : (index.get? first).map Item.paramTypes = some params)
    (hrun : (createMethod owner name (some others)).run.run index = (.ok second, after)) :
    (second = first → index.paramsMatch params others = true) ∧
      (params = others → second = first) := by
  rw [run_createMethod] at hrun
  obtain ⟨item, hget, hparent, hkind, hname⟩ := hfirst
  rw [hget, Option.map_some] at hparams
  obtain rfl := Option.some.inj hparams
  cases hrefusal : index.refusal? owner .method name with
  | some error =>
    rw [hrefusal] at hrun
    exact absurd (congrArg Prod.fst hrun) (by simp)
  | none =>
    rw [hrefusal] at hrun
    dsimp only [Option.getD_some] at hrun
    cases hfound : index.overload? owner name others with
    | some found =>
      rw [hfound] at hrun
      obtain rfl : found = second := by simpa using congrArg Prod.fst hrun
      obtain ⟨other, hother, hotherParent, hotherKind, hotherName⟩ :=
        h.coherent.mem_findAll_iff.1 (List.mem_of_find?_eq_some hfound)
      have hmatch := List.find?_some hfound
      rw [hother, Option.map_some, Option.getD_some] at hmatch
      constructor
      · rintro rfl
        obtain rfl := Option.some.inj (hother.symm.trans hget)
        exact hmatch
      · rintro rfl
        exact htells found first other item hother hget (hotherParent.trans hparent.symm)
          (hotherKind.trans hkind.symm) (hotherName.trans hname.symm) (fun _ => hmatch)
    | none =>
      rw [hfound] at hrun
      obtain rfl : index.nextId = second := by simpa using congrArg Prod.fst hrun
      constructor
      · rintro rfl
        rw [get?_nextId h.coherent.tallied] at hget
        exact absurd hget (by simp)
      · rintro rfl
        have hmem := h.coherent.mem_findAll_iff.2 ⟨item, hget, hparent, hkind, hname⟩
        have hrefused := List.find?_eq_none.1 hfound first hmem
        rw [hget, Option.map_some, Option.getD_some] at hrefused
        exact absurd (paramsMatch_refl index _) hrefused

/-- Two signatures that differ in one place match when the types there do. -/
theorem paramsMatch_replace_iff {before behind : List ItemId} {x y : ItemId} :
    index.paramsMatch (before ++ x :: behind) (before ++ y :: behind) = true ↔
      index.typesMatch x y = true := by
  have hrefl : ∀ params : List ItemId,
      List.Forall₂ (fun x y => index.typesMatch x y = true) params params := fun params =>
    List.forall₂_same.2 (fun x _ => index.typesMatch_refl x)
  rw [paramsMatch_iff]
  constructor
  · intro hmatch
    have hrest := List.forall₂_drop_append _ _ _ hmatch
    rw [List.drop_left] at hrest
    exact (List.forall₂_cons.1 hrest).1
  · intro hmatch
    exact List.rel_append (hrefl before) (.cons hmatch (hrefl behind))

/-- A method is declared again with another array over a class in one place of its signature: `first`
is there with an array of `m` dimensions, and making it with one of `n` dimensions gives `second`. -/
inductive Overloads (index : Index) (m n : Nat) (first second : ItemId) : Prop
  | intro {base package x y owner : ItemId} {className name : String} {before behind : List ItemId}
      {after : Index} (hbase : index.Has base (some package) .class className)
      (hplain : ¬ Item.NamesArray className) (hwildcard : index.findWildcard ≠ some base)
      (hx : index.arrayOver m base = some x) (hy : index.arrayOver n base = some y)
      (hfirst : index.Has first (some owner) .method name)
      (hparams : (index.get? first).map Item.paramTypes = some (before ++ x :: behind))
      (hrun : (createMethod owner name (some (before ++ y :: behind))).run.run index =
        (.ok second, after)) : Overloads index m n first second

/-- A method that is declared again is a new one exactly when the dimensions differ. -/
theorem Overloads.eq_iff {m n : Nat} {first second : ItemId} (h : index.Patterned)
    (htells : index.TellsApart) (hoverloads : index.Overloads m n first second) :
    second = first ↔ m = n := by
  obtain ⟨hbase, hplain, hwildcard, hx, hy, hfirst, hparams, hrun⟩ := hoverloads
  obtain ⟨honly, hagain⟩ := h.createMethod_eq htells hfirst hparams hrun
  constructor
  · intro hsame
    exact (h.typesMatch_arrayOver_iff hbase hplain hwildcard hx hy).1
      (paramsMatch_replace_iff.1 (honly hsame))
  · rintro rfl
    obtain rfl := Option.some.inj (hx.symm.trans hy)
    exact hagain rfl

end Index

/-! ## What the dimensions come to -/

namespace Source.DeclaredVariable

variable {source : String} {root : Cst}

theorem typeName_of_holds (hlaid : root.isLaidOut source = true)
    (var : DeclaredVariable source root) {typeId : Nat}
    (hholds : (lower source root).Holds var.type typeId) :
    (lower source root).typeName typeId = some (var.name, var.pairs + var.strays) := by
  have hsource := Ast.source_lower source root
  have hbelow : var.type.node.Below root :=
    (Kept.below_of_mem_below (List.mem_of_find?_eq_some var.type_eq)).trans var.below
  refine (Ast.isNumbered_lower source root).typeNameWithin_of_spells ?_ ?_ hbelow
    hholds (Nat.lt_succ_of_le (Nat.sub_le _ _))
  · rwa [hsource]
  · rw [hsource]
    exact var.spells

/-- The dimensions of a declared variable are read off the text: the bracket pairs behind the element
types of its type, the stray brackets there, and one for three dots behind the type of a parameter.
They are those of the language exactly when the stray brackets and the dots make up for the bracket
pairs behind the name and the dots of a parameter that takes any number of arguments.  The class that
is made for the variable is the array of so many dimensions, and of two overloads that differ in the
dimensions of one parameter, the second is found to be the first when so many are read off for both. -/
theorem resolved_dimensions (hlaid : root.isLaidOut source = true)
    (var : DeclaredVariable source root) :
    (lower source root).declaredDims var.id = some (var.name, var.resolvedDims) ∧
    (var.resolvedDims = var.dims ↔
      var.strays + (if var.decl.hasDots source var.type then 1 else 0) =
        bracketPairs source var.holder.children +
          (if var.decl.node.kind = "spread_parameter" then 1 else 0)) ∧
    (∀ (types : TypeResolver) (index : Index) (use : TypeUse), types.unit.ast = lower source root →
      types.unit.ast.declaredType var.id = some use → index.Assembled →
      ((types.materializeType use).run.run index).2.size < 2 ^ 32 → ∃ made after base,
        (types.materializeType use).run.run index = (.ok made, after) ∧ after.IsKind base .class ∧
        types.Stands index after use.node var.name base ∧
        after.arrayOver var.resolvedDims base = some made) ∧
    ∀ (other : DeclaredVariable source root) (index : Index) (first second : ItemId),
      index.Patterned → index.TellsApart →
      index.Overloads var.resolvedDims other.resolvedDims first second →
      (second = first ↔ var.resolvedDims = other.resolvedDims) := by
  obtain ⟨typeId, hholds, htype⟩ := Ast.declaredType_of_variable var
  have hname := var.typeName_of_holds hlaid hholds
  refine ⟨?_, ?_, ?_, ?_⟩
  · rw [Ast.declaredDims, htype, Option.bind_some, hname]
    rfl
  · rw [resolvedDims, dims]
    omega
  · intro types index use hast huse hindex hroom
    rw [hast, htype] at huse
    obtain rfl := Option.some.inj huse
    obtain ⟨made, after, hrun, _, _, harray⟩ := types.run_materializeType hindex _ hroom
    obtain ⟨base, hbase, hstands, hmade⟩ := harray var.name (var.pairs + var.strays)
      (by rw [hast]; exact hname)
    exact ⟨made, after, base, hrun, hbase, hstands, hmade⟩
  · intro other index first second hindex htells hoverloads
    exact hoverloads.eq_iff hindex htells

/-! ## Brackets behind a name -/

/-- Two methods whose parameters differ in the brackets behind their names. -/
def trailingText : String :=
  "class A \x7b void f(int a) \x7b\x7d void f(int a[]) \x7b\x7d \x7d"

def plainNode : Cst :=
  .node "formal_parameter" none 17 22
    [.node "integral_type" (some "type") 17 20 [], .node "identifier" (some "name") 21 22 []]

def bracketedNode : Cst :=
  .node "formal_parameter" none 34 41
    [.node "integral_type" (some "type") 34 37 [], .node "identifier" (some "name") 38 39 [],
    .node "dimensions" (some "dimensions") 39 41 []]

def trailingTree : Cst :=
  .node "program" none 0 47 [.node "class_declaration" none 0 47
    [.node "identifier" (some "name") 6 7 [], .node "class_body" (some "body") 8 47
      [.node "method_declaration" none 10 26
        [.node "void_type" (some "type") 10 14 [], .node "identifier" (some "name") 15 16 [],
        .node "formal_parameters" (some "parameters") 16 23 [plainNode],
        .node "block" (some "body") 24 26 []],
      .node "method_declaration" none 27 45
        [.node "void_type" (some "type") 27 31 [], .node "identifier" (some "name") 32 33 [],
        .node "formal_parameters" (some "parameters") 33 42 [bracketedNode],
        .node "block" (some "body") 43 45 []]]]]

/-- The parameter of the first method. -/
def plainParameter : DeclaredVariable trailingText trailingTree where
  id := 6
  decl := ⟨.formalParameter, .parameter, false, plainNode⟩
  holds := ⟨_, (Tree.within_of_find? (show
    (lower trailingText trailingTree).tree.find? 6 = some _ from rfl)).1, rfl, rfl, rfl⟩
  below := by simp [trailingTree]
  declares := rfl
  holder := plainNode
  mem_holders := List.mem_singleton.2 rfl
  type := ⟨.primitiveType, .type, true, .node "integral_type" (some "type") 17 20 []⟩
  type_eq := rfl
  name := "int"
  pairs := 0
  strays := 0
  spells := .named (Or.inr (Or.inr rfl))

/-- The parameter of the second method, with a pair of brackets behind its name. -/
def bracketedParameter : DeclaredVariable trailingText trailingTree where
  id := 13
  decl := ⟨.formalParameter, .parameter, false, bracketedNode⟩
  holds := ⟨_, (Tree.within_of_find? (show
    (lower trailingText trailingTree).tree.find? 13 = some _ from rfl)).1, rfl, rfl, rfl⟩
  below := by simp [trailingTree]
  declares := rfl
  holder := bracketedNode
  mem_holders := List.mem_singleton.2 rfl
  type := ⟨.primitiveType, .type, true, .node "integral_type" (some "type") 34 37 []⟩
  type_eq := rfl
  name := "int"
  pairs := 0
  strays := 0
  spells := .named (Or.inr (Or.inr rfl))

/-- The parameter with brackets behind its name is read like the other one, so the method that is there
for the first declaration is found for the second. -/
theorem resolved_dimensions_trailing :
    bracketedParameter.dims = 1 ∧
      (lower trailingText trailingTree).declaredDims bracketedParameter.id = some ("int", 0) ∧
      ∀ second after, (Index.createMethod ⟨2, 1⟩ "m" (some [⟨5, 1⟩])).run.run
        (Index.intOverload.run Index.overloadedBase).2 = (.ok second, after) → second = ⟨6, 1⟩ := by
  have hlaid : trailingTree.isLaidOut trailingText = true := by decide +kernel
  obtain ⟨hbracketed, -⟩ := bracketedParameter.resolved_dimensions hlaid
  obtain ⟨-, -, -, hoverload⟩ := plainParameter.resolved_dimensions hlaid
  obtain ⟨hdims, hresolved, hplain⟩ : bracketedParameter.dims = 1 ∧
      bracketedParameter.resolvedDims = 0 ∧ plainParameter.resolvedDims = 0 := by decide +kernel
  refine ⟨hdims, hresolved ▸ hbracketed, fun second after hrun => ?_⟩
  have hbuilds : Index.Builds (fun _ => False) (Index.empty 1)
      (Index.intOverload.run Index.overloadedBase).2 :=
    Index.builds_overloadedBase.tail (.operation Index.creates_intOverload)
  have hsettled := (hbuilds.settled (Index.settled_empty (by simp)) (by decide +kernel)).1
  obtain ⟨hint, hmethod⟩ : (Index.intOverload.run Index.overloadedBase).2.bears
        ⟨some ⟨4, 1⟩, .class, "int"⟩ ⟨5, 1⟩ = true ∧
      (Index.intOverload.run Index.overloadedBase).2.bears
        ⟨some ⟨2, 1⟩, .method, "m"⟩ ⟨6, 1⟩ = true := by
    decide +kernel
  refine (hoverload bracketedParameter _ ⟨6, 1⟩ second hsettled.toPatterned hsettled.tellsApart ?_).2
    (hplain.trans hresolved.symm)
  rw [hplain, hresolved]
  have hagain : (Index.createMethod ⟨2, 1⟩ "m" (some ([] ++ ⟨5, 1⟩ :: []))).run.run
      (Index.intOverload.run Index.overloadedBase).2 = (.ok second, after) := hrun
  exact .intro (Index.has_iff_bears.2 hint) (by decide) (by decide +kernel) rfl rfl
    (Index.has_iff_bears.2 hmethod) (by decide +kernel) hagain

end Source.DeclaredVariable

end CodeAtlas
