/-
# Types that are looked up and types that are made

Loading makes the class of every type it comes across: array classes, primitive types and the wildcard
are created as they are needed.  Searching only looks classes up.  Both agree on what a type stands for:
what is found is what would be made, and what was made is found, however many other types are made
before it is looked up.

The names in a file are taken to be spelled as identifiers, so that none of them is reserved.
-/
import CodeAtlas.Proofs.Index.ArrayDimensions
import CodeAtlas.Proofs.Resolve.Furnished

namespace CodeAtlas

open Source

/-! ## Arrays -/

namespace Index

variable {a b index : Index}

/-- The array over a class is the class that is named so. -/
theorem Patterned.arrayOver_eq_some_iff (h : index.Patterned) {base package id : ItemId} {dims : Nat}
    {name : String} (hbase : index.Has base (some package) .class name) :
    index.arrayOver dims base = some id ↔
      index.Has id (some package) .class (Item.arrayName name dims) := by
  by_cases hdims : dims = 0
  · subst hdims
    rw [arrayOver, if_pos rfl, Item.arrayName_zero, ← h.findItem_eq_some_iff (by decide),
      (h.findItem_eq_some_iff (by decide)).2 hbase]
  · obtain ⟨item, hget, hparent, _, rfl⟩ := hbase
    rw [arrayOver, if_neg hdims, hget]
    dsimp only
    rw [hparent, h.findItem_eq_some_iff (by decide)]

/-- An array class that can be looked up is not made again. -/
theorem Patterned.run_createArrayClass_of_arrayOver (h : index.Patterned) {base id : ItemId}
    {dims : Nat} (hbase : index.IsKind base .class) (hfound : index.arrayOver dims base = some id) :
    ∃ after, (createArrayClass base dims).run.run index = (.ok id, after) ∧
      ∀ other, after.get? other = index.get? other := by
  obtain ⟨package, name, hhas⟩ := h.coherent.exists_package hbase
  obtain ⟨after, hrun, hsame⟩ :=
    h.run_createArrayClass_of_has hhas ((h.arrayOver_eq_some_iff hhas).1 hfound)
  exact ⟨after, hrun, hsame.get?_eq⟩

/-- An array class that was made can be looked up. -/
theorem Assembled.run_createArrayClass_of_isKind (h : index.Assembled) {base : ItemId}
    (hbase : index.IsKind base .class) (dims : Nat)
    (hroom : ((createArrayClass base dims).run.run index).2.size < 2 ^ 32) :
    ∃ id after, (createArrayClass base dims).run.run index = (.ok id, after) ∧ after.Assembled ∧
      Furnishes index after ∧ after.arrayOver dims base = some id := by
  obtain ⟨package, name, hhas⟩ := h.coherent.exists_package hbase
  rcases hshape : index.arrayShape base dims with ⟨root, total⟩
  obtain ⟨rootName, hroot, hnames⟩ := h.has_arrayShape hhas hshape
  rcases h.run_createArrayClass base dims hroom with
    ⟨hnone, _⟩ | ⟨id, after, hrun, hafter, hfurnishes, hshaped⟩
  · rw [hshape] at hnone
    exact absurd hroot (hnone package rootName)
  · refine ⟨id, after, hrun, hafter, hfurnishes, ?_⟩
    rw [hafter.arrayOver_eq_some_iff (hfurnishes.has hhas), ← hnames]
    rw [hshape] at hshaped
    rcases hshaped with hzero | ⟨other, otherTotal, otherPackage, otherName, hother, _, hotherHas, hid⟩
    · obtain ⟨rfl, rfl⟩ := Prod.mk.inj hzero
      rw [Item.arrayName_zero]
      exact hfurnishes.has hroot
    · obtain ⟨rfl, rfl⟩ := Prod.mk.inj hother
      obtain ⟨hpackage, rfl⟩ := hroot.place_eq hotherHas
      rw [hpackage]
      exact hid

theorem Furnishes.arrayOver (h : Furnishes a b) (ha : a.Patterned) (hb : b.Patterned)
    {base id : ItemId} {dims : Nat} (hbase : a.IsKind base .class)
    (hfound : a.arrayOver dims base = some id) : b.arrayOver dims base = some id := by
  obtain ⟨package, name, hhas⟩ := ha.coherent.exists_package hbase
  exact (hb.arrayOver_eq_some_iff (h.has hhas)).2 (h.has ((ha.arrayOver_eq_some_iff hhas).1 hfound))

end Index

/-! ## Making the class of a type -/

namespace TypeResolver

variable {types : TypeResolver} {a b index : Index}

/-- The class that a name stands for, made if it is a builtin one. -/
def materializeName (types : TypeResolver) (node : Nat) (name : String) : Edit ItemId := do
  if primitives.contains name then Index.createPrimitive name
  else
    match types.resolveName (← get) node name with
    | .found id => pure id
    | .typeVariable | .unresolved => Index.createWildcard

theorem materializeType_eq (types : TypeResolver) (use : TypeUse) :
    types.materializeType use =
      match types.unit.ast.typeName use.node with
      | none => (ExceptT.lift (Index.createBuiltin wildcardName) : Edit ItemId)
      | some (name, dims) => types.materializeName use.node name >>= fun base =>
          Index.createArrayClass base (dims + use.extraDims) := by
  rw [materializeType]
  cases types.unit.ast.typeName use.node with
  | none => rfl
  | some type =>
    dsimp only
    rw [materializeName]
    split
    · rfl
    · rw [bind_assoc]
      refine bind_congr (fun current => ?_)
      cases types.resolveName current use.node type.1 <;> rfl

/-- The builtin class that a name stands for: its primitive type, or the wildcard where no class is
found. -/
def builtinName? (types : TypeResolver) (index : Index) (node : Nat) (name : String) : Option String :=
  if primitives.contains name then some name
  else
    match types.resolveName index node name with
    | .found _ => none
    | .typeVariable | .unresolved => some wildcardName

theorem isReserved_of_builtinName? {node : Nat} {name builtin : String}
    (h : types.builtinName? index node name = some builtin) :
    Item.IsReserved builtin ∧ ¬ Item.NamesArray builtin := by
  rw [builtinName?] at h
  split at h
  · rename_i hprimitive
    obtain rfl := Option.some.inj h
    exact ⟨Or.inl hprimitive, Index.not_namesArray_primitive hprimitive⟩
  · split at h
    · simp at h
    all_goals
      obtain rfl := Option.some.inj h
      exact ⟨Or.inr (Or.inl rfl), by decide⟩

/-- What making the class of a name comes to. -/
theorem run_materializeName (types : TypeResolver) (node : Nat) (name : String) (index : Index) :
    (∃ builtin, types.builtinName? index node name = some builtin ∧
        (types.materializeName node name).run.run index =
          (.ok (Index.createBuiltin builtin index).1, (Index.createBuiltin builtin index).2)) ∨
      ∃ id, types.builtinName? index node name = none ∧ types.resolveName index node name = .found id ∧
        (types.materializeName node name).run.run index = (.ok id, index) := by
  rw [materializeName, builtinName?]
  split
  · rename_i hprimitive
    refine Or.inl ⟨name, rfl, ?_⟩
    rw [Index.createPrimitive, if_pos hprimitive]
    rfl
  · rw [Edit.run_get_bind]
    cases types.resolveName index node name with
    | found id => exact Or.inr ⟨id, rfl, rfl, rfl⟩
    | typeVariable => exact Or.inl ⟨wildcardName, rfl, rfl⟩
    | unresolved => exact Or.inl ⟨wildcardName, rfl, rfl⟩

/-- What a name stands for in an index: the builtin class that it had to, or the class it was resolved
to at first. -/
def Stands (types : TypeResolver) (before after : Index) (node : Nat) (name : String) (base : ItemId) :
    Prop :=
  match types.builtinName? before node name with
  | some builtin => after.IsBuiltin base builtin
  | none => types.resolveName before node name = .found base

theorem Stands.furnishes {node : Nat} {name : String} {base : ItemId}
    (hstands : types.Stands index a node name base) (h : Index.Furnishes a b) :
    types.Stands index b node name base := by
  rw [Stands] at hstands ⊢
  split at hstands
  · exact h.isBuiltin hstands
  · exact hstands

theorem run_materializeName_of_assembled (h : index.Assembled) (node : Nat) (name : String)
    (hroom : ((types.materializeName node name).run.run index).2.size < 2 ^ 32) :
    ∃ base after, (types.materializeName node name).run.run index = (.ok base, after) ∧
      after.Assembled ∧ Index.Furnishes index after ∧ after.IsKind base .class ∧
      types.Stands index after node name base := by
  rcases types.run_materializeName node name index with
    ⟨builtin, hbuiltin, hrun⟩ | ⟨id, hnone, hfound, hrun⟩
  · obtain ⟨hreserved, harray⟩ := isReserved_of_builtinName? hbuiltin
    rw [hrun] at hroom
    obtain ⟨hafter, hfurnishes, hclass⟩ := h.builtin harray hreserved hroom
    refine ⟨_, _, hrun, hafter, hfurnishes, ?_, ?_⟩
    · obtain ⟨_, _, _, _, hhas⟩ := hclass
      exact hhas.isKind
    · rw [Stands, hbuiltin]
      exact hclass
  · refine ⟨id, index, hrun, h, Index.Furnishes.refl index,
      isKind_of_resolveName h.coherent.findsClasses hfound, ?_⟩
    rw [Stands, hnone]
    exact hfound

/-- The class of a type is always made, and it is the array over the class that the name stands for. -/
theorem run_materializeType (h : index.Assembled) (use : TypeUse)
    (hroom : ((types.materializeType use).run.run index).2.size < 2 ^ 32) :
    ∃ id after, (types.materializeType use).run.run index = (.ok id, after) ∧ after.Assembled ∧
      Index.Furnishes index after ∧
      ∀ name dims, types.unit.ast.typeName use.node = some (name, dims) → ∃ base,
        after.IsKind base .class ∧ types.Stands index after use.node name base ∧
        after.arrayOver (dims + use.extraDims) base = some id := by
  rw [materializeType_eq] at hroom ⊢
  cases htype : types.unit.ast.typeName use.node with
  | none =>
    rw [htype] at hroom
    obtain ⟨hafter, hfurnishes, _⟩ := h.builtin (by decide) (Or.inr (Or.inl rfl)) hroom
    exact ⟨_, _, rfl, hafter, hfurnishes, fun name dims hsome => absurd hsome (by simp)⟩
  | some type =>
    obtain ⟨name, dims⟩ := type
    rw [htype] at hroom
    dsimp only at hroom ⊢
    have hcontinues : ∀ base, (Index.createArrayClass base (dims + use.extraDims)).Continuing :=
      fun base => (Index.sealing_createArrayClass base _).continues
    obtain ⟨base, middle, hbase, hmiddle, hfirst, hclass, hstands⟩ :=
      run_materializeName_of_assembled h use.node name (Nat.lt_of_le_of_lt
        (Edit.Continuing.continues_bind hcontinues _ index).size_le hroom)
    rw [Edit.run_bind_of_ok hbase] at hroom ⊢
    obtain ⟨id, after, hrun, hafter, hsecond, harray⟩ :=
      hmiddle.run_createArrayClass_of_isKind hclass (dims + use.extraDims) hroom
    refine ⟨id, after, hrun, hafter, hfirst.trans hsecond, fun other otherDims hsome => ?_⟩
    obtain ⟨rfl, rfl⟩ := Prod.mk.inj (Option.some.inj hsome)
    exact ⟨base, hsecond.isKind hclass, hstands.furnishes hsecond, harray⟩

theorem continuing_materializeType (types : TypeResolver) (use : TypeUse) :
    (types.materializeType use).Continuing := by
  have hbuiltin : ∀ builtin index, Index.Continues index (Index.createBuiltin builtin index).2 :=
    fun _ _ => ((Index.continues_intern _ _ _ _).trans (Index.continues_intern _ _ _ _)).trans
      (Index.continues_intern _ _ _ _)
  have hname : ∀ node name, (types.materializeName node name).Continuing := by
    intro node name index
    rcases types.run_materializeName node name index with ⟨builtin, _, hrun⟩ | ⟨id, _, _, hrun⟩
    · rw [hrun]
      exact hbuiltin builtin index
    · rw [hrun]
      exact Index.Continues.refl index
  rw [materializeType_eq]
  split
  · exact Edit.Continuing.lift (hbuiltin wildcardName)
  · exact (hname _ _).bind (fun base => (Index.sealing_createArrayClass base _).continues)

end TypeResolver

/-- One more type is made, wherever it is written. -/
inductive Index.Materializes : Index → Index → Prop
  | type (types : TypeResolver) (use : TypeUse) (index : Index) :
      Materializes index ((types.materializeType use).run.run index).2

theorem Index.Materializes.size_le {a b : Index} (h : Materializes a b) : a.size ≤ b.size := by
  cases h with
  | type types use => exact (types.continuing_materializeType use a).size_le

/-- Making types adds builtin classes and arrays only. -/
theorem Index.Assembled.furnishes {a b : Index} (ha : a.Assembled)
    (h : Relation.ReflTransGen Materializes a b) (hroom : b.size < 2 ^ 32) :
    b.Assembled ∧ Furnishes a b := by
  induction h with
  | refl => exact ⟨ha, Furnishes.refl a⟩
  | tail _ hstep ih =>
    obtain ⟨hmiddle, hfirst⟩ := ih (Nat.lt_of_le_of_lt hstep.size_le hroom)
    cases hstep with
    | type types use =>
      obtain ⟨_, _, hrun, hafter, hsecond, _⟩ := types.run_materializeType hmiddle use hroom
      rw [hrun]
      exact ⟨hafter, hfirst.trans hsecond⟩

/-! ## Looking up what is made -/

/-- What holds of every listed item holds of every item. -/
theorem Index.forall_item_of_ids {index : Index} (h : index.IsStacked) {holds : ItemId → Item → Prop}
    (hall : ∀ id ∈ index.ids, ∀ item ∈ index.get? id, holds id item) :
    ∀ id item, index.get? id = some item → holds id item :=
  fun id item hget => hall id (mem_ids_of_get? h hget) item hget

/-- No class but a primitive type has a name that ends in the keyword of one. -/
def Index.ReservesKeywords (index : Index) : Prop :=
  ∀ (id : ItemId) (item : Item), index.get? id = some item → item.kind = .class →
    primitives.contains (Text.lastPiece '.' item.name) = true → index.findPrimitive item.name = some id

namespace TypeResolver

variable {types : TypeResolver} {a b index : Index}

/-- No type parameter of the unit is named like a primitive type. -/
def ReservesKeywords (types : TypeResolver) : Prop :=
  ∀ decl ∈ types.unit.ast.ids, ∀ name ∈ types.unit.ast.typeParameterNames decl,
    primitives.contains name = false

theorem ReservesKeywords.isTypeVariable_eq_false (h : types.ReservesKeywords) {name : String}
    (hprimitive : primitives.contains name = true) (node : Nat) :
    types.isTypeVariable node name = false := by
  rw [isTypeVariable, List.any_eq_false]
  intro decl _
  simp only [Bool.and_eq_true, Bool.or_eq_true, not_and]
  intro hkind hparam
  have hdecl : decl ∈ types.unit.ast.ids := by
    refine Ast.mem_ids_of_kind_ne (fun hother => ?_)
    rw [hother] at hkind
    simp [Kind.isTypeDeclaration, Kind.isMethodDeclaration] at hkind
  rw [h decl hdecl name (by simpa using hparam)] at hprimitive
  exact absurd hprimitive (by simp)

theorem ReservesKeywords.namedType_eq (h : types.ReservesKeywords) {name : String}
    (hprimitive : primitives.contains name = true) (index : Index) (node : Nat) :
    types.namedType index node name = types.lookupClassName index node name := by
  rw [namedType, h.isTypeVariable_eq_false hprimitive, Bool.and_false]
  rfl

/-- The class of a keyword is the primitive type. -/
theorem isBuiltin_of_lookupClassName (h : index.Patterned) (hkeywords : index.ReservesKeywords)
    {node : Nat} {name : String} {id : ItemId} (hprimitive : primitives.contains name = true)
    (hfound : types.lookupClassName index node name = some id) : index.IsBuiltin id name := by
  obtain ⟨item, hget, hkind, hname⟩ := endsLike_of_lookupClassName h.coherent hfound
  rw [Text.lastPiece_eq_self (dot_notMem_primitive hprimitive)] at hname
  have hfind := hkeywords id item hget hkind (hname.symm ▸ hprimitive)
  rw [Index.findPrimitive] at hfind
  split at hfind
  · rename_i hitem
    rw [Text.lastPiece_eq_self (dot_notMem_primitive hitem)] at hname
    rw [← hname]
    exact (h.coherent.findBuiltin_eq_some_iff h.distinct).1 hfind
  · simp at hfind

/-- The class of a name that can be looked up is not made again. -/
theorem run_materializeName_of_namedType (h : index.Patterned) (hkeywords : index.ReservesKeywords)
    (hparams : types.ReservesKeywords) {node : Nat} {name : String} {base : ItemId}
    (hbase : types.namedType index node name = some base) :
    (types.materializeName node name).run.run index = (.ok base, index) ∧
      index.IsKind base .class := by
  rcases types.run_materializeName node name index with
    ⟨builtin, hbuiltin, hrun⟩ | ⟨id, hnone, hfound, hrun⟩
  · have hclass : index.IsBuiltin base builtin := by
      rw [builtinName?] at hbuiltin
      split at hbuiltin
      · rename_i hprimitive
        obtain rfl := Option.some.inj hbuiltin
        rw [hparams.namedType_eq hprimitive] at hbase
        exact isBuiltin_of_lookupClassName h hkeywords hprimitive hbase
      · rw [namedType] at hbase
        rw [resolveName] at hbuiltin
        split at hbase
        · rename_i hvar
          rw [if_pos hvar] at hbuiltin
          obtain rfl := Option.some.inj hbuiltin
          exact (h.coherent.findBuiltin_eq_some_iff h.distinct).1 hbase
        · rename_i hvar
          rw [if_neg hvar, hbase] at hbuiltin
          simp at hbuiltin
    rw [h.builtin_of_isBuiltin hclass] at hrun
    obtain ⟨_, _, _, _, hhas⟩ := hclass
    exact ⟨hrun, hhas.isKind⟩
  · rw [resolveName] at hfound
    rw [namedType] at hbase
    split at hfound
    · simp at hfound
    · rename_i hvar
      rw [if_neg hvar] at hbase
      rw [hbase] at hfound
      obtain rfl : base = id := by simpa using hfound
      exact ⟨hrun, isKind_of_lookupClassName h.coherent.findsClasses hbase⟩

/-- What can be looked up is not made again. -/
theorem run_materializeType_of_lookupType (h : index.Patterned) (hkeywords : index.ReservesKeywords)
    (hparams : types.ReservesKeywords) {use : TypeUse} {id : ItemId}
    (hfound : types.lookupType index use = some id) :
    ∃ after, (types.materializeType use).run.run index = (.ok id, after) ∧
      ∀ other, after.get? other = index.get? other := by
  rw [lookupType_eq] at hfound
  obtain ⟨⟨name, dims⟩, htype, hnamed⟩ := Option.bind_eq_some_iff.1 hfound
  obtain ⟨base, hbase, harray⟩ := Option.bind_eq_some_iff.1 hnamed
  obtain ⟨hrun, hclass⟩ := run_materializeName_of_namedType h hkeywords hparams hbase
  rw [materializeType_eq, htype]
  dsimp only
  rw [Edit.run_bind_of_ok hrun]
  exact h.run_createArrayClass_of_arrayOver hclass harray

/-- The name of a type is a keyword, a type parameter in sight or the name of a class. -/
def Denotes (types : TypeResolver) (index : Index) (node : Nat) (name : String) : Prop :=
  primitives.contains name = true ∨ types.resolveName index node name ≠ .unresolved

/-- What a name stands for stays what it is looked up as. -/
theorem namedType_of_stands (ha : a.Assembled) (hb : b.Assembled) (h : Index.Furnishes a b)
    (hparams : types.ReservesKeywords) {node : Nat} {name : String} {base : ItemId} (hspells : types.Spells name)
    (hdenotes : types.Denotes a node name) (hstands : types.Stands a b node name base) :
    types.namedType b node name = some base := by
  rw [Stands, builtinName?] at hstands
  split at hstands
  · rename_i builtin hbuiltin
    have hfind := (hb.coherent.findBuiltin_eq_some_iff hb.distinct).2 hstands
    split at hbuiltin
    · rename_i hprimitive
      obtain rfl := Option.some.inj hbuiltin
      rw [hparams.namedType_eq hprimitive, lookupClassName, Index.findPrimitive, if_pos hprimitive, hfind]
    · rename_i hprimitive
      have hvar : types.resolveName a node name = .typeVariable := by
        have hknown := hdenotes.resolve_left hprimitive
        cases hname : types.resolveName a node name with
        | found id => simp [hname] at hbuiltin
        | typeVariable => rfl
        | unresolved => exact absurd hname hknown
      rw [hvar] at hbuiltin
      obtain rfl := Option.some.inj hbuiltin
      rw [resolveName] at hvar
      split at hvar
      · rename_i hvariable
        rw [namedType, if_pos hvariable]
        exact hfind
      · split at hvar <;> simp at hvar
  · rename_i hnone
    split at hnone
    · simp at hnone
    · rename_i hprimitive
      have hsegments := hspells.written.resolve_left hprimitive
      rw [resolveName] at hstands
      split at hstands
      · simp at hstands
      · rename_i hvar
        rw [namedType, if_neg hvar,
          lookupClassName_furnishes h ha hb hspells.declared hsegments node]
        split at hstands
        · rename_i found hfound
          rw [hfound, NameLookup.found.inj hstands]
        · simp at hstands

/-- Looking up and making types agree. -/
theorem lookupType_materializeType {generation : Nat}
    (hassembly : Relation.ReflTransGen Index.Assembly (.empty generation) index)
    (hroom : index.size < 2 ^ 32) (hkeywords : index.ReservesKeywords)
    (hparams : types.ReservesKeywords) (use : TypeUse) :
    (∀ id, types.lookupType index use = some id →
      ∃ after, (types.materializeType use).run.run index = (.ok id, after) ∧
        ∀ other, after.get? other = index.get? other) ∧
    ∀ name dims, types.unit.ast.typeName use.node = some (name, dims) →
      types.Denotes index use.node name → types.Spells name →
      ∀ id after later, (types.materializeType use).run.run index = (.ok id, after) →
        Relation.ReflTransGen Index.Materializes after later → later.size < 2 ^ 32 →
        types.lookupType later use = some id := by
  have hindex := Index.assembled_of_assembly hassembly hroom
  refine ⟨fun id hfound => run_materializeType_of_lookupType hindex.toPatterned hkeywords hparams hfound,
    fun name dims htype hdenotes hspells id after later hrun hsteps hlaterRoom => ?_⟩
  have hless : after.size < 2 ^ 32 := by
    refine Nat.lt_of_le_of_lt ?_ hlaterRoom
    induction hsteps with
    | refl => exact Nat.le_refl _
    | tail _ hstep ih => exact Nat.le_trans (ih (Nat.lt_of_le_of_lt hstep.size_le hlaterRoom)) hstep.size_le
  obtain ⟨found, built, hbuilt, hafter, hfirst, hmade⟩ := run_materializeType hindex use
    (by rw [hrun]; exact hless)
  obtain ⟨hok, rfl⟩ := Prod.mk.inj (hrun.symm.trans hbuilt)
  obtain rfl := Except.ok.inj hok
  obtain ⟨base, hclass, hstands, harray⟩ := hmade name dims htype
  obtain ⟨hlater, hsecond⟩ := hafter.furnishes hsteps hlaterRoom
  have hnamed := namedType_of_stands hindex hlater (hfirst.trans hsecond) hparams hspells hdenotes
    (hstands.furnishes hsecond)
  rw [lookupType_eq, htype, Option.bind_some, hnamed, Option.bind_some]
  exact hsecond.arrayOver hafter.toPatterned hlater.toPatterned hclass harray

/-! ## A class with an array -/

/-- A class `C` and the class of its arrays. -/
def arrayIndex : Index :=
  [Operation.project "app", .package ⟨0, 0⟩ "p", .class ⟨1, 0⟩ "C", .arrayClass ⟨2, 0⟩ 1].foldl
    (fun index operation => (operation.run index).2) (.empty 0)

/-- A file with a field of the type `C[]` and one of the type `int`. -/
def arrayTypes : TypeResolver :=
  ⟨.parse "p/C.java" "package p; class C \x7b C[] f; int n; \x7d"
    ⟨.node "program" none 0 36 [
      .node "package_declaration" none 0 10 [.node "identifier" none 8 9 []],
      .node "class_declaration" none 11 36 [.node "identifier" (some "name") 17 18 [],
        .node "class_body" (some "body") 19 36 [
          .node "field_declaration" none 21 27 [
            .node "array_type" (some "type") 21 24 [.node "type_identifier" (some "element") 21 22 [],
              .node "dimensions" (some "dimensions") 22 24 []],
            .node "variable_declarator" (some "declarator") 25 26
              [.node "identifier" (some "name") 25 26 []]],
          .node "field_declaration" none 28 34 [.node "integral_type" (some "type") 28 31 [],
            .node "variable_declarator" (some "declarator") 32 33
              [.node "identifier" (some "name") 32 33 []]]]]], false⟩,
    some ⟨0, 0⟩⟩

theorem assembly_arrayIndex : Relation.ReflTransGen Index.Assembly (.empty 0) arrayIndex := by
  iterate 4 refine Relation.ReflTransGen.tail ?_ (.operation (by decide +kernel))
  exact Relation.ReflTransGen.refl

/-- The array is found, it is not made again, and it is still found when `int` was made. -/
theorem lookupType_materializeType_array :
    arrayTypes.lookupType arrayIndex ⟨6, 0⟩ = some ⟨3, 0⟩ ∧
      (∃ after, (arrayTypes.materializeType ⟨6, 0⟩).run.run arrayIndex = (.ok ⟨3, 0⟩, after) ∧
        ∀ other, after.get? other = arrayIndex.get? other) ∧
      arrayTypes.lookupType ((arrayTypes.materializeType ⟨11, 0⟩).run.run
        ((arrayTypes.materializeType ⟨6, 0⟩).run.run arrayIndex).2).2 ⟨6, 0⟩ = some ⟨3, 0⟩ := by
  have hfound : arrayTypes.lookupType arrayIndex ⟨6, 0⟩ = some ⟨3, 0⟩ := by decide +kernel
  have hroom : arrayIndex.size < 2 ^ 32 := by decide +kernel
  have hkeywords : arrayIndex.ReservesKeywords := by
    refine Index.forall_item_of_ids
      (Index.assembled_of_assembly assembly_arrayIndex hroom).coherent.stacked ?_
    decide +kernel
  have hparams : arrayTypes.ReservesKeywords := by
    rw [ReservesKeywords]
    decide +kernel
  obtain ⟨hlookup, hmade⟩ :=
    lookupType_materializeType assembly_arrayIndex hroom hkeywords hparams ⟨6, 0⟩
  obtain ⟨after, hrun, hsame⟩ := hlookup ⟨3, 0⟩ hfound
  refine ⟨hfound, ⟨after, hrun, hsame⟩, ?_⟩
  refine hmade "C" 1 (by decide +kernel) (Or.inr (by decide +kernel))
    ⟨by decide +kernel, by decide +kernel⟩ ⟨3, 0⟩ _ _ ?_
    (Relation.ReflTransGen.single (.type arrayTypes ⟨11, 0⟩ _)) (by decide +kernel)
  rw [hrun]

/-! ## Classes that are named like a primitive type -/

/-- A class `int` in a package of the builtin project. -/
def keywordIndex : Index :=
  [Operation.project builtinProject, .package ⟨0, 0⟩ "foo", .class ⟨1, 0⟩ "int"].foldl
    (fun index operation => (operation.run index).2) (.empty 0)

/-- A file of that package with a field of the type `int`. -/
def keywordTypes : TypeResolver :=
  ⟨.parse "foo/A.java" "package foo; class A \x7b int x; \x7d"
    ⟨.node "program" none 0 31 [
      .node "package_declaration" none 0 12 [.node "identifier" none 8 11 []],
      .node "class_declaration" none 13 31 [.node "identifier" (some "name") 19 20 [],
        .node "class_body" (some "body") 21 31 [
          .node "field_declaration" none 23 29 [.node "integral_type" (some "type") 23 26 [],
            .node "variable_declarator" (some "declarator") 27 28
              [.node "identifier" (some "name") 27 28 []]]]]], false⟩,
    none⟩

theorem assembly_keywordIndex : Relation.ReflTransGen Index.Assembly (.empty 0) keywordIndex := by
  iterate 3 refine Relation.ReflTransGen.tail ?_ (.operation (by decide +kernel))
  exact Relation.ReflTransGen.refl

/-- A class `int.X` beside the place of the primitive types, and a class `X` elsewhere. -/
def shadowedIndex : Index :=
  [Operation.project builtinProject, .package ⟨0, 0⟩ "", .class ⟨1, 0⟩ "int.X", .project "app",
    .package ⟨3, 0⟩ "", .class ⟨4, 0⟩ "X"].foldl
    (fun index operation => (operation.run index).2) (.empty 0)

/-- A file that declares a class `int` with fields of the types `X` and `int`. -/
def shadowedTypes : TypeResolver :=
  ⟨.parse "int.java" "class int \x7b X f; int g; \x7d"
    ⟨.node "program" none 0 25 [.node "class_declaration" none 0 25 [
      .node "identifier" (some "name") 6 9 [],
      .node "class_body" (some "body") 10 25 [
        .node "field_declaration" none 12 16 [.node "type_identifier" (some "type") 12 13 [],
          .node "variable_declarator" (some "declarator") 14 15
            [.node "identifier" (some "name") 14 15 []]],
        .node "field_declaration" none 17 23 [.node "integral_type" (some "type") 17 20 [],
          .node "variable_declarator" (some "declarator") 21 22
            [.node "identifier" (some "name") 21 22 []]]]]], false⟩,
    none⟩

theorem assembly_shadowedIndex : Relation.ReflTransGen Index.Assembly (.empty 0) shadowedIndex := by
  iterate 6 refine Relation.ReflTransGen.tail ?_ (.operation (by decide +kernel))
  exact Relation.ReflTransGen.refl

/-- Keywords are kept for the builtin project in both indices.  In the first, a class that is looked up
as `int` is no primitive type, and another one is made.  In the second, `X` is looked up as another class
once `int` is made. -/
theorem lookupType_ne_materializeType :
    (Relation.ReflTransGen Index.Assembly (.empty 0) keywordIndex ∧
      (∀ id item, keywordIndex.get? id = some item → item.kind = .class →
        primitives.contains (Text.lastPiece '.' item.name) = true →
        keywordIndex.projectOf id = keywordIndex.findItem none builtinProject .project) ∧
      keywordTypes.ReservesKeywords ∧
      keywordTypes.lookupType keywordIndex ⟨6, 0⟩ = some ⟨2, 0⟩ ∧
      ((keywordTypes.materializeType ⟨6, 0⟩).run.run keywordIndex).1.toOption = some ⟨4, 0⟩) ∧
    (Relation.ReflTransGen Index.Assembly (.empty 0) shadowedIndex ∧
      shadowedIndex.ReservesKeywords ∧ shadowedTypes.ReservesKeywords ∧
      ((shadowedTypes.materializeType ⟨4, 0⟩).run.run shadowedIndex).1.toOption = some ⟨5, 0⟩ ∧
      shadowedTypes.lookupType ((shadowedTypes.materializeType ⟨8, 0⟩).run.run
        ((shadowedTypes.materializeType ⟨4, 0⟩).run.run shadowedIndex).2).2 ⟨4, 0⟩ = some ⟨2, 0⟩) := by
  have hkeyword := Index.assembled_of_assembly assembly_keywordIndex (by decide +kernel)
  have hshadowed := Index.assembled_of_assembly assembly_shadowedIndex (by decide +kernel)
  refine ⟨⟨assembly_keywordIndex, ?_, ?_, by decide +kernel, by decide +kernel⟩,
    assembly_shadowedIndex, ?_, ?_, by decide +kernel, by decide +kernel⟩
  · refine Index.forall_item_of_ids hkeyword.coherent.stacked ?_
    decide +kernel
  · rw [ReservesKeywords]
    decide +kernel
  · refine Index.forall_item_of_ids hshadowed.coherent.stacked ?_
    decide +kernel
  · rw [ReservesKeywords]
    decide +kernel

end TypeResolver

end CodeAtlas
