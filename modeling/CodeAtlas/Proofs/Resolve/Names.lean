/-
# The names of resolved classes

A name is resolved by imports, packages, enclosing declarations and inherited members, but whatever
class it is resolved to, the name of that class ends in the segment in which the written name ends.  So
a class whose name ends in another segment is never what a name stands for.
-/
import CodeAtlas.Proofs.Index.Assembly
import CodeAtlas.Proofs.Index.Embedding
import CodeAtlas.Proofs.Index.QualifiedNames
import CodeAtlas.Proofs.Text.Cuts

namespace CodeAtlas

open Source

/-! ## Reserved segments -/

/-- No keyword of a primitive type holds a dot. -/
theorem dot_notMem_primitive {name : String} (h : primitives.contains name = true) :
    '.' ∉ name.toList := by
  have hall : ∀ word ∈ primitives, '.' ∉ word.toList := by decide +kernel
  exact hall name (by simpa using h)

/-- A reserved name ends in a reserved segment. -/
theorem Item.IsReserved.lastPiece {name : String} (h : IsReserved name) :
    IsReserved (Text.lastPiece '.' name) := by
  rcases h with hprimitive | rfl | harray
  · rw [Text.lastPiece_eq_self (dot_notMem_primitive hprimitive)]
    exact Or.inl hprimitive
  · rw [Text.lastPiece_eq_self (by decide)]
    exact Or.inr (Or.inl rfl)
  · refine Or.inr (Or.inr ?_)
    rcases (Text.lastPiece_cases '.' name).2 with heq | ⟨front, hname⟩
    · rwa [heq]
    · by_contra hlast
      have hdotted : name = String.ofList front ++ "." ++ Text.lastPiece '.' name :=
        String.toList_inj.1 (by simpa using hname)
      rw [hdotted] at harray
      exact not_namesArray_dotted _ hlast harray

namespace Index

variable {index : Index}

/-! ## Classes by their last segment -/

/-- A class whose name ends in the segment in which a given name ends. -/
def EndsLike (index : Index) (id : ItemId) (name : String) : Prop :=
  ∃ item, index.get? id = some item ∧ item.kind = .class ∧
    Text.lastPiece '.' item.name = Text.lastPiece '.' name

theorem EndsLike.congr {id : ItemId} {name other : String} (h : index.EndsLike id name)
    (hname : Text.lastPiece '.' name = Text.lastPiece '.' other) : index.EndsLike id other := by
  obtain ⟨item, hget, hkind, hitem⟩ := h
  exact ⟨item, hget, hkind, hitem.trans hname⟩

theorem Coherent.endsLike_of_findItem (h : index.Coherent) {parent : Option ItemId} {name : String}
    {id : ItemId} (hfind : index.findItem parent name .class = some id) : index.EndsLike id name := by
  obtain ⟨item, hget, _, hkind, rfl⟩ := h.get?_of_findItem (by decide) hfind
  exact ⟨item, hget, hkind, rfl⟩

theorem Coherent.endsLike_of_memberClass (h : index.Coherent) {outer id : ItemId} {rest : String}
    (hfound : index.memberClass outer rest = some id) : index.EndsLike id rest := by
  rw [memberClass] at hfound
  split at hfound
  · exact (h.endsLike_of_findItem hfound).congr (Text.lastPiece_dotted _ rest)
  · simp at hfound

theorem lastPiece_of_mem_nameSplits {name : String} {package rest : List Char}
    (h : (package, rest) ∈ nameSplits name.toList) :
    Text.lastPiece '.' (String.ofList rest) = Text.lastPiece '.' name := by
  rcases List.mem_append.1 h with hcut | hwhole
  · have hname := mem_dotCuts_iff.1 (List.mem_reverse.1 hcut)
    exact (@Text.lastPiece_of_toList_eq '.' name (String.ofList rest) package (by simpa using hname)).symm
  · obtain ⟨_, rfl⟩ := Prod.mk.inj (List.mem_singleton.1 hwhole)
    rw [String.ofList_toList]

theorem Coherent.endsLike_of_mem_findClasses (h : index.Coherent) {name : String} {id : ItemId}
    (hmem : id ∈ index.findClasses name) : index.EndsLike id name := by
  rw [findClasses, Array.mem_toList_iff, mem_distinct, List.mem_flatMap] at hmem
  obtain ⟨⟨package, rest⟩, hsplit, hid⟩ := hmem
  dsimp only at hid
  split at hid
  · simp at hid
  · obtain ⟨_, _, hfind⟩ := List.mem_filterMap.1 hid
    exact (h.endsLike_of_findItem hfind).congr (lastPiece_of_mem_nameSplits hsplit)

theorem Coherent.endsLike_of_findPrimitive (h : index.Coherent) {name : String} {id : ItemId}
    (hfound : index.findPrimitive name = some id) : index.EndsLike id name := by
  rw [findPrimitive] at hfound
  split at hfound
  · rw [findBuiltin] at hfound
    split at hfound
    · simp at hfound
    · split at hfound
      · simp at hfound
      · exact h.endsLike_of_findItem hfound
  · simp at hfound

end Index

/-! ## Names in a source file -/

/-- The name of a nested declaration ends in its own. -/
theorem Source.Ast.lastPiece_nestedName {ast : Ast} {decl : Nat} {name simple : String}
    (hname : ast.nestedName decl = some name) (hsimple : ast.nameOf decl = some simple) :
    Text.lastPiece '.' name = Text.lastPiece '.' simple := by
  obtain ⟨names, hnames, rfl⟩ := Option.map_eq_some_iff.1 hname
  rw [List.mapM_cons, hsimple] at hnames
  simp only [Option.pure_def, Option.bind_eq_bind, Option.bind_some, Option.bind_eq_some_iff,
    Option.some.injEq] at hnames
  obtain ⟨outer, _, rfl⟩ := hnames
  rw [List.reverse_cons]
  cases hreverse : outer.reverse with
  | nil => simp
  | cons first rest =>
    rw [← hreverse, String.intercalate_append_of_ne_nil (by simp [hreverse]) (by simp)]
    simpa using Text.lastPiece_dotted _ simple

namespace TypeResolver

variable {types : TypeResolver} {index : Index}

theorem endsLike_of_ownClass (h : index.Coherent) {name : String} {id : ItemId}
    (hfound : types.ownClass index name = some id) : index.EndsLike id name :=
  h.endsLike_of_mem_findClasses (Index.mem_of_preferProject hfound)

theorem endsLike_of_classInPackage (h : index.Coherent) {name : String} {id : ItemId}
    (hfound : types.classInPackage index name = some id) : index.EndsLike id name := by
  obtain ⟨_, _, hfind⟩ := List.exists_of_findSome?_eq_some hfound
  exact h.endsLike_of_findItem hfind

theorem endsLike_of_classInSight (h : index.Coherent) {simple : String} {decl : Nat} {id : ItemId}
    (hfound : types.classInSight index simple decl = some id) : index.EndsLike id simple := by
  rw [classInSight] at hfound
  split at hfound
  · simp at hfound
  · rename_i cls hcls
    split at hfound
    · rename_i hsimple
      cases hfound
      obtain ⟨name, hname, hfind⟩ := Option.bind_eq_some_iff.1 hcls
      exact (endsLike_of_classInPackage h hfind).congr
        (Ast.lastPiece_nestedName hname (beq_iff_eq.1 hsimple))
    · rcases Option.or_eq_some_iff.1 hfound with hmember | ⟨_, hinherited⟩
      · exact h.endsLike_of_memberClass hmember
      · obtain ⟨_, _, hmember⟩ := List.exists_of_findSome?_eq_some hinherited
        exact h.endsLike_of_memberClass hmember

theorem endsLike_of_lookupSimple (h : index.Coherent) {node : Nat} {simple : String} {id : ItemId}
    (hfound : types.lookupSimple index node simple = some id) : index.EndsLike id simple := by
  rw [lookupSimple] at hfound
  split at hfound
  · rename_i found hsight
    cases hfound
    obtain ⟨_, _, hsight⟩ := List.exists_of_findSome?_eq_some hsight
    exact endsLike_of_classInSight h hsight
  split at hfound
  · rename_i found himport
    cases hfound
    obtain ⟨imp, himp, hown⟩ := Option.bind_eq_some_iff.1 himport
    have hsimple : imp.simpleName = simple := by
      have hfind := List.find?_some himp
      simp only [Bool.and_eq_true, beq_iff_eq] at hfind
      exact hfind.2
    refine (endsLike_of_ownClass h hown).congr ?_
    -- the last segment of the import is the simple name, which has no dot
    rw [← hsimple, Import.simpleName, Text.lastPiece_eq_self (Text.lastPiece_cases '.' imp.name).1]
  split at hfound
  · rename_i found hpackage
    cases hfound
    exact endsLike_of_classInPackage h hpackage
  split at hfound
  · rename_i found hstar
    cases hfound
    obtain ⟨imp, _, hown⟩ := List.exists_of_findSome?_eq_some hstar
    exact (endsLike_of_ownClass h hown).congr (Text.lastPiece_dotted imp.name simple)
  · exact (endsLike_of_ownClass h hfound).congr (Text.lastPiece_dotted "java.lang" simple)

/-- Whatever a name is resolved to ends in the segment in which the name ends. -/
theorem endsLike_of_lookupClassName (h : index.Coherent) {node : Nat} {name : String} {id : ItemId}
    (hfound : types.lookupClassName index node name = some id) : index.EndsLike id name := by
  rw [lookupClassName] at hfound
  split at hfound
  · rename_i primitive hprimitive
    cases hfound
    exact h.endsLike_of_findPrimitive hprimitive
  split at hfound
  · exact endsLike_of_lookupSimple h hfound
  · rename_i head rest hsplit
    split at hfound
    · rename_i found hown
      cases hfound
      exact endsLike_of_ownClass h hown
    · obtain ⟨outer, _, hmember⟩ := Option.bind_eq_some_iff.1 hfound
      exact (h.endsLike_of_memberClass hmember).congr
        (Text.lastPiece_of_toList_eq (Text.exists_of_splitOnce hsplit).1).symm

end TypeResolver

end CodeAtlas
