/-
# Names resolve to classes

Whatever a type name, an expression or a call is resolved to in a sound index is a class, so that
members can be put there.
-/
import CodeAtlas.Proofs.Index.Factory
import CodeAtlas.Resolve.Types

namespace CodeAtlas

open Source

namespace Index

variable {index : Index}

/-- A handle under an attribute is that of a class. -/
theorem Sound.isKind_of_id? (h : index.Sound) {id target : ItemId} {item : Item} {key : AttrKey}
    (hget : index.get? id = some item) (hkey : item.attributes.id? key = some target) :
    index.IsKind target .class := by
  refine h.typed hget (Item.mem_attributeIds_iff.2 ?_)
  rw [Attributes.id?] at hkey
  split at hkey
  · rename_i other hslot
    cases hkey
    exact ⟨key, .id target, hslot, List.mem_singleton.2 rfl⟩
  · simp at hkey

/-! ## By name -/

/-- A class that is found by owner and name is one. -/
def FindsClasses (index : Index) : Prop :=
  ∀ {parent : Option ItemId} {name : String} {id : ItemId},
    index.findItem parent name .class = some id → index.IsKind id .class

theorem Sound.findsClasses (h : index.Sound) : index.FindsClasses :=
  fun hfind => h.isKind_of_findItem hfind

theorem isKind_of_mem_findClasses (h : index.FindsClasses) {name : String} {id : ItemId}
    (hmem : id ∈ index.findClasses name) : index.IsKind id .class := by
  rw [findClasses, Array.mem_toList_iff, mem_distinct, List.mem_flatMap] at hmem
  obtain ⟨⟨package, rest⟩, _, hid⟩ := hmem
  dsimp only at hid
  split at hid
  · simp at hid
  · obtain ⟨_, _, hfind⟩ := List.mem_filterMap.1 hid
    exact h hfind

theorem mem_of_preferProject {project : Option ItemId} {candidates : List ItemId} {id : ItemId}
    (h : index.preferProject project candidates = some id) : id ∈ candidates := by
  rw [preferProject] at h
  rcases Option.or_eq_some_iff.1 h with hown | ⟨_, hhead⟩
  · obtain ⟨_, _, hfind⟩ := Option.bind_eq_some_iff.1 hown
    exact List.mem_of_find?_eq_some hfind
  · exact List.mem_of_mem_head? hhead

theorem isKind_of_memberClass (h : index.FindsClasses) {outer id : ItemId} {rest : String}
    (hfound : index.memberClass outer rest = some id) : index.IsKind id .class := by
  rw [memberClass] at hfound
  split at hfound
  · exact h hfound
  · simp at hfound

theorem isKind_of_findBuiltin (h : index.FindsClasses) {name : String} {id : ItemId}
    (hfound : index.findBuiltin name = some id) : index.IsKind id .class := by
  rw [findBuiltin] at hfound
  split at hfound
  · simp at hfound
  · split at hfound
    · simp at hfound
    · exact h hfound

theorem isKind_of_findPrimitive (h : index.FindsClasses) {name : String} {id : ItemId}
    (hfound : index.findPrimitive name = some id) : index.IsKind id .class := by
  rw [findPrimitive] at hfound
  split at hfound
  · exact isKind_of_findBuiltin h hfound
  · simp at hfound

end Index

/-! ## In a source file -/

namespace TypeResolver

variable {types : TypeResolver} {index : Index}

theorem isKind_of_ownClass (h : index.FindsClasses) {name : String} {id : ItemId}
    (hfound : types.ownClass index name = some id) : index.IsKind id .class :=
  Index.isKind_of_mem_findClasses h (Index.mem_of_preferProject hfound)

theorem isKind_of_classInPackage (h : index.FindsClasses) {name : String} {id : ItemId}
    (hfound : types.classInPackage index name = some id) : index.IsKind id .class := by
  obtain ⟨_, _, hfind⟩ := List.exists_of_findSome?_eq_some hfound
  exact h hfind

theorem isKind_of_classOfDecl (h : index.FindsClasses) {decl : Nat} {id : ItemId}
    (hfound : types.classOfDecl index decl = some id) : index.IsKind id .class := by
  obtain ⟨_, _, hfind⟩ := Option.bind_eq_some_iff.1 hfound
  exact isKind_of_classInPackage h hfind

theorem isKind_of_classInSight (h : index.FindsClasses) {simple : String} {decl : Nat} {id : ItemId}
    (hfound : types.classInSight index simple decl = some id) : index.IsKind id .class := by
  rw [classInSight] at hfound
  split at hfound
  · simp at hfound
  · rename_i cls hcls
    split at hfound
    · cases hfound
      exact isKind_of_classOfDecl h hcls
    · rcases Option.or_eq_some_iff.1 hfound with hmember | ⟨_, hinherited⟩
      · exact Index.isKind_of_memberClass h hmember
      · obtain ⟨_, _, hmember⟩ := List.exists_of_findSome?_eq_some hinherited
        exact Index.isKind_of_memberClass h hmember

theorem isKind_of_lookupSimple (h : index.FindsClasses) {node : Nat} {simple : String} {id : ItemId}
    (hfound : types.lookupSimple index node simple = some id) : index.IsKind id .class := by
  rw [lookupSimple] at hfound
  split at hfound
  · rename_i found hsight
    cases hfound
    obtain ⟨_, _, hsight⟩ := List.exists_of_findSome?_eq_some hsight
    exact isKind_of_classInSight h hsight
  split at hfound
  · rename_i found himport
    cases hfound
    obtain ⟨_, _, himport⟩ := Option.bind_eq_some_iff.1 himport
    exact isKind_of_ownClass h himport
  split at hfound
  · rename_i found hpackage
    cases hfound
    exact isKind_of_classInPackage h hpackage
  split at hfound
  · rename_i found hstar
    cases hfound
    obtain ⟨_, _, hstar⟩ := List.exists_of_findSome?_eq_some hstar
    exact isKind_of_ownClass h hstar
  · exact isKind_of_ownClass h hfound

theorem isKind_of_lookupClassName (h : index.FindsClasses) {node : Nat} {name : String} {id : ItemId}
    (hfound : types.lookupClassName index node name = some id) : index.IsKind id .class := by
  rw [lookupClassName] at hfound
  split at hfound
  · rename_i primitive hprimitive
    cases hfound
    exact Index.isKind_of_findPrimitive h hprimitive
  split at hfound
  · exact isKind_of_lookupSimple h hfound
  split at hfound
  · rename_i found hown
    cases hfound
    exact isKind_of_ownClass h hown
  · obtain ⟨_, _, hmember⟩ := Option.bind_eq_some_iff.1 hfound
    exact Index.isKind_of_memberClass h hmember

theorem isKind_of_resolveName (h : index.FindsClasses) {node : Nat} {name : String} {id : ItemId}
    (hfound : types.resolveName index node name = .found id) : index.IsKind id .class := by
  rw [resolveName] at hfound
  split at hfound
  · simp at hfound
  · split at hfound
    · rename_i found hlookup
      cases hfound
      exact isKind_of_lookupClassName h hlookup
    · simp at hfound

theorem isKind_of_lookupType (h : index.FindsClasses) {use : TypeUse} {id : ItemId}
    (hfound : types.lookupType index use = some id) : index.IsKind id .class := by
  rw [lookupType] at hfound
  split at hfound
  · simp at hfound
  dsimp only at hfound
  split at hfound
  · simp at hfound
  rename_i base hbase
  split at hfound
  · cases hfound
    split at hbase
    · rename_i found hname
      cases hbase
      exact isKind_of_resolveName h hname
    · exact Index.isKind_of_findBuiltin h hbase
    · simp at hbase
  · split at hfound
    · simp at hfound
    · exact h hfound

/-- Making the class of a type use is never refused. -/
theorem safe_materializeType (types : TypeResolver) (use : TypeUse) :
    Safe (fun _ => True) (types.materializeType use) (fun id index => index.IsKind id .class) := by
  rw [materializeType]
  split
  · exact Index.safe_createWildcard
  · rename_i name dims _
    have harray : ∀ base, Safe (fun index => True ∧ index.IsKind base .class)
        (Index.createArrayClass base (dims + use.extraDims))
        (fun id index => index.IsKind id .class) := fun base =>
      (Index.safe_createArrayClass base _).weaken (fun _ hall => hall.2) (fun _ hpost => hpost)
    split
    · rename_i hprimitive
      exact (Index.safe_createPrimitive hprimitive).bind stable_true harray
    · refine Safe.get_bind (fun current => ?_)
      split
      · rename_i found hname
        refine ((Index.safe_createArrayClass found _).weaken ?_ (fun _ hpost => hpost))
        rintro other hlive ⟨rfl, _⟩
        exact isKind_of_resolveName hlive.sound.findsClasses hname
      all_goals
        refine (Index.safe_createWildcard.bind stable_true harray).weaken (fun _ _ => trivial)
          (fun _ hpost => hpost)

end TypeResolver

end CodeAtlas
