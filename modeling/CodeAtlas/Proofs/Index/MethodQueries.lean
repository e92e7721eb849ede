/-
# Calls and signatures describe the same methods

A call is held against a method argument by argument, a new method against the signatures that are
there, type by type and the other way round.  Once the wildcard stands for the arguments of which
nothing is known, both come to the same.  So a method that is made for a call is made only when the
call describes none, and otherwise it is the first one that the call describes.
-/
import CodeAtlas.Proofs.Index.Identity
import CodeAtlas.Proofs.Index.Scans

namespace CodeAtlas

variable {index : Index} {wildcard : ItemId} {query : MethodQuery}

/-! ## Arguments and types -/

namespace ArgType

/-- The type that an argument gives a parameter: its own, or the wildcard. -/
def typeOr (wildcard : ItemId) : ArgType → ItemId
  | any => wildcard
  | known type => type

theorem argFits_eq_typesMatch (hwildcard : index.findWildcard = some wildcard) (param : ItemId)
    (arg : ArgType) :
    MethodQuery.argFits index param arg = index.typesMatch param (arg.typeOr wildcard) := by
  cases arg with
  | any =>
    refine Eq.symm ((Index.typesMatchWithin_succ_iff index _ _ _).2 (Or.inl ?_))
    exact Or.inr (Or.inr hwildcard)
  | known type => exact index.typesMatch_comm type param

theorem argFits_typeOr (index : Index) (wildcard : ItemId) (arg : ArgType) :
    MethodQuery.argFits index (arg.typeOr wildcard) arg = true := by
  cases arg with
  | any => rfl
  | known type => exact index.typesMatch_refl type

end ArgType

/-! ## Queries and signatures -/

namespace MethodQuery

theorem paramTypes_eq (query : MethodQuery) (wildcard : ItemId) :
    query.paramTypes wildcard = query.args.map (ArgType.typeOr wildcard) := by
  refine List.map_congr_left (fun arg _ => ?_)
  cases arg <;> rfl

/-- Comparing a signature with that of a query is fitting the arguments to it. -/
theorem paramsMatch_paramTypes (hwildcard : index.findWildcard = some wildcard)
    (params : List ItemId) :
    index.paramsMatch params (query.paramTypes wildcard) =
      (params.length == query.args.length &&
        (params.zip query.args).all (fun pair => argFits index pair.1 pair.2)) := by
  rw [Index.paramsMatch, paramTypes_eq, List.length_map, List.zip_map_right, List.all_map]
  congr 2
  funext pair
  exact (ArgType.argFits_eq_typesMatch hwildcard pair.1 pair.2).symm

theorem matchesItem_iff (hwildcard : index.findWildcard = some wildcard) {id : ItemId} :
    query.matchesItem index id = true ↔ ∃ item, index.get? id = some item ∧ item.kind = .method ∧
      item.name = query.name ∧
      index.paramsMatch item.paramTypes (query.paramTypes wildcard) = true := by
  rw [matchesItem]
  cases hget : index.get? id with
  | none => simp
  | some item => simp [paramsMatch_paramTypes hwildcard, and_assoc]

/-- A query describes the method that is made from it, whatever else is known about the types. -/
theorem matchesItem_of_paramTypes {id : ItemId} {item : Item} (hget : index.get? id = some item)
    (hkind : item.kind = .method) (hname : item.name = query.name)
    (hparams : item.paramTypes = query.paramTypes wildcard) :
    query.matchesItem index id = true := by
  have hfits : ∀ args : List ArgType, ((args.map (ArgType.typeOr wildcard)).zip args).all
      (fun pair => argFits index pair.1 pair.2) = true := by
    intro args
    induction args with
    | nil => rfl
    | cons arg args ih =>
      rw [List.map_cons, List.zip_cons_cons, List.all_cons, ih, Bool.and_true]
      exact ArgType.argFits_typeOr index wildcard arg
  rw [matchesItem, hget]
  dsimp only
  rw [hparams, paramTypes_eq, hkind, hname]
  simpa using hfits query.args

end MethodQuery

namespace Index

/-! ## The methods of a class that a query describes -/

/-- The first method of a class that a query describes: no other has a smaller number. -/
structure IsFirstMatch (index : Index) (owner : ItemId) (query : MethodQuery) (method : ItemId) :
    Prop where
  hasParent : index.HasParent method owner
  matches_query : query.matchesItem index method = true
  first : ∀ other, index.HasParent other owner → query.matchesItem index other = true →
    method.raw ≤ other.raw

/-- A query looks only at methods of its name, so it may be asked of all methods of a class. -/
theorem Coherent.mem_findAll_of_matchesItem (h : index.Coherent) {owner id : ItemId}
    (hparent : index.HasParent id owner) (hmatch : query.matchesItem index id = true) :
    id ∈ index.findAll (some owner) query.name .method := by
  obtain ⟨item, hget, hitem⟩ := hparent
  rw [MethodQuery.matchesItem, hget] at hmatch
  simp only [Bool.and_eq_true, beq_iff_eq] at hmatch
  obtain ⟨⟨⟨hkind, hname⟩, _⟩, _⟩ := hmatch
  exact h.mem_findAll_iff.2 ⟨item, hget, hitem, hkind, hname⟩

/-- An overload with the signature of a query is the first method that the query describes. -/
theorem Coherent.overload?_eq_find? (h : index.Coherent)
    (hwildcard : index.findWildcard = some wildcard) (owner : ItemId) (query : MethodQuery) :
    index.overload? owner query.name (query.paramTypes wildcard) =
      (index.findAll (some owner) query.name .method).find? (query.matchesItem index) := by
  refine List.find?_congr (fun id hid => ?_)
  obtain ⟨item, hget, _, hkind, hname⟩ := h.mem_findAll_iff.1 hid
  rw [Bool.eq_iff_iff, MethodQuery.matchesItem_iff hwildcard, hget]
  simp [hkind, hname]

theorem Coherent.isFirstMatch_of_overload? (h : index.Coherent)
    (hwildcard : index.findWildcard = some wildcard) {owner method : ItemId}
    (hfound : index.overload? owner query.name (query.paramTypes wildcard) = some method) :
    index.IsFirstMatch owner query method := by
  rw [h.overload?_eq_find? hwildcard] at hfound
  obtain ⟨item, hget, hparent, _⟩ := h.mem_findAll_iff.1 (List.mem_of_find?_eq_some hfound)
  obtain ⟨hmatch, before, after, hlist, hbefore⟩ := List.find?_eq_some_iff_append.1 hfound
  refine ⟨⟨item, hget, hparent⟩, hmatch, fun other hother hotherMatch => ?_⟩
  have hmem := h.mem_findAll_of_matchesItem hother hotherMatch
  have hincreasing := h.listsItems.findAll_increasing (some owner) query.name .method
  rw [hlist] at hmem hincreasing
  rcases List.mem_append.1 hmem with hearlier | hlater
  · -- the query describes none of those before
    simpa [hotherMatch] using hbefore other hearlier
  · rcases List.mem_cons.1 hlater with rfl | hlater
    · exact UInt32.le_refl _
    · exact UInt32.le_of_lt
        ((List.pairwise_cons.1 (List.pairwise_append.1 hincreasing).2.1).1 other hlater)

theorem Coherent.overload?_eq_none_iff (h : index.Coherent)
    (hwildcard : index.findWildcard = some wildcard) {owner : ItemId} :
    index.overload? owner query.name (query.paramTypes wildcard) = none ↔
      ¬ ∃ id, index.HasParent id owner ∧ query.matchesItem index id = true := by
  rw [h.overload?_eq_find? hwildcard, List.find?_eq_none]
  constructor
  · rintro hnone ⟨id, hparent, hmatch⟩
    exact hnone id (h.mem_findAll_of_matchesItem hparent hmatch) hmatch
  · intro hnone id hid hmatch
    obtain ⟨item, hget, hparent, _⟩ := h.mem_findAll_iff.1 hid
    exact hnone ⟨id, ⟨item, hget, hparent⟩, hmatch⟩

/-! ## Making the method of a query -/

/-- A new method with the signature of a query is a method that the query describes. -/
theorem Coherent.matchesItem_insertMethod (h : index.Coherent) {owner : ItemId}
    (howner : index.CanTake (some owner) .method) (query : MethodQuery) (wildcard : ItemId) :
    let after := index.insertMethod owner query.name (some (query.paramTypes wildcard))
    after.HasParent index.nextId owner ∧ query.matchesItem after index.nextId = true := by
  have hget : (index.insertMethod owner query.name (some (query.paramTypes wildcard))).get?
      index.nextId = some ((Item.fresh index.nextId query.name .method (some owner)).setParamTypes
        (query.paramTypes wildcard)) := by
    rw [insertMethod, get?_modify, if_pos rfl,
      get?_insertItem h.tallied (howner.ne_nextId h.tallied), if_pos rfl, Option.map_some]
  exact ⟨⟨_, hget, rfl⟩, MethodQuery.matchesItem_of_paramTypes hget rfl rfl
    (Item.paramTypes_setParamTypes _ _)⟩

/-- What making the method of a query leads to. -/
structure MadeFor (index : Index) (owner : ItemId) (query : MethodQuery) (method : ItemId)
    (after : Index) : Prop where
  /-- The method is no new one exactly when the query describes a method of the class. -/
  contains_iff : index.contains method ↔
    ∃ id, index.HasParent id owner ∧ query.matchesItem index id = true
  /-- Then it is the first one, and nothing changes. -/
  existing : index.contains method → after = index ∧ index.IsFirstMatch owner query method
  /-- In any case it is a method of the class that the query describes. -/
  hasParent : after.HasParent method owner
  matches_query : query.matchesItem after method = true

theorem Coherent.exists_madeFor (h : index.Coherent)
    (hwildcard : index.findWildcard = some wildcard) {owner : ItemId}
    (howner : index.IsKind owner .class) (hname : query.name ≠ "") :
    ∃ method after, (createMethod owner query.name (some (query.paramTypes wildcard))).run.run index =
      (.ok method, after) ∧ index.MadeFor owner query method after := by
  have htake : index.CanTake (some owner) .method := howner.canTake rfl
  have hrefusal : index.refusal? owner .method query.name = none :=
    refusal?_eq_none_iff.2 ⟨htake, fun hempty => absurd hempty hname⟩
  have hrun := run_createMethod owner query.name (some (query.paramTypes wildcard)) index
  rw [hrefusal] at hrun
  dsimp only [Option.getD_some] at hrun
  cases hfound : index.overload? owner query.name (query.paramTypes wildcard) with
  | some method =>
    rw [hfound] at hrun
    have hfirst := h.isFirstMatch_of_overload? hwildcard hfound
    obtain ⟨item, hget, _⟩ := hfirst.hasParent
    refine ⟨method, index, hrun, ?_, fun _ => ⟨rfl, hfirst⟩, hfirst.hasParent, hfirst.matches_query⟩
    exact iff_of_true (Option.isSome_iff_exists.2 ⟨item, hget⟩)
      ⟨method, hfirst.hasParent, hfirst.matches_query⟩
  | none =>
    rw [hfound] at hrun
    have hnew : ¬ index.contains index.nextId := by
      rw [contains, get?_nextId h.tallied]
      simp
    obtain ⟨hparent, hmatch⟩ := h.matchesItem_insertMethod htake query wildcard
    exact ⟨index.nextId, _, hrun,
      iff_of_false hnew ((h.overload?_eq_none_iff hwildcard).1 hfound),
      fun hknown => absurd hknown hnew, hparent, hmatch⟩

/-- In every index with a wildcard that operations and layers lead to, a query describes a method
exactly when it has its name and the signatures match.  Making the method of a query in a class
finds the first method of the class that the query describes, and makes one only when there is none. -/
theorem queries_agree_with_signatures (h : index.Reachable) (hroom : index.size < 2 ^ 32)
    (hwildcard : index.findWildcard = some wildcard) (query : MethodQuery) :
    (∀ id, query.matchesItem index id = true ↔ ∃ item, index.get? id = some item ∧
      item.kind = .method ∧ item.name = query.name ∧
      index.paramsMatch item.paramTypes (query.paramTypes wildcard) = true) ∧
    ∀ owner, index.IsKind owner .class → query.name ≠ "" → ∃ method after,
      (createMethod owner query.name (some (query.paramTypes wildcard))).run.run index =
        (.ok method, after) ∧ index.MadeFor owner query method after :=
  ⟨fun _ => MethodQuery.matchesItem_iff hwildcard,
    fun _ howner hname => (h.coherent hroom).exists_madeFor hwildcard howner hname⟩

theorem reachable_overloadedApp : overloadedApp.Reachable :=
  ⟨1, (((((((((Relation.ReflTransGen.refl.tail (.operation _ _)).tail (.operation _ _)).tail
    (.operation _ _)).tail (.operation _ _)).tail (.operation _ _)).tail
    (@Step.layer _ 2 (by decide +kernel))).tail (.operation _ _)).tail (.operation _ _)).tail
    (.operation _ _))⟩

/-- An array of any type is asked for: the method for `int` does not match, that for the array does. -/
theorem queries_agree_with_signatures_overloadedApp :
    (MethodQuery.mk "m" [.known ⟨8, 2⟩]).matchesItem overloadedApp ⟨6, 1⟩ = false ∧
      ∃ method after, (createMethod ⟨2, 1⟩ "m" (some [⟨8, 2⟩])).run.run overloadedApp =
        (.ok method, after) ∧
          overloadedApp.MadeFor ⟨2, 1⟩ ⟨"m", [.known ⟨8, 2⟩]⟩ method after := by
  have hagree := queries_agree_with_signatures reachable_overloadedApp (by decide +kernel)
    (show overloadedApp.findWildcard = some ⟨7, 2⟩ by decide +kernel) ⟨"m", [.known ⟨8, 2⟩]⟩
  have hclass : (overloadedApp.get? ⟨2, 1⟩).map Item.kind = some .class := by decide +kernel
  obtain ⟨item, hget, hkind⟩ := Option.map_eq_some_iff.1 hclass
  exact ⟨by decide +kernel, hagree.2 ⟨2, 1⟩ ⟨item, hget, hkind⟩ (by decide)⟩

end Index

end CodeAtlas
