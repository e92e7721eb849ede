/-
# Indices that mirror each other

An index mirrors another when it holds the same items under relabelled handles and goes on with the
same number, however the two are layered.  Whatever is asked of one index is answered alike by the
other, up to the relabelling.
-/
import CodeAtlas.Proofs.Index.Relabel
import CodeAtlas.Proofs.Index.WellFormed

namespace CodeAtlas.Index

variable {ρ : Relabelling} {a b : Index}

/-- Any type fits an argument whose type is not known. -/
theorem all_argFits_replicate_any (index : Index) (types : List ItemId) (count : Nat) :
    (types.zip (List.replicate count ArgType.any)).all
      (fun (param, arg) => MethodQuery.argFits index param arg) = true := by
  rw [List.all_eq_true]
  rintro ⟨param, arg⟩ hmem
  rw [List.eq_of_mem_replicate (List.of_mem_zip hmem).2]
  rfl

/-- A query by number of arguments asks nothing of the types of parameters. -/
theorem matchesItem_ofCount_eq_any (index : Index) (name : String) (count : Nat) (id : ItemId) :
    (MethodQuery.ofCount name count).matchesItem index id = (index.get? id).any fun item =>
      item.kind == .method && item.name == name && item.paramTypes.length == count := by
  rw [MethodQuery.matchesItem]
  cases index.get? id with
  | none => rfl
  | some item =>
    simp only [MethodQuery.ofCount, all_argFits_replicate_any, List.length_replicate, Bool.and_true,
      Option.any_some]

/-- Two coherent indices with the same items up to a relabelling of handles. -/
structure Mirrors (ρ : Relabelling) (a b : Index) : Prop where
  left : a.Coherent
  right : b.Coherent
  get?_map : ∀ id, b.get? (ρ.map id) = (a.get? id).map (Item.map ρ.map)
  next_eq : b.nextRaw = a.nextRaw

/-- A coherent index mirrors itself. -/
theorem Coherent.mirrors (h : a.Coherent) : Mirrors .identity a a := by
  refine ⟨h, h, fun id => ?_, rfl⟩
  have hmap : Item.map Relabelling.identity.map = fun item => item :=
    funext Item.map_self
  rw [hmap, Option.map_id']
  rfl

/-- The empty indices of two generations mirror each other. -/
theorem mirrors_empty (ρ : Relabelling) (generation other : Nat) :
    Mirrors ρ (empty generation) (empty other) :=
  ⟨coherent_empty generation, coherent_empty other, fun id => by simp [get?_empty], rfl⟩

namespace Mirrors

/-- Putting a new layer on an index does not change what it mirrors. -/
theorem onBase (h : Mirrors ρ a b) {generation : Nat}
    (hnew : ∀ id ∈ a.ids, id.generation ≠ generation) : Mirrors ρ (onBase generation a) b := by
  refine ⟨coherent_onBase h.left hnew, h.right, fun id => ?_, h.next_eq⟩
  rw [get?_onBase h.left.stacked hnew, h.get?_map]

variable (h : Mirrors ρ a b)
include h

/-! ## Handles -/

theorem contains_map (id : ItemId) : b.contains (ρ.map id) = a.contains id := by
  rw [contains, contains, h.get?_map, Option.isSome_map]

theorem ids_map : b.ids = a.ids.map ρ.map := by
  refine eq_of_sorted (ids_pairwise h.right.stacked) ?_ (fun id => ?_)
  · rw [List.pairwise_map]
    exact ids_pairwise h.left.stacked
  · obtain ⟨before, rfl⟩ := ρ.exists_map_eq id
    rw [mem_ids_iff h.right.stacked, h.contains_map, List.mem_map_of_injective ρ.map_injective,
      mem_ids_iff h.left.stacked]

theorem size_eq : b.size = a.size := by
  rw [← length_ids, ← length_ids, h.ids_map, List.length_map]

theorem items_map : b.items = a.items.map (Item.map ρ.map) := by
  rw [items, items, h.ids_map, List.filterMap_map, List.map_filterMap]
  exact List.filterMap_congr (fun id _ => h.get?_map id)

/-- The handle of a number. -/
theorem resolveRaw_map (raw : UInt32) : b.resolveRaw raw = (a.resolveRaw raw).map ρ.map := by
  refine Option.ext (fun id => ?_)
  obtain ⟨before, rfl⟩ := ρ.exists_map_eq id
  rw [resolveRaw_eq_some_iff h.right.stacked, h.ids_map,
    List.mem_map_of_injective ρ.map_injective, ρ.raw_map, Option.map_eq_some_iff,
    ← resolveRaw_eq_some_iff h.left.stacked]
  exact ⟨fun hraw => ⟨before, hraw, rfl⟩, fun ⟨_, hraw, heq⟩ => ρ.map_injective heq ▸ hraw⟩

/-! ## The registry -/

theorem bears_map (parent : Option ItemId) (kind : ItemKind) (name : String) (id : ItemId) :
    b.bears ⟨parent.map ρ.map, kind, name⟩ (ρ.map id) = a.bears ⟨parent, kind, name⟩ id := by
  rw [bears, bears, h.get?_map, Option.any_map]
  cases a.get? id with
  | none => rfl
  | some item =>
    simp only [Option.any_some, Item.parent_map, Item.kind_map,
      Item.name_map, ItemKey.mk.injEq, (Option.map_injective ρ.map_injective).eq_iff]

theorem bearsName_map (key : NameKey) (id : ItemId) :
    b.bearsName key (ρ.map id) = a.bearsName key id := by
  rw [bearsName, bearsName, h.get?_map, Option.any_map]
  rfl

theorem filter_bears_map (parent : Option ItemId) (kind : ItemKind) (name : String) :
    b.ids.filter (b.bears ⟨parent.map ρ.map, kind, name⟩) =
      (a.ids.filter (a.bears ⟨parent, kind, name⟩)).map ρ.map := by
  rw [h.ids_map, List.filter_map]
  exact congrArg (List.map ρ.map)
    (List.filter_congr (fun id _ => h.bears_map parent kind name id))

theorem findAll_map (parent : Option ItemId) (name : String) (kind : ItemKind) :
    b.findAll (parent.map ρ.map) name kind = (a.findAll parent name kind).map ρ.map := by
  rw [h.right.registered.findAll_eq, h.left.registered.findAll_eq, h.filter_bears_map]

theorem findByName_map (kind : ItemKind) (name : String) :
    b.findByName kind name = (a.findByName kind name).map ρ.map := by
  rw [h.right.registered.findByName_eq, h.left.registered.findByName_eq, h.ids_map,
    List.filter_map]
  exact congrArg (List.map ρ.map)
    (List.filter_congr (fun id _ => h.bearsName_map ⟨kind, name⟩ id))

theorem findItem_map (parent : Option ItemId) (name : String) {kind : ItemKind}
    (hkind : kind ≠ .method) :
    b.findItem (parent.map ρ.map) name kind = (a.findItem parent name kind).map ρ.map := by
  rw [h.right.registered.findItem_eq _ _ _ hkind, h.left.registered.findItem_eq _ _ _ hkind,
    h.filter_bears_map, List.head?_map]

/-! ## Owners -/

theorem ownerWithin_map (kind : ItemKind) (steps : Nat) (id : ItemId) :
    b.ownerWithin kind steps (ρ.map id) = (a.ownerWithin kind steps id).map ρ.map := by
  induction steps generalizing id with
  | zero => rfl
  | succ steps ih =>
    rw [ownerWithin, ownerWithin, h.get?_map]
    cases a.get? id with
    | none => rfl
    | some item =>
      simp only [Option.map_some, Item.kind_map, Item.parent_map]
      by_cases hkind : item.kind = kind
      · simp only [hkind, if_true, Option.map_some]
      · simp only [hkind, if_false]
        cases item.parent with
        | none => rfl
        | some owner => exact ih owner

theorem projectOf_map (id : ItemId) : b.projectOf (ρ.map id) = (a.projectOf id).map ρ.map := by
  rw [projectOf, projectOf, ownerOfKind, ownerOfKind, h.size_eq, h.ownerWithin_map]

/-- What is asked of the project that an item stands in. -/
theorem projectItem_map (id : ItemId) :
    (b.projectOf (ρ.map id)).bind b.get? =
      ((a.projectOf id).bind a.get?).map (Item.map ρ.map) := by
  rw [h.projectOf_map]
  cases a.projectOf id with
  | none => rfl
  | some project => exact h.get?_map project

theorem inThirdParty_map (id : ItemId) : b.inThirdParty (ρ.map id) = a.inThirdParty id := by
  rw [inThirdParty, inThirdParty, h.projectItem_map]
  cases (a.projectOf id).bind a.get? with
  | none => rfl
  | some project => exact Item.isThirdParty_map ρ.map project

theorem unflagged_map : b.unflagged = a.unflagged.map ρ.map := by
  rw [unflagged, unflagged, h.items_map, List.filter_map, List.map_map, List.map_map]
  have htest : (fun item : Item => !item.isThirdParty && b.inThirdParty item.id) ∘
      Item.map ρ.map = fun item : Item => !item.isThirdParty && a.inThirdParty item.id := by
    funext item
    simp only [Function.comp_apply, Item.isThirdParty_map, Item.id_map, h.inThirdParty_map]
  rw [htest]
  rfl

/-! ## Types -/

theorem findBuiltin_map (name : String) : b.findBuiltin name = (a.findBuiltin name).map ρ.map := by
  rw [findBuiltin, findBuiltin]
  have hproject := h.findItem_map none builtinProject (by decide : ItemKind.project ≠ .method)
  rw [Option.map_none] at hproject
  rw [hproject]
  cases a.findItem none builtinProject .project with
  | none => rfl
  | some project =>
    have hpackage := h.findItem_map (some project) "" (by decide : ItemKind.package ≠ .method)
    rw [Option.map_some] at hpackage
    simp only [Option.map_some, hpackage]
    cases a.findItem (some project) "" .package with
    | none => rfl
    | some package =>
      exact h.findItem_map (some package) name (by decide : ItemKind.class ≠ .method)

theorem findWildcard_eq_some_iff (id : ItemId) :
    b.findWildcard = some (ρ.map id) ↔ a.findWildcard = some id := by
  rw [findWildcard, findWildcard, h.findBuiltin_map]
  have hsome : some (ρ.map id) = (some id).map ρ.map := rfl
  rw [hsome, (Option.map_injective ρ.map_injective).eq_iff]

theorem typesMatchWithin_map (steps : Nat) (x y : ItemId) :
    b.typesMatchWithin steps (ρ.map x) (ρ.map y) = a.typesMatchWithin steps x y := by
  induction steps generalizing x y with
  | zero => rfl
  | succ steps ih =>
    rw [typesMatchWithin, typesMatchWithin]
    simp only [ρ.map_inj, h.findWildcard_eq_some_iff, h.get?_map]
    split
    · rfl
    · split
      · rfl
      · cases a.get? x with
        | none => rfl
        | some left =>
          cases a.get? y with
          | none => rfl
          | some right =>
            simp only [Option.map_some, Item.arrayBase_map, Item.arrayDims_map]
            cases left.arrayBase with
            | none => rfl
            | some leftBase =>
              cases right.arrayBase with
              | none => rfl
              | some rightBase => simp only [Option.map_some, ih]

theorem typesMatch_map (x y : ItemId) : b.typesMatch (ρ.map x) (ρ.map y) = a.typesMatch x y := by
  rw [typesMatch, typesMatch, h.size_eq, h.typesMatchWithin_map]

theorem paramsMatch_map (xs ys : List ItemId) :
    b.paramsMatch (xs.map ρ.map) (ys.map ρ.map) = a.paramsMatch xs ys := by
  rw [paramsMatch, paramsMatch, List.length_map, List.length_map, List.zip_map, List.all_map]
  simp only [Function.comp_def, Prod.map, h.typesMatch_map]

/-! ## Supertypes and methods -/

theorem directSupertypes_map (id : ItemId) :
    b.directSupertypes (ρ.map id) = (a.directSupertypes id).map ρ.map := by
  rw [directSupertypes, directSupertypes, h.get?_map]
  cases a.get? id with
  | none => rfl
  | some item =>
    simp only [Option.map_some, Item.superclass_map, Item.superinterfaces_map, List.map_append]
    cases item.superclass <;> rfl

theorem nextLevel_map (seen level : List ItemId) :
    b.nextLevel (seen.map ρ.map) (level.map ρ.map) = (a.nextLevel seen level).map ρ.map := by
  have hlevel : (level.map ρ.map).flatMap b.directSupertypes =
      (level.flatMap a.directSupertypes).map ρ.map := by
    rw [List.flatMap_map, List.map_flatMap]
    exact List.flatMap_congr (fun id _ => h.directSupertypes_map id)
  have htest : (fun id => !(seen.map ρ.map).contains id) ∘ ρ.map =
      fun id => !seen.contains id := by
    funext id
    simp
  rw [nextLevel, nextLevel, hlevel, List.filter_map, htest, ← map_distinct ρ.map_injective,
    Array.toList_map]

theorem supertypesAbove_map (steps : Nat) (seen level : List ItemId) :
    b.supertypesAbove steps (seen.map ρ.map) (level.map ρ.map) =
      (a.supertypesAbove steps seen level).map ρ.map := by
  induction steps generalizing seen level with
  | zero => rfl
  | succ steps ih =>
    rw [supertypesAbove, supertypesAbove, h.nextLevel_map]
    simp only [List.isEmpty_map]
    split
    · rfl
    · rw [List.map_append, ← ih, List.map_append]

theorem withSupertypes_map (id : ItemId) :
    b.withSupertypes (ρ.map id) = (a.withSupertypes id).map ρ.map := by
  have habove := h.supertypesAbove_map (a.size + 1) [id] [id]
  rw [withSupertypes, withSupertypes, supertypes, supertypes, h.size_eq, List.map_cons]
  exact congrArg (ρ.map id :: ·) habove

/-- A query by number of arguments describes the same methods. -/
theorem matchesItem_map (name : String) (count : Nat) (id : ItemId) :
    (MethodQuery.ofCount name count).matchesItem b (ρ.map id) =
      (MethodQuery.ofCount name count).matchesItem a id := by
  rw [matchesItem_ofCount_eq_any, matchesItem_ofCount_eq_any, h.get?_map]
  cases a.get? id with
  | none => rfl
  | some item =>
    simp only [Option.map_some, Option.any_some, Item.kind_map, Item.name_map, Item.paramTypes_map,
      List.length_map]

theorem findMethod_map (id : ItemId) (name : String) (count : Nat) :
    b.findMethod (ρ.map id) (.ofCount name count) =
      (a.findMethod id (.ofCount name count)).map ρ.map := by
  rw [findMethod, findMethod, h.withSupertypes_map, List.findSome?_map, List.map_findSome?]
  congr 1
  funext owner
  have hall := h.findAll_map (some owner) name .method
  rw [Option.map_some] at hall
  have htest : (MethodQuery.ofCount name count).matchesItem b ∘ ρ.map =
      (MethodQuery.ofCount name count).matchesItem a :=
    funext (h.matchesItem_map name count)
  show (b.findAll (some (ρ.map owner)) name .method).find? _ =
    ((a.findAll (some owner) name .method).find? _).map ρ.map
  rw [hall, List.find?_map, htest]

theorem resolveCall_map (site : CallSite) :
    b.resolveCall { site with owners := site.owners.map ρ.map } =
      (a.resolveCall site).map ρ.map := by
  rw [resolveCall, resolveCall, List.findSome?_map, List.map_findSome?]
  congr 1
  funext owner
  exact h.findMethod_map owner site.name site.argCount

theorem acceptsPseudo_map (id : ItemId) : b.acceptsPseudo (ρ.map id) = a.acceptsPseudo id := by
  rw [acceptsPseudo, acceptsPseudo, h.get?_map, h.projectItem_map]
  cases a.get? id with
  | none => rfl
  | some item =>
    simp only [Option.map_some, Item.arrayBase_map, Option.isNone_map]
    cases (a.projectOf id).bind a.get? <;> rfl

theorem pseudoOwner?_map (site : CallSite) :
    b.pseudoOwner? { site with owners := site.owners.map ρ.map } =
      (a.pseudoOwner? site).map ρ.map := by
  rw [pseudoOwner?, pseudoOwner?, List.head?_map]
  cases site.owners.head? with
  | none => rfl
  | some owner =>
    simp only [Option.map_some, Option.filter_some, h.acceptsPseudo_map]
    split <;> rfl

/-! ## Array classes -/

theorem arrayShape_map (id : ItemId) (dims : Nat) :
    b.arrayShape (ρ.map id) dims =
      (ρ.map (a.arrayShape id dims).1, (a.arrayShape id dims).2) := by
  rw [arrayShape, arrayShape, h.get?_map]
  cases a.get? id with
  | none => rfl
  | some item =>
    simp only [Option.map_some, Item.arrayBase_map, Item.arrayDims_map]
    cases item.arrayBase <;> rfl

/-! ## Elementary changes -/

/-- Changing an item and its mirror image alike. -/
theorem modify {f g : Item → Item} (hfg : ∀ item, (f item).map ρ.map = g (item.map ρ.map))
    (id : ItemId) (hleft : (a.modify id f).Coherent) (hright : (b.modify (ρ.map id) g).Coherent) :
    Mirrors ρ (a.modify id f) (b.modify (ρ.map id) g) := by
  refine ⟨hleft, hright, fun other => ?_, by rw [nextRaw_modify, nextRaw_modify, h.next_eq]⟩
  simp only [get?_modify, ρ.map_inj, h.get?_map]
  split
  · cases a.get? id with
    | none => rfl
    | some item => exact congrArg some (hfg item).symm
  · rfl

theorem applyAll (id : ItemId) (settings : List (Setting ItemId)) :
    Mirrors ρ (a.modify id (Setting.applyAll settings))
      (b.modify (ρ.map id) (Setting.applyAll (settings.map (Setting.map ρ.map)))) :=
  h.modify (Setting.map_applyAll ρ.map_injective settings) id (h.left.applyAll id settings)
    (h.right.applyAll _ _)

/-- Creating an item and its mirror image. -/
theorem insertItem {parent : Option ItemId} {name : String} {kind : ItemKind}
    (hnext : ρ.map a.nextId = b.nextId) (hparent : parent ≠ some a.nextId)
    (hleft : (a.insertItem parent name kind).2.Coherent)
    (hright : (b.insertItem (parent.map ρ.map) name kind).2.Coherent) :
    Mirrors ρ (a.insertItem parent name kind).2 (b.insertItem (parent.map ρ.map) name kind).2 := by
  have hsome : ∀ {id : ItemId}, parent.map ρ.map = some (ρ.map id) ↔ parent = some id := by
    intro id
    rw [← Option.map_some, (Option.map_injective ρ.map_injective).eq_iff]
  have hparent' : parent.map ρ.map ≠ some b.nextId := by
    rw [← hnext]
    exact fun heq => hparent (hsome.1 heq)
  refine ⟨hleft, hright, fun id => ?_, ?_⟩
  · rw [get?_insertItem h.right.tallied hparent', get?_insertItem h.left.tallied hparent]
    simp only [← hnext, ρ.map_inj, hsome, h.get?_map]
    split
    · rw [Option.map_some, Item.map_fresh]
    · split
      · cases a.get? id with
        | none => rfl
        | some item => simp [Item.map]
      · rfl
  · rw [(books_insertItem h.right.tallied hparent' name kind).2.2.1,
      (books_insertItem h.left.tallied hparent name kind).2.2.1, h.next_eq]

theorem relink {source target : ItemId} (f g f' g' : Array ItemId → Array ItemId)
    (hf : ∀ ids, (f ids).map ρ.map = f' (ids.map ρ.map))
    (hg : ∀ ids, (g ids).map ρ.map = g' (ids.map ρ.map))
    (hleft : (a.relink source target f g).Coherent)
    (hright : (b.relink (ρ.map source) (ρ.map target) f' g').Coherent) :
    Mirrors ρ (a.relink source target f g) (b.relink (ρ.map source) (ρ.map target) f' g') := by
  refine ⟨hleft, hright, fun id => ?_, ?_⟩
  · simp only [Index.relink, get?_modify, ρ.map_inj, h.get?_map]
    split <;> split <;> cases a.get? _ <;> simp [Item.map, hf, hg]
  · simp only [Index.relink, nextRaw_modify, h.next_eq]

/-- Whether an item depends on another. -/
theorem dependsOn_map (source target : ItemId) :
    (b.get? (ρ.map source)).map (fun item => item.dependencies.contains (ρ.map target)) =
      (a.get? source).map (fun item => item.dependencies.contains target) := by
  rw [h.get?_map, Option.map_map]
  cases a.get? source with
  | none => rfl
  | some item =>
    exact congrArg some (Attributes.contains_map ρ.map_injective item.dependencies target)

theorem addDependency (source target : ItemId) :
    (b.addDependency (ρ.map source) (ρ.map target)).1 = (a.addDependency source target).1 ∧
      Mirrors ρ (a.addDependency source target).2
        (b.addDependency (ρ.map source) (ρ.map target)).2 := by
  have hleft := h.left.addDependency source target
  have hright := h.right.addDependency (ρ.map source) (ρ.map target)
  rw [Index.addDependency, Index.addDependency] at *
  simp only [ρ.map_inj, h.contains_map, h.dependsOn_map] at *
  split
  · exact ⟨rfl, h⟩
  · rename_i hends
    rw [if_neg hends] at hleft hright
    exact ⟨rfl, h.relink (insertNew · target) (insertNew · source) (insertNew · (ρ.map target))
      (insertNew · (ρ.map source)) (fun ids => map_insertNew ρ.map_injective ids target)
      (fun ids => map_insertNew ρ.map_injective ids source) hleft hright⟩

theorem removeDependency (source target : ItemId) :
    (b.removeDependency (ρ.map source) (ρ.map target)).1 = (a.removeDependency source target).1 ∧
      Mirrors ρ (a.removeDependency source target).2
        (b.removeDependency (ρ.map source) (ρ.map target)).2 := by
  refine ⟨congrArg (Option.getD · false) (h.dependsOn_map source target), ?_⟩
  exact h.relink (·.erase target) (·.erase source) (·.erase (ρ.map target)) (·.erase (ρ.map source))
    (fun ids => map_erase ρ.map_injective ids target)
    (fun ids => map_erase ρ.map_injective ids source) (h.left.removeDependency source target)
    (h.right.removeDependency _ _)

end Mirrors

end CodeAtlas.Index
