/-
# Calls in any order

A call that nothing declares gives its first owner a method, and that method is found by every later
call that seeks it in a subclass.  So what a run over several calls leaves may depend on their order:
when `Base.m` is called before `Child.m`, the second call finds the method that the first one made; the
other way round, both classes get one.

What a run leaves is worked out here without running it.  Each call lacks at most one method, judged by
the index before the run, and a run makes the methods lacked in turn, leaving out those calls that find
a method made before.  Every order leaves the same methods exactly when each method lacked is lacked by
some call that finds no other of them.
-/
import CodeAtlas.Proofs.Index.Scans
import CodeAtlas.Proofs.Resolve.PseudoMethods
import Mathlib.Data.List.Permutation

namespace CodeAtlas

namespace Index

variable {a b index : Index} {site : CallSite} {method : ItemId × String × Nat}

/-! ## What a call lacks -/

/-- The method that is made for a call: none if the call is resolved, if its first owner gets no pseudo
methods or if the method is refused. -/
def lacking? (index : Index) (site : CallSite) : Option (ItemId × String × Nat) :=
  if (index.resolveCall site).isSome then none
  else ((index.pseudoOwner? site).filter (fun owner =>
    (index.refusal? owner .method site.name).isNone)).map (·, site.name, site.argCount)

theorem lacking?_eq_some_iff :
    index.lacking? site = some method ↔ index.resolveCall site = none ∧
      ∃ owner, index.pseudoOwner? site = some owner ∧
        index.refusal? owner .method site.name = none ∧ method = (owner, site.name, site.argCount) := by
  unfold lacking?
  split
  · rename_i hresolved
    obtain ⟨target, hcall⟩ := Option.isSome_iff_exists.1 hresolved
    simp [hcall]
  · rename_i hunresolved
    rw [Option.not_isSome_iff_eq_none.1 hunresolved, and_iff_right rfl, Option.map_eq_some_iff]
    simp only [Option.filter_eq_some_iff, Option.isNone_iff_eq_none, and_assoc, eq_comm (b := method)]

/-- A call would find the method that is made for it. -/
theorem finds_of_lacking? (h : index.lacking? site = some method) : index.Finds site method := by
  obtain ⟨_, owner, howner, _, rfl⟩ := lacking?_eq_some_iff.1 h
  exact finds_pseudoOwner? howner

/-! ## What one call does -/

/-- One call only adds items, and makes the method that it lacks. -/
theorem Catalogued.resolveOrCreate (h : index.Catalogued)
    (hroom : HasNumbers index ((resolveOrCreate site true).run.run index).2) :
    let after := ((resolveOrCreate site true).run.run index).2
    (∃ made, Augments made index after) ∧
      ∀ method, method ∈ after.methods ↔ method ∈ index.methods ∨ index.lacking? site = some method := by
  rw [run_resolveOrCreate] at hroom ⊢
  cases hcall : index.resolveCall site with
  | some target =>
    exact ⟨⟨[], Augments.refl h⟩, fun method => by simp [lacking?_eq_some_iff, hcall]⟩
  | none =>
    cases howner : index.pseudoOwner? site with
    | none => exact ⟨⟨[], Augments.refl h⟩, fun method => by simp [lacking?_eq_some_iff, howner]⟩
    | some owner =>
      rw [hcall, howner, Option.filter_some, if_pos rfl] at hroom
      have hlacks : ∀ method, index.lacking? site = some method ↔
          index.refusal? owner .method site.name = none ∧
            method = (owner, site.name, site.argCount) := by
        simp [lacking?_eq_some_iff, hcall, howner]
      simp only [Option.filter_some, if_pos, hlacks]
      rcases h.createPseudo_cases (contains_of_pseudoOwner? howner)
        (h.not_mem_methods_of_finds hcall (finds_pseudoOwner? howner)) hroom with
        ⟨hrefused, _, hsame⟩ | ⟨htaken, made, _, hmakes⟩
      · refine ⟨⟨[], hsame⟩, fun method => ?_⟩
        rw [or_iff_left (fun hboth => hrefused hboth.1)]
        refine ⟨fun hmethod => ?_, hsame.mem_methods h.stacked⟩
        refine (hsame.mem_methods_cases h.stacked hmethod).resolve_right ?_
        rintro ⟨id, hid, _⟩
        exact absurd hid List.not_mem_nil
      · refine ⟨⟨[made], hmakes.augments⟩, fun method => ?_⟩
        rw [hmakes.mem_methods_iff h.stacked, and_iff_right htaken]

/-! ## What a call lacks later on -/

section Later

variable {new : List ItemId}

theorem Augments.finds_iff (h : Augments new a b) (ha : a.IsStacked) :
    b.Finds site method ↔ a.Finds site method := by
  unfold Finds
  simp only [List.mem_flatMap, h.mem_withSupertypes_iff ha]

/-- Whether something gets a pseudo method is settled before anything is added: what is new owns no
methods or stands in the builtin project. -/
theorem Augments.takesPseudo_iff (h : Augments new a b) (ha : a.IsStacked) (hknown : a.OwnersKnown)
    {owner : ItemId} {name : String} :
    (b.acceptsPseudo owner = true ∧ b.refusal? owner .method name = none) ↔
      (a.acceptsPseudo owner = true ∧ a.refusal? owner .method name = none) := by
  have hb := h.catalogued.stacked
  by_cases hid : a.contains owner
  · rw [h.toEnlarges.acceptsPseudo_eq ha hb hknown hid, ← Option.isNone_iff_eq_none,
      ← Option.isNone_iff_eq_none, h.toEnlarges.isNone_refusal?_eq hid]
  · have hnone : a.get? owner = none := Option.not_isSome_iff_eq_none.1 hid
    refine iff_of_false ?_ (by simp [acceptsPseudo, hnone])
    rintro ⟨haccepts, htaken⟩
    obtain ⟨item, hget, _, hout⟩ := (acceptsPseudo_iff_not_inBuiltin hb).1 haccepts
    obtain ⟨ownerItem, hownerItem, htakes⟩ := (refusal?_eq_none_iff.1 htaken).1
    obtain rfl := Option.some.inj (hget.symm.trans hownerItem)
    have hclass : item.kind = .class := by
      cases hkind : item.kind <;> simp_all [ItemKind.canContain]
    exact hout (h.classes hget hnone hclass)

/-- The owner that gets a pseudo method for a call is the same as before. -/
theorem Augments.taker?_eq (h : Augments new a b) (ha : a.IsStacked) (hknown : a.OwnersKnown) :
    ((b.pseudoOwner? site).filter (fun owner => (b.refusal? owner .method site.name).isNone)) =
      (a.pseudoOwner? site).filter (fun owner => (a.refusal? owner .method site.name).isNone) := by
  refine Option.ext (fun other => ?_)
  simp only [pseudoOwner?, Option.filter_eq_some_iff, and_assoc, Option.isNone_iff_eq_none]
  exact and_congr_right (fun _ => h.takesPseudo_iff ha hknown)

/-- When methods are made, a call lacks what it lacked before unless it finds one of them. -/
theorem Augments.lacking?_eq (h : Augments new a b) (ha : a.Catalogued) (hknown : a.OwnersKnown)
    {made : List (ItemId × String × Nat)}
    (hmade : ∀ method, method ∈ b.methods ↔ method ∈ a.methods ∨ method ∈ made) :
    b.lacking? site = if ∃ method ∈ made, a.Finds site method then none else a.lacking? site := by
  have hresolved : (b.resolveCall site).isSome ↔
      (a.resolveCall site).isSome ∨ ∃ method ∈ made, a.Finds site method := by
    rw [h.catalogued.isSome_resolveCall_iff, ha.isSome_resolveCall_iff, ← exists_or]
    refine exists_congr (fun method => ?_)
    rw [hmade, h.finds_iff ha.stacked, or_and_right]
  unfold lacking?
  rw [h.taker?_eq ha.stacked hknown]
  by_cases hfound : ∃ method ∈ made, a.Finds site method
  · rw [if_pos hfound, if_pos (hresolved.2 (Or.inr hfound))]
  · rw [if_neg hfound]
    simp only [hresolved, or_iff_left hfound]

end Later

/-! ## Several calls -/

/-- Settles calls one after the other. -/
def resolveAll (index : Index) (sites : List CallSite) : Index :=
  sites.foldl (fun index site => ((resolveOrCreate site true).run.run index).2) index

/-- The methods made so far, and the one that a call lacks unless it finds one of them. -/
def pseudoStep (index : Index) (made : List (ItemId × String × Nat)) (site : CallSite) :
    List (ItemId × String × Nat) :=
  if ∃ method ∈ made, index.Finds site method then made
  else made ++ (index.lacking? site).toList

/-- The methods that a run makes, told without running it. -/
def pseudoMethods (index : Index) (sites : List CallSite) : List (ItemId × String × Nat) :=
  sites.foldl index.pseudoStep []

theorem size_resolveAll_concat_le (index : Index) (sites : List CallSite) (site : CallSite) :
    (resolveAll index sites).size ≤ (resolveAll index (sites ++ [site])).size := by
  unfold resolveAll
  rw [List.foldl_append]
  exact ((@sealing_resolveOrCreate (fun _ => True) site true).continues _).size_le

/-- A run over several calls only adds items, and makes the pseudo methods. -/
theorem Catalogued.resolveAll (h : index.Catalogued) (hknown : index.OwnersKnown)
    {sites : List CallSite} (hroom : HasNumbers index (resolveAll index sites)) :
    (∃ new, Augments new index (resolveAll index sites)) ∧
      ∀ method, method ∈ (resolveAll index sites).methods ↔
        method ∈ index.methods ∨ method ∈ pseudoMethods index sites := by
  induction sites using List.reverseRecOn with
  | nil => exact ⟨⟨[], Augments.refl h⟩, fun method => by simp [Index.resolveAll, pseudoMethods]⟩
  | append_singleton sites site ih =>
    obtain ⟨⟨new, hearlier⟩, hmade⟩ :=
      ih (hroom.mono (size_resolveAll_concat_le index sites site))
    have hafter : Index.resolveAll index (sites ++ [site]) =
        ((Index.resolveOrCreate site true).run.run (Index.resolveAll index sites)).2 := by
      rw [Index.resolveAll, List.foldl_append]
      rfl
    have hpseudo : pseudoMethods index (sites ++ [site]) =
        index.pseudoStep (pseudoMethods index sites) site := by
      rw [pseudoMethods, List.foldl_append]
      rfl
    rw [hafter] at hroom ⊢
    obtain ⟨⟨more, hlast⟩, hmade'⟩ := hearlier.catalogued.resolveOrCreate (hearlier.hasNumbers hroom)
    refine ⟨⟨new ++ more, hearlier.trans hlast⟩, fun method => (hmade' method).trans ?_⟩
    rw [hmade, hpseudo, pseudoStep, hearlier.lacking?_eq h hknown hmade]
    split
    · simp
    · simp [or_assoc]

/-! ## Which methods a run makes -/

variable {made : List (ItemId × String × Nat)} {sites order : List CallSite}

theorem mem_pseudoStep_iff : method ∈ index.pseudoStep made site ↔ method ∈ made ∨
    index.lacking? site = some method ∧ ∀ other ∈ made, ¬ index.Finds site other := by
  unfold pseudoStep
  split
  · rename_i hfound
    obtain ⟨other, hother, hfinds⟩ := hfound
    rw [or_iff_left]
    exact fun hlacks => hlacks.2 other hother hfinds
  · rename_i hnone
    have hnot : ∀ other ∈ made, ¬ index.Finds site other := fun other hother hfinds =>
      hnone ⟨other, hother, hfinds⟩
    rw [List.mem_append, Option.mem_toList, and_iff_left hnot]

theorem subset_foldl_pseudoStep (index : Index) (sites : List CallSite)
    (made : List (ItemId × String × Nat)) : made ⊆ sites.foldl index.pseudoStep made := by
  induction sites generalizing made with
  | nil => exact List.Subset.refl made
  | cons site rest ih =>
    intro method hmethod
    exact ih (index.pseudoStep made site) (mem_pseudoStep_iff.2 (Or.inl hmethod))

theorem mem_foldl_pseudoStep (h : method ∈ sites.foldl index.pseudoStep made) :
    method ∈ made ∨ method ∈ sites.filterMap index.lacking? := by
  induction sites generalizing made with
  | nil => exact Or.inl h
  | cons site rest ih =>
    rcases ih h with hstep | hlater
    · rcases mem_pseudoStep_iff.1 hstep with hbefore | ⟨hlacks, _⟩
      · exact Or.inl hbefore
      · exact Or.inr (List.mem_filterMap.2 ⟨site, List.mem_cons_self, hlacks⟩)
    · obtain ⟨other, hother, hlacks⟩ := List.mem_filterMap.1 hlater
      exact Or.inr (List.mem_filterMap.2 ⟨other, List.mem_cons_of_mem site hother, hlacks⟩)

/-- Only methods that a call lacks are made. -/
theorem pseudoMethods_subset (index : Index) (sites : List CallSite) :
    pseudoMethods index sites ⊆ sites.filterMap index.lacking? := by
  intro method hmethod
  exact (mem_foldl_pseudoStep hmethod).resolve_left List.not_mem_nil

/-- The call that comes first gets the method that it lacks. -/
theorem mem_pseudoMethods_cons (rest : List CallSite) (h : index.lacking? site = some method) :
    method ∈ pseudoMethods index (site :: rest) := by
  apply subset_foldl_pseudoStep index rest
  exact mem_pseudoStep_iff.2 (Or.inr ⟨h, by simp⟩)

/-- A method is made when a call lacks it that finds no other method that is lacked. -/
theorem mem_pseudoMethods_of_lone (hsite : site ∈ sites) (hlacks : index.lacking? site = some method)
    (hlone : ∀ other ∈ sites.filterMap index.lacking?, index.Finds site other → other = method) :
    method ∈ pseudoMethods index sites := by
  obtain ⟨earlier, later, rfl⟩ := List.append_of_mem hsite
  unfold pseudoMethods
  rw [List.foldl_append, List.foldl_cons]
  apply subset_foldl_pseudoStep index later
  rw [mem_pseudoStep_iff]
  by_cases hfound : ∃ other ∈ pseudoMethods index earlier, index.Finds site other
  · obtain ⟨other, hother, hfinds⟩ := hfound
    have hlacked := pseudoMethods_subset index earlier hother
    rw [List.filterMap_append, List.forall_mem_append] at hlone
    exact Or.inl (hlone.1 other hlacked hfinds ▸ hother)
  · exact Or.inr ⟨hlacks, fun other hother hfinds => hfound ⟨other, hother, hfinds⟩⟩

/-- If every call that lacks a method finds another of those made before, it is not made. -/
theorem not_mem_foldl_pseudoStep (hmade : method ∉ made) (hsites : ∀ site ∈ sites,
    index.lacking? site = some method → ∃ other ∈ made, index.Finds site other) :
    method ∉ sites.foldl index.pseudoStep made := by
  induction sites generalizing made with
  | nil => exact hmade
  | cons site rest ih =>
    apply ih
    · rw [mem_pseudoStep_iff]
      rintro (hbefore | ⟨hlacks, hnone⟩)
      · exact hmade hbefore
      · obtain ⟨other, hother, hfinds⟩ := hsites site List.mem_cons_self hlacks
        exact hnone other hother hfinds
    · intro later hlater hlacks
      obtain ⟨other, hother, hfinds⟩ := hsites later (List.mem_cons_of_mem site hlater) hlacks
      exact ⟨other, mem_pseudoStep_iff.2 (Or.inl hother), hfinds⟩

/-- Every order makes the same methods exactly when every order makes all that are lacked. -/
theorem pseudoMethods_perm_iff (index : Index) (sites : List CallSite) :
    (∀ first second : List CallSite, first.Perm sites → second.Perm sites →
      ∀ method, method ∈ pseudoMethods index first ↔ method ∈ pseudoMethods index second) ↔
    ∀ method ∈ sites.filterMap index.lacking?, ∃ site ∈ sites, index.lacking? site = some method ∧
      ∀ other ∈ sites.filterMap index.lacking?, index.Finds site other → other = method := by
  constructor
  · intro hsame method hmethod
    -- some order makes the method, since a call that lacks it may come first; so every order does
    have hall : ∀ order : List CallSite, order.Perm sites →
        ∀ other ∈ sites.filterMap index.lacking?, other ∈ pseudoMethods index order := by
      intro order horder other hother
      obtain ⟨site, hsite, hlacks⟩ := List.mem_filterMap.1 hother
      exact (hsame _ order (List.perm_cons_erase hsite).symm horder other).1
        (mem_pseudoMethods_cons _ hlacks)
    by_contra hnone
    push Not at hnone
    -- let the calls that lack the method come last
    set others := sites.filter (fun site => index.lacking? site ≠ some method) with hothers
    set callers := sites.filter (fun site => !decide (index.lacking? site ≠ some method)) with hcallers
    have horder : (others ++ callers).Perm sites := List.filter_append_perm _ sites
    have hrun : pseudoMethods index (others ++ callers) =
        callers.foldl index.pseudoStep (pseudoMethods index others) := List.foldl_append
    have hmade : method ∉ pseudoMethods index others := by
      intro hmade
      obtain ⟨site, hsite, hlacks⟩ := List.mem_filterMap.1 (pseudoMethods_subset index others hmade)
      rw [hothers, List.mem_filter] at hsite
      exact of_decide_eq_true hsite.2 hlacks
    have hrest : ∀ other ∈ sites.filterMap index.lacking?, other ≠ method →
        other ∈ pseudoMethods index others := by
      intro other hother hne
      have hlast := hall _ horder other hother
      rw [hrun] at hlast
      refine (mem_foldl_pseudoStep hlast).resolve_right (fun hlacked => ?_)
      obtain ⟨site, hsite, hlacks⟩ := List.mem_filterMap.1 hlacked
      rw [hcallers, List.mem_filter] at hsite
      have hcaller : index.lacking? site = some method := by simpa using hsite.2
      exact hne (Option.some.inj (hlacks.symm.trans hcaller))
    have hmissing : method ∉ pseudoMethods index (others ++ callers) := by
      rw [hrun]
      refine not_mem_foldl_pseudoStep hmade (fun site hsite hlacks => ?_)
      obtain ⟨other, hother, hfinds, hne⟩ := hnone site (List.mem_of_mem_filter hsite) hlacks
      exact ⟨other, hrest other hother hne, hfinds⟩
    exact hmissing (hall _ horder method hmethod)
  · intro hlone
    have hall : ∀ order : List CallSite, order.Perm sites →
        ∀ method, method ∈ pseudoMethods index order ↔ method ∈ sites.filterMap index.lacking? := by
      intro order horder method
      have hlacked := (horder.filterMap index.lacking?).mem_iff (a := method)
      refine ⟨fun hmade => hlacked.1 (pseudoMethods_subset index order hmade), fun hmethod => ?_⟩
      obtain ⟨site, hsite, hlacks, honly⟩ := hlone method hmethod
      refine mem_pseudoMethods_of_lone (horder.mem_iff.2 hsite) hlacks (fun other hother => ?_)
      exact honly other ((horder.filterMap index.lacking?).mem_iff.1 hother)
    intro first second hfirst hsecond method
    rw [hall first hfirst, hall second hsecond]

/-! ## Every order -/

/-- In a catalogued index whose owners are items, as long as numbers last, what a run over several
calls leaves is the same in every order exactly when each method that some of the calls lack is lacked
by one that finds no other of these methods. -/
theorem methods_resolveAll_perm_iff (h : index.Catalogued) (hknown : index.OwnersKnown)
    {sites : List CallSite}
    (hroom : ∀ order : List CallSite, order.Perm sites →
      HasNumbers index (resolveAll index order)) :
    (∀ first second : List CallSite, first.Perm sites → second.Perm sites → ∀ method,
      method ∈ (resolveAll index first).methods ↔ method ∈ (resolveAll index second).methods) ↔
    ∀ method ∈ sites.filterMap index.lacking?, ∃ site ∈ sites, index.lacking? site = some method ∧
      ∀ other ∈ sites.filterMap index.lacking?, index.Finds site other → other = method := by
  have hmethods : ∀ order : List CallSite, order.Perm sites → ∀ method,
      method ∈ (resolveAll index order).methods ↔
        method ∈ index.methods ∨ method ∈ pseudoMethods index order :=
    fun order horder => (h.resolveAll hknown (hroom order horder)).2
  -- a method that is lacked was not there before
  have hnew : ∀ (order : List CallSite) (method : ItemId × String × Nat),
      method ∈ pseudoMethods index order → method ∉ index.methods := by
    intro order method hmade
    obtain ⟨site, _, hlacks⟩ := List.mem_filterMap.1 (pseudoMethods_subset index order hmade)
    exact h.not_mem_methods_of_finds (lacking?_eq_some_iff.1 hlacks).1 (finds_of_lacking? hlacks)
  rw [← pseudoMethods_perm_iff]
  refine forall₄_congr (fun first second hfirst hsecond => forall_congr' (fun method => ?_))
  rw [hmethods first hfirst, hmethods second hsecond]
  have hfirstNew := hnew first method
  have hsecondNew := hnew second method
  tauto

/-- A class `p.Base` and its subclass `p.Child`. -/
def hierarchy : Index :=
  [Operation.project "app", .package ⟨0, 1⟩ "p", .class ⟨1, 1⟩ "Base", .class ⟨1, 1⟩ "Child",
    .set ⟨3, 1⟩ (.one ⟨.superclass, AttrKey.holdsOne_superclass⟩ ⟨2, 1⟩)].foldl
    (fun index operation => (operation.run index).2) (empty 1)

/-- A call of a method without arguments on one class. -/
def callOn (owner : ItemId) (name : String) : CallSite :=
  ⟨0, .method, name, [owner], 0, none⟩

theorem orderly_hierarchy : hierarchy.Orderly :=
  ClosedReachable.isOrderly ⟨1, (((((Relation.ReflTransGen.refl.tail
    (.operation (by decide +kernel))).tail (.operation (by decide +kernel))).tail
    (.operation (by decide +kernel))).tail (.operation (by decide +kernel))).tail
    (.operation (by decide +kernel)))⟩ (by decide +kernel)

/-- The same classes, and a method `m` that was put under the superclass by hand.  The registry does
not list it. -/
def unlistedHierarchy : Index :=
  let stored := hierarchy.store (.fresh ⟨4, 1⟩ "m" .method none)
  (stored.modify ⟨4, 1⟩ (fun item => { item with parent := some ⟨2, 1⟩ })).modify ⟨2, 1⟩
    (fun item => { item with children := item.children.push ⟨4, 1⟩ })

theorem patched_unlistedHierarchy : unlistedHierarchy.Patched := by
  have hinsert : hierarchy.insertRaw 4 "m" .method =
      .ok (⟨4, 1⟩, hierarchy.store (.fresh ⟨4, 1⟩ "m" .method none)) := rfl
  have hlink : (hierarchy.store (.fresh ⟨4, 1⟩ "m" .method none)).setParent ⟨4, 1⟩ ⟨2, 1⟩ =
      .ok unlistedHierarchy := rfl
  have hbuilt : hierarchy.Patched :=
    .operation _ (.operation _ (.operation _ (.operation _ (.operation _ (.empty 1)))))
  exact .setParent hlink (.insertRaw hinsert hbuilt)

/-- Called on the subclass first, both classes get the method; called on the superclass first, the
subclass gets none.  A method of the superclass that the registry does not list makes no difference. -/
theorem methods_resolveAll_ne_of_swap :
    [callOn ⟨3, 1⟩ "m", callOn ⟨2, 1⟩ "m"].Perm [callOn ⟨2, 1⟩ "m", callOn ⟨3, 1⟩ "m"] ∧
      ((⟨3, 1⟩, "m", 0) ∈ (resolveAll hierarchy [callOn ⟨3, 1⟩ "m", callOn ⟨2, 1⟩ "m"]).methods ∧
        (⟨3, 1⟩, "m", 0) ∉ (resolveAll hierarchy [callOn ⟨2, 1⟩ "m", callOn ⟨3, 1⟩ "m"]).methods) ∧
      unlistedHierarchy.Patched ∧ (⟨2, 1⟩, "m", 0) ∈ unlistedHierarchy.methods ∧
      (⟨3, 1⟩, "m", 0) ∈
        (resolveAll unlistedHierarchy [callOn ⟨3, 1⟩ "m", callOn ⟨2, 1⟩ "m"]).methods ∧
      (⟨3, 1⟩, "m", 0) ∉
        (resolveAll unlistedHierarchy [callOn ⟨2, 1⟩ "m", callOn ⟨3, 1⟩ "m"]).methods := by
  refine ⟨by decide +kernel, by decide +kernel, patched_unlistedHierarchy, by decide +kernel,
    by decide +kernel, by decide +kernel⟩

/-- Calls of two methods may come in either order. -/
theorem methods_resolveAll_hierarchy :
    hierarchy.Catalogued ∧ hierarchy.OwnersKnown ∧ {method | method ∈
        (resolveAll hierarchy [callOn ⟨3, 1⟩ "m", callOn ⟨2, 1⟩ "n"]).methods} =
      {method | method ∈
        (resolveAll hierarchy [callOn ⟨2, 1⟩ "n", callOn ⟨3, 1⟩ "m"]).methods} := by
  have hcoherent := orderly_hierarchy.coherent
  have hroom : ∀ order ∈ [callOn ⟨3, 1⟩ "m", callOn ⟨2, 1⟩ "n"].permutations',
      (resolveAll hierarchy order).size < 2 ^ 32 := by
    decide +kernel
  have hany := (methods_resolveAll_perm_iff hcoherent.catalogued hcoherent.owned.ownersKnown
    (fun order horder => hcoherent.counted.hasNumbers_iff.2
      (hroom order (List.mem_permutations'.2 horder)))).2 (by decide +kernel)
  refine ⟨hcoherent.catalogued, hcoherent.owned.ownersKnown, ?_⟩
  exact Set.ext (hany _ _ (List.Perm.refl _) (List.Perm.swap _ _ _))

end Index

end CodeAtlas
