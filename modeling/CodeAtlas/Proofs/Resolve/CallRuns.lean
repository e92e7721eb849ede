/-
# Runs over calls

Calls are settled one after the other, each by a method that is found, by a pseudo method that is made
for it or not at all.  One call only adds items, so a run over any calls only adds items, and a call
that was settled once can be resolved ever after.  This asks for a registry that lists the items: a
method that was put under a class by hand is not found before the registry is rebuilt.

A pseudo method is made in two steps: the wildcard, which types its parameters, and then the method.
Only the second step checks the owner and the name.  So a call on something that owns no methods, and a
call without a name, is refused with the wildcard already there, together with the project and the
package it stands in.  Nothing else is made, and an index that has its wildcard is left as it is.

Whether anything was made shows in the numbers: each new item uses up one, and there are at most three.
-/
import CodeAtlas.Proofs.Index.Refusals
import CodeAtlas.Proofs.Resolve.CallOrder
import CodeAtlas.Proofs.Resolve.Calls

namespace CodeAtlas

namespace Index

variable {index : Index} {site : CallSite} {create : Bool}

/-! ## One call -/

/-- What a call comes to, and the index that it leaves.  The flag tells whether a pseudo method may be
made for it. -/
def settle (index : Index) (call : CallSite × Bool) : Except GraphError CallTarget × Index :=
  (resolveOrCreate call.1 call.2).run.run index

/-- The ways to settle a call. -/
inductive Settles (before : Index) (site : CallSite) (create : Bool) : CallTarget → Index → Prop
  /-- A method is found; nothing changes. -/
  | resolved {method : ItemId} (hfound : before.resolveCall site = some method) :
      Settles before site create (.resolved method) before
  /-- No method is found and none may be made; nothing changes. -/
  | unresolved (hnone : before.resolveCall site = none)
      (hrefused : create = false ∨ before.pseudoOwner? site = none) :
      Settles before site create .unresolved before
  /-- Nothing declares the method, so the first class gets it, which is no array and no builtin
  class. -/
  | created {owner method : ItemId} {item : Item} {after : Index} (hcreate : create = true)
      (hundeclared : ∀ other ∈ site.owners, ∀ declaring, before.Inherits other declaring →
        (declaring, site.name, site.argCount) ∉ before.methods)
      (hfirst : site.owners.head? = some owner) (hget : before.get? owner = some item)
      (hflat : item.arrayBase = none)
      (hforeign : ∀ project, (before.projectOf owner).bind before.get? = some project →
        project.name ≠ builtinProject)
      (hmakes : Makes before owner site method after) :
      Settles before site create (.created method) after

/-- One call only adds items. -/
theorem Catalogued.exists_augments_settle (h : index.Catalogued) (call : CallSite × Bool)
    (hroom : HasNumbers index (index.settle call).2) :
    ∃ made, Augments made index (index.settle call).2 := by
  unfold settle at hroom ⊢
  rw [run_resolveOrCreate] at hroom ⊢
  cases hcall : index.resolveCall call.1 with
  | some method => exact ⟨[], Augments.refl h⟩
  | none =>
    cases howner : (index.pseudoOwner? call.1).filter (fun _ => call.2) with
    | none => exact ⟨[], Augments.refl h⟩
    | some owner =>
      rw [hcall, howner] at hroom
      obtain ⟨howner, _⟩ := Option.filter_eq_some_iff.1 howner
      rcases h.createPseudo_cases (contains_of_pseudoOwner? howner)
        (h.not_mem_methods_of_finds hcall (finds_pseudoOwner? howner)) hroom with
        ⟨_, _, hsame⟩ | ⟨_, method, _, hmakes⟩
      · exact ⟨[], hsame⟩
      · exact ⟨[method], hmakes.augments⟩

/-- A call of a method of some classes is settled, never refused. -/
theorem Catalogued.exists_settles (h : index.Catalogued) (hsite : site.Sound index)
    (hroom : HasNumbers index (index.settle (site, create)).2) :
    ∃ target, (index.settle (site, create)).1 = .ok target ∧
      Settles index site create target (index.settle (site, create)).2 := by
  unfold settle at hroom ⊢
  rw [run_resolveOrCreate] at hroom ⊢
  cases hcall : index.resolveCall site with
  | some method => exact ⟨_, rfl, .resolved hcall⟩
  | none =>
    cases howner : (index.pseudoOwner? site).filter (fun _ => create) with
    | none =>
      refine ⟨_, rfl, .unresolved hcall ?_⟩
      cases create with
      | false => exact Or.inl rfl
      | true => exact Or.inr (Option.eq_none_iff_forall_ne_some.2 (by simpa using howner))
    | some owner =>
      rw [hcall, howner] at hroom
      obtain ⟨howner, hcreate⟩ := Option.filter_eq_some_iff.1 howner
      obtain ⟨hfirst, haccepts⟩ := Option.filter_eq_some_iff.1 howner
      obtain ⟨item, hget, hflat, hforeign⟩ := acceptsPseudo_iff.1 haccepts
      -- nothing that the call may refer to is there, in the first class or elsewhere
      have hundeclared : ∀ method, index.Finds site method → method ∉ index.methods :=
        fun method hfinds => h.not_mem_methods_of_finds hcall hfinds
      have htaken : index.refusal? owner .method site.name = none :=
        refusal?_eq_none_iff.2 ⟨(hsite.owners owner (List.mem_of_mem_head? hfirst)).canTake rfl,
          fun hempty => absurd hempty hsite.name_ne⟩
      obtain ⟨hrefused, _⟩ | ⟨_, method, hrun, hmakes⟩ := h.createPseudo_cases
        (contains_of_pseudoOwner? howner) (hundeclared _ (finds_pseudoOwner? howner)) hroom
      · exact absurd htaken hrefused
      · refine ⟨.created method, by simp [hrun, Except.map], ?_⟩
        refine .created hcreate (fun other hother declaring habove => ?_) hfirst hget hflat hforeign
          hmakes
        exact hundeclared _ ⟨List.mem_flatMap.2 ⟨other, hother,
          (mem_withSupertypes_iff h.stacked.isListed).2 habove⟩, rfl⟩

theorem settle_of_resolveCall {target : ItemId} (h : index.resolveCall site = some target) :
    index.settle (site, create) = (.ok (.resolved target), index) := by
  unfold settle
  rw [run_resolveOrCreate, h]

namespace Settles

variable {target : CallTarget} {method : ItemId} {after : Index}

/-- The method that was made for a call is the one that the call finds. -/
theorem resolveCall_eq (h : Settles index site create (.created method) after)
    (hindex : index.Catalogued) : after.resolveCall site = some method := by
  cases h with
  | created _ hundeclared hfirst _ _ _ hmakes =>
    exact hmakes.resolveCall_eq hindex
      (hundeclared _ (List.mem_of_mem_head? hfirst) _ Relation.ReflTransGen.refl) hfirst

theorem isSome_resolveCall (h : Settles index site create target after)
    (hindex : index.Catalogued) (htarget : target ≠ .unresolved) :
    (after.resolveCall site).isSome := by
  cases target with
  | resolved method =>
    cases h with
    | resolved hfound => rw [hfound]; rfl
  | created method => rw [h.resolveCall_eq hindex]; rfl
  | unresolved => exact absurd rfl htarget

theorem eq_of_not_create (h : Settles index site false target after) : after = index := by
  cases h with
  | resolved _ => rfl
  | unresolved _ _ => rfl
  | created hcreate _ _ _ _ _ _ => exact absurd hcreate Bool.false_ne_true

end Settles

/-! ## Several calls -/

/-- The index after several calls in turn. -/
def settleAll (index : Index) (calls : List (CallSite × Bool)) : Index :=
  calls.foldl (fun index call => (index.settle call).2) index

theorem settleAll_append (index : Index) (calls more : List (CallSite × Bool)) :
    index.settleAll (calls ++ more) = (index.settleAll calls).settleAll more :=
  List.foldl_append

theorem size_le_settleAll (index : Index) (calls : List (CallSite × Bool)) :
    index.size ≤ (index.settleAll calls).size := by
  induction calls generalizing index with
  | nil => exact Nat.le_refl _
  | cons call rest ih =>
    have hfirst := ((@sealing_resolveOrCreate (fun _ => True) call.1 call.2).continues index).size_le
    exact Nat.le_trans hfirst (ih (index.settle call).2)

/-- Several calls only add items. -/
theorem Catalogued.exists_augments_settleAll (h : index.Catalogued)
    {calls : List (CallSite × Bool)} (hroom : HasNumbers index (index.settleAll calls)) :
    ∃ made, Augments made index (index.settleAll calls) := by
  induction calls generalizing index with
  | nil => exact ⟨[], Augments.refl h⟩
  | cons call rest ih =>
    obtain ⟨made, hfirst⟩ := h.exists_augments_settle call
      (hroom.mono (size_le_settleAll (index.settle call).2 rest))
    obtain ⟨more, hrest⟩ := ih hfirst.catalogued (hfirst.hasNumbers hroom)
    exact ⟨made ++ more, hfirst.trans hrest⟩

/-- In a catalogued index, as long as numbers last, a call of a method of some classes is settled
wherever it comes in a run, and the run never loses it: whatever is called later, it can be resolved at
the end.  After a method was made for it, the same call finds that method and changes nothing.  A call
for which none may be made changes nothing. -/
theorem settled_call_stays_resolved (h : index.Catalogued) (earlier later : List (CallSite × Bool))
    (site : CallSite) (create : Bool) (hsite : site.Sound (index.settleAll earlier))
    (hroom : HasNumbers index (index.settleAll (earlier ++ (site, create) :: later))) :
    let before := index.settleAll earlier
    let after := (before.settle (site, create)).2
    ∃ target, (before.settle (site, create)).1 = .ok target ∧
      Settles before site create target after ∧
      (target ≠ .unresolved →
        ((index.settleAll (earlier ++ (site, create) :: later)).resolveCall site).isSome) ∧
      (∀ method, target = .created method →
        ∀ again, after.settle (site, again) = (.ok (.resolved method), after)) ∧
      (create = false → after = before) := by
  intro before after
  have hend : index.settleAll (earlier ++ (site, create) :: later) = after.settleAll later := by
    rw [settleAll_append]
    rfl
  rw [hend] at hroom ⊢
  -- room at the end is room before the call and after it
  have hafterSize := size_le_settleAll after later
  have hbeforeSize : before.size ≤ after.size := size_le_settleAll before [(site, create)]
  obtain ⟨_, hearlier⟩ := h.exists_augments_settleAll
    (hroom.mono (Nat.le_trans hbeforeSize hafterSize))
  have hbefore : before.Catalogued := hearlier.catalogued
  have hnumbers := hearlier.hasNumbers hroom
  obtain ⟨_, hcall⟩ := hbefore.exists_augments_settle (site, create) (hnumbers.mono hafterSize)
  obtain ⟨_, hlater⟩ := hcall.catalogued.exists_augments_settleAll (hcall.hasNumbers hnumbers)
  obtain ⟨target, hrun, hsettles⟩ := hbefore.exists_settles hsite (hnumbers.mono hafterSize)
  refine ⟨target, hrun, hsettles, fun htarget => ?_, fun method htarget again => ?_, fun hcreate => ?_⟩
  · exact hlater.isSome_resolveCall hcall.catalogued (hsettles.isSome_resolveCall hbefore htarget)
  · subst htarget
    exact settle_of_resolveCall (hsettles.resolveCall_eq hbefore)
  · subst hcreate
    exact hsettles.eq_of_not_create

theorem sound_callOn {owner : ItemId} {name : String} (hname : name ≠ "")
    (howner : (index.get? owner).map Item.kind = some .class) : (callOn owner name).Sound index := by
  refine ⟨hname, fun other hother => ?_⟩
  obtain rfl := List.mem_singleton.1 hother
  obtain ⟨item, hget, hkind⟩ := Option.map_eq_some_iff.1 howner
  exact ⟨item, hget, hkind⟩

/-- The subclass gets a method and then the superclass another one, which the subclass finds as well.
The call on the superclass is not lost. -/
theorem settled_call_stays_resolved_hierarchy :
    ((hierarchy.settleAll [(callOn ⟨3, 1⟩ "m", true)]).settle (callOn ⟨2, 1⟩ "n", true)).1 =
        .ok (.created ⟨8, 1⟩) ∧
      ((hierarchy.settleAll [(callOn ⟨3, 1⟩ "m", true), (callOn ⟨2, 1⟩ "n", true),
        (callOn ⟨3, 1⟩ "n", true), (callOn ⟨2, 1⟩ "m", true)]).resolveCall
          (callOn ⟨2, 1⟩ "n")).isSome ∧
      (((hierarchy.settleAll [(callOn ⟨3, 1⟩ "m", true)]).settle (callOn ⟨2, 1⟩ "n", true)).2.settle
        (callOn ⟨2, 1⟩ "n", false)).1 = .ok (.resolved ⟨8, 1⟩) := by
  obtain ⟨target, hrun, _, hlast, hagain, _⟩ := settled_call_stays_resolved
    orderly_hierarchy.coherent.catalogued [(callOn ⟨3, 1⟩ "m", true)]
    [(callOn ⟨3, 1⟩ "n", true), (callOn ⟨2, 1⟩ "m", true)] (callOn ⟨2, 1⟩ "n") true
    (sound_callOn (by decide) (by decide +kernel))
    (orderly_hierarchy.coherent.counted.hasNumbers_iff.2 (by decide +kernel))
  have hanswer : ((hierarchy.settleAll [(callOn ⟨3, 1⟩ "m", true)]).settle
      (callOn ⟨2, 1⟩ "n", true)).1 = .ok (.created ⟨8, 1⟩) := by
    decide +kernel
  have hcreated := Except.ok.inj (hrun.symm.trans hanswer)
  exact ⟨hanswer, hlast (by simp [hcreated]), congrArg Prod.fst (hagain _ hcreated false)⟩

/-- A method that the registry does not list is not found, and the class that owns it gets another one
of the same name and number of parameters. -/
theorem unlisted_method_made_again :
    unlistedHierarchy.Patched ∧ (callOn ⟨2, 1⟩ "m").Sound unlistedHierarchy ∧
      (⟨2, 1⟩, "m", 0) ∈ unlistedHierarchy.methods ∧
      (unlistedHierarchy.settle (callOn ⟨2, 1⟩ "m", true)).1 = .ok (.created ⟨8, 1⟩) ∧
      (unlistedHierarchy.settle (callOn ⟨2, 1⟩ "m", true)).2.methods =
        [(⟨2, 1⟩, "m", 0), (⟨2, 1⟩, "m", 0)] :=
  ⟨patched_unlistedHierarchy, sound_callOn (by decide) (by decide +kernel), by decide +kernel,
    by decide +kernel, by decide +kernel⟩

end Index

namespace Index

variable {index after : Index} {site : CallSite} {create : Bool} {error : GraphError}

/-! ## Numbers that are used up -/

/-- A new item uses up a number, wherever the numbers stand. -/
theorem nextRaw_insertItem (index : Index) (parent : Option ItemId) (name : String) (kind : ItemKind) :
    (index.insertItem parent name kind).2.nextRaw = index.nextRaw + 1 := by
  obtain ⟨_, _, hregister, _⟩ := books_register (index.linked parent name kind) index.nextId
  obtain ⟨_, _, hlinked, _⟩ := books_linked index parent name kind
  rw [insertItem_eq, nextRaw, hregister, hlinked, stored, store, Layer.store]
  split
  · rfl
  · -- the number that was handed out is reserved once more
    show max (index.nextRaw + 1) (index.nextRaw + 1) = index.nextRaw + 1
    exact ite_self _

theorem intern_of_findItem {parent : Option ItemId} {name : String} {kind : ItemKind} {id : ItemId}
    (h : index.findItem parent name kind = some id) :
    intern parent name kind index = (id, index) := by
  unfold intern
  rw [h]

/-- Finding or creating uses up one number or none, and none only if the item is found. -/
theorem exists_used_intern (parent : Option ItemId) (name : String) (kind : ItemKind)
    (index : Index) : ∃ used ≤ 1,
      (intern parent name kind index).2.nextRaw.toNat = (index.nextRaw.toNat + used) % 2 ^ 32 ∧
      (used = 0 → ∃ id, index.findItem parent name kind = some id) := by
  cases hfind : index.findItem parent name kind with
  | some id =>
    rw [intern_of_findItem hfind]
    exact ⟨0, by omega, (Nat.mod_eq_of_lt index.nextRaw.toNat_lt).symm, fun _ => ⟨id, rfl⟩⟩
  | none =>
    have hnext : (intern parent name kind index).2.nextRaw = index.nextRaw + 1 := by
      unfold intern
      rw [hfind]
      exact nextRaw_insertItem index parent name kind
    rw [hnext]
    exact ⟨1, le_rfl, rfl, fun hzero => absurd hzero (by omega)⟩

/-- Asking for a builtin class changes nothing exactly when the class is there. -/
theorem createBuiltin_eq_self_iff {name : String} :
    (createBuiltin name index).2 = index ↔ (index.findBuiltin name).isSome = true := by
  unfold findBuiltin
  rw [createBuiltin_eq, createBuiltinPackage_eq]
  constructor
  · -- the project, the package and the class use up three numbers at most, and here none
    intro hsame
    obtain ⟨used, hused, hnext, hproject⟩ := exists_used_intern none builtinProject .project index
    obtain ⟨used', hused', hnext', hpackage⟩ := exists_used_intern
      (some (intern none builtinProject .project index).1) "" .package
      (intern none builtinProject .project index).2
    obtain ⟨used'', hused'', hnext'', hclass⟩ := exists_used_intern _ name .class _
    rw [hsame] at hnext''
    have hlt := index.nextRaw.toNat_lt
    obtain ⟨project, hproject⟩ := hproject (by omega)
    rw [intern_of_findItem hproject] at hpackage hclass
    obtain ⟨package, hpackage⟩ := hpackage (by omega)
    rw [intern_of_findItem hpackage] at hclass
    obtain ⟨id, hclass⟩ := hclass (by omega)
    simp only [hproject, hpackage, hclass, Option.isSome_some]
  · intro hfound
    cases hproject : index.findItem none builtinProject .project with
    | none => simp [hproject] at hfound
    | some project =>
      simp only [hproject] at hfound
      rw [intern_of_findItem hproject]
      cases hpackage : index.findItem (some project) "" .package with
      | none => simp [hpackage] at hfound
      | some package =>
        simp only [hpackage] at hfound
        rw [intern_of_findItem hpackage]
        obtain ⟨id, hclass⟩ := Option.isSome_iff_exists.1 hfound
        rw [intern_of_findItem hclass]

/-! ## Refusals -/

/-- Once there is a wildcard, a pseudo method is refused for its owner and its name only, and then
nothing more is made. -/
theorem run_putPseudo_eq_error_iff {owner wildcard : ItemId} :
    (putPseudo owner site wildcard).run.run index = (.error error, after) ↔
      index.refusal? owner .method site.name = some error ∧ after = index := by
  have hmethod := run_createMethod owner site.name (some (List.replicate site.argCount wildcard)) index
  unfold putPseudo
  cases hrefusal : index.refusal? owner .method site.name with
  | some refusal =>
    rw [hrefusal] at hmethod
    rw [Edit.run_bind_of_error hmethod, Prod.mk.injEq, Except.error.injEq, Option.some.injEq]
    exact and_congr_right (fun _ => eq_comm)
  | none =>
    rw [hrefusal] at hmethod
    obtain ⟨id, made, hmade⟩ : ∃ id made, (createMethod owner site.name
        (some (List.replicate site.argCount wildcard))).run.run index = (.ok id, made) := by
      rw [hmethod]
      dsimp only
      split
      · exact ⟨_, _, rfl⟩
      · exact ⟨_, _, rfl⟩
    rw [Edit.run_bind_of_ok hmade]
    constructor
    · intro hrun
      cases hrun
    · simp

/-- What is left of a pseudo method that is refused is the wildcard. -/
theorem run_createPseudo_eq_error_iff {owner : ItemId} :
    (createPseudo owner site).run.run index = (.error error, after) ↔
      (createWildcard index).2.refusal? owner .method site.name = some error ∧
        after = (createWildcard index).2 := by
  have hrun : (createPseudo owner site).run.run index =
      (putPseudo owner site (createWildcard index).1).run.run (createWildcard index).2 := by
    rw [createPseudo_eq]
    exact Edit.run_bind_of_ok (Edit.run_lift createWildcard index)
  rw [hrun]
  exact run_putPseudo_eq_error_iff

/-- A call is refused exactly when nothing declares the method, it asks for a pseudo method and its
first owner, which accepts them in general, may not have this one. -/
theorem settle_eq_error_iff : index.settle (site, create) = (.error error, after) ↔
    index.resolveCall site = none ∧ create = true ∧
      ∃ owner, index.pseudoOwner? site = some owner ∧
        (createWildcard index).2.refusal? owner .method site.name = some error ∧
        after = (createWildcard index).2 := by
  unfold settle
  rw [run_resolveOrCreate]
  cases index.resolveCall site with
  | some method => simp
  | none =>
    cases create with
    | false => cases index.pseudoOwner? site <;> simp
    | true =>
      cases index.pseudoOwner? site with
      | none => simp
      | some owner =>
        have hpseudo : (((createPseudo owner site).run.run index).1.map CallTarget.created,
            ((createPseudo owner site).run.run index).2) = (.error error, after) ↔
            (createPseudo owner site).run.run index = (.error error, after) := by
          rcases (createPseudo owner site).run.run index with ⟨refusal | method, left⟩
          · constructor
            · intro hrun
              cases hrun
              rfl
            · intro hrun
              cases hrun
              rfl
          · constructor <;> intro hrun <;> cases hrun
        rw [Option.filter_some, if_pos rfl]
        dsimp only
        rw [hpseudo, run_createPseudo_eq_error_iff]
        simp

/-- A refused call leaves the index with its wildcard, whatever the owners, the name and the number of
arguments; so it changes nothing exactly when the wildcard was there.  It is refused for what its owner
is or for its name. -/
theorem refused_call_leaves_wildcard (h : index.settle (site, create) = (.error error, after)) :
    after = (createWildcard index).2 ∧
      (after = index ↔ index.findWildcard.isSome = true) ∧
      ∃ owner, index.pseudoOwner? site = some owner ∧
        after.refusal? owner .method site.name = some error := by
  obtain ⟨_, _, owner, howner, hrefusal, rfl⟩ := settle_eq_error_iff.1 h
  exact ⟨rfl, createBuiltin_eq_self_iff, owner, howner, hrefusal⟩

/-- A project and nothing else. -/
def bareApp : Index :=
  ((Operation.project "app").run (empty 1)).2

/-- A call of a method of the project is refused, and three items were made for it. -/
theorem refused_call_leaves_wildcard_bareApp :
    (bareApp.settle (callOn ⟨0, 1⟩ "run", true)).1 =
        .error (.cannotContain .project "app" .method "run") ∧
      (bareApp.settle (callOn ⟨0, 1⟩ "run", true)).2 ≠ bareApp ∧
      (bareApp.settle (callOn ⟨0, 1⟩ "run", true)).2.items.map Item.name =
        ["app", "$builtin", "", "?"] := by
  have hrefused : (bareApp.settle (callOn ⟨0, 1⟩ "run", true)).1 =
      .error (.cannotContain .project "app" .method "run") := by
    decide +kernel
  obtain ⟨_, hsame, _⟩ := refused_call_leaves_wildcard (Prod.ext hrefused rfl)
  refine ⟨hrefused, fun heq => ?_, by decide +kernel⟩
  exact absurd (hsame.1 heq) (by decide +kernel)

end Index

end CodeAtlas
