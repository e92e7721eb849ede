/-
# Pseudo methods

A call is resolved by the name and the number of arguments, in the classes that may declare its method
and in their supertypes.  When none of these declares such a method, the first class gets one, unless
it is an array or a builtin class or may not get it for another reason.  The new method is a pseudo
method whose parameters are all the wildcard, and the call finds it from then on.
-/
import CodeAtlas.Proofs.Index.Catalogue
import CodeAtlas.Resolve.Calls

namespace CodeAtlas

namespace Index

variable {a b index : Index} {site : CallSite} {method : ItemId × String × Nat}

/-! ## What a call finds -/

/-- A method, by its owner, name and number of parameters, is one that a call may refer to. -/
def Finds (index : Index) (site : CallSite) (method : ItemId × String × Nat) : Prop :=
  method.1 ∈ site.owners.flatMap index.withSupertypes ∧ method.2 = (site.name, site.argCount)

instance (index : Index) (site : CallSite) (method : ItemId × String × Nat) :
    Decidable (index.Finds site method) :=
  inferInstanceAs (Decidable (_ ∧ _))

theorem self_mem_withSupertypes (index : Index) (id : ItemId) : id ∈ index.withSupertypes id :=
  List.mem_cons_self

theorem Catalogued.isSome_findMethod_iff (h : index.Catalogued) {id : ItemId} {name : String}
    {count : Nat} :
    (index.findMethod id (.ofCount name count)).isSome ↔
      ∃ owner ∈ index.withSupertypes id, (owner, name, count) ∈ index.methods := by
  unfold findMethod
  rw [List.findSome?_isSome_iff]
  refine exists_congr (fun owner => and_congr_right (fun _ => ?_))
  rw [List.find?_isSome, mem_methods_iff h.stacked]
  constructor
  · rintro ⟨candidate, hcandidate, hmatch⟩
    obtain ⟨item, hget, hparent, hkind, hname⟩ :=
      (h.registered.mem_findAll_iff h.stacked).1 hcandidate
    rw [matchesItem_ofCount_eq_any, hget] at hmatch
    simp only [Option.any_some, Bool.and_eq_true, beq_iff_eq] at hmatch
    exact ⟨candidate, item, hget, Item.method?_eq_some_iff.2 ⟨hkind, hparent, hname, hmatch.2⟩⟩
  · rintro ⟨candidate, item, hget, hmethod⟩
    obtain ⟨hkind, hparent, hname, hcount⟩ := Item.method?_eq_some_iff.1 hmethod
    refine ⟨candidate,
      (h.registered.mem_findAll_iff h.stacked).2 ⟨item, hget, hparent, hkind, hname⟩, ?_⟩
    rw [matchesItem_ofCount_eq_any, hget]
    simp [hkind, hname, hcount]

/-- A call is resolved when there is a method that it finds. -/
theorem Catalogued.isSome_resolveCall_iff (h : index.Catalogued) (site : CallSite) :
    (index.resolveCall site).isSome ↔ ∃ method ∈ index.methods, index.Finds site method := by
  unfold resolveCall
  rw [List.findSome?_isSome_iff]
  constructor
  · rintro ⟨owner, howner, hfound⟩
    obtain ⟨declaring, hdeclaring, hmethod⟩ := h.isSome_findMethod_iff.1 hfound
    exact ⟨_, hmethod, List.mem_flatMap.2 ⟨owner, howner, hdeclaring⟩, rfl⟩
  · rintro ⟨⟨declaring, name, count⟩, hmethod, hreach, hcalled⟩
    obtain ⟨owner, howner, hdeclaring⟩ := List.mem_flatMap.1 hreach
    obtain ⟨rfl, rfl⟩ := Prod.mk.inj hcalled
    exact ⟨owner, howner, h.isSome_findMethod_iff.2 ⟨declaring, hdeclaring, hmethod⟩⟩

theorem Catalogued.not_mem_methods_of_finds (h : index.Catalogued)
    (hcall : index.resolveCall site = none) (hfinds : index.Finds site method) :
    method ∉ index.methods := by
  intro hmethod
  have hresolved := (h.isSome_resolveCall_iff site).2 ⟨method, hmethod, hfinds⟩
  rw [hcall] at hresolved
  exact absurd hresolved (by simp)

theorem finds_pseudoOwner? {owner : ItemId} (h : index.pseudoOwner? site = some owner) :
    index.Finds site (owner, site.name, site.argCount) := by
  obtain ⟨hhead, _⟩ := Option.filter_eq_some_iff.1 h
  exact ⟨List.mem_flatMap.2 ⟨owner, List.mem_of_mem_head? hhead, index.self_mem_withSupertypes owner⟩,
    rfl⟩

/-- A class may get pseudo methods unless it is an array or stands in the builtin project. -/
theorem acceptsPseudo_iff {owner : ItemId} :
    index.acceptsPseudo owner = true ↔ ∃ item, index.get? owner = some item ∧
      item.arrayBase = none ∧ ∀ project, (index.projectOf owner).bind index.get? = some project →
        project.name ≠ builtinProject := by
  unfold acceptsPseudo
  cases index.get? owner with
  | none => simp
  | some item =>
    cases (index.projectOf owner).bind index.get? <;> simp

theorem contains_of_pseudoOwner? {owner : ItemId} (h : index.pseudoOwner? site = some owner) :
    index.contains owner := by
  obtain ⟨item, hget, _⟩ := acceptsPseudo_iff.1 (Option.filter_eq_some_iff.1 h).2
  exact Option.isSome_iff_exists.2 ⟨item, hget⟩

/-- A call that is resolved stays resolved when items are added. -/
theorem Augments.isSome_resolveCall {made : List ItemId} (h : Augments made a b) (ha : a.Catalogued)
    (hcall : (a.resolveCall site).isSome) : (b.resolveCall site).isSome := by
  obtain ⟨method, hmethod, hreach, hcalled⟩ := (ha.isSome_resolveCall_iff site).1 hcall
  obtain ⟨owner, howner, habove⟩ := List.mem_flatMap.1 hreach
  refine (h.catalogued.isSome_resolveCall_iff site).2 ⟨method, h.mem_methods ha.stacked hmethod, ?_,
    hcalled⟩
  exact List.mem_flatMap.2 ⟨owner, howner, (h.mem_withSupertypes_iff ha.stacked).2 habove⟩

/-! ## The method that is made -/

/-- What is set on a pseudo method when it is made. -/
def pseudoFlags (isThirdParty : Bool) : List (Setting ItemId) :=
  .flag .pseudo true :: if isThirdParty then [.flag .thirdParty true] else []

theorem applyAll_pseudoFlags (isThirdParty : Bool) :
    Setting.applyAll (pseudoFlags isThirdParty) = fun item =>
      let item := item.setFlag .pseudo true
      if isThirdParty then item.setFlag .thirdParty true else item := by
  cases isThirdParty <;> rfl

theorem key_of_mem_pseudoFlags {isThirdParty : Bool} {setting : Setting ItemId}
    (h : setting ∈ pseudoFlags isThirdParty) :
    setting.key = .pseudo ∨ setting.key = .thirdParty := by
  cases isThirdParty with
  | false => exact Or.inl (congrArg Setting.key (List.mem_singleton.1 h))
  | true =>
    rcases List.mem_cons.1 h with rfl | hlast
    · exact Or.inl rfl
    · exact Or.inr (congrArg Setting.key (List.mem_singleton.1 hlast))

theorem isPseudo_applyAll_pseudoFlags (isThirdParty : Bool) (item : Item) :
    (Setting.applyAll (pseudoFlags isThirdParty) item).isPseudo = true := by
  rw [applyAll_pseudoFlags]
  cases isThirdParty <;> simp [Item.isPseudo, Item.setFlag, Item.set, Attributes.flag]

/-- A new method that was made for a call on a class: it is flagged as pseudo, and its parameters are
all the wildcard. -/
structure Makes (before : Index) (owner : ItemId) (site : CallSite) (method : ItemId)
    (after : Index) : Prop where
  augments : Augments [method] before after
  isNew : before.get? method = none
  exists_item : ∃ item wildcard, after.get? method = some item ∧ after.findWildcard = some wildcard ∧
    item.kind = .method ∧ item.parent = some owner ∧ item.name = site.name ∧ item.isPseudo = true ∧
    item.paramTypes? = some (List.replicate site.argCount wildcard)

/-- The index with a pseudo method for a call. -/
def withPseudo (index : Index) (owner : ItemId) (site : CallSite) (wildcard : ItemId)
    (isThirdParty : Bool) : Index :=
  (index.insertMethod owner site.name (some (List.replicate site.argCount wildcard))).modify
    index.nextId (Setting.applyAll (pseudoFlags isThirdParty))

/-- The item of a pseudo method. -/
def pseudoItem (index : Index) (owner : ItemId) (site : CallSite) (wildcard : ItemId)
    (isThirdParty : Bool) : Item :=
  Setting.applyAll (pseudoFlags isThirdParty)
    ((Item.fresh index.nextId site.name .method (some owner)).setParamTypes
      (List.replicate site.argCount wildcard))

theorem paramTypes?_pseudoItem (index : Index) (owner : ItemId) (site : CallSite) (wildcard : ItemId)
    (isThirdParty : Bool) : (index.pseudoItem owner site wildcard isThirdParty).paramTypes? =
      some (List.replicate site.argCount wildcard) := by
  have hkeys : ∀ setting ∈ pseudoFlags isThirdParty, setting.key ≠ .paramTypes := by
    intro setting hsetting
    rcases key_of_mem_pseudoFlags hsetting with hkey | hkey <;> simp [hkey]
  rw [Item.paramTypes?, Attributes.ids?, pseudoItem, Setting.get?_applyAll_of_ne _ _ hkeys]
  simp [Item.setParamTypes, Item.set]

theorem Catalogued.makes_withPseudo (h : index.Catalogued) {owner wildcard : ItemId}
    (htake : index.CanTake (some owner) .method) (hwildcard : index.findWildcard = some wildcard)
    {isThirdParty : Bool} (hroom : HasNumbers index (index.withPseudo owner site wildcard isThirdParty)) :
    Makes index owner site index.nextId (index.withPseudo owner site wildcard isThirdParty) := by
  have hparent := htake.ne_nextId h.toTallied
  have hnone := get?_nextId h.toTallied
  have hinserted : HasNumbers index (index.insertItem (some owner) site.name .method).2 :=
    hroom.mono (Nat.le_of_eq (by rw [withPseudo, size_modify, insertMethod, size_modify]))
  -- the method, then its parameters, then its flags
  have hsigned : Augments [index.nextId] index
      (index.insertMethod owner site.name (some (List.replicate site.argCount wildcard))) :=
    @Augments.set_new _ _ _ (h.augments_insertItem htake (Or.inl rfl) (fun hclass => absurd hclass (by decide))
      (fun _ => List.mem_singleton_self _) hinserted) _ hnone [.params _] (by simp [Setting.key])
  have hflagged : Augments [index.nextId] index (index.withPseudo owner site wildcard isThirdParty) := by
    refine hsigned.set_new hnone (fun setting hsetting => ?_)
    rcases key_of_mem_pseudoFlags hsetting with hkey | hkey <;> simp [hkey]
  have hget : (index.withPseudo owner site wildcard isThirdParty).get? index.nextId =
      some (index.pseudoItem owner site wildcard isThirdParty) := by
    rw [withPseudo, get?_modify, if_pos rfl, insertMethod, get?_modify, if_pos rfl,
      get?_insertItem h.toTallied hparent, if_pos rfl]
    rfl
  obtain ⟨_, hname, hkind, howner⟩ := Setting.keepsPlace_applyAll (pseudoFlags isThirdParty)
    ((Item.fresh index.nextId site.name .method (some owner)).setParamTypes
      (List.replicate site.argCount wildcard))
  exact ⟨hflagged, hnone, _, wildcard, hget, hflagged.findBuiltin hwildcard, hkind, howner, hname,
    isPseudo_applyAll_pseudoFlags _ _, paramTypes?_pseudoItem index owner site wildcard isThirdParty⟩

namespace Makes

variable {before after : Index} {owner made : ItemId}

/-- The only method that there was not before. -/
theorem mem_methods_iff (h : Makes before owner site made after) (hbefore : before.IsStacked) :
    method ∈ after.methods ↔
      method ∈ before.methods ∨ method = (owner, site.name, site.argCount) := by
  obtain ⟨item, wildcard, hget, _, hkind, hparent, hname, _, hparams⟩ := h.exists_item
  have hitem : item.method? = some (owner, site.name, site.argCount) := by
    refine Item.method?_eq_some_iff.2 ⟨hkind, hparent, hname, ?_⟩
    rw [Item.paramTypes, hparams, Option.getD_some, List.length_replicate]
  constructor
  · intro hmethod
    rcases h.augments.mem_methods_cases hbefore hmethod with hold | ⟨id, hid, new, hnew, hcalled⟩
    · exact Or.inl hold
    · rw [List.mem_singleton.1 hid, hget] at hnew
      obtain rfl := Option.some.inj hnew
      exact Or.inr (Option.some.inj (hcalled.symm.trans hitem))
  · rintro (hold | rfl)
    · exact h.augments.mem_methods hbefore hold
    · exact (Index.mem_methods_iff h.augments.catalogued.stacked).2 ⟨made, item, hget, hitem⟩

/-- The call finds the method that was made for it. -/
theorem resolveCall_eq (h : Makes before owner site made after) (hbefore : before.Catalogued)
    (hnew : (owner, site.name, site.argCount) ∉ before.methods) (hhead : site.owners.head? = some owner) :
    after.resolveCall site = some made := by
  have hafter := h.augments.catalogued
  obtain ⟨item, wildcard, hget, _, hkind, hparent, hname, _, hparams⟩ := h.exists_item
  have hlisted : made ∈ after.findAll (some owner) site.name .method :=
    (hafter.registered.mem_findAll_iff hafter.stacked).2 ⟨item, hget, hparent, hkind, hname⟩
  have hmatch : (MethodQuery.ofCount site.name site.argCount).matchesItem after made = true := by
    rw [matchesItem_ofCount_eq_any, hget]
    simp [hkind, hname, Item.paramTypes, hparams]
  have hfind : (after.findAll (some owner) site.name .method).find?
      ((MethodQuery.ofCount site.name site.argCount).matchesItem after) = some made := by
    cases hfound : (after.findAll (some owner) site.name .method).find?
        ((MethodQuery.ofCount site.name site.argCount).matchesItem after) with
    | none => exact absurd hmatch (List.find?_eq_none.1 hfound made hlisted)
    | some other =>
      -- whatever else fits would have been found before
      obtain ⟨otherItem, hother, hotherParent, hotherKind, hotherName⟩ :=
        (hafter.registered.mem_findAll_iff hafter.stacked).1 (List.mem_of_find?_eq_some hfound)
      have hfits := List.find?_some hfound
      rw [matchesItem_ofCount_eq_any, hother] at hfits
      simp only [Option.any_some, Bool.and_eq_true, beq_iff_eq] at hfits
      cases hold : before.get? other with
      | none =>
        rw [List.mem_singleton.1 (h.augments.methods hother hold hotherKind)]
      | some old =>
        obtain ⟨later, hlater, hstays⟩ := h.augments.stays hold
        obtain rfl := Option.some.inj (hother.symm.trans hlater)
        have hdeclared := Item.method?_eq_some_iff.2
          ⟨hotherKind, hotherParent, hotherName, hfits.2⟩
        exact absurd ((Index.mem_methods_iff hbefore.stacked).2
          ⟨other, old, hold, hstays.method?_eq ▸ hdeclared⟩) hnew
  obtain ⟨rest, howners⟩ := List.head?_eq_some_iff.1 hhead
  have hmethod : after.findMethod owner (.ofCount site.name site.argCount) = some made := by
    unfold findMethod withSupertypes
    rw [List.findSome?_cons]
    simp only [MethodQuery.ofCount] at hfind ⊢
    rw [hfind]
  unfold resolveCall
  rw [howners, List.findSome?_cons, hmethod]

/-- What was there before there was a wildcard stays there. -/
theorem of_augments {start : Index} (h : Makes before owner site made after)
    (hstart : Augments [] start before) : Makes start owner site made after where
  augments := hstart.trans h.augments
  isNew := by
    cases hget : start.get? made with
    | none => rfl
    | some item =>
      obtain ⟨later, hlater, _⟩ := hstart.stays hget
      rw [h.isNew] at hlater
      exact absurd hlater (by simp)
  exists_item := h.exists_item

end Makes

/-! ## What a call does -/

/-- What is done for a pseudo method once there is a type for its parameters. -/
def putPseudo (owner : ItemId) (site : CallSite) (wildcard : ItemId) : Edit ItemId := do
  let method ← createMethod owner site.name (some (List.replicate site.argCount wildcard))
  let index ← get
  ExceptT.lift (update method (Setting.applyAll (pseudoFlags (index.inThirdParty owner))))
  return method

theorem createPseudo_eq (owner : ItemId) (site : CallSite) :
    createPseudo owner site = (ExceptT.lift createWildcard : Edit ItemId) >>= putPseudo owner site := by
  unfold putPseudo
  simp only [applyAll_pseudoFlags]
  rfl

theorem continuing_createMethod (owner : ItemId) (name : String) (params : Option (List ItemId)) :
    (createMethod owner name params).Continuing :=
  Paired.continues (@paired_createMethod .identity (fun _ => True) (fun _ => True) owner name params
    (fun _ _ _ => Or.inl trivial))

theorem continuing_putPseudo (owner : ItemId) (site : CallSite) (wildcard : ItemId) :
    (putPseudo owner site wildcard).Continuing := by
  refine (continuing_createMethod _ _ _).bind (fun method => ?_)
  exact Edit.Continuing.get_bind (fun _ => (continuing_update _ _).bind
    (fun _ => Edit.Continuing.pure _))

theorem Catalogued.overload?_eq_none (h : index.Catalogued) {owner : ItemId} {name : String}
    {params : List ItemId} (hnew : (owner, name, params.length) ∉ index.methods) :
    index.overload? owner name params = none := by
  unfold overload?
  rw [List.find?_eq_none]
  intro candidate hcandidate hmatch
  obtain ⟨item, hget, hparent, hkind, hname⟩ :=
    (h.registered.mem_findAll_iff h.stacked).1 hcandidate
  rw [hget] at hmatch
  simp only [Option.map_some, Option.getD_some, paramsMatch, Bool.and_eq_true, beq_iff_eq] at hmatch
  apply hnew
  rw [mem_methods_iff h.stacked]
  exact ⟨candidate, item, hget, Item.method?_eq_some_iff.2 ⟨hkind, hparent, hname, hmatch.1⟩⟩

/-- A class that has no such method yet gets it, unless it is refused. -/
theorem Catalogued.run_putPseudo (h : index.Catalogued) {owner : ItemId} (wildcard : ItemId)
    (hnew : (owner, site.name, site.argCount) ∉ index.methods) :
    (putPseudo owner site wildcard).run.run index =
      match index.refusal? owner .method site.name with
      | some error => (.error error, index)
      | none => (.ok index.nextId, index.withPseudo owner site wildcard
          ((index.insertMethod owner site.name
            (some (List.replicate site.argCount wildcard))).inThirdParty owner)) := by
  have hnone : index.overload? owner site.name (List.replicate site.argCount wildcard) = none := by
    apply h.overload?_eq_none
    rw [List.length_replicate]
    exact hnew
  have hmethod := run_createMethod owner site.name (some (List.replicate site.argCount wildcard)) index
  unfold putPseudo
  cases hrefusal : index.refusal? owner .method site.name with
  | some error =>
    rw [hrefusal] at hmethod
    rw [Edit.run_bind_of_error hmethod]
  | none =>
    rw [hrefusal] at hmethod
    simp only [Option.getD_some, hnone] at hmethod
    rw [Edit.run_bind_of_ok hmethod]
    rfl

/-- A class that has no such method yet gets it, unless it is refused; in any case there is a wildcard
afterwards. -/
theorem Catalogued.createPseudo_cases (h : index.Catalogued) {owner : ItemId}
    (howner : index.contains owner) (hnew : (owner, site.name, site.argCount) ∉ index.methods)
    (hroom : HasNumbers index ((createPseudo owner site).run.run index).2) :
    (index.refusal? owner .method site.name ≠ none ∧
      (∃ error, ((createPseudo owner site).run.run index).1 = .error error) ∧
      Augments [] index ((createPseudo owner site).run.run index).2) ∨
    index.refusal? owner .method site.name = none ∧
      ∃ method, ((createPseudo owner site).run.run index).1 = .ok method ∧
        Makes index owner site method ((createPseudo owner site).run.run index).2 := by
  have hrun : (createPseudo owner site).run.run index =
      (putPseudo owner site (createWildcard index).1).run.run (createWildcard index).2 := by
    rw [createPseudo_eq]
    exact Edit.run_bind_of_ok (Edit.run_lift createWildcard index)
  rw [hrun] at hroom ⊢
  have hless := hroom.mono (continuing_putPseudo owner site _ _).size_le
  obtain ⟨hfurnished, hwildcard⟩ := h.augments_createWildcard hless
  have hlater := hfurnished.hasNumbers hroom
  have hrefusal := hfurnished.isNone_refusal?_eq howner .method site.name
  -- the wildcard is no method, so the class still has none that fits
  have hstill : (owner, site.name, site.argCount) ∉ (createWildcard index).2.methods := by
    intro hmethod
    rcases hfurnished.mem_methods_cases h.stacked hmethod with hold | ⟨id, hid, _⟩
    · exact hnew hold
    · exact absurd hid List.not_mem_nil
  rw [hfurnished.catalogued.run_putPseudo _ hstill] at hlater ⊢
  cases hrefused : (createWildcard index).2.refusal? owner .method site.name with
  | some error =>
    refine Or.inl ⟨fun hnone => ?_, ⟨error, rfl⟩, hfurnished⟩
    rw [hnone, hrefused] at hrefusal
    exact absurd hrefusal (by simp)
  | none =>
    rw [hrefused] at hlater hrefusal
    refine Or.inr ⟨Option.isNone_iff_eq_none.1 hrefusal.symm, _, rfl, ?_⟩
    exact (hfurnished.catalogued.makes_withPseudo (refusal?_eq_none_iff.1 hrefused).1 hwildcard
      hlater).of_augments hfurnished

/-- What a call comes to. -/
theorem run_resolveOrCreate (site : CallSite) (create : Bool) (index : Index) :
    (resolveOrCreate site create).run.run index =
      match index.resolveCall site, (index.pseudoOwner? site).filter (fun _ => create) with
      | some method, _ => (.ok (.resolved method), index)
      | none, some owner =>
        (((createPseudo owner site).run.run index).1.map .created,
          ((createPseudo owner site).run.run index).2)
      | none, none => (.ok .unresolved, index) := by
  unfold resolveOrCreate
  rw [Edit.run_get_bind]
  cases index.resolveCall site with
  | some method => rfl
  | none =>
    cases create with
    | false => cases index.pseudoOwner? site <;> rfl
    | true =>
      dsimp only
      rw [if_pos rfl, Edit.run_get_bind]
      cases index.pseudoOwner? site with
      | none => rfl
      | some owner =>
        rw [Option.filter_some, if_pos rfl]
        dsimp only
        rcases hcreate : (createPseudo owner site).run.run index with ⟨error | method, after⟩
        · exact Edit.run_bind_of_error hcreate
        · exact Edit.run_bind_of_ok hcreate

end Index

end CodeAtlas
