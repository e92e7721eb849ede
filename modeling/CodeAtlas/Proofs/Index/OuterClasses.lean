/-
# The class around a class

A class is declared inside another when it is created there.  Its name is then that of the other, a dot
and its simple name, and both stand in one package.  So an operation gives a class no other class around
it than the one its name tells, unless the attribute is set by hand: a class with no dot in its name has
none, and one that was created under a simple name without dots keeps it for ever.
-/
import CodeAtlas.Proofs.Index.Robust

namespace CodeAtlas

variable {α : Type}

/-! ## Changes of items -/

namespace Item

/-- Settings under other keys leave the class around a class alone. -/
theorem outerClass_applyAll {settings : List (Setting ItemId)}
    (h : ∀ setting ∈ settings, setting.key ≠ .outerClass) (item : Item) :
    (Setting.applyAll settings item).outerClass = item.outerClass := by
  rw [outerClass, outerClass, Attributes.id?, Attributes.id?,
    Setting.get?_applyAll_of_ne settings item h]

/-- A name without dots. -/
def IsSimple (name : String) : Prop :=
  '.' ∉ name.toList

instance (name : String) : Decidable (IsSimple name) :=
  inferInstanceAs (Decidable ('.' ∉ name.toList))

theorem not_isSimple_dotted (outer simple : String) : ¬ IsSimple (outer ++ "." ++ simple) := by
  simp [IsSimple, String.toList_append]

theorem Stays.outerClass_eq {before after : Item} (h : before.Stays after) :
    after.outerClass = before.outerClass := by
  rw [outerClass, outerClass, h.attributes_eq]

end Item

namespace Index

variable {a b c start index : Index} {simples : String → Prop}

/-! ## Indices whose items are told apart -/

/-- The links are in order and items are told apart by their keys. -/
structure Keyed (index : Index) : Prop where
  coherent : index.Coherent
  distinct : index.Distinct

theorem Reachable.keyed (h : index.Reachable) (hroom : index.size < 2 ^ 32) : index.Keyed :=
  ⟨h.coherent hroom, h.distinct hroom⟩

/-- Steps leave items told apart and where they are. -/
theorem Keyed.keeps_of_steps (h : a.Keyed) (hsteps : Relation.ReflTransGen Step a b)
    (hroom : b.size < 2 ^ 32) : b.Keyed ∧ KeepsItems a b := by
  induction hsteps with
  | refl => exact ⟨h, KeepsItems.refl a⟩
  | tail _ hstep ih =>
    obtain ⟨hkeyed, hkeeps⟩ := ih (Nat.lt_of_le_of_lt hstep.size_le hroom)
    obtain ⟨hcoherent, hkept⟩ := hstep.coherent hkeyed.coherent hroom
    have hdistinct := hstep.distinct hkeyed.coherent hkeyed.distinct hroom
    exact ⟨⟨hcoherent, hdistinct⟩, hkeeps.trans hkept⟩

theorem Keyed.findItem_eq_some_iff (h : index.Keyed) {parent : Option ItemId} {name : String}
    {kind : ItemKind} {id : ItemId} (hkind : kind ≠ .method) :
    index.findItem parent name kind = some id ↔ index.Has id parent kind name :=
  h.coherent.findItem_eq_some_iff h.distinct hkind

theorem Keyed.eq_of_has (h : index.Keyed) {parent : Option ItemId} {name : String} {kind : ItemKind}
    {id other : ItemId} (hkind : kind ≠ .method) (hid : index.Has id parent kind name)
    (hother : index.Has other parent kind name) : id = other := by
  have hfind := (h.findItem_eq_some_iff hkind).2 hid
  rw [(h.findItem_eq_some_iff hkind).2 hother] at hfind
  exact (Option.some.inj hfind).symm

theorem KeepsItems.has (h : KeepsItems a b) {id : ItemId} {parent : Option ItemId} {kind : ItemKind}
    {name : String} (hhas : a.Has id parent kind name) : b.Has id parent kind name := by
  obtain ⟨item, hget, rfl, rfl, rfl⟩ := hhas
  obtain ⟨later, hlater, hname, hkind, hparent⟩ := h id item hget
  exact ⟨later, hlater, hparent, hkind, hname⟩

theorem KeepsItems.isKind (h : KeepsItems a b) {id : ItemId} {kind : ItemKind}
    (hid : a.IsKind id kind) : b.IsKind id kind := by
  obtain ⟨item, hget, rfl⟩ := hid
  obtain ⟨later, hlater, _, hkind, _⟩ := h id item hget
  exact ⟨later, hlater, hkind⟩

/-! ## Classes around classes -/

/-- The class `outer` has the name of the item up to a dot, and one of `simples` follows the dot. -/
def NestedBy (simples : String → Prop) (index : Index) (item : Item) (outer : ItemId) : Prop :=
  ∃ outerName simple, index.Has outer item.parent .class outerName ∧ simples simple ∧
    item.name = outerName ++ "." ++ simple

/-- From `start` to `index` items stay where they are, and a class has the class around it that it had
before, if not the one its name tells. -/
structure Nests (simples : String → Prop) (start index : Index) : Prop extends index.Keyed where
  keeps : KeepsItems start index
  outer : ∀ {id : ItemId} {item : Item}, index.get? id = some item →
    item.outerClass = (start.get? id).bind Item.outerClass ∨
      ∃ outer, item.outerClass = some outer ∧ index.NestedBy simples item outer

theorem Keyed.nests_self (h : index.Keyed) : Nests simples index index :=
  ⟨h, KeepsItems.refl index, fun hget => Or.inl (by rw [hget, Option.bind_some])⟩

theorem Nests.trans (hab : Nests simples a b) (hbc : Nests simples b c) : Nests simples a c := by
  refine ⟨hbc.toKeyed, hab.keeps.trans hbc.keeps, fun {id item} hget => ?_⟩
  refine (hbc.outer hget).elim (fun hsame => ?_) Or.inr
  cases hmiddle : b.get? id with
  | none =>
    -- what is new between `b` and `c` is new between `a` and `c`
    have hnone : a.get? id = none := by
      cases hbefore : a.get? id with
      | none => rfl
      | some before =>
        obtain ⟨middle, hsome, _⟩ := hab.keeps id before hbefore
        rw [hmiddle] at hsome
        exact absurd hsome (by simp)
    rw [hmiddle] at hsame
    exact Or.inl (hsame.trans (by rw [hnone]))
  | some middle =>
    rw [hmiddle, Option.bind_some] at hsame
    rcases hab.outer hmiddle with hold | ⟨outer, houter, outerName, simple, hhas, hsimple, hname⟩
    · exact Or.inl (hsame.trans hold)
    · obtain ⟨later, hlater, hlaterName, _, hlaterParent⟩ := hbc.keeps id middle hmiddle
      obtain rfl := Option.some.inj (hget.symm.trans hlater)
      refine Or.inr ⟨outer, hsame.trans houter, outerName, simple, ?_, hsimple,
        hlaterName.trans hname⟩
      rw [hlaterParent]
      exact hbc.keeps.has hhas

/-- No class stands around a class with no dot in its name. -/
def FreeTops (index : Index) : Prop :=
  ∀ {id : ItemId} {item : Item}, index.get? id = some item → Item.IsSimple item.name →
    item.outerClass = none

theorem Nests.freeTops (h : Nests simples a b) (ha : a.FreeTops) : b.FreeTops := by
  intro id item hget hname
  rcases h.outer hget with hsame | ⟨_, _, outerName, simple, _, _, hdotted⟩
  · rw [hsame]
    cases hbefore : a.get? id with
    | none => rfl
    | some before =>
      obtain ⟨later, hlater, hlaterName, _⟩ := h.keeps id before hbefore
      obtain rfl := Option.some.inj (hget.symm.trans hlater)
      exact ha hbefore (hlaterName ▸ hname)
  · rw [hdotted] at hname
    exact absurd hname (Item.not_isSimple_dotted outerName simple)

/-! ## What changes do -/

namespace Keyed

theorem nests_of_allStay (h : a.Keyed) (hcoherent : b.Coherent) (hstay : AllStay a b) :
    Nests simples a b := by
  have hbears : ∀ key, b.bears key = a.bears key := by
    intro key
    funext id
    have hrel := hstay id
    rw [bears, bears]
    generalize a.get? id = before at hrel ⊢
    generalize b.get? id = after at hrel ⊢
    cases hrel with
    | none => rfl
    | some hitem => simp only [Option.any_some, hitem.parent_eq, hitem.kind_eq, hitem.name_eq]
  refine ⟨⟨hcoherent, h.distinct.of_bears hbears⟩, fun id item hget => ?_, fun {id item} hget => ?_⟩
  · obtain ⟨later, hlater, hitem⟩ := hstay.exists_later hget
    exact ⟨later, hlater, hitem.name_eq, hitem.kind_eq, hitem.parent_eq⟩
  · obtain ⟨before, hbefore, hitem⟩ := hstay.exists_before hget
    exact Or.inl (by rw [hbefore, Option.bind_some, hitem.outerClass_eq])

theorem nests_applyAll (h : index.Keyed) (id : ItemId) (settings : List (Setting ItemId))
    (hsettings : ∀ setting ∈ settings, setting.key ≠ .outerClass) :
    Nests simples index (index.modify id (Setting.applyAll settings)) := by
  have hplace := Setting.keepsPlace_applyAll settings
  refine ⟨⟨h.coherent.applyAll id settings, h.distinct.of_bears (bears_modify hplace index id)⟩,
    keepsItems_modify hplace index id, fun {other item} hget => Or.inl ?_⟩
  rw [get?_modify] at hget
  split at hget
  · rename_i hid
    obtain ⟨before, hbefore, rfl⟩ := Option.map_eq_some_iff.1 hget
    rw [hid, hbefore, Option.bind_some, Item.outerClass_applyAll hsettings]
  · rw [hget, Option.bind_some]

theorem nests_set (h : index.Keyed) (id : ItemId) (setting : Setting ItemId)
    (hkey : setting.key ≠ .outerClass) : Nests simples index (index.modify id setting.apply) :=
  h.nests_applyAll id [setting]
    (fun _ hother => List.mem_singleton.1 hother ▸ hkey)

theorem nests_insertItem (h : index.Keyed) {parent : Option ItemId} {name : String} {kind : ItemKind}
    (htake : index.CanTake parent kind)
    (hnew : kind = .method ∨ index.findItem parent name kind = none)
    (hroom : (index.insertItem parent name kind).2.size < 2 ^ 32) :
    Nests simples index (index.insertItem parent name kind).2 := by
  have hadds := adds_insertItem h.coherent h.distinct htake hnew hroom
  have hchange : Change (fun _ => False) index (index.insertItem parent name kind).2 :=
    .insert htake hnew
  refine ⟨⟨hadds.coherent, hadds.distinct⟩, hchange.keepsItems h.coherent, fun hget => Or.inl ?_⟩
  rcases hadds.old_or_new hget with ⟨rfl, rfl⟩ | ⟨before, hbefore, hattributes⟩
  · rw [get?_nextId h.coherent.tallied]
    rfl
  · rw [hbefore, Option.bind_some, Item.outerClass, Item.outerClass, hattributes]

/-- An item that is found or created stands where it was looked for. -/
theorem nests_intern (h : index.Keyed) (simples : String → Prop) {parent : Option ItemId} {name : String} {kind : ItemKind}
    (hkind : kind ≠ .method) (htake : index.CanTake parent kind)
    (hroom : (intern parent name kind index).2.size < 2 ^ 32) :
    Nests simples index (intern parent name kind index).2 ∧
      (intern parent name kind index).2.Has (intern parent name kind index).1 parent kind name := by
  rw [Index.intern] at hroom ⊢
  cases hfind : index.findItem parent name kind with
  | some id => exact ⟨h.nests_self, (h.findItem_eq_some_iff hkind).1 hfind⟩
  | none =>
    rw [hfind] at hroom
    have hadds := adds_insertItem h.coherent h.distinct htake (Or.inr hfind) hroom
    have hid : (index.insertItem parent name kind).1 = index.nextId := by rw [insertItem_eq]
    refine ⟨h.nests_insertItem htake (Or.inr hfind) hroom, ?_⟩
    simp only [hid]
    exact ⟨_, hadds.get?_new, rfl, rfl, rfl⟩

/-- A class is nested in the class that its name tells. -/
theorem nests_nest (h : index.Keyed) {inner outer package : ItemId} {name simple : String}
    (hinner : index.Has inner (some package) .class (name ++ "." ++ simple))
    (houter : index.Has outer (some package) .class name) (hsimple : simples simple) :
    Nests simples index (index.nest outer inner) := by
  have hkeeps : KeepsItems index (index.nest outer inner) :=
    (keepsItems_modify (Item.keepsPlace_setId .outerClass outer) index inner).trans
      (keepsItems_modify (Item.keepsPlace_pushNew .innerClasses inner) _ outer)
  refine ⟨⟨?_, h.distinct.of_bears (fun key => ?_)⟩, hkeeps, fun {id item} hget => ?_⟩
  · exact (h.coherent.applyAll inner [.one ⟨.outerClass, rfl⟩ outer]).applyAll outer
      [.member ⟨.innerClasses, rfl⟩ inner]
  · rw [nest, bears_modify (Item.keepsPlace_pushNew .innerClasses inner),
      bears_modify (Item.keepsPlace_setId .outerClass outer)]
  · obtain ⟨before, hbefore, hitem⟩ := exists_of_get?_nest hget
    have houterClass := outerClass_nestItem outer inner id before
    rw [← hitem] at houterClass
    split at houterClass
    · rename_i hid
      subst hid
      obtain ⟨later, hlater, hparent, _, hname⟩ := hkeeps.has hinner
      obtain rfl := Option.some.inj (hget.symm.trans hlater)
      refine Or.inr ⟨outer, houterClass, name, simple, ?_, hsimple, hname⟩
      rw [hparent]
      exact hkeeps.has houter
    · exact Or.inl (by rw [houterClass, hbefore, Option.bind_some])

end Keyed

/-! ## Changes that may be refused -/

section Keeps

variable (start simples)

theorem keeps_nests {change : Edit α} (hcontinues : ∀ start, Edit.Keeps (Continues start) change)
    (h : ∀ index : Index, index.Keyed → (change.run.run index).2.size < 2 ^ 32 →
      Nests simples index (change.run.run index).2) :
    Edit.Keeps (InRoom (Nests simples start)) change :=
  keeps_inRoom hcontinues (fun index hindex hroom => hindex.trans (h index hindex.toKeyed hroom))

theorem keeps_nests_createOwned (owner : ItemId) {name : String} {kind : ItemKind}
    (hkind : kind ≠ .method) :
    Edit.Keeps (InRoom (Nests simples start)) (checkOwner owner kind name >>= fun _ =>
      ExceptT.lift (Index.intern (some owner) name kind)) := by
  refine keeps_nests start simples (fun start => (durable_continues start).sturdy.createOwned owner name kind)
    (fun index hindex hroom => ?_)
  rw [run_createOwned] at hroom ⊢
  cases hrefusal : index.refusal? owner kind name with
  | some error => exact hindex.nests_self
  | none =>
    rw [hrefusal] at hroom
    exact (hindex.nests_intern simples hkind (refusal?_eq_none_iff.1 hrefusal).1 hroom).1

theorem keeps_nests_createProject (name : String) :
    Edit.Keeps (InRoom (Nests simples start)) (ExceptT.lift (createProject name)) :=
  keeps_nests start simples (fun start => (durable_continues start).sturdy.intern none (fun _ => Or.inl rfl))
    (fun index hindex hroom =>
      (hindex.nests_intern simples (by decide) (show index.CanTake none .project from rfl) hroom).1)

theorem keeps_nests_createBuiltin {name : String} (hempty : name ≠ "") :
    Edit.Keeps (InRoom (Nests simples start)) (ExceptT.lift (createBuiltin name)) := by
  refine keeps_nests start simples (fun start => (durable_continues start).sturdy.createBuiltinClass hempty)
    (fun index hindex hroom => ?_)
  change (createBuiltin name index).2.size < 2 ^ 32 at hroom
  change Nests simples index (createBuiltin name index).2
  rw [createBuiltin_eq] at hroom ⊢
  have hroomPackage := Nat.lt_of_le_of_lt (continues_intern _ _ _ _).size_le hroom
  rw [createBuiltinPackage_eq] at hroom hroomPackage ⊢
  have hroomProject := Nat.lt_of_le_of_lt (continues_intern _ _ _ _).size_le hroomPackage
  -- each of the three is an owner for the next
  obtain ⟨hproject, hprojectHas⟩ := hindex.nests_intern simples (by decide)
    (show index.CanTake none .project from rfl) hroomProject
  obtain ⟨hpackage, hpackageHas⟩ := hproject.nests_intern simples (by decide)
    (hprojectHas.isKind.canTake rfl) hroomPackage
  have hclass := hpackage.nests_intern simples (by decide)
    (hpackageHas.isKind.canTake rfl) hroom
  exact (hproject.trans hpackage).trans hclass.1

theorem keeps_nests_set (id : ItemId) (setting : Setting ItemId)
    (hkey : setting.key ≠ .outerClass) :
    Edit.Keeps (InRoom (Nests simples start)) (ExceptT.lift (update id setting.apply)) :=
  keeps_nests start simples (fun start => (durable_continues start).sturdy.set id setting)
    (fun _ hindex _ => hindex.nests_set id setting hkey)

theorem keeps_nests_createInnerClass (outer : ItemId) {simple : String} (hsimple : simples simple) :
    Edit.Keeps (InRoom (Nests simples start)) (createInnerClass outer simple) := by
  refine keeps_nests start simples
    (fun start => (durable_continues start).sturdy.createInnerClass outer simple)
    (fun index hindex hroom => ?_)
  rcases run_classPlace outer (.notClass outer) index with
    ⟨_, refusal, hrefused⟩ | ⟨package, name, houter, _⟩
  · have hrun : (createInnerClass outer simple).run.run index = (.error refusal, index) :=
      Edit.run_bind_of_error hrefused
    rw [hrun]
    exact hindex.nests_self
  · have htake := hindex.coherent.exists_owner houter
    rw [run_createInnerClass_of_has houter htake simple] at hroom ⊢
    have hless := Nat.lt_of_le_of_lt
      ((continues_modify _ _ _).trans (continues_modify _ _ _)).size_le hroom
    obtain ⟨hinterned, hinner⟩ := hindex.nests_intern simples (by decide) htake hless
    exact hinterned.trans (hinterned.nests_nest hinner (hinterned.keeps.has houter) hsimple)

theorem keeps_nests_createMethod (owner : ItemId) (name : String) (params : Option (List ItemId)) :
    Edit.Keeps (InRoom (Nests simples start)) (createMethod owner name params) := by
  refine keeps_nests start simples
    (fun start => (durable_continues start).sturdy.createMethod owner name params)
    (fun index hindex hroom => ?_)
  rw [run_createMethod] at hroom ⊢
  cases hrefusal : index.refusal? owner .method name with
  | some error => exact hindex.nests_self
  | none =>
    rw [hrefusal] at hroom
    cases hfound : index.overload? owner name (params.getD []) with
    | some id => exact hindex.nests_self
    | none =>
      rw [hfound] at hroom
      have htake := (refusal?_eq_none_iff.1 hrefusal).1
      cases params with
      | none => exact hindex.nests_insertItem htake (Or.inl rfl) hroom
      | some params =>
        have hplain : Nests simples index (index.insertItem (some owner) name .method).2 :=
          hindex.nests_insertItem htake (Or.inl rfl)
          (Nat.lt_of_le_of_lt (continues_modify _ _ _).size_le hroom)
        exact hplain.trans (hplain.nests_set index.nextId (.params params)
          (show AttrKey.paramTypes ≠ .outerClass by decide))

theorem keeps_nests_createArrayClass (base : ItemId) (dims : Nat) :
    Edit.Keeps (InRoom (Nests simples start)) (createArrayClass base dims) := by
  refine Edit.Keeps.get_bind (fun index => ?_)
  dsimp only
  split
  · exact Edit.Keeps.pure _
  · refine (Edit.Keeps.classPlace _ _).bind ?_
    rintro ⟨package, name⟩
    refine (keeps_nests_createOwned start simples package (by decide)).bind (fun array => ?_)
    exact Edit.Keeps.bind (keeps_nests_set start simples array (.one ⟨.arrayBase, rfl⟩ _)
      (show AttrKey.arrayBase ≠ .outerClass by decide)) (fun _ => Edit.Keeps.pure array)

theorem keeps_nests_createPseudo (owner : ItemId) (site : CallSite) :
    Edit.Keeps (InRoom (Nests simples start)) (createPseudo owner site) := by
  refine Edit.Keeps.bind (keeps_nests_createBuiltin start simples (by decide)) (fun wildcard => ?_)
  refine (keeps_nests_createMethod start simples owner site.name _).bind
    (fun method => Edit.Keeps.get_bind (fun index => ?_))
  have hflags : ∀ flags : List (AttrKey × Bool), (∀ flag ∈ flags, flag.1 ≠ .outerClass) →
      Edit.Keeps (InRoom (Nests simples start)) (ExceptT.lift
        (update method (Setting.applyAll (flags.map (fun flag => .flag flag.1 flag.2))))) := by
    intro flags hkeys
    refine keeps_nests start simples
      (fun start => (durable_continues start).sturdy.setAll method _)
      (fun index hindex _ => hindex.nests_applyAll method _ (fun setting hsetting => ?_))
    obtain ⟨flag, hflag, rfl⟩ := List.mem_map.1 hsetting
    exact hkeys flag hflag
  cases index.inThirdParty owner with
  | false =>
    exact Edit.Keeps.bind (hflags [(.pseudo, true)] (by simp)) (fun _ => Edit.Keeps.pure method)
  | true =>
    exact Edit.Keeps.bind (hflags [(.pseudo, true), (.thirdParty, true)] (by simp))
      (fun _ => Edit.Keeps.pure method)

theorem keeps_nests_resolveOrCreate (site : CallSite) (create : Bool) :
    Edit.Keeps (InRoom (Nests simples start)) (resolveOrCreate site create) := by
  refine Edit.Keeps.get_bind (fun index => ?_)
  cases index.resolveCall site with
  | some method => exact Edit.Keeps.pure _
  | none =>
    dsimp only
    split
    · refine Edit.Keeps.get_bind (fun index => ?_)
      cases index.pseudoOwner? site with
      | none => exact Edit.Keeps.pure _
      | some owner =>
        exact (keeps_nests_createPseudo start simples owner site).bind (fun _ => Edit.Keeps.pure _)
    · exact Edit.Keeps.pure _

end Keeps

theorem Keyed.nests_addDependency (h : index.Keyed) (source target : ItemId) :
    Nests simples index (index.addDependency source target).2 := by
  refine h.nests_of_allStay (h.coherent.addDependency source target) ?_
  rw [Index.addDependency]
  split
  · exact allStay_of_get? (fun _ => rfl)
  · exact allStay_relink index source target (insertNew · target) (insertNew · source)

theorem Keyed.nests_removeDependency (h : index.Keyed) (source target : ItemId) :
    Nests simples index (index.removeDependency source target).2 :=
  h.nests_of_allStay (h.coherent.removeDependency source target)
    (allStay_relink index source target (·.erase target) (·.erase source))

theorem Keyed.nests_propagateThirdParty (h : index.Keyed) :
    Nests simples index index.propagateThirdParty.2 := by
  rw [Index.propagateThirdParty]
  generalize index.unflagged = pending
  induction pending generalizing index with
  | nil => exact h.nests_self
  | cons first rest ih =>
    have hfirst : Nests simples index (index.modify first (fun item => item.setFlag .thirdParty true)) :=
      h.nests_set first (.flag .thirdParty true)
        (show AttrKey.thirdParty ≠ .outerClass by decide)
    exact hfirst.trans (ih hfirst.toKeyed)

/-- A new layer changes no item. -/
theorem Keyed.nests_onBase (h : index.Keyed) {generation : Nat}
    (hnew : ∀ layer ∈ index.layers, layer.generation ≠ generation) :
    Nests simples index (Index.onBase generation index) := by
  have hfree := generation_ne_of_mem_ids h.coherent.stacked hnew
  exact h.nests_of_allStay (coherent_onBase h.coherent hfree)
    (allStay_of_get? (get?_onBase h.coherent.stacked hfree))

end Index

/-! ## Operations -/

namespace Operation

open Index

/-- An operation that declares classes inside others by creating them there, under one of `simples`. -/
def NestsBy (simples : String → Prop) : Operation ItemId → Prop
  | innerClass _ simple => simples simple
  | set _ setting => setting.key ≠ .outerClass
  | project _ | package _ _ | .class _ _ | method _ _ _ | field _ _ | arrayClass _ _
  | builtinProject | primitive _ | wildcard | addDependency _ _ | removeDependency _ _ | call _ _ _
  | propagateThirdParty => True

instance (simples : String → Prop) [DecidablePred simples] :
    (operation : Operation ItemId) → Decidable (operation.NestsBy simples)
  | innerClass _ simple => inferInstanceAs (Decidable (simples simple))
  | set _ setting => inferInstanceAs (Decidable (setting.key ≠ .outerClass))
  | project _ | package _ _ | .class _ _ | method _ _ _ | field _ _ | arrayClass _ _
  | builtinProject | primitive _ | wildcard | addDependency _ _ | removeDependency _ _ | call _ _ _
  | propagateThirdParty => inferInstanceAs (Decidable True)

/-- Every such operation leaves a class the class around it, if its name tells no other. -/
theorem NestsBy.nests_run {simples : String → Prop} {operation : Operation ItemId}
    (h : operation.NestsBy simples) {index : Index} (hindex : index.Keyed)
    (hroom : (operation.run index).2.size < 2 ^ 32) :
    Nests simples index (operation.run index).2 := by
  -- most operations are a change that answers with an item
  have hkeeps : ∀ {change : Edit ItemId}, Edit.Keeps (InRoom (Nests simples index)) change →
      operation.edit = (change >>= fun id => pure (.item id)) →
      Nests simples index (operation.run index).2 := by
    intro change hchange hedit
    have hall : Edit.Keeps (InRoom (Nests simples index)) operation.edit :=
      hedit ▸ hchange.bind (fun _ => Edit.Keeps.pure _)
    exact hall.run (fun _ => hindex.nests_self) hroom
  cases operation with
  | project name => exact hkeeps (keeps_nests_createProject index simples name) rfl
  | package owner name => exact hkeeps (keeps_nests_createOwned index simples owner (by decide)) rfl
  | «class» owner name => exact hkeeps (keeps_nests_createOwned index simples owner (by decide)) rfl
  | innerClass outer simple => exact hkeeps (keeps_nests_createInnerClass index simples outer h) rfl
  | method owner name params =>
    exact hkeeps (keeps_nests_createMethod index simples owner name params) rfl
  | field owner name => exact hkeeps (keeps_nests_createOwned index simples owner (by decide)) rfl
  | arrayClass base dims => exact hkeeps (keeps_nests_createArrayClass index simples base dims) rfl
  | builtinProject =>
    exact hkeeps (keeps_nests_createProject index simples CodeAtlas.builtinProject) rfl
  | primitive name =>
    by_cases hname : primitives.contains name = true
    · exact hkeeps (keeps_nests_createBuiltin index simples (primitive_ne_empty hname))
        (edit_primitive hname)
    · have hrun : (createPrimitive name).run.run index = (.error (.notPrimitive name), index) := by
        rw [createPrimitive, if_neg hname]
        rfl
      rw [run_of_error rfl hrun]
      exact hindex.nests_self
  | wildcard => exact hkeeps (keeps_nests_createBuiltin index simples (by decide)) rfl
  | set item setting => exact hindex.nests_set item setting h
  | addDependency source target => exact hindex.nests_addDependency source target
  | removeDependency source target => exact hindex.nests_removeDependency source target
  | call site owners create =>
    have hall : Edit.Keeps (InRoom (Nests simples index)) (call site owners create).edit :=
      (keeps_nests_resolveOrCreate index simples { site with owners := owners } create).bind
        (fun _ => Edit.Keeps.pure _)
    exact hall.run (fun _ => hindex.nests_self) hroom
  | propagateThirdParty => exact hindex.nests_propagateThirdParty

end Operation

namespace Index

variable {a b index : Index} {simples : String → Prop}

/-! ## Histories -/

/-- A step that declares classes inside others by creating them there, under one of `simples`. -/
inductive NestingStep (simples : String → Prop) : Index → Index → Prop
  | operation {operation : Operation ItemId} (h : operation.NestsBy simples) (index : Index) :
    NestingStep simples index (operation.run index).2
  | layer {base : Index} {generation : Nat}
      (hnew : ∀ layer ∈ base.layers, layer.generation ≠ generation) :
      NestingStep simples base (onBase generation base)

/-- The indices in which every class that is declared inside another was created there. -/
def NestedReachable (index : Index) : Prop :=
  ∃ generation, Relation.ReflTransGen (NestingStep (fun _ => True)) (empty generation) index

theorem NestingStep.size_le (h : NestingStep simples a b) : a.size ≤ b.size := by
  cases h with
  | @operation operation _ => exact (operation.continues_run a).size_le
  | layer _ => exact Nat.le_of_eq (size_onBase _ a).symm

theorem NestingStep.nests (h : NestingStep simples a b) (ha : a.Keyed) (hroom : b.size < 2 ^ 32) :
    Nests simples a b := by
  cases h with
  | operation h => exact h.nests_run ha hroom
  | layer hnew => exact ha.nests_onBase hnew

theorem nests_of_steps (h : Relation.ReflTransGen (NestingStep simples) a b) (ha : a.Keyed)
    (hroom : b.size < 2 ^ 32) : Nests simples a b := by
  induction h with
  | refl => exact ha.nests_self
  | tail _ hstep ih =>
    have hbefore := ih (Nat.lt_of_le_of_lt hstep.size_le hroom)
    exact hbefore.trans (hstep.nests hbefore.toKeyed hroom)

/-- Operations one after the other. -/
theorem steps_foldl (operations : List (Operation ItemId))
    (h : ∀ operation ∈ operations, operation.NestsBy simples) (index : Index) :
    Relation.ReflTransGen (NestingStep simples) index
      (operations.foldl (fun index operation => (operation.run index).2) index) := by
  induction operations generalizing index with
  | nil => exact Relation.ReflTransGen.refl
  | cons first rest ih =>
    exact (ih (fun operation hmem => h operation (List.mem_cons_of_mem _ hmem)) _).head
      (.operation (h first List.mem_cons_self) index)

/-- Items of such an index are told apart, and a class inside another has a dot in its name. -/
theorem NestedReachable.keyed (h : index.NestedReachable) (hroom : index.size < 2 ^ 32) :
    index.Keyed ∧ index.FreeTops := by
  obtain ⟨generation, hsteps⟩ := h
  have hempty : (empty generation).Keyed :=
    ⟨coherent_empty generation, (orderly_empty generation).distinct⟩
  have hnests := nests_of_steps hsteps hempty hroom
  refine ⟨hnests.toKeyed, hnests.freeTops (fun hget => ?_)⟩
  simp [get?_empty] at hget

end Index

end CodeAtlas
