/-
# Finding or creating is safe

Each operation that finds or creates an item is safe for an owner of the right kind and a name that
is not empty, and gives an item with that owner, kind and name.
-/
import CodeAtlas.Proofs.Index.Edits
import CodeAtlas.Proofs.Prune.Retained

namespace CodeAtlas

open Index

/-! ## Attributes after a change -/

namespace Item

theorem mem_attributeIds_alter {item : Item} {key : AttrKey}
    {f : Option AttrValue → Option AttrValue} {target : ItemId}
    (h : target ∈ { item with attributes := item.attributes.alter key f }.attributeIds) :
    target ∈ item.attributeIds ∨
      ∃ value, f (item.attributes.get? key) = some value ∧ target ∈ value.targets := by
  rw [mem_attributeIds_iff] at h ⊢
  obtain ⟨other, value, hvalue, htarget⟩ := h
  have hget : (item.attributes.alter key f).get? other = some value := hvalue
  rw [Attributes.get?_alter] at hget
  split at hget
  · exact Or.inr ⟨value, hget, htarget⟩
  · exact Or.inl ⟨other, value, hget, htarget⟩

theorem mem_attributeIds_set {item : Item} {key : AttrKey} {value : AttrValue} {target : ItemId}
    (h : target ∈ (item.set key value).attributeIds) :
    target ∈ item.attributeIds ∨ target ∈ value.targets := by
  rcases mem_attributeIds_alter h with hold | ⟨other, hother, htarget⟩
  · exact Or.inl hold
  · obtain rfl : value = other := Option.some.inj hother
    exact Or.inr htarget

theorem mem_attributeIds_setId {item : Item} {key : AttrKey} {id target : ItemId}
    (h : target ∈ (item.setId key id).attributeIds) : target ∈ item.attributeIds ∨ target = id := by
  rcases mem_attributeIds_set h with hold | hnew
  · exact Or.inl hold
  · exact Or.inr (List.mem_singleton.1 hnew)

theorem mem_attributeIds_setFlag {item : Item} {key : AttrKey} {value : Bool} {target : ItemId}
    (h : target ∈ (item.setFlag key value).attributeIds) : target ∈ item.attributeIds := by
  rcases mem_attributeIds_set h with hold | hnew
  · exact hold
  · simp [AttrValue.targets] at hnew

theorem mem_attributeIds_pushNew {item : Item} {key : AttrKey} {id target : ItemId}
    (h : target ∈ (item.pushNew key id).attributeIds) : target ∈ item.attributeIds ∨ target = id := by
  rcases mem_attributeIds_alter h with hold | ⟨value, hvalue, htarget⟩
  · exact Or.inl hold
  · cases hslot : item.attributes.get? key with
    | none =>
      simp only [hslot, Option.some.injEq] at hvalue
      subst hvalue
      exact Or.inr (by simpa [AttrValue.targets] using htarget)
    | some old =>
      cases old with
      | ids targets =>
        simp only [hslot, Option.some.injEq] at hvalue
        subst hvalue
        have hold : ∀ other ∈ targets.toList, other ∈ item.attributeIds := by
          intro other hother
          exact mem_attributeIds_iff.2 ⟨key, .ids targets, hslot, hother⟩
        simp only [AttrValue.targets] at htarget
        split at htarget
        · exact Or.inl (hold target htarget)
        · rw [Array.toList_push, List.mem_append, List.mem_singleton] at htarget
          exact htarget.imp (hold target) (fun heq => heq)
      | id other =>
        simp only [hslot, Option.some.injEq] at hvalue
        subst hvalue
        exact Or.inr (by simpa [AttrValue.targets] using htarget)
      | flag other =>
        simp only [hslot, Option.some.injEq] at hvalue
        subst hvalue
        exact Or.inr (by simpa [AttrValue.targets] using htarget)

theorem keepsPlace_setId (key : AttrKey) (id : ItemId) : KeepsPlace (fun item => item.setId key id) :=
  fun _ => ⟨rfl, rfl, rfl, rfl⟩

theorem keepsPlace_setFlag (key : AttrKey) (value : Bool) :
    KeepsPlace (fun item => item.setFlag key value) :=
  fun _ => ⟨rfl, rfl, rfl, rfl⟩

theorem keepsPlace_pushNew (key : AttrKey) (id : ItemId) :
    KeepsPlace (fun item => item.pushNew key id) :=
  fun _ => ⟨rfl, rfl, rfl, rfl⟩

end Item

/-! ## Items with a place -/

/-- The handle of an item with an owner, a kind and a name. -/
def Index.Has (index : Index) (id : ItemId) (parent : Option ItemId) (kind : ItemKind)
    (name : String) : Prop :=
  ∃ item, index.get? id = some item ∧ item.parent = parent ∧ item.kind = kind ∧ item.name = name

theorem Index.Has.isKind {index : Index} {id : ItemId} {parent : Option ItemId} {kind : ItemKind}
    {name : String} (h : index.Has id parent kind name) : index.IsKind id kind := by
  obtain ⟨item, hget, _, hkind, _⟩ := h
  exact ⟨item, hget, hkind⟩

/-- An item has one owner and one name. -/
theorem Index.Has.place_eq {index : Index} {id : ItemId} {parent other : Option ItemId}
    {kind : ItemKind} {name otherName : String} (h : index.Has id parent kind name)
    (hother : index.Has id other kind otherName) : parent = other ∧ name = otherName := by
  obtain ⟨item, hget, rfl, _, rfl⟩ := h
  obtain ⟨found, hfound, rfl, _, rfl⟩ := hother
  obtain rfl := Option.some.inj (hget.symm.trans hfound)
  exact ⟨rfl, rfl⟩

theorem stable_has (id : ItemId) (parent : Option ItemId) (kind : ItemKind) (name : String) :
    Stable (fun index => index.Has id parent kind name) := by
  rintro a b hext ⟨item, hget, hparent, hkind, hname⟩
  obtain ⟨later, hlater, hname', hkind', hparent', _⟩ := hext.keeps hget
  exact ⟨later, hlater, hparent'.trans hparent, hkind'.trans hkind, hname'.trans hname⟩

/-- A class of a given name in a package of a project. -/
def Index.HoldsClass (index : Index) (project : ItemId) (package name : String) : Prop :=
  ∃ owner cls, index.Has owner (some project) .package package ∧
    index.Has cls (some owner) .class name

theorem Index.run_checkOwner (owner : ItemId) (kind : ItemKind) (name : String) (index : Index) :
    (Index.checkOwner owner kind name).run.run index =
      (match index.refusal? owner kind name with
        | some error => .error error
        | none => .ok (), index) := by
  show ((get >>= fun index : Index => _ : Edit Unit)).run.run index = _
  rw [Edit.run_get_bind]
  cases index.refusal? owner kind name <;> rfl

namespace Safe

variable {pre : Index → Prop}

/-! ## Elementary changes -/

/-- Changing an item that is not a project, with classes for its new attributes. -/
theorem update (kind : ItemKind) (hkind : kind ≠ .project) {id : ItemId} {f : Item → Item}
    (hf : Item.KeepsPlace f)
    (hpre : ∀ {index : Index}, index.Live → pre index → index.IsKind id kind ∧
      ∀ item target, target ∈ (f item).attributeIds →
        target ∈ item.attributeIds ∨ index.IsKind target .class) :
    Safe pre (ExceptT.lift (Index.update id f)) (fun _ _ => True) := by
  refine Safe.lift (fun index => grown_modify index id f) ?_
  intro index hlive hindex _
  obtain ⟨⟨item, hget, hitem⟩, htyped⟩ := hpre hlive hindex
  refine ⟨hlive.modify hf id (fun item target _ htarget => htyped item target htarget), ?_, trivial⟩
  refine extends_modify hf id (fun other hother hproject => ?_)
  rw [hget] at hother
  obtain rfl := Option.some.inj hother
  exact absurd (hitem.symm.trans hproject) hkind

/-- Finding or creating an item that is told apart by owner, name and kind. -/
theorem intern {parent : Option ItemId} {name : String} {kind : ItemKind}
    (hpre : ∀ {index : Index}, index.Live → pre index → index.CanTake parent kind) :
    Safe pre (ExceptT.lift (Index.intern parent name kind)) (fun id index =>
      index.Has id parent kind name ∧ index.findItem parent name kind = some id) := by
  refine Safe.lift (fun index => ?_) ?_
  · show Grown index (Index.intern parent name kind index).2
    rw [Index.intern]
    split
    · exact Grown.refl index
    · exact grown_insertItem index parent name kind
  · intro index hlive hindex hroom
    have hrun : (Index.intern parent name kind).run index = Index.intern parent name kind index :=
      rfl
    rw [hrun, Index.intern] at hroom ⊢
    cases hfind : index.findItem parent name kind with
    | some id =>
      refine ⟨hlive, Extends.refl index, ?_, hfind⟩
      exact hlive.sound.get?_of_findItem hfind
    | none =>
      simp only [hfind] at hroom ⊢
      have htake := hpre hlive hindex
      have hparent := htake.ne_nextId hlive.tallied
      refine ⟨hlive.insertItem htake (Or.inr hfind) hroom,
        extends_insertItem hlive.tallied hparent (Or.inr hfind), ?_, ?_⟩
      · refine ⟨.fresh index.nextId name kind parent, ?_, rfl, rfl, rfl⟩
        rw [insertItem_eq]
        have hget := get?_insertItem hlive.tallied hparent name kind index.nextId
        rwa [if_pos rfl, insertItem_eq] at hget
      · rw [insertItem_eq]
        have hfound := findItem_insertItem_self hlive.tallied hparent hfind
        rwa [insertItem_eq] at hfound

theorem checkOwner {owner : ItemId} {kind : ItemKind} {name : String}
    (hpre : ∀ {index : Index}, index.Live → pre index →
      index.CanTake (some owner) kind ∧ (name = "" → kind = .package)) :
    Safe pre (Index.checkOwner owner kind name) (fun _ _ => True) := by
  refine ⟨fun index => by rw [run_checkOwner]; exact Grown.refl index, ?_⟩
  intro index hlive hindex _
  obtain ⟨⟨item, hget, hcontain⟩, hname⟩ := hpre hlive hindex
  have hnone : index.refusal? owner kind name = none := by
    rw [refusal?, hget]
    simp only [hcontain, Bool.not_true, Bool.false_eq_true, if_false]
    rw [if_neg]
    intro hboth
    simp only [Bool.and_eq_true, String.isEmpty_iff, bne_iff_ne] at hboth
    exact hboth.2 (hname hboth.1)
  rw [run_checkOwner, hnone]
  exact ⟨hlive, Extends.refl index, (), rfl, trivial⟩

end Safe

namespace Index

variable {index : Index}

theorem IsKind.canTake {owner : ItemId} {ownerKind kind : ItemKind} (h : index.IsKind owner ownerKind)
    (hcontain : ownerKind.canContain kind = true) : index.CanTake (some owner) kind := by
  obtain ⟨item, hget, rfl⟩ := h
  exact ⟨item, hget, hcontain⟩

/-! ## Projects, packages and classes -/

theorem safe_createProject (name : String) :
    Safe (fun _ => True) (ExceptT.lift (createProject name)) (fun id index =>
      index.Has id none .project name ∧ index.findItem none name .project = some id) :=
  Safe.intern (fun _ _ => rfl)

theorem safe_createPackage (project : ItemId) (name : String) :
    Safe (fun index => index.IsKind project .project) (createPackage project name)
      (fun id index => index.Has id (some project) .package name ∧
        index.findItem (some project) name .package = some id) := by
  have hcheck : Safe (fun index => index.IsKind project .project)
      (checkOwner project .package name) (fun _ _ => True) :=
    Safe.checkOwner (fun _ hproject => ⟨hproject.canTake rfl, fun _ => rfl⟩)
  refine hcheck.bind (stable_isKind project .project) (fun _ => ?_)
  exact Safe.intern (fun _ hboth => hboth.1.canTake rfl)

theorem safe_createClass (package : ItemId) (name : String) :
    Safe (fun index => name ≠ "" ∧ index.IsKind package .package) (createClass package name)
      (fun id index => index.Has id (some package) .class name ∧
        index.findItem (some package) name .class = some id) := by
  have hcheck : Safe (fun index => name ≠ "" ∧ index.IsKind package .package)
      (checkOwner package .class name) (fun _ _ => True) :=
    Safe.checkOwner (fun _ hpre => ⟨hpre.2.canTake rfl, fun hempty => absurd hempty hpre.1⟩)
  refine hcheck.bind ((stable_const _).and (stable_isKind package .package)) (fun _ => ?_)
  exact Safe.intern (fun _ hboth => hboth.1.2.canTake rfl)

theorem safe_createField (owner : ItemId) (name : String) :
    Safe (fun index => name ≠ "" ∧ index.IsKind owner .class) (createField owner name)
      (fun id index => index.Has id (some owner) .field name ∧
        index.findItem (some owner) name .field = some id) := by
  have hcheck : Safe (fun index => name ≠ "" ∧ index.IsKind owner .class)
      (checkOwner owner .field name) (fun _ _ => True) :=
    Safe.checkOwner (fun _ hpre => ⟨hpre.2.canTake rfl, fun hempty => absurd hempty hpre.1⟩)
  refine hcheck.bind ((stable_const _).and (stable_isKind owner .class)) (fun _ => ?_)
  exact Safe.intern (fun _ hboth => hboth.1.2.canTake rfl)

/-- The package and the name that a class has. -/
theorem safe_classPlace (id : ItemId) (error : GraphError) :
    Safe (fun index => index.IsKind id .class) (classPlace id error)
      (fun place index => index.Has id (some place.1) .class place.2 ∧
        index.IsKind place.1 .package) := by
  refine Safe.get_bind (fun current => ?_)
  cases hget : current.get? id with
  | none =>
    refine Safe.throw error (fun _ hboth => ?_)
    obtain ⟨rfl, item, hitem, _⟩ := hboth
    rw [hget] at hitem
    exact absurd hitem (by simp)
  | some item =>
    by_cases hkind : item.kind = .class
    · simp only [hkind, if_true]
      cases hparent : item.parent with
      | none =>
        refine Safe.throw _ (fun hlive hboth => ?_)
        obtain ⟨rfl, _⟩ := hboth
        obtain ⟨package, hpackage, _⟩ := hlive.sound.exists_package hget hkind
        rw [hparent] at hpackage
        exact absurd hpackage (by simp)
      | some package =>
        refine Safe.pure (package, item.name) (fun hlive hboth => ?_)
        obtain ⟨rfl, _⟩ := hboth
        obtain ⟨other, hother, hpackage⟩ := hlive.sound.exists_package hget hkind
        obtain rfl : package = other := Option.some.inj (hparent.symm.trans hother)
        exact ⟨⟨item, hget, hparent, hkind, rfl⟩, hpackage⟩
    · simp only [hkind, if_false]
      refine Safe.throw error (fun _ hboth => ?_)
      obtain ⟨rfl, other, hother, hclass⟩ := hboth
      rw [hget] at hother
      exact hkind ((Option.some.inj hother) ▸ hclass)

theorem dotted_ne_empty (outer simple : String) : outer ++ "." ++ simple ≠ "" := by
  intro h
  have hlength := congrArg String.length h
  simp [String.length_append] at hlength

theorem safe_createInnerClass (outer : ItemId) (simple : String) :
    Safe (fun index => index.IsKind outer .class) (createInnerClass outer simple)
      (fun id index => ∃ package name, index.Has outer (some package) .class name ∧
        index.Has id (some package) .class (name ++ "." ++ simple)) := by
  refine (safe_classPlace outer (.notClass outer)).bind (stable_isKind outer .class) ?_
  rintro ⟨package, name⟩
  have hpre : Stable (fun index => index.IsKind outer .class ∧
      index.Has outer (some package) .class name ∧ index.IsKind package .package) :=
    (stable_isKind _ _).and ((stable_has _ _ _ _).and (stable_isKind _ _))
  refine ((safe_createClass package (name ++ "." ++ simple)).weaken
    (fun _ hall => ⟨dotted_ne_empty name simple, hall.2.2⟩) (fun _ hpost => hpost.1)).bind hpre
    (fun inner => ?_)
  have hpost := hpre.and (stable_has inner (some package) .class (name ++ "." ++ simple))
  refine (Safe.update .class (by decide) (Item.keepsPlace_setId _ _) ?_).bind hpost
    (fun _ => ?_)
  · intro index _ hall
    refine ⟨hall.2.isKind, fun item target htarget => ?_⟩
    rcases Item.mem_attributeIds_setId htarget with hold | rfl
    · exact Or.inl hold
    · exact Or.inr hall.1.1
  refine (Safe.update .class (by decide) (Item.keepsPlace_pushNew _ _) ?_).bind
    (hpost.and stable_true) (fun _ => ?_)
  · intro index _ hall
    refine ⟨hall.1.1.1, fun item target htarget => ?_⟩
    rcases Item.mem_attributeIds_pushNew htarget with hold | rfl
    · exact Or.inl hold
    · exact Or.inr hall.1.2.isKind
  · exact Safe.pure inner (fun _ hall => ⟨package, name, hall.1.1.1.2.1, hall.1.1.2⟩)

/-! ## Methods -/

theorem safe_insertMethod (owner : ItemId) (name : String) :
    Safe (fun index => index.IsKind owner .class)
      (modifyGet (fun index : Index => index.insertItem (some owner) name .method) : Edit ItemId)
      (fun id index => index.Has id (some owner) .method name) := by
  refine Safe.lift (fun index => grown_insertItem index (some owner) name .method) ?_
  intro index hlive howner hroom
  have htake : index.CanTake (some owner) .method := howner.canTake rfl
  have hparent := htake.ne_nextId hlive.tallied
  refine ⟨hlive.insertItem htake (Or.inl rfl) hroom, extends_insertItem hlive.tallied hparent (Or.inl rfl),
    .fresh index.nextId name .method (some owner), ?_, rfl, rfl, rfl⟩
  show (index.insertItem (some owner) name .method).2.get?
    (index.insertItem (some owner) name .method).1 = _
  have hfirst : (index.insertItem (some owner) name .method).1 = index.nextId := by
    rw [insertItem_eq]
  rw [hfirst, get?_insertItem hlive.tallied hparent, if_pos rfl]

theorem keepsPlace_setParamTypes (params : List ItemId) :
    Item.KeepsPlace (fun item => item.setParamTypes params) :=
  fun _ => ⟨rfl, rfl, rfl, rfl⟩

theorem safe_createMethod (owner : ItemId) (name : String) (params : Option (List ItemId)) :
    Safe (fun index => name ≠ "" ∧ index.IsKind owner .class ∧
        ∀ param ∈ params.getD [], index.IsKind param .class) (createMethod owner name params)
      (fun id index => index.IsKind id .method) := by
  have hstable : Stable (fun index => name ≠ "" ∧ index.IsKind owner .class ∧
      ∀ param ∈ params.getD [], index.IsKind param .class) :=
    (stable_const _).and ((stable_isKind _ _).and
      (Stable.forall_mem (fun param => stable_isKind param .class) _))
  have hcheck : Safe (fun index => name ≠ "" ∧ index.IsKind owner .class ∧
      ∀ param ∈ params.getD [], index.IsKind param .class)
      (checkOwner owner .method name) (fun _ _ => True) :=
    Safe.checkOwner (fun _ hall => ⟨hall.2.1.canTake rfl, fun hempty => absurd hempty hall.1⟩)
  refine hcheck.bind hstable (fun _ => Safe.get_bind (fun current => ?_))
  dsimp only
  split
  · -- an overload with a matching signature
    rename_i id hfound
    refine Safe.pure id (fun hlive hall => ?_)
    obtain ⟨rfl, _⟩ := hall
    exact hlive.sound.isKind_of_mem_findAll (List.mem_of_find?_eq_some hfound)
  · refine ((safe_insertMethod owner name).weaken (fun _ hall => hall.2.1.2.1)
      (fun _ hpost => hpost.isKind)).seq (fun a b hext hall => hstable a b hext hall.2.1) ?_
    intro id
    have hmethod := hstable.and (stable_isKind id .method)
    cases params with
    | none => exact Safe.pure id (fun _ hall => hall.2)
    | some params =>
      refine (Safe.update .method (by decide) (keepsPlace_setParamTypes params) ?_).bind hmethod
        (fun _ => Safe.pure id (fun _ hall => hall.1.2))
      intro index _ hall
      refine ⟨hall.2, fun item target htarget => ?_⟩
      rcases Item.mem_attributeIds_set htarget with hold | hnew
      · exact Or.inl hold
      · exact Or.inr (hall.1.2.2 target (by simpa [AttrValue.targets] using hnew))

/-! ## Builtin classes and arrays -/

theorem safe_createBuiltinPackage :
    Safe (fun _ => True) (ExceptT.lift createBuiltinPackage) (fun id index =>
      index.IsKind id .package) := by
  have hproject : Safe (fun _ => True) (ExceptT.lift createBuiltinProject) (fun id index =>
      index.IsKind id .project) :=
    (safe_createProject builtinProject).weaken (fun _ h => h) (fun _ hpost => hpost.1.isKind)
  show Safe _ (ExceptT.lift createBuiltinProject >>= fun project =>
    ExceptT.lift (intern (some project) "" .package)) _
  refine hproject.bind stable_true (fun project => ?_)
  exact (Safe.intern (fun _ hall => hall.2.canTake rfl)).weaken (fun _ h => h)
    (fun _ hpost => hpost.1.isKind)

theorem safe_createWildcard :
    Safe (fun _ => True) (ExceptT.lift createWildcard) (fun id index => index.IsKind id .class) := by
  show Safe _ (ExceptT.lift createBuiltinPackage >>= fun package =>
    ExceptT.lift (intern (some package) wildcardName .class)) _
  refine safe_createBuiltinPackage.bind stable_true (fun package => ?_)
  exact (Safe.intern (fun _ hall => hall.2.canTake rfl)).weaken (fun _ h => h)
    (fun _ hpost => hpost.1.isKind)

theorem safe_createPrimitive {name : String} (hname : primitives.contains name = true) :
    Safe (fun _ => True) (createPrimitive name) (fun id index => index.IsKind id .class) := by
  rw [createPrimitive, if_pos hname]
  refine safe_createBuiltinPackage.bind stable_true (fun package => ?_)
  exact (Safe.intern (fun _ hall => hall.2.canTake rfl)).weaken (fun _ h => h)
    (fun _ hpost => hpost.1.isKind)

theorem arrayName_ne_empty (name : String) {dims : Nat} (hdims : dims ≠ 0) :
    Item.arrayName name dims ≠ "" := by
  obtain ⟨n, rfl⟩ := Nat.exists_eq_succ_of_ne_zero hdims
  intro h
  have hlist := congrArg String.toList h
  rw [Item.arrayName, String.toList_append, List.replicate_succ] at hlist
  simp at hlist

/-- The element type of an array over a class is a class. -/
theorem isKind_arrayShape (hlive : index.Live) {base : ItemId} (hbase : index.IsKind base .class)
    (dims : Nat) : index.IsKind (index.arrayShape base dims).1 .class := by
  obtain ⟨item, hget, hkind⟩ := hbase
  rw [arrayShape, hget]
  cases hinner : item.arrayBase with
  | none =>
    simp only [hinner]
    exact ⟨item, hget, hkind⟩
  | some inner =>
    simp only [hinner]
    refine hlive.sound.typed hget (Item.mem_attributeIds_iff.2 ?_)
    rw [Item.arrayBase, Attributes.id?] at hinner
    split at hinner
    · rename_i target hslot
      cases hinner
      exact ⟨.arrayBase, .id inner, hslot, List.mem_singleton.2 rfl⟩
    · simp at hinner

/-- The array class of a class and a number of dimensions, made beside the class. -/
theorem safe_createArrayOf (root : ItemId) {total : Nat} (htotal : total ≠ 0) :
    Safe (fun index => index.IsKind root .class) (do
      let (package, name) ← classPlace root (.badArrayBase root)
      let array ← createClass package (Item.arrayName name total)
      update array (fun item => item.setId .arrayBase root)
      return array) (fun id index => index.IsKind id .class) := by
  refine (safe_classPlace root (.badArrayBase root)).bind (stable_isKind _ _) ?_
  rintro ⟨package, name⟩
  have hplace : Stable (fun index => index.IsKind root .class ∧
      index.Has root (some package) .class name ∧ index.IsKind package .package) :=
    (stable_isKind _ _).and ((stable_has _ _ _ _).and (stable_isKind _ _))
  refine ((safe_createClass package (Item.arrayName name total)).weaken
    (fun _ hall => ⟨arrayName_ne_empty name htotal, hall.2.2⟩)
    (fun _ hpost => hpost.1.isKind)).bind hplace (fun array => ?_)
  have harray := hplace.and (stable_isKind array .class)
  refine (Safe.update .class (by decide) (Item.keepsPlace_setId _ _) ?_).bind harray
    (fun _ => Safe.pure array (fun _ hall => hall.1.2))
  intro index _ hall
  refine ⟨hall.2, fun item target htarget => ?_⟩
  rcases Item.mem_attributeIds_setId htarget with hold | rfl
  · exact Or.inl hold
  · exact Or.inr hall.1.1

theorem safe_createArrayClass (base : ItemId) (dims : Nat) :
    Safe (fun index => index.IsKind base .class) (createArrayClass base dims)
      (fun id index => index.IsKind id .class) := by
  refine Safe.get_bind (fun current => ?_)
  rcases hshape : current.arrayShape base dims with ⟨root, total⟩
  have hpre : ∀ {other : Index}, other.Live → other = current ∧ other.IsKind base .class →
      other.IsKind root .class := by
    rintro other hlive ⟨rfl, hbase⟩
    have hkind := isKind_arrayShape hlive hbase dims
    rwa [hshape] at hkind
  dsimp only
  by_cases htotal : total = 0
  · rw [if_pos htotal]
    exact Safe.pure root hpre
  · rw [if_neg htotal]
    exact (safe_createArrayOf root htotal).weaken hpre (fun _ hpost => hpost)

end Index

end CodeAtlas
