/-
# Operations go on in two indices

Every operation is paired with itself: begun in an index and its mirror image, with the handles it
names relabelled, it gives the same answer up to the relabelling and leaves indices that mirror each
other.  An index evolves by elementary changes in the course of every operation.
-/
import CodeAtlas.Proofs.Index.Factory
import CodeAtlas.Proofs.Index.Paired

namespace CodeAtlas

open Index

variable {ρ : Relabelling} {allowed : ItemId → Prop} {pre : Index → Prop}

namespace Index

variable {a b index : Index}

/-! ## Owners -/

theorem Mirrors.canTake (h : Mirrors ρ a b) {parent : Option ItemId} {kind : ItemKind}
    (htake : a.CanTake parent kind) : b.CanTake (parent.map ρ.map) kind := by
  cases parent with
  | none => exact htake
  | some owner =>
    obtain ⟨item, hget, hcontain⟩ := htake
    exact ⟨item.map ρ.map, by rw [h.get?_map, hget]; rfl, hcontain⟩

/-- A refusal names owners by number, so its message is the same. -/
theorem Mirrors.refusal?_map (h : Mirrors ρ a b) (owner : ItemId) (kind : ItemKind)
    (name : String) : (b.refusal? (ρ.map owner) kind name).map GraphError.message =
      (a.refusal? owner kind name).map GraphError.message := by
  rw [refusal?, refusal?, h.get?_map]
  cases a.get? owner with
  | none => rfl
  | some item => rfl

/-- An owner that is not refused may own the item, and only a package may go without a name. -/
theorem refusal?_eq_none_iff {owner : ItemId} {kind : ItemKind} {name : String} :
    index.refusal? owner kind name = none ↔
      index.CanTake (some owner) kind ∧ (name = "" → kind = .package) := by
  rw [refusal?, CanTake]
  cases hget : index.get? owner with
  | none => simp
  | some item =>
    by_cases hcontain : item.kind.canContain kind = true
    · by_cases hname : name = ""
      · by_cases hkind : kind = .package <;> simp [hcontain, hname, hkind]
      · simp [hcontain, hname]
    · simp [hcontain]

/-- What is found by owner, name and kind has these. -/
theorem Registered.exists_of_findItem (h : index.Registered) {parent : Option ItemId} {name : String}
    {kind : ItemKind} {id : ItemId} (hkind : kind ≠ .method)
    (hfind : index.findItem parent name kind = some id) :
    ∃ item, index.get? id = some item ∧ item.parent = parent ∧ item.kind = kind ∧ item.name = name := by
  rw [h.findItem_eq parent name kind hkind] at hfind
  have hbears := (List.mem_filter.1 (List.mem_of_mem_head? hfind)).2
  rw [bears, Option.any_eq_true] at hbears
  obtain ⟨item, hget, hkey⟩ := hbears
  simp only [ItemKey.mk.injEq, decide_eq_true_eq] at hkey
  exact ⟨item, hget, hkey⟩

theorem Registered.isKind_of_findItem (h : index.Registered) {parent : Option ItemId} {name : String}
    {kind : ItemKind} {id : ItemId} (hkind : kind ≠ .method)
    (hfind : index.findItem parent name kind = some id) : index.IsKind id kind := by
  obtain ⟨item, hget, _, hitem, _⟩ := h.exists_of_findItem hkind hfind
  exact ⟨item, hget, hitem⟩

theorem Coherent.isKind_of_findItem (h : index.Coherent) {parent : Option ItemId} {name : String}
    {kind : ItemKind} {id : ItemId} (hkind : kind ≠ .method)
    (hfind : index.findItem parent name kind = some id) : index.IsKind id kind :=
  h.registered.isKind_of_findItem hkind hfind

theorem IsKind.contains {id : ItemId} {kind : ItemKind} (h : index.IsKind id kind) :
    index.contains id := by
  obtain ⟨item, hget, _⟩ := h
  rw [Index.contains, hget]
  rfl

/-! ## What loses nothing -/

theorem continuing_update (id : ItemId) (f : Item → Item) :
    Edit.Continuing (ExceptT.lift (update id f)) :=
  Edit.Continuing.lift (fun index => continues_modify index id f)

theorem continuing_intern (parent : Option ItemId) (name : String) (kind : ItemKind) :
    Edit.Continuing (ExceptT.lift (intern parent name kind)) := by
  refine Edit.Continuing.lift (fun index => ?_)
  show Continues index (intern parent name kind index).2
  rw [intern]
  split
  · exact Continues.refl index
  · exact continues_insertItem index parent name kind

theorem continuing_checkOwner (owner : ItemId) (kind : ItemKind) (name : String) :
    (checkOwner owner kind name).Continuing := by
  intro index
  rw [run_checkOwner]
  exact Continues.refl index

/-! ## Elementary steps -/

/-- Creating an item and its mirror image. -/
theorem Mirrors.agree_insertItem (h : Mirrors ρ a b) {parent : Option ItemId} {name : String}
    {kind : ItemKind} (htake : a.CanTake parent kind)
    (hnew : kind = .method ∨ a.findItem parent name kind = none)
    (hcovers : Covers ρ b.generation (a.insertItem parent name kind).2) :
    Evolves allowed a (a.insertItem parent name kind).2 ∧
      (b.insertItem (parent.map ρ.map) name kind).2.generation = b.generation ∧
      Mirrors ρ (a.insertItem parent name kind).2 (b.insertItem (parent.map ρ.map) name kind).2 ∧
      (b.insertItem (parent.map ρ.map) name kind).1 = ρ.map (a.insertItem parent name kind).1 ∧
      (a.insertItem parent name kind).2.IsKind (a.insertItem parent name kind).1 kind := by
  have hparent := htake.ne_nextId h.left.tallied
  have htake' := h.canTake htake
  have hparent' := htake'.ne_nextId h.right.tallied
  have hnew' : kind = .method ∨ b.findItem (parent.map ρ.map) name kind = none := by
    by_cases hkind : kind = .method
    · exact Or.inl hkind
    · rw [h.findItem_map parent name hkind, hnew.resolve_left hkind]
      exact Or.inr rfl
  have hself : (a.insertItem parent name kind).2.get? a.nextId =
      some (.fresh a.nextId name kind parent) := by
    rw [get?_insertItem h.left.tallied hparent, if_pos rfl]
  have hnext : ρ.map a.nextId = b.nextId := by
    have hsends := hcovers.sends (by rw [contains, hself]; rfl)
      (generation_insertItem a parent name kind).symm
    rw [hsends, nextId, nextId, h.next_eq]
    rfl
  have hroom' : (b.insertItem (parent.map ρ.map) name kind).2.size < 2 ^ 32 := by
    have hroom := hcovers.room
    rw [size_insertItem h.left.tallied hparent] at hroom
    rwa [size_insertItem h.right.tallied hparent', h.size_eq]
  refine ⟨Evolves.single (.insert htake hnew), generation_insertItem _ _ _ _, h.insertItem hnext hparent
    (h.left.insertItem htake hnew hcovers.room) (h.right.insertItem htake' hnew' hroom'), ?_, ?_⟩
  · rw [insertItem_eq, insertItem_eq]
    exact hnext.symm
  · rw [insertItem_eq] at hself ⊢
    exact ⟨_, hself, rfl⟩

end Index

namespace Paired

theorem insertItem {parent : Option ItemId} {name : String} {kind : ItemKind}
    (hpre : ∀ {index : Index}, pre index → index.CanTake parent kind ∧
      (kind = .method ∨ index.findItem parent name kind = none)) :
    Paired ρ allowed pre
      (modifyGet (fun index : Index => index.insertItem parent name kind) : Edit ItemId)
      (modifyGet (fun index : Index => index.insertItem (parent.map ρ.map) name kind))
      ρ.map (fun id index => index.IsKind id kind) :=
  Paired.lift (fun index => continues_insertItem index parent name kind)
    (fun hmirrors hindex hcovers =>
      hmirrors.agree_insertItem (hpre hindex).1 (hpre hindex).2 hcovers)

/-- Finding or creating an item that is told apart by owner, name and kind. -/
theorem intern {parent : Option ItemId} {name : String} {kind : ItemKind} (hkind : kind ≠ .method)
    (hpre : ∀ {index : Index}, pre index → index.CanTake parent kind) :
    Paired ρ allowed pre (ExceptT.lift (Index.intern parent name kind))
      (ExceptT.lift (Index.intern (parent.map ρ.map) name kind)) ρ.map
      (fun id index => index.IsKind id kind) := by
  refine Paired.lift (continuing_intern parent name kind) ?_
  intro a b hmirrors hindex hcovers
  have hrun : ∀ parent index, (Index.intern parent name kind).run index =
      Index.intern parent name kind index := fun _ _ => rfl
  rw [hrun] at hcovers ⊢
  rw [hrun, Index.intern, Index.intern, hmirrors.findItem_map parent name hkind]
  rw [Index.intern] at hcovers
  cases hfind : a.findItem parent name kind with
  | some id =>
    exact ⟨Evolves.refl a, rfl, hmirrors, rfl, hmirrors.left.isKind_of_findItem hkind hfind⟩
  | none =>
    rw [hfind] at hcovers
    exact hmirrors.agree_insertItem (hpre hindex) (Or.inr hfind) hcovers

theorem setAll {id : ItemId} (settings : List (Setting ItemId))
    (hpre : ∀ {index : Index}, pre index → ∀ setting ∈ settings, ∀ target ∈ setting.targets,
      allowed target ∨ index.contains target) :
    Paired ρ allowed pre (ExceptT.lift (Index.update id (Setting.applyAll settings)))
      (ExceptT.lift (Index.update (ρ.map id)
        (Setting.applyAll (settings.map (Setting.map ρ.map))))) (fun _ => ()) (fun _ _ => True) :=
  Paired.lift (fun index => continues_modify index id _) (fun hmirrors hindex _ =>
    ⟨Evolves.single (.set id settings (hpre hindex)), generation_modify _ _ _,
      hmirrors.applyAll id settings, rfl, trivial⟩)

theorem set {id : ItemId} (setting : Setting ItemId)
    (hpre : ∀ {index : Index}, pre index → ∀ target ∈ setting.targets,
      allowed target ∨ index.contains target) :
    Paired ρ allowed pre (ExceptT.lift (Index.update id setting.apply))
      (ExceptT.lift (Index.update (ρ.map id) (setting.map ρ.map).apply)) (fun _ => ())
      (fun _ _ => True) :=
  setAll [setting] (fun hindex _ hother => List.mem_singleton.1 hother ▸ hpre hindex)

theorem checkOwner (owner : ItemId) (kind : ItemKind) (name : String) :
    Paired ρ allowed pre (Index.checkOwner owner kind name)
      (Index.checkOwner (ρ.map owner) kind name) (fun _ => ())
      (fun _ index => index.CanTake (some owner) kind) := by
  refine ⟨continuing_checkOwner owner kind name, ?_⟩
  intro a b hmirrors _ _
  have hmessage := hmirrors.refusal?_map owner kind name
  rw [run_checkOwner, run_checkOwner]
  cases hrefusal : a.refusal? owner kind name with
  | none =>
    rw [hrefusal, Option.map_none, Option.map_eq_none_iff] at hmessage
    rw [hmessage]
    exact ⟨Evolves.refl a, rfl, hmirrors, .ok () (refusal?_eq_none_iff.1 hrefusal).1⟩
  | some error =>
    rw [hrefusal, Option.map_some, Option.map_eq_some_iff] at hmessage
    obtain ⟨error', hrefusal', hmessage⟩ := hmessage
    rw [hrefusal']
    exact ⟨Evolves.refl a, rfl, hmirrors, .refused hmessage⟩

end Paired

namespace Index

/-! ## Finding or creating items -/

/-- An item that its owner is checked for. -/
theorem paired_createOwned (owner : ItemId) (name : String) {kind : ItemKind}
    (hkind : kind ≠ .method) :
    Paired ρ allowed pre
      (checkOwner owner kind name >>= fun _ => ExceptT.lift (intern (some owner) name kind))
      (checkOwner (ρ.map owner) kind name >>= fun _ =>
        ExceptT.lift (intern (some (ρ.map owner)) name kind))
      ρ.map (fun id index => index.IsKind id kind) :=
  (Paired.checkOwner owner kind name).andThen
    (fun _ => Paired.intern hkind (fun htake => htake))

theorem paired_createProject (name : String) :
    Paired ρ allowed pre (ExceptT.lift (createProject name)) (ExceptT.lift (createProject name))
      ρ.map (fun id index => index.IsKind id .project) :=
  Paired.intern (by decide) (fun _ => rfl)

theorem paired_createPackage (project : ItemId) (name : String) :
    Paired ρ allowed pre (createPackage project name) (createPackage (ρ.map project) name) ρ.map
      (fun id index => index.IsKind id .package) :=
  paired_createOwned project name (by decide)

theorem paired_createClass (package : ItemId) (name : String) :
    Paired ρ allowed pre (createClass package name) (createClass (ρ.map package) name) ρ.map
      (fun id index => index.IsKind id .class) :=
  paired_createOwned package name (by decide)

theorem paired_createField (owner : ItemId) (name : String) :
    Paired ρ allowed pre (createField owner name) (createField (ρ.map owner) name) ρ.map
      (fun id index => index.IsKind id .field) :=
  paired_createOwned owner name (by decide)

/-- The place of a class.  The item turns out to be in the index. -/
theorem paired_classPlace (id : ItemId) (error error' : GraphError)
    (hmessage : error'.message = error.message) :
    Paired ρ allowed pre (classPlace id error) (classPlace (ρ.map id) error')
      (fun place => (ρ.map place.1, place.2)) (fun _ index => index.contains id) := by
  refine Paired.get_bind (fun index => ?_) ?_
  · cases index.get? id with
    | none => exact Edit.Continuing.throw error
    | some item =>
      dsimp only
      split
      · cases item.parent with
        | none => exact Edit.Continuing.throw _
        | some package => exact Edit.Continuing.pure _
      · exact Edit.Continuing.throw error
  intro a b hmirrors _
  rw [hmirrors.get?_map]
  cases hget : a.get? id with
  | none => exact Paired.throw hmessage
  | some item =>
    simp only [Option.map_some, Item.kind_map, Item.parent_map, Item.name_map]
    by_cases hkind : item.kind = .class
    · simp only [hkind, if_true]
      cases item.parent with
      | none => exact Paired.throw rfl
      | some package =>
        refine Paired.pure rfl ?_
        rintro index rfl
        rw [contains, hget]
        rfl
    · simp only [hkind, if_false]
      exact Paired.throw hmessage

theorem paired_createInnerClass (outer : ItemId) (simple : String) :
    Paired ρ allowed pre (createInnerClass outer simple) (createInnerClass (ρ.map outer) simple)
      ρ.map (fun id index => index.contains id) := by
  refine (paired_classPlace outer (.notClass outer) (.notClass (ρ.map outer)) rfl).andThen ?_
  rintro ⟨package, outerName⟩
  refine ((paired_createClass package (outerName ++ "." ++ simple)).keeping
    (fun hcontinues houter => hcontinues.keeps houter)).andThen (fun inner => ?_)
  have hlasts : ∀ {a b : Index}, Continues a b → a.contains outer ∧ a.contains inner →
      b.contains outer ∧ b.contains inner :=
    fun hcontinues hboth => ⟨hcontinues.keeps hboth.1, hcontinues.keeps hboth.2⟩
  have houter : Paired ρ allowed (fun index => index.contains outer ∧ index.contains inner)
      (ExceptT.lift (update inner (fun item => item.setId .outerClass outer)))
      (ExceptT.lift (update (ρ.map inner) (fun item => item.setId .outerClass (ρ.map outer))))
      (fun _ => ()) (fun _ _ => True) :=
    Paired.set (.one ⟨.outerClass, rfl⟩ outer)
      (fun hboth target htarget => Or.inr (List.mem_singleton.1 htarget ▸ hboth.1))
  have hinner : Paired ρ allowed (fun index => index.contains outer ∧ index.contains inner)
      (ExceptT.lift (update outer (fun item => item.pushNew .innerClasses inner)))
      (ExceptT.lift (update (ρ.map outer) (fun item => item.pushNew .innerClasses (ρ.map inner))))
      (fun _ => ()) (fun _ _ => True) :=
    Paired.set (.member ⟨.innerClasses, rfl⟩ inner)
      (fun hboth target htarget => Or.inr (List.mem_singleton.1 htarget ▸ hboth.2))
  refine ((houter.keeping hlasts).weaken
    (fun hboth => ⟨hboth.1, hboth.2.contains⟩)).andThen (fun _ => ?_)
  refine ((hinner.keeping hlasts).weaken (fun hboth => hboth.1)).andThen (fun _ => ?_)
  exact Paired.pure rfl (fun hboth => hboth.1.2)

/-- The signature of a method. -/
theorem Mirrors.paramsMatch_get? (h : Mirrors ρ a b) (id : ItemId) (types : List ItemId) :
    b.paramsMatch (((b.get? (ρ.map id)).map Item.paramTypes).getD []) (types.map ρ.map) =
      a.paramsMatch (((a.get? id).map Item.paramTypes).getD []) types := by
  have htypes : ((b.get? (ρ.map id)).map Item.paramTypes).getD [] =
      (((a.get? id).map Item.paramTypes).getD []).map ρ.map := by
    rw [h.get?_map]
    cases a.get? id with
    | none => rfl
    | some item => exact Item.paramTypes_map ρ.map item
  rw [htypes, h.paramsMatch_map]

theorem paired_createMethod (owner : ItemId) (name : String) (params : Option (List ItemId))
    (hpre : ∀ {index : Index}, pre index → ∀ target ∈ params.getD [],
      allowed target ∨ index.contains target) :
    Paired ρ allowed pre (createMethod owner name params)
      (createMethod (ρ.map owner) name (params.map (List.map ρ.map))) ρ.map
      (fun _ _ => True) := by
  have hlasts : ∀ {a b : Index}, Continues a b →
      (∀ target ∈ params.getD [], allowed target ∨ a.contains target) →
      ∀ target ∈ params.getD [], allowed target ∨ b.contains target :=
    fun hcontinues hall target htarget => (hall target htarget).imp_right hcontinues.keeps
  refine ((Paired.checkOwner owner .method name).keeping
    (fun hcontinues hindex => hlasts hcontinues (hpre hindex))).andThen (fun _ => ?_)
  refine Paired.get_bind (fun index => ?_) ?_
  · dsimp only
    split
    · exact Edit.Continuing.pure _
    · refine Edit.Continuing.bind (Edit.Continuing.lift (fun index =>
        continues_insertItem index (some owner) name .method)) (fun id => ?_)
      cases params with
      | none => exact Edit.Continuing.pure id
      | some params => exact (continuing_update _ _).bind (fun _ => Edit.Continuing.pure _)
  intro a b hmirrors hindex
  have htypes : (params.map (List.map ρ.map)).getD [] = (params.getD []).map ρ.map := by
    cases params <;> rfl
  have hall := hmirrors.findAll_map (some owner) name .method
  rw [Option.map_some] at hall
  have hexisting : (b.findAll (some (ρ.map owner)) name .method).find? (fun candidate =>
      b.paramsMatch (((b.get? candidate).map Item.paramTypes).getD [])
        ((params.map (List.map ρ.map)).getD [])) =
      ((a.findAll (some owner) name .method).find? (fun candidate =>
        a.paramsMatch (((a.get? candidate).map Item.paramTypes).getD []) (params.getD []))).map
          ρ.map := by
    rw [hall, List.find?_map, htypes]
    congr 2
    funext candidate
    exact hmirrors.paramsMatch_get? candidate (params.getD [])
  dsimp only
  rw [hexisting]
  cases (a.findAll (some owner) name .method).find? (fun candidate =>
      a.paramsMatch (((a.get? candidate).map Item.paramTypes).getD []) (params.getD [])) with
  | some id => exact Paired.pure rfl (fun _ => trivial)
  | none =>
    have hinsert := @Paired.insertItem ρ allowed (fun index => index = a) (some owner) name .method
      (fun heq => ⟨heq ▸ hindex.2, Or.inl rfl⟩)
    refine (hinsert.keeping (fun hcontinues heq => hlasts hcontinues (heq ▸ hindex.1))).andThen
      (fun id => ?_)
    cases params with
    | none => exact Paired.pure rfl (fun _ => trivial)
    | some types =>
      have hset : Paired ρ allowed (fun index => ∀ target ∈ types,
          allowed target ∨ index.contains target)
          (ExceptT.lift (update id (fun item => item.setParamTypes types)))
          (ExceptT.lift (update (ρ.map id) (fun item => item.setParamTypes (types.map ρ.map))))
          (fun _ => ()) (fun _ _ => True) :=
        Paired.set (.params types) (fun hall => hall)
      exact (hset.weaken (fun hboth => hboth.1)).andThen
        (fun _ => Paired.pure rfl (fun _ => trivial))

theorem paired_createArrayClass (base : ItemId) (dims : Nat) :
    Paired ρ allowed pre (createArrayClass base dims) (createArrayClass (ρ.map base) dims) ρ.map
      (fun _ _ => True) := by
  have hplace : ∀ root, (classPlace root (.badArrayBase root)).Continuing := fun root =>
    (@paired_classPlace .identity (fun _ => True) (fun _ => True) root (.badArrayBase root)
      (.badArrayBase root) rfl).continues
  have hclass : ∀ package name, (createClass package name).Continuing := fun package name =>
    (@paired_createClass .identity (fun _ => True) (fun _ => True) package name).continues
  refine Paired.get_bind (fun index => ?_) ?_
  · dsimp only
    split
    · exact Edit.Continuing.pure _
    · exact (hplace _).bind fun _ => (hclass _ _).bind fun _ =>
        (continuing_update _ _).bind fun _ => Edit.Continuing.pure _
  intro a b hmirrors _
  rw [hmirrors.arrayShape_map]
  rcases a.arrayShape base dims with ⟨root, total⟩
  dsimp only
  split
  · exact Paired.pure rfl (fun _ => trivial)
  · refine (paired_classPlace root (.badArrayBase root) (.badArrayBase (ρ.map root)) rfl).andThen ?_
    rintro ⟨package, name⟩
    refine ((paired_createClass package (Item.arrayName name total)).keeping
      (fun hcontinues hroot => hcontinues.keeps hroot)).andThen (fun array => ?_)
    have hset : Paired ρ allowed (fun index => index.contains root)
        (ExceptT.lift (update array (fun item => item.setId .arrayBase root)))
        (ExceptT.lift (update (ρ.map array) (fun item => item.setId .arrayBase (ρ.map root))))
        (fun _ => ()) (fun _ _ => True) :=
      Paired.set (.one ⟨.arrayBase, rfl⟩ root)
        (fun hroot target htarget => Or.inr (List.mem_singleton.1 htarget ▸ hroot))
    exact (hset.weaken (fun hboth => hboth.1)).andThen
      (fun _ => Paired.pure rfl (fun _ => trivial))

/-! ## Builtin items -/

theorem lift_bind {α β : Type} (change : StateM Index α) (next : α → StateM Index β) :
    (ExceptT.lift (change >>= next) : Edit β) =
      ExceptT.lift change >>= fun value => ExceptT.lift (next value) := rfl

theorem paired_createBuiltinPackage :
    Paired ρ allowed pre (ExceptT.lift createBuiltinPackage) (ExceptT.lift createBuiltinPackage)
      ρ.map (fun id index => index.IsKind id .package) := by
  rw [createBuiltinPackage, lift_bind]
  refine (paired_createProject builtinProject).andThen (fun project => ?_)
  exact Paired.intern (by decide) (fun hproject => hproject.canTake rfl)

/-- A class in the builtin package. -/
theorem paired_createBuiltinClass (name : String) :
    Paired ρ allowed pre
      (ExceptT.lift createBuiltinPackage >>= fun package =>
        ExceptT.lift (intern (some package) name .class))
      (ExceptT.lift createBuiltinPackage >>= fun package =>
        ExceptT.lift (intern (some package) name .class))
      ρ.map (fun id index => index.IsKind id .class) :=
  paired_createBuiltinPackage.andThen
    (fun _ => Paired.intern (by decide) (fun hpackage => hpackage.canTake rfl))

theorem paired_createPrimitive (name : String) :
    Paired ρ allowed pre (createPrimitive name) (createPrimitive name) ρ.map
      (fun id index => index.IsKind id .class) := by
  rw [createPrimitive]
  split
  · exact paired_createBuiltinClass name
  · exact Paired.throw rfl

theorem paired_createWildcard :
    Paired ρ allowed pre (ExceptT.lift createWildcard) (ExceptT.lift createWildcard) ρ.map
      (fun id index => index.IsKind id .class) := by
  rw [createWildcard, lift_bind]
  exact paired_createBuiltinClass wildcardName

/-! ## Calls -/

theorem paired_createPseudo (owner : ItemId) (site : CallSite) :
    Paired ρ allowed pre (createPseudo owner site)
      (createPseudo (ρ.map owner) { site with owners := site.owners.map ρ.map }) ρ.map
      (fun _ _ => True) := by
  have hflags : ∀ (method : ItemId) (isThirdParty : Bool),
      Paired ρ allowed (fun _ => True)
        (ExceptT.lift (update method (fun item =>
          let item := item.setFlag .pseudo true
          if isThirdParty then item.setFlag .thirdParty true else item)))
        (ExceptT.lift (update (ρ.map method) (fun item =>
          let item := item.setFlag .pseudo true
          if isThirdParty then item.setFlag .thirdParty true else item)))
        (fun _ => ()) (fun _ _ => True) := by
    intro method isThirdParty
    cases isThirdParty with
    | false => exact Paired.set (.flag .pseudo true) (by simp [Setting.targets])
    | true =>
      exact Paired.setAll [.flag .pseudo true, .flag .thirdParty true] (by simp [Setting.targets])
  refine paired_createWildcard.andThen (fun wildcard => ?_)
  have htypes : (some (List.replicate site.argCount wildcard)).map (List.map ρ.map) =
      some (List.replicate site.argCount (ρ.map wildcard)) := by
    rw [Option.map_some, List.map_replicate]
  have hmethod := @paired_createMethod ρ allowed (fun index => index.IsKind wildcard .class) owner
    site.name (some (List.replicate site.argCount wildcard))
    (fun hwildcard target htarget => Or.inr (List.eq_of_mem_replicate htarget ▸ hwildcard.contains))
  rw [htypes] at hmethod
  refine hmethod.andThen (fun method => ?_)
  refine Paired.get_bind (fun index => ?_) ?_
  · exact (continuing_update _ _).bind (fun _ => Edit.Continuing.pure _)
  · intro a b hmirrors _
    rw [hmirrors.inThirdParty_map]
    exact ((hflags method (a.inThirdParty owner)).weaken (fun _ => trivial)).andThen
      (fun _ => Paired.pure rfl (fun _ => trivial))

end Index

/-- What became of a call, with its method sent through `f`. -/
def CallTarget.map (f : ItemId → ItemId) : CallTarget → CallTarget
  | resolved method => resolved (f method)
  | created method => created (f method)
  | unresolved => unresolved

namespace Index

theorem continuing_createPseudo (owner : ItemId) (site : CallSite) :
    (createPseudo owner site).Continuing :=
  (@paired_createPseudo .identity (fun _ => True) (fun _ => True) owner site).continues

theorem continuing_createTarget (index : Index) (site : CallSite) :
    Edit.Continuing (match index.pseudoOwner? site with
      | some owner => do return CallTarget.created (← createPseudo owner site)
      | none => return CallTarget.unresolved) := by
  cases index.pseudoOwner? site with
  | none => exact Edit.Continuing.pure _
  | some owner => exact (continuing_createPseudo owner site).bind (fun _ => Edit.Continuing.pure _)

theorem paired_resolveOrCreate (site : CallSite) (create : Bool) :
    Paired ρ allowed pre (resolveOrCreate site create)
      (resolveOrCreate { site with owners := site.owners.map ρ.map } create)
      (CallTarget.map ρ.map) (fun _ _ => True) := by
  refine Paired.get_bind (fun index => ?_) ?_
  · cases index.resolveCall site with
    | some method => exact Edit.Continuing.pure _
    | none =>
      dsimp only
      split
      · exact Edit.Continuing.get_bind (continuing_createTarget · site)
      · exact Edit.Continuing.pure _
  intro a b hmirrors _
  rw [hmirrors.resolveCall_map]
  cases a.resolveCall site with
  | some method => exact Paired.pure rfl (fun _ => trivial)
  | none =>
    dsimp only [Option.map_none]
    split
    · refine Paired.get_bind (continuing_createTarget · site) ?_
      intro a b hmirrors _
      rw [hmirrors.pseudoOwner?_map]
      cases a.pseudoOwner? site with
      | none => exact Paired.pure rfl (fun _ => trivial)
      | some owner =>
        exact (paired_createPseudo owner site).andThen
          (fun method => Paired.pure rfl (fun _ => trivial))
    · exact Paired.pure rfl (fun _ => trivial)

/-! ## Third-party items -/

/-- Flagging items one after the other. -/
theorem Mirrors.foldl_set (h : Mirrors ρ a b) (ids : List ItemId) (setting : Setting ItemId)
    (htargets : setting.targets = []) :
    Evolves allowed a (ids.foldl (fun index id => index.modify id setting.apply) a) ∧
      Mirrors ρ (ids.foldl (fun index id => index.modify id setting.apply) a)
        ((ids.map ρ.map).foldl
          (fun index id => index.modify id (setting.map ρ.map).apply) b) := by
  induction ids generalizing a b with
  | nil => exact ⟨Evolves.refl a, h⟩
  | cons first rest ih =>
    have hfirst : Mirrors ρ (a.modify first setting.apply)
        (b.modify (ρ.map first) (setting.map ρ.map).apply) := h.applyAll first [setting]
    have hchange : Change allowed a (a.modify first setting.apply) :=
      .set first [setting] (by simp [htargets])
    obtain ⟨hevolves, hrest⟩ := ih hfirst
    exact ⟨(Evolves.single hchange).trans hevolves, hrest⟩

theorem paired_propagateThirdParty :
    Paired ρ allowed pre
      (modifyGet (fun index : Index => index.propagateThirdParty) : Edit Nat)
      (modifyGet (fun index : Index => index.propagateThirdParty)) id (fun _ _ => True) := by
  refine Paired.lift (fun index => continues_foldl_modify index _ _) ?_
  intro a b hmirrors _ _
  obtain ⟨hevolves, hafter⟩ := @Mirrors.foldl_set ρ allowed a b hmirrors a.unflagged
    (.flag .thirdParty true) rfl
  rw [← hmirrors.unflagged_map] at hafter
  refine ⟨hevolves, ?_, hafter, ?_, trivial⟩
  · exact (continues_foldl_modify b _ _).generation_eq
  · show b.unflagged.length = a.unflagged.length
    rw [hmirrors.unflagged_map, List.length_map]

end Index

/-! ## Operations -/

namespace Operation

/-- An operation that gives an item. -/
theorem paired_item {change twin : Edit ItemId} {post : ItemId → Index → Prop}
    (h : Paired ρ allowed pre change twin ρ.map post) :
    Paired ρ allowed pre (change >>= fun id => pure (.item id)) (twin >>= fun id => pure (.item id))
      (Answer.map ρ.map) (fun _ _ => True) :=
  h.andThen (fun _ => Paired.pure rfl (fun _ => trivial))

/-- Every operation is paired with its relabelling. -/
theorem paired_edit (operation : Operation ItemId)
    (hallowed : ∀ target ∈ operation.recorded, allowed target) :
    Paired ρ allowed pre operation.edit (operation.map ρ.map).edit (Answer.map ρ.map)
      (fun _ _ => True) := by
  cases operation with
  | project name => exact paired_item (paired_createProject name)
  | package owner name => exact paired_item (paired_createPackage owner name)
  | «class» owner name => exact paired_item (paired_createClass owner name)
  | innerClass outer simple => exact paired_item (paired_createInnerClass outer simple)
  | method owner name params =>
    exact paired_item (paired_createMethod owner name params
      (fun _ target htarget => Or.inl (hallowed target htarget)))
  | field owner name => exact paired_item (paired_createField owner name)
  | arrayClass base dims => exact paired_item (paired_createArrayClass base dims)
  | builtinProject => exact paired_item (paired_createProject CodeAtlas.builtinProject)
  | primitive name => exact paired_item (paired_createPrimitive name)
  | wildcard => exact paired_item paired_createWildcard
  | set item setting =>
    refine Paired.get_bind (fun index => ?_) ?_
    · exact (continuing_update _ _).bind (fun _ => Edit.Continuing.pure _)
    intro a b hmirrors _
    have hset := @Paired.set ρ allowed (fun index => index = a) item setting
      (fun _ target htarget => Or.inl (hallowed target htarget))
    refine hset.andThen (fun _ => ?_)
    exact Paired.pure (congrArg Answer.changed (hmirrors.contains_map item)) (fun _ => trivial)
  | addDependency source target =>
    have hadd : Paired ρ allowed pre
        (modifyGet (fun index : Index => index.addDependency source target) : Edit Bool)
        (modifyGet (fun index : Index => index.addDependency (ρ.map source) (ρ.map target))) id
        (fun _ _ => True) := by
      refine Paired.lift (fun index => continues_addDependency index source target) ?_
      intro a b hmirrors _ _
      obtain ⟨hknown, hafter⟩ := hmirrors.addDependency source target
      exact ⟨Evolves.single (.addDependency source target),
        (continues_addDependency b _ _).generation_eq, hafter, hknown, trivial⟩
    exact hadd.andThen (fun known => Paired.pure rfl (fun _ => trivial))
  | removeDependency source target =>
    have hremove : Paired ρ allowed pre
        (modifyGet (fun index : Index => index.removeDependency source target) : Edit Bool)
        (modifyGet (fun index : Index => index.removeDependency (ρ.map source) (ρ.map target))) id
        (fun _ _ => True) := by
      refine Paired.lift (fun index => continues_removeDependency index source target) ?_
      intro a b hmirrors _ _
      obtain ⟨hknown, hafter⟩ := hmirrors.removeDependency source target
      exact ⟨Evolves.single (.removeDependency source target),
        (continues_removeDependency b _ _).generation_eq, hafter, hknown, trivial⟩
    exact hremove.andThen (fun known => Paired.pure rfl (fun _ => trivial))
  | call site owners create =>
    refine (paired_resolveOrCreate { site with owners := owners } create).andThen (fun found => ?_)
    have hfound : Answer.ofCall (found.map ρ.map) = (Answer.ofCall found).map ρ.map := by
      cases found <;> rfl
    rw [hfound]
    exact Paired.pure rfl (fun _ => trivial)
  | propagateThirdParty =>
    exact paired_propagateThirdParty.andThen
      (fun count => Paired.pure rfl (fun _ => trivial))

theorem continues_run (operation : Operation ItemId) (index : Index) :
    Continues index (operation.run index).2 := by
  have hcontinues := (@paired_edit .identity (fun _ => True) (fun _ => True) operation
    (fun _ _ => trivial)).continues index
  rw [run]
  rcases hrun : operation.edit.run.run index with ⟨error | answer, after⟩ <;>
  · rw [hrun] at hcontinues
    exact hcontinues

/-- An operation in an index and in its mirror image: the same answer, mirrored indices, and a
sequence of elementary changes that records nothing but what the operation was given to record and
items of the index. -/
theorem run_mirrors {a b : Index} (h : Mirrors ρ a b) (operation : Operation ItemId)
    (hcovers : Covers ρ b.generation (operation.run a).2) :
    ((operation.map ρ.map).run b).1 = (operation.run a).1.map ρ.map ∧
      Mirrors ρ (operation.run a).2 ((operation.map ρ.map).run b).2 ∧
      ((operation.map ρ.map).run b).2.generation = b.generation ∧
      Evolves (· ∈ operation.recorded) a (operation.run a).2 := by
  have hpaired := @paired_edit ρ (· ∈ operation.recorded) (fun _ => True) operation
    (fun _ htarget => htarget)
  rw [run] at hcovers ⊢
  rw [run]
  have hagree := hpaired.works h trivial
  rcases hrun : operation.edit.run.run a with ⟨result, after⟩
  rcases hrun' : (operation.map ρ.map).edit.run.run b with ⟨result', after'⟩
  rw [hrun] at hcovers
  rw [hrun, hrun'] at hagree
  have hcovers' : Covers ρ b.generation after := by cases result <;> exact hcovers
  obtain ⟨hevolves, hgeneration, hmirrors, hresults⟩ := hagree hcovers'
  cases hresults with
  | ok answer _ => exact ⟨rfl, hmirrors, hgeneration, hevolves⟩
  | refused hmessage => exact ⟨congrArg Answer.refused hmessage, hmirrors, hgeneration, hevolves⟩

end Operation

end CodeAtlas
