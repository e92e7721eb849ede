/-
# Entering projects

Projects are shared by name: a directory, an archive and a manifest entry of one name are one project
item, and each of them may flag it.  What an index says about the projects is a table from names to
flags, and entering projects and linking them to their dependencies changes nothing else in it.
-/
import CodeAtlas.Load.Jobs
import CodeAtlas.Proofs.Load.Declarations

namespace CodeAtlas

namespace Index

variable {index a b c : Index}

/-! ## Indices that keep their items -/

/-- What stays the same when an index grows and projects may be flagged. -/
structure Widens (a b : Index) : Prop where
  keeps : ∀ {id : ItemId} {item : Item}, a.get? id = some item →
    ∃ later, b.get? id = some later ∧ later.name = item.name ∧ later.kind = item.kind ∧
      later.parent = item.parent
  finds : ∀ {parent : Option ItemId} {name : String} {kind : ItemKind} {id : ItemId},
    kind ≠ .method → a.findItem parent name kind = some id →
    b.findItem parent name kind = some id

theorem Extends.widens (h : Extends a b) : Widens a b := by
  refine ⟨fun hget => ?_, h.finds⟩
  obtain ⟨later, hlater, hname, hkind, hparent, _⟩ := h.keeps hget
  exact ⟨later, hlater, hname, hkind, hparent⟩

theorem Widens.trans (hab : Widens a b) (hbc : Widens b c) : Widens a c := by
  refine ⟨?_, fun hkind hfind => hbc.finds hkind (hab.finds hkind hfind)⟩
  intro id item hget
  obtain ⟨middle, hmiddle, hname, hkind, hparent⟩ := hab.keeps hget
  obtain ⟨later, hlater, hname', hkind', hparent'⟩ := hbc.keeps hmiddle
  exact ⟨later, hlater, hname'.trans hname, hkind'.trans hkind, hparent'.trans hparent⟩

theorem Widens.isKind (h : Widens a b) {id : ItemId} {kind : ItemKind} (hid : a.IsKind id kind) :
    b.IsKind id kind := by
  obtain ⟨item, hget, hkind⟩ := hid
  obtain ⟨later, hlater, _, hkind', _⟩ := h.keeps hget
  exact ⟨later, hlater, hkind'.trans hkind⟩

theorem widens_modify {f : Item → Item} (hf : Item.KeepsPlace f) (id : ItemId) :
    Widens index (index.modify id f) := by
  refine ⟨?_, fun _ hfind => by rw [findItem_modify, hfind]⟩
  intro other item hget
  rw [get?_modify]
  by_cases hid : other = id
  · subst hid
    obtain ⟨_, hname, hkind, hparent⟩ := hf item
    rw [if_pos rfl, hget]
    exact ⟨f item, rfl, hname, hkind, hparent⟩
  · rw [if_neg hid]
    exact ⟨item, hget, rfl, rfl, rfl⟩

/-! ## The standing of a project -/

end Index

/-- How a project is flagged. -/
structure Standing where
  isThirdParty : Bool
  isPseudo : Bool
deriving DecidableEq, Repr

/-- The standing of an item. -/
def Item.standing (item : Item) : Standing :=
  ⟨item.isThirdParty, item.isPseudo⟩

namespace Index

variable {index : Index}

/-- The standing of the project of a name, if there is one. -/
def standing? (index : Index) (name : String) : Option Standing :=
  ((index.findItem none name .project).bind index.get?).map Item.standing

theorem standing?_of_findItem {name : String} {id : ItemId} {item : Item}
    (hfind : index.findItem none name .project = some id) (hget : index.get? id = some item) :
    index.standing? name = some item.standing := by
  rw [standing?, hfind, Option.bind_some, hget]
  rfl

theorem Sound.isSome_standing? (h : index.Sound) (name : String) :
    (index.standing? name).isSome = (index.findItem none name .project).isSome := by
  cases hfind : index.findItem none name .project with
  | none => simp [standing?, hfind]
  | some id =>
    obtain ⟨item, hget, _⟩ := h.get?_of_findItem hfind
    rw [standing?_of_findItem hfind hget]
    rfl

/-- Changing the project of a name changes the standing of that name only. -/
theorem standing?_modify (h : index.Sound) {name : String} {id : ItemId} {item : Item}
    (hfind : index.findItem none name .project = some id) (hget : index.get? id = some item)
    (f : Item → Item) (other : String) :
    (index.modify id f).standing? other =
      if other = name then some (f item).standing else index.standing? other := by
  rw [standing?, findItem_modify]
  by_cases hother : other = name
  · subst hother
    rw [hfind, if_pos rfl, Option.bind_some, get?_modify, if_pos rfl, hget]
    rfl
  · rw [if_neg hother, standing?]
    cases hfound : index.findItem none other .project with
    | none => rfl
    | some found =>
      have hne : found ≠ id := by
        rintro rfl
        obtain ⟨_, hget', _, _, hname'⟩ := h.get?_of_findItem hfound
        obtain ⟨_, hget'', _, _, hname''⟩ := h.get?_of_findItem hfind
        obtain rfl := Option.some.inj (hget'.symm.trans hget'')
        exact hother (hname'.symm.trans hname'')
      rw [Option.bind_some, Option.bind_some, get?_modify, if_neg hne]

/-- Changing items without touching flags leaves every standing. -/
theorem standing?_modify_of_flags (index : Index) (id : ItemId) {f : Item → Item}
    (hf : ∀ item, (f item).standing = item.standing) (name : String) : (index.modify id f).standing? name = index.standing? name := by
  rw [standing?, standing?, findItem_modify]
  cases hfound : index.findItem none name .project with
  | none => rfl
  | some found =>
    rw [Option.bind_some, Option.bind_some, get?_modify]
    split
    · rename_i heq
      subst heq
      cases index.get? found with
      | none => rfl
      | some item => exact congrArg some (hf item)
    · rfl

theorem standing?_addDependency (index : Index) (source target : ItemId) (name : String) :
    (index.addDependency source target).2.standing? name = index.standing? name := by
  rw [addDependency]
  split
  · rfl
  · have hincoming : ∀ item : Item,
        { item with incoming := insertNew item.incoming source }.standing = item.standing :=
      fun _ => rfl
    have hdependencies : ∀ item : Item,
        { item with dependencies := insertNew item.dependencies target }.standing =
          item.standing := fun _ => rfl
    exact (standing?_modify_of_flags _ target hincoming name).trans
      (standing?_modify_of_flags index source hdependencies name)

theorem standing_fresh (id : ItemId) (name : String) (kind : ItemKind) (parent : Option ItemId) :
    (Item.fresh id name kind parent).standing = ⟨false, false⟩ := by
  rfl

/-- A project that nothing is said about has no flags when it is created. -/
theorem standing?_insertItem (h : index.Live) {name : String}
    (hnone : index.findItem none name .project = none) (other : String) :
    (index.insertItem none name .project).2.standing? other =
      if other = name then some ⟨false, false⟩ else index.standing? other := by
  have hparent : (none : Option ItemId) ≠ some index.nextId := by simp
  by_cases hother : other = name
  · subst hother
    rw [if_pos rfl]
    have hget : (index.insertItem none other .project).2.get? index.nextId =
        some (.fresh index.nextId other .project none) := by
      rw [get?_insertItem h.tallied hparent, if_pos rfl]
    rw [standing?_of_findItem (findItem_insertItem_self h.tallied hparent hnone) hget]
    exact congrArg some (standing_fresh _ _ _ _)
  · rw [if_neg hother, standing?, findItem_insertItem h.tallied hparent, if_neg (by simp [Ne.symm hother]),
      standing?]
    cases hfound : index.findItem none other .project with
    | none => rfl
    | some found =>
      obtain ⟨item, hget, _⟩ := h.sound.get?_of_findItem hfound
      have hne : found ≠ index.nextId := by
        rintro rfl
        rw [get?_nextId h.tallied] at hget
        exact absurd hget (by simp)
      rw [Option.bind_some, Option.bind_some, get?_insertItem h.tallied hparent, if_neg hne,
        if_neg (by simp)]

/-- The table of standings after a project was entered that may be flagged. -/
def enrol (standings : String → Option Standing) (name : String) (isThirdParty isPseudo : Bool) :
    String → Option Standing := fun other =>
  if other = name then
    let old := (standings name).getD ⟨false, false⟩
    some ⟨old.isThirdParty || isThirdParty, old.isPseudo || isPseudo⟩
  else standings other

/-- Finding or creating a project keeps the index live and enters the name in the table. -/
theorem live_createProject (h : index.Live) {name : String}
    (hroom : ((createProject name).run index).2.HasRoom) :
    ((createProject name).run index).2.Live ∧ index.Widens ((createProject name).run index).2 ∧
      ((createProject name).run index).2.findItem none name .project =
        some ((createProject name).run index).1 ∧
      ((createProject name).run index).2.standing? = enrol index.standing? name false false := by
  have hsafe := (safe_createProject name).works h trivial hroom
  rw [Edit.run_lift] at hsafe
  obtain ⟨hlive, hext, id, hid, _, hfound⟩ := hsafe
  obtain rfl : ((createProject name).run index).1 = id := Except.ok.inj hid
  refine ⟨hlive, hext.widens, hfound, ?_⟩
  funext other
  have hrun : (createProject name).run index = intern none name .project index := rfl
  rw [hrun, intern]
  cases hfind : index.findItem none name .project with
  | some found =>
    dsimp only
    rw [enrol]
    split
    · rename_i heq
      subst heq
      obtain ⟨item, hget, _⟩ := h.sound.get?_of_findItem hfind
      rw [standing?_of_findItem hfind hget]
      simp
    · rfl
  | none =>
    dsimp only
    rw [standing?_insertItem h hfind, enrol]
    have hnone : index.standing? name = none := by rw [standing?, hfind]; rfl
    rw [hnone]
    rfl

end Index

/-! ## Projects with flags -/

namespace Item

theorem standing_setThirdParty (item : Item) :
    (item.setFlag .thirdParty true).standing = ⟨true, item.isPseudo⟩ := by
  simp [standing, isThirdParty, isPseudo, setFlag, set, Attributes.flag]

theorem standing_setPseudo (item : Item) :
    (item.setFlag .pseudo true).standing = ⟨item.isThirdParty, true⟩ := by
  simp [standing, isThirdParty, isPseudo, setFlag, set, Attributes.flag]

end Item

namespace Load

open Index Manifest

variable {index : Index}

/-- Finding or creating a project and changing its flags. -/
theorem live_flagProject (h : index.Live) {name : String} {f : Item → Item}
    (hf : Item.KeepsPlace f)
    (htargets : ∀ item target, target ∈ (f item).attributeIds → target ∈ item.attributeIds)
    {isThirdParty isPseudo : Bool}
    (hstanding : ∀ item, (f item).standing =
      ⟨item.isThirdParty || isThirdParty, item.isPseudo || isPseudo⟩)
    (hroom : ((createProject name).run index).2.HasRoom) :
    (((createProject name).run index).2.modify ((createProject name).run index).1 f).Live ∧
      index.Widens (((createProject name).run index).2.modify ((createProject name).run index).1 f) ∧
      (((createProject name).run index).2.modify ((createProject name).run index).1 f).findItem
        none name .project = some ((createProject name).run index).1 ∧
      (((createProject name).run index).2.modify ((createProject name).run index).1 f).standing? =
        enrol index.standing? name isThirdParty isPseudo := by
  obtain ⟨hlive, hwidens, hfind, htable⟩ := live_createProject h hroom
  obtain ⟨item, hget, _⟩ := hlive.sound.get?_of_findItem hfind
  refine ⟨hlive.modify hf _ (fun item target _ htarget => Or.inl (htargets item target htarget)),
    hwidens.trans (widens_modify hf _), by rw [findItem_modify, hfind], ?_⟩
  funext other
  rw [standing?_modify hlive.sound hfind hget, htable]
  have hname : enrol index.standing? name false false name = some item.standing := by
    rw [← htable, standing?_of_findItem hfind hget]
  by_cases hother : other = name
  · subst hother
    rw [if_pos rfl, hstanding]
    simp only [enrol, if_true, Option.some.injEq, Item.standing, Standing.mk.injEq,
      Bool.or_false] at hname ⊢
    rw [hname.1, hname.2]
    exact ⟨rfl, rfl⟩
  · rw [if_neg hother]
    simp [enrol, hother]

theorem grown_createProject (name : String) (index : Index) :
    Grown index ((createProject name).run index).2 :=
  (safe_createProject name).grown index

theorem run_registerProject (name : String) (isThirdParty : Bool) (index : Index) :
    (registerProject name isThirdParty).run index =
      (((createProject name).run index).1,
        if isThirdParty then ((createProject name).run index).2.modify
          ((createProject name).run index).1 (fun item => item.setFlag .thirdParty true)
        else ((createProject name).run index).2) := by
  cases isThirdParty <;> rfl

theorem grown_registerProject (name : String) (isThirdParty : Bool) (index : Index) :
    Grown index ((registerProject name isThirdParty).run index).2 := by
  rw [run_registerProject]
  cases isThirdParty with
  | false => exact grown_createProject name index
  | true => exact (grown_createProject name index).trans (grown_modify _ _ _)

/-- Entering a project that may be flagged as third-party. -/
theorem live_registerProject (h : index.Live) {name : String} {isThirdParty : Bool}
    (hroom : ((registerProject name isThirdParty).run index).2.HasRoom) :
    ((registerProject name isThirdParty).run index).2.Live ∧
      index.Widens ((registerProject name isThirdParty).run index).2 ∧
      ((registerProject name isThirdParty).run index).2.findItem none name .project =
        some ((registerProject name isThirdParty).run index).1 ∧
      ((registerProject name isThirdParty).run index).2.standing? =
        enrol index.standing? name isThirdParty false := by
  rw [run_registerProject] at hroom ⊢
  cases isThirdParty with
  | false => exact live_createProject h hroom
  | true =>
    refine live_flagProject h (Item.keepsPlace_setFlag _ _) ?_ (fun item => ?_)
      ((grown_modify _ _ _).hasRoom hroom)
    · exact fun item target htarget => Item.mem_attributeIds_setFlag htarget
    · rw [Item.standing_setThirdParty, Bool.or_true, Bool.or_false]

/-! ## Dependencies between projects -/

/-- The table of standings after the directories among dependencies got pseudo projects. -/
def follow (standings : String → Option Standing) : List Dependency → String → Option Standing
  | [] => standings
  | .archive _ :: rest => follow standings rest
  | .directory name :: rest => follow (enrol standings name true true) rest

/-- Whether every archive among dependencies is the name of a known project.  A directory makes its
name known to those after it. -/
def allFound (known : String → Bool) : List Dependency → Bool
  | [] => true
  | .archive name :: rest => known name && allFound known rest
  | .directory name :: rest => allFound (fun other => other == name || known other) rest

/-- An archive among dependencies is not found when it is no known project and no directory of its name
stands before it. -/
theorem allFound_eq_false_iff {known : String → Bool} {dependencies : List Dependency} :
    allFound known dependencies = false ↔ ∃ before name after,
      dependencies = before ++ .archive name :: after ∧ .directory name ∉ before ∧
        known name = false := by
  induction dependencies generalizing known with
  | nil => simp [allFound]
  | cons first rest ih =>
    cases first with
    | archive first =>
      rw [allFound, Bool.and_eq_false_iff, ih]
      constructor
      · rintro (hunknown | ⟨before, name, after, rfl, hbefore, hunknown⟩)
        · exact ⟨[], first, rest, rfl, by simp, hunknown⟩
        · exact ⟨.archive first :: before, name, after, rfl, by simpa using hbefore, hunknown⟩
      · rintro ⟨before, name, after, hsplit, hbefore, hunknown⟩
        cases before with
        | nil =>
          obtain ⟨heq, rfl⟩ := List.cons.inj hsplit
          obtain rfl := Dependency.archive.inj heq
          exact Or.inl hunknown
        | cons head before =>
          obtain ⟨rfl, rfl⟩ := List.cons.inj hsplit
          exact Or.inr ⟨before, name, after, rfl, by simpa using hbefore, hunknown⟩
    | directory first =>
      rw [allFound, ih]
      constructor
      · rintro ⟨before, name, after, rfl, hbefore, hunknown⟩
        rw [Bool.or_eq_false_iff, beq_eq_false_iff_ne] at hunknown
        exact ⟨.directory first :: before, name, after, rfl, by simp [hbefore, hunknown.1],
          hunknown.2⟩
      · rintro ⟨before, name, after, hsplit, hbefore, hunknown⟩
        cases before with
        | nil => simp at hsplit
        | cons head before =>
          obtain ⟨rfl, rfl⟩ := List.cons.inj hsplit
          rw [List.mem_cons, not_or, Dependency.directory.injEq] at hbefore
          exact ⟨before, name, after, rfl, hbefore.2, by simp [hbefore.1, hunknown]⟩

theorem isSome_enrol (standings : String → Option Standing) (name : String)
    (isThirdParty isPseudo : Bool) :
    (fun other => (enrol standings name isThirdParty isPseudo other).isSome) =
      fun other => other == name || (standings other).isSome := by
  funext other
  by_cases hother : other = name
  · simp [enrol, hother]
  · simp [enrol, hother]

theorem grown_dependencyTarget (dependency : Dependency) (index : Index) :
    Grown index ((dependencyTarget dependency).run index).2 := by
  cases dependency with
  | archive name => exact Grown.refl index
  | directory name => exact (grown_createProject name index).trans (grown_modify _ _ _)

/-- What a dependency names, and what becomes of the index. -/
theorem live_dependencyTarget (h : index.Live) {dependency : Dependency}
    (hroom : ((dependencyTarget dependency).run index).2.HasRoom) :
    ((dependencyTarget dependency).run index).2.Live ∧
      index.Widens ((dependencyTarget dependency).run index).2 ∧
      ((dependencyTarget dependency).run index).2.standing? = follow index.standing? [dependency] ∧
      ((dependencyTarget dependency).run index).1.isSome =
        allFound (fun name => (index.standing? name).isSome) [dependency] := by
  cases dependency with
  | archive name =>
    refine ⟨h, (Extends.refl index).widens, rfl, ?_⟩
    rw [allFound, allFound, Bool.and_true, h.sound.isSome_standing?]
    rfl
  | directory name =>
    have hrun : (dependencyTarget (.directory name)).run index =
        (some ((createProject name).run index).1,
          ((createProject name).run index).2.modify ((createProject name).run index).1
            (fun item => (item.setFlag .thirdParty true).setFlag .pseudo true)) := rfl
    rw [hrun] at hroom ⊢
    have hplace : Item.KeepsPlace
        (fun item => (item.setFlag .thirdParty true).setFlag .pseudo true) :=
      fun item => ⟨rfl, rfl, rfl, rfl⟩
    have htargets : ∀ (item : Item) (target : ItemId),
        target ∈ ((item.setFlag .thirdParty true).setFlag .pseudo true).attributeIds →
          target ∈ item.attributeIds := fun item target htarget =>
      Item.mem_attributeIds_setFlag (Item.mem_attributeIds_setFlag htarget)
    have hstanding : ∀ item : Item, ((item.setFlag .thirdParty true).setFlag .pseudo true).standing =
        ⟨item.isThirdParty || true, item.isPseudo || true⟩ := by
      intro item
      have hthird : (item.setFlag .thirdParty true).isThirdParty = true :=
        congrArg Standing.isThirdParty (Item.standing_setThirdParty item)
      rw [Item.standing_setPseudo, Bool.or_true, Bool.or_true, hthird]
    obtain ⟨hlive, hwidens, _, htable⟩ := live_flagProject h hplace htargets hstanding
      ((grown_modify _ _ _).hasRoom hroom)
    exact ⟨hlive, hwidens, htable, rfl⟩

/-- One dependency after the other. -/
theorem follow_cons (standings : String → Option Standing) (first : Dependency)
    (rest : List Dependency) :
    follow standings (first :: rest) = follow (follow standings [first]) rest := by
  cases first <;> rfl

theorem allFound_cons (standings : String → Option Standing) (first : Dependency)
    (rest : List Dependency) :
    allFound (fun name => (standings name).isSome) (first :: rest) =
      (allFound (fun name => (standings name).isSome) [first] &&
        allFound (fun name => (follow standings [first] name).isSome) rest) := by
  cases first with
  | archive name => simp only [allFound, follow, Bool.and_true]
  | directory name => simp only [allFound, follow, isSome_enrol, Bool.true_and]

/-- Links a project to a dependency that was looked up. -/
def linkTarget (project : ItemId) (missing : Nat) (target : Option ItemId) : StateM Index Nat :=
  match target with
  | some target => do
    modify (fun index => (index.addDependency project target).2)
    return missing
  | none => return missing + 1

theorem fst_linkTarget (project : ItemId) (missing : Nat) (target : Option ItemId)
    (index : Index) : ((linkTarget project missing target).run index).1 =
      if target.isSome then missing else missing + 1 := by
  cases target <;> rfl

theorem grown_linkTarget (project : ItemId) (missing : Nat) (target : Option ItemId)
    (index : Index) : Grown index ((linkTarget project missing target).run index).2 := by
  cases target with
  | none => exact Grown.refl index
  | some target => exact grown_addDependency index project target

theorem live_linkTarget (h : index.Live) (project : ItemId) (missing : Nat)
    (target : Option ItemId) :
    ((linkTarget project missing target).run index).2.Live ∧
      index.Extends ((linkTarget project missing target).run index).2 ∧
      ((linkTarget project missing target).run index).2.standing? = index.standing? := by
  cases target with
  | none => exact ⟨h, Extends.refl index, rfl⟩
  | some target =>
    obtain ⟨hlive, hext⟩ := h.addDependency project target
    exact ⟨hlive, hext, funext (standing?_addDependency index project target)⟩

/-- The loop that links a project to its dependencies. -/
def linkFrom (project : ItemId) (missing : Nat) (dependencies : List Dependency) :
    StateM Index Nat :=
  dependencies.foldlM (fun missing dependency => do
    linkTarget project missing (← dependencyTarget dependency)) missing

theorem linkDependencies_eq (project : ItemId) (dependencies : List Dependency) :
    linkDependencies project dependencies = linkFrom project 0 dependencies := by
  rfl

theorem run_linkFrom_cons (project : ItemId) (missing : Nat) (first : Dependency)
    (rest : List Dependency) (index : Index) :
    (linkFrom project missing (first :: rest)).run index =
      (linkFrom project ((linkTarget project missing ((dependencyTarget first).run index).1).run
          ((dependencyTarget first).run index).2).1 rest).run
        ((linkTarget project missing ((dependencyTarget first).run index).1).run
          ((dependencyTarget first).run index).2).2 := by
  rw [linkFrom, List.foldlM_cons]
  rfl

theorem grown_linkFrom (project : ItemId) (missing : Nat) (dependencies : List Dependency)
    (index : Index) : Grown index ((linkFrom project missing dependencies).run index).2 := by
  induction dependencies generalizing missing index with
  | nil => exact Grown.refl index
  | cons first rest ih =>
    rw [run_linkFrom_cons]
    exact (grown_dependencyTarget first index).trans
      ((grown_linkTarget project missing _ _).trans (ih _ _))

/-- Linking a project to its dependencies: nothing is missing when all archives are known. -/
theorem live_linkFrom (h : index.Live) (project : ItemId) (missing : Nat)
    {dependencies : List Dependency}
    (hroom : ((linkFrom project missing dependencies).run index).2.HasRoom) :
    ((linkFrom project missing dependencies).run index).2.Live ∧
      index.Widens ((linkFrom project missing dependencies).run index).2 ∧
      ((linkFrom project missing dependencies).run index).2.standing? =
        follow index.standing? dependencies ∧
      missing ≤ ((linkFrom project missing dependencies).run index).1 ∧
      (((linkFrom project missing dependencies).run index).1 = missing ↔
        allFound (fun name => (index.standing? name).isSome) dependencies = true) := by
  induction dependencies generalizing missing index with
  | nil =>
    exact ⟨h, (Extends.refl index).widens, rfl, Nat.le_refl _, fun _ => rfl, fun _ => rfl⟩
  | cons first rest ih =>
    rw [run_linkFrom_cons] at hroom ⊢
    -- there is room after the dependency was looked up, since there is at the end
    have hroomLink := (grown_linkFrom project _ rest _).hasRoom hroom
    obtain ⟨hlive, hwidens, htable, hfound⟩ :=
      live_dependencyTarget h ((grown_linkTarget project missing _ _).hasRoom hroomLink)
    obtain ⟨hliveLink, hextLink, htableLink⟩ :=
      live_linkTarget hlive project missing ((dependencyTarget first).run index).1
    obtain ⟨hend, hwidensEnd, htableEnd, hle, hcount⟩ := ih hliveLink _ hroom
    rw [htableLink, htable] at htableEnd hcount
    refine ⟨hend, (hwidens.trans hextLink.widens).trans hwidensEnd, ?_, ?_, ?_⟩
    · rw [htableEnd, ← follow_cons]
    · refine Nat.le_trans ?_ hle
      rw [fst_linkTarget]
      split <;> omega
    · rw [allFound_cons, ← hfound, Bool.and_eq_true, ← hcount]
      rw [fst_linkTarget] at hle ⊢
      split at hle
      · rename_i hsome
        simp [hsome]
      · rename_i hnone
        simp only [hnone, Bool.false_eq_true, if_false, false_and, iff_false]
        omega

end Load

end CodeAtlas
