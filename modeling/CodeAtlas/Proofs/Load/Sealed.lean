/-
# Loaded indices are in order

Every change that a loading task makes keeps an index sealed: it records only items that it found in
the index or just made there.  So does a whole run of loading tasks, whatever it loads and however it
ends.
-/
import CodeAtlas.Proofs.Index.Sealing
import CodeAtlas.Proofs.Load.Boards

namespace CodeAtlas

open Index Source

/-! ## Types -/

theorem TypeResolver.sealing_materializeType (types : TypeResolver) (use : TypeUse) :
    Sealing (fun _ => True) (types.materializeType use) (fun id index => index.contains id) := by
  rw [materializeType]
  split
  · exact sealing_createWildcard
  · rename_i name dims _
    split
    · exact (sealing_createPrimitive name).andThen (fun base => sealing_createArrayClass base _)
    · refine Sealing.get_bind (fun current => ?_)
      split
      · rename_i found hname
        rw [pure_bind]
        refine (sealing_createArrayClass found _).weaken ?_ (fun hpost => hpost)
        rintro index horderly ⟨rfl, _⟩
        exact (isKind_of_resolveName horderly.coherent.findsClasses hname).contains
      all_goals exact sealing_createWildcard.andThen (fun base => sealing_createArrayClass base _)

namespace Load

variable {pre : Index → Prop} {index : Index}

/-! ## Source files -/

theorem sealing_registerPackage (project : ItemId) (name : String) :
    Sealing pre (registerPackage project name) (fun _ _ => True) :=
  Sealing.get_bind (fun _ => (sealing_createPackage project name).andThen
    (fun _ => Sealing.pure _ (fun _ _ => trivial)))

theorem sealing_registerClass (ast : Ast) (package : ItemId) (known : List (Nat × ItemId))
    (decl : Nat) :
    Sealing (fun _ => True) (registerClass ast package known decl) (fun _ _ => True) := by
  have hpublic : ∀ cls, Sealing (fun _ => True) (do
      if ast.hasModifier decl "public" then
        Index.update cls (fun item => item.setFlag .projectVisible true)
      return known ++ [(decl, cls)]) (fun _ _ => True) := by
    intro cls
    split
    · exact (Sealing.updateFlags [(.projectVisible, true)] (fun _ => rfl)).andThen
        (fun _ => Sealing.pure _ (fun _ _ => trivial))
    · exact Sealing.pure _ (fun _ _ => trivial)
  rw [registerClass]
  cases ast.nameOf decl with
  | none => exact Sealing.pure known (fun _ _ => trivial)
  | some simple =>
    cases ast.enclosingType decl with
    | none => exact (sealing_createClass package simple).forget.andThen hpublic
    | some outer =>
      dsimp only
      cases known.lookup outer with
      | none => exact Sealing.pure known (fun _ _ => trivial)
      | some outerItem =>
        exact (sealing_createInnerClass outerItem simple).forget.andThen hpublic

theorem sealing_registerClasses (unit : CompilationUnit) (package : ItemId) :
    Sealing (fun _ => True) (registerClasses unit package) (fun _ _ => True) :=
  Sealing.foldlM lasting_true _ (sealing_registerClass unit.ast package) []

theorem setSupertypes_eq (superclass : Option ItemId) (interfaces : List ItemId) (item : Item) :
    setSupertypes superclass interfaces item = Setting.applyAll
      (superclass.toList.map (.one ⟨.superclass, rfl⟩) ++
        interfaces.map (.member ⟨.superinterfaces, rfl⟩)) item := by
  rw [Setting.applyAll, List.foldl_append, List.foldl_map]
  cases superclass <;> rw [List.foldl_map] <;> rfl

theorem continues_dependOn (source : ItemId) (targets : List ItemId) (index : Index) :
    Continues index (dependOn source targets index) := by
  induction targets generalizing index with
  | nil => exact Continues.refl index
  | cons first rest ih => exact (continues_addDependency index source first).trans (ih _)

theorem orderly_dependOn (h : index.Orderly) (source : ItemId) (targets : List ItemId) :
    (dependOn source targets index).Orderly := by
  induction targets generalizing index with
  | nil => exact h
  | cons first rest ih => exact ih (h.addDependency source first)

/-- Supertypes that are in the index, and dependencies on anything. -/
theorem orderly_setSupertypes (h : index.Orderly) (cls : ItemId) {superclass : Option ItemId}
    {interfaces : List ItemId} (hsuper : ∀ id ∈ superclass, index.contains id)
    (hinterfaces : ∀ id ∈ interfaces, index.contains id) (targets : List ItemId) :
    (dependOn cls targets (index.modify cls (setSupertypes superclass interfaces))).Orderly := by
  rw [show setSupertypes superclass interfaces = _ from
    funext (setSupertypes_eq superclass interfaces)]
  refine orderly_dependOn (h.modify cls _ (fun setting hsetting target htarget => ?_)) cls targets
  rcases List.mem_append.1 hsetting with hone | hmember
  · obtain ⟨id, hid, rfl⟩ := List.mem_map.1 hone
    obtain rfl := List.mem_singleton.1 htarget
    exact hsuper target (Option.mem_toList.1 hid)
  · obtain ⟨id, hid, rfl⟩ := List.mem_map.1 hmember
    obtain rfl := List.mem_singleton.1 htarget
    exact hinterfaces target hid

theorem continues_linkClass (index : Index) (cls : ItemId) (links : ClassLinks) :
    Continues index (linkClass index cls links) :=
  (continues_modify index cls _).trans (continues_dependOn cls _ _)

theorem continues_foldl_linkClass (links : List (ItemId × ClassLinks)) (index : Index) :
    Continues index (links.foldl (fun index (cls, links) => linkClass index cls links) index) := by
  induction links generalizing index with
  | nil => exact Continues.refl index
  | cons first rest ih => exact (continues_linkClass index first.1 first.2).trans (ih _)

/-- What a class is linked to is looked up in the index as it was; nothing is lost on the way. -/
theorem orderly_foldl_linkClass (h : index.Orderly) {links : List (ItemId × ClassLinks)}
    (hlinks : ∀ entry ∈ links, (∀ id ∈ entry.2.superclass, index.contains id) ∧
      ∀ id ∈ entry.2.interfaces, index.contains id) :
    (links.foldl (fun index (cls, links) => linkClass index cls links) index).Orderly := by
  induction links generalizing index with
  | nil => exact h
  | cons first rest ih =>
    obtain ⟨hsuper, hinterfaces⟩ := hlinks first List.mem_cons_self
    refine ih (orderly_setSupertypes h first.1 hsuper hinterfaces _) (fun entry hentry => ?_)
    have hkeeps := @(continues_linkClass index first.1 first.2).keeps
    obtain ⟨hsuper', hinterfaces'⟩ := hlinks entry (List.mem_cons_of_mem _ hentry)
    exact ⟨fun id hid => hkeeps (hsuper' id hid), fun id hid => hkeeps (hinterfaces' id hid)⟩

theorem contains_of_classLinks (h : index.Sealed) (types : TypeResolver) (imported : List ItemId)
    (decl : Nat) :
    (∀ id ∈ (classLinks types index imported decl).superclass, index.contains id) ∧
      ∀ id ∈ (classLinks types index imported decl).interfaces, index.contains id := by
  have hlookup : ∀ {nodes : List Nat} {id : ItemId},
      id ∈ (nodes.map (fun node => types.lookupType index ⟨node, 0⟩)).filterMap (fun id => id) →
      index.contains id := by
    intro nodes id hid
    obtain ⟨found, hfound, rfl⟩ := List.mem_filterMap.1 hid
    obtain ⟨node, _, hnode⟩ := List.mem_map.1 hfound
    exact (types.isKind_of_lookupType h.coherent.findsClasses hnode).contains
  exact ⟨fun id hid => hlookup (List.mem_of_getLast? hid), fun id hid => hlookup hid⟩

theorem sealing_linkClasses (types : TypeResolver) (classes : List (Nat × ItemId)) :
    Sealing pre (ExceptT.lift (linkClasses types classes)) (fun _ _ => True) := by
  refine Sealing.lift (fun index => continues_foldl_linkClass _ index) ?_
  intro index horderly _ _
  refine ⟨orderly_foldl_linkClass horderly (fun entry hentry => ?_), trivial⟩
  obtain ⟨⟨decl, cls⟩, _, rfl⟩ := List.mem_map.1 hentry
  exact contains_of_classLinks horderly.toSealed types _ decl

/-! ## Members -/

theorem sealing_declaredOrAny (types : TypeResolver) (decl : Nat) :
    Sealing (fun _ => True) (declaredOrAny types decl) (fun id index => index.contains id) := by
  rw [declaredOrAny]
  split
  · exact types.sealing_materializeType _
  · exact sealing_createWildcard

/-- A field of a type that is in the index, or of its own class. -/
theorem sealing_registerField (cls type : ItemId) (members : Members) (name : String) :
    Sealing (fun index => type = cls ∨ index.contains type) (registerField cls type members name)
      (fun _ _ => True) := by
  have hlasting : Lasting (fun index => type = cls ∨ index.contains type) :=
    fun _ _ hcontinues hor => hor.imp_right hcontinues.keeps
  refine (sealing_createField cls name).bind hlasting (fun field => ?_)
  refine (Sealing.update [.one ⟨.fieldType, rfl⟩ type] (fun _ => rfl) ?_).andThen
    (fun _ => Sealing.pure _ (fun _ _ => trivial))
  rintro index ⟨htype, hcls, _⟩ setting hsetting target htarget
  obtain rfl := List.mem_singleton.1 hsetting
  obtain rfl := List.mem_singleton.1 htarget
  exact htype.elim (fun heq => heq ▸ hcls) (fun hin => hin)

theorem sealing_registerComponent (types : TypeResolver) (cls : ItemId) (members : Members)
    (component : Nat) :
    Sealing (fun _ => True) (registerComponent types cls members component) (fun _ _ => True) := by
  rw [registerComponent]
  split
  · exact (types.sealing_materializeType _).andThen (fun type =>
      (sealing_registerField cls type members _).weaken (fun _ hin => Or.inr hin)
        (fun hpost => hpost))
  · exact Sealing.pure members (fun _ _ => trivial)

theorem setSignature_eq (returnType : Option ItemId) (thrown : List ItemId) (item : Item) :
    setSignature returnType thrown item = Setting.applyAll
      (returnType.toList.map (.one ⟨.returnType, rfl⟩) ++
        thrown.map (.member ⟨.thrownTypes, rfl⟩)) item := by
  rw [Setting.applyAll, List.foldl_append, List.foldl_map]
  cases returnType <;> rw [List.foldl_map] <;> rfl

/-- Entering a method whose signature is in the index. -/
theorem sealing_enterMethod (cls : ItemId) (name : String) (params : List ItemId)
    (returnType : Option ItemId) (thrown : List ItemId) (result : ItemId → Members) :
    Sealing (fun index => ((∀ param ∈ params, index.contains param) ∧
        ∀ type ∈ returnType.toList, index.contains type) ∧ ∀ type ∈ thrown, index.contains type)
      (do
        let method ← Index.createMethod cls name (some params)
        Index.update method (setSignature returnType thrown)
        return result method)
      (fun _ _ => True) := by
  have hlasting : ∀ ids : List ItemId, Lasting (fun index => ∀ id ∈ ids, index.contains id) :=
    Lasting.forall_mem lasting_contains
  refine (sealing_createMethod cls name (some params) (fun hall => hall.1.1)).bind
    (((hlasting _).and (hlasting _)).and (hlasting _)) (fun method => ?_)
  refine (Sealing.update _ (setSignature_eq returnType thrown) ?_).andThen
    (fun _ => Sealing.pure _ (fun _ _ => trivial))
  rintro index ⟨⟨⟨_, hreturn⟩, hthrown⟩, _⟩ setting hsetting target htarget
  rcases List.mem_append.1 hsetting with hone | hmember
  · obtain ⟨id, hid, rfl⟩ := List.mem_map.1 hone
    exact hreturn target (List.mem_singleton.1 htarget ▸ hid)
  · obtain ⟨id, hid, rfl⟩ := List.mem_map.1 hmember
    exact hthrown target (List.mem_singleton.1 htarget ▸ hid)

theorem sealing_registerMethod (types : TypeResolver) (cls : ItemId) (members : Members)
    (decl : Nat) (name : String) :
    Sealing (fun _ => True) (registerMethod types cls members decl name) (fun _ _ => True) := by
  have hlasting : ∀ ids : List ItemId, Lasting (fun index => ∀ id ∈ ids, index.contains id) :=
    Lasting.forall_mem lasting_contains
  -- the rest, once the parameters and the return type are there
  have hrest : ∀ (params : List ItemId) (returnType : Option ItemId),
      Sealing (fun index => (∀ param ∈ params, index.contains param) ∧
        ∀ type ∈ returnType.toList, index.contains type)
      (do
        let thrown ← ((types.unit.ast.childrenInRole decl .throws).filter
          (fun id => (types.unit.ast.kind id).isType)).mapM
            (fun id => types.materializeType ⟨id, 0⟩)
        let method ← Index.createMethod cls name (some params)
        Index.update method (setSignature returnType thrown)
        return { members with methods := members.methods ++ [(decl, method)] })
      (fun _ _ => True) := by
    intro params returnType
    refine (Sealing.mapM ((hlasting _).and (hlasting _)) lasting_contains _ (fun id => ?_)).bind
      ((hlasting _).and (hlasting _))
      (fun thrown => sealing_enterMethod cls name params returnType thrown _)
    exact (types.sealing_materializeType ⟨id, 0⟩).weaken (fun _ _ => trivial) (fun hpost => hpost)
  rw [registerMethod]
  refine (Sealing.mapM lasting_true lasting_contains _ (sealing_declaredOrAny types)).andThen
    (fun params => ?_)
  split
  · rename_i use _ _
    rw [map_eq_pure_bind, bind_assoc]
    refine ((types.sealing_materializeType use).weaken (fun _ _ => trivial)
      (fun hpost => hpost)).bind (hlasting params) (fun type => ?_)
    rw [pure_bind]
    exact (hrest params (some type)).weaken
      (fun _ hall => ⟨hall.1, by simpa using hall.2⟩) (fun hpost => hpost)
  · rw [pure_bind]
    exact (hrest params none).weaken (fun _ hall => ⟨hall, by simp⟩) (fun hpost => hpost)

theorem sealing_registerMember (types : TypeResolver) (cls : ItemId) (members : Members)
    (member : Nat) :
    Sealing (fun _ => True) (registerMember types cls members member) (fun _ _ => True) := by
  rw [registerMember]
  split
  · exact sealing_registerMethod types cls members member _
  · split
    · exact sealing_registerMethod types cls members member _
    · exact Sealing.pure members (fun _ _ => trivial)
  · refine (sealing_declaredOrAny types member).andThen (fun type => ?_)
    exact Sealing.foldlM (lasting_contains type) _ (fun members name =>
      (sealing_registerField cls type members name).weaken (fun _ hin => Or.inr hin)
        (fun hpost => hpost)) members
  · split
    · exact (sealing_registerField cls cls members _).weaken (fun _ _ => Or.inl rfl)
        (fun hpost => hpost)
    · exact Sealing.pure members (fun _ _ => trivial)
  · exact Sealing.pure members (fun _ _ => trivial)

theorem sealing_registerMembersOf (types : TypeResolver) (members : Members)
    (declared : Nat × ItemId) :
    Sealing (fun _ => True) (registerMembersOf types members declared) (fun _ _ => True) :=
  (Sealing.foldlM lasting_true _ (sealing_registerComponent types declared.2) members).andThen
    (fun members => Sealing.foldlM lasting_true _ (sealing_registerMember types declared.2) members)

theorem sealing_registerMembers (types : TypeResolver) (classes : List (Nat × ItemId)) :
    Sealing (fun _ => True) (registerMembers types classes) (fun _ _ => True) :=
  Sealing.foldlM lasting_true _ (sealing_registerMembersOf types) ⟨[], 0⟩

/-! ## Calls -/

theorem sealing_settleCalls (calls : List CallSite) (create : Bool) :
    Sealing (fun _ => True) (settleCalls calls create) (fun _ _ => True) := by
  refine Sealing.foldlM lasting_true _ (fun counts site => ?_) _
  refine (sealing_resolveOrCreate site create).andThen (fun target => ?_)
  split <;> exact Sealing.pure _ (fun _ _ => trivial)

theorem continues_addDependencies (edges : List (ItemId × ItemId)) (index : Index) :
    Continues index (edges.foldl
        (fun index (source, target) => (index.addDependency source target).2) index) ∧
      (index.Orderly → (edges.foldl
        (fun index (source, target) => (index.addDependency source target).2) index).Orderly) := by
  induction edges generalizing index with
  | nil => exact ⟨Continues.refl index, fun h => h⟩
  | cons first rest ih =>
    obtain ⟨hcontinues, horderly⟩ := ih (index.addDependency first.1 first.2).2
    exact ⟨(continues_addDependency index first.1 first.2).trans hcontinues,
      fun h => horderly (h.addDependency first.1 first.2)⟩

theorem sealing_linkCalls (ast : Ast) (methods classes : List (Nat × ItemId))
    (calls : List CallSite) :
    Sealing pre (ExceptT.lift (modify (linkCalls ast methods classes calls)))
      (fun _ _ => True) := by
  refine Sealing.lift (fun index => (continues_addDependencies _ index).1) ?_
  exact fun {index} horderly _ _ => ⟨(continues_addDependencies _ index).2 horderly, trivial⟩

/-! ## Class files -/

theorem sealing_registerBinaryClass (package : ItemId) (binary : BinaryClass) :
    Sealing (fun _ => True) (registerBinaryClass package binary) (fun _ _ => True) := by
  refine (sealing_createClass package _).forget.andThen (fun outer => ?_)
  refine (Sealing.foldlM lasting_true _
    (fun outer simple => (sealing_createInnerClass outer simple).forget) outer).andThen
      (fun cls => ?_)
  refine (Sealing.updateFlags ((.binary, true) ::
    if binary.isPublic then [(.projectVisible, true)] else []) (fun item => ?_)).andThen
      (fun _ => Sealing.pure _ (fun _ _ => trivial))
  cases binary.isPublic <;> rfl

theorem contains_of_classNamed (h : index.Sealed) {project : Option ItemId} {name : String}
    {id : ItemId} (hfound : classNamed index project name = some id) : index.contains id :=
  (isKind_of_classNamed h.coherent.findsClasses hfound).contains

theorem sealing_linkBinaryClass (project : Option ItemId) (cls : ItemId) (binary : BinaryClass) :
    Sealing pre (ExceptT.lift (linkBinaryClass project cls binary)) (fun _ _ => True) := by
  refine Sealing.lift (fun index => ?_) (fun {index} horderly _ _ => ⟨?_, trivial⟩)
  · exact (continues_modify index cls _).trans (continues_dependOn cls _ _)
  · refine orderly_setSupertypes horderly cls (fun id hid => ?_) (fun id hid => ?_) _
    · rw [Option.mem_def, Option.join_eq_some_iff] at hid
      obtain ⟨name, _, hname⟩ := Option.map_eq_some_iff.1 hid
      exact contains_of_classNamed horderly.toSealed hname
    · obtain ⟨found, hfound, rfl⟩ := List.mem_filterMap.1 hid
      obtain ⟨name, _, hname⟩ := List.mem_map.1 hfound
      exact contains_of_classNamed horderly.toSealed hname

theorem sealing_binaryType (project : Option ItemId) (type : TypeName) :
    Sealing pre (binaryType project type) (fun id index => index.contains id) := by
  rw [binaryType]
  split
  · exact (sealing_createPrimitive _).andThen (fun base => sealing_createArrayClass base _)
  · refine Sealing.get_bind (fun current => ?_)
    split
    · rename_i id hfound
      rw [pure_bind]
      refine (sealing_createArrayClass id _).weaken ?_ (fun hpost => hpost)
      rintro index horderly ⟨rfl, _⟩
      exact contains_of_classNamed horderly.toSealed hfound
    · exact sealing_createWildcard.andThen (fun base => sealing_createArrayClass base _)

theorem sealing_registerBinaryMethod (project : Option ItemId) (cls : ItemId)
    (method : BinaryMethod) :
    Sealing (fun _ => True) (registerBinaryMethod project cls method) (fun _ _ => True) := by
  have hlasting : ∀ ids : List ItemId, Lasting (fun index => ∀ id ∈ ids, index.contains id) :=
    Lasting.forall_mem lasting_contains
  have hrest : ∀ params returnType, Sealing (fun index =>
      (∀ param ∈ params, index.contains param) ∧ index.contains returnType)
      (do
        let id ← Index.createMethod cls method.name (some params)
        Index.update id (fun item => (item.setId .returnType returnType).setFlag .binary true))
      (fun _ _ => True) := by
    intro params returnType
    refine (sealing_createMethod cls method.name (some params) (fun hall => hall.1)).bind
      ((hlasting params).and (lasting_contains returnType)) (fun id => ?_)
    refine Sealing.update [.one ⟨.returnType, rfl⟩ returnType, .flag .binary true] (fun _ => rfl) ?_
    intro index hall
    simpa [Setting.targets] using hall.1.2
  rw [registerBinaryMethod]
  refine (Sealing.mapM lasting_true lasting_contains _ (sealing_binaryType project)).andThen
    (fun params => ?_)
  split
  · exact (sealing_binaryType project _).bind (hlasting params) (hrest params)
  · exact (sealing_createPrimitive _).bind (hlasting params) (hrest params)

theorem sealing_registerBinaryField (project : Option ItemId) (cls : ItemId) (field : BinaryField) :
    Sealing (fun _ => True) (registerBinaryField project cls field) (fun _ _ => True) := by
  refine (sealing_binaryType project field.type).andThen (fun type => ?_)
  refine (sealing_createField cls field.name).bind (lasting_contains type) (fun id => ?_)
  refine Sealing.update [.one ⟨.fieldType, rfl⟩ type, .flag .binary true] (fun _ => rfl) ?_
  intro index hall
  simpa [Setting.targets] using hall.1

theorem sealing_registerBinaryMembers (project : Option ItemId) (cls : ItemId)
    (binary : BinaryClass) :
    Sealing (fun _ => True) (registerBinaryMembers project cls binary) (fun _ _ => True) :=
  (Sealing.forM lasting_true _ (sealing_registerBinaryMethod project cls)).andThen
    (fun _ => Sealing.forM lasting_true _ (sealing_registerBinaryField project cls))

/-! ## Projects -/

theorem sealing_registerProject (name : String) (isThirdParty : Bool) :
    Sealing pre (ExceptT.lift (registerProject name isThirdParty)) (fun _ _ => True) := by
  rw [registerProject, lift_bind]
  refine (sealing_createProject name).forget.andThen (fun project => ?_)
  cases isThirdParty with
  | false => exact Sealing.pure project (fun _ _ => trivial)
  | true =>
    exact (Sealing.updateFlags [(.thirdParty, true)] (fun _ => rfl)).andThen
      (fun _ => Sealing.pure project (fun _ _ => trivial))

theorem sealing_dependencyTarget (dependency : Manifest.Dependency) :
    Sealing pre (ExceptT.lift (dependencyTarget dependency)) (fun _ _ => True) := by
  cases dependency with
  | archive name =>
    exact Sealing.get_bind (fun _ => Sealing.pure _ (fun _ _ => trivial))
  | directory name =>
    rw [dependencyTarget, lift_bind]
    refine (sealing_createProject name).forget.andThen (fun project => ?_)
    exact (Sealing.updateFlags [(.thirdParty, true), (.pseudo, true)] (fun _ => rfl)).andThen
      (fun _ => Sealing.pure _ (fun _ _ => trivial))

theorem sealing_linkTarget (project : ItemId) (missing : Nat) (target : Option ItemId) :
    Sealing pre (ExceptT.lift (linkTarget project missing target)) (fun _ _ => True) := by
  cases target with
  | none => exact Sealing.pure _ (fun _ _ => trivial)
  | some target =>
    exact Sealing.lift (fun index => continues_addDependency index project target)
      (fun horderly _ _ => ⟨horderly.addDependency project target, trivial⟩)

theorem sealing_linkFrom (project : ItemId) (missing : Nat)
    (dependencies : List Manifest.Dependency) :
    Sealing pre (ExceptT.lift (linkFrom project missing dependencies)) (fun _ _ => True) := by
  induction dependencies generalizing missing pre with
  | nil => exact Sealing.pure missing (fun _ _ => trivial)
  | cons first rest ih =>
    rw [linkFrom, List.foldlM_cons, lift_bind, lift_bind]
    exact ((sealing_dependencyTarget first).andThen (fun target =>
      sealing_linkTarget project missing target)).andThen (fun missing => ih missing)

/-! ## Tasks and runs -/

/-- Whatever a task does, a sealed index stays sealed. -/
theorem sealing_deed (setting : LoadSetting) (context : LoadContext) (task : LoadTask) :
    Sealing (fun _ => True) (deed setting context task) (fun _ _ => True) := by
  have hdone : ∀ (result : Deed),
      Sealing (fun _ => True) (pure result : Edit Deed) (fun _ _ => True) :=
    fun result => Sealing.pure result (fun _ _ => trivial)
  cases task <;> rw [deed]
  case discovery => split <;> exact hdone _
  case project =>
    split
    · exact hdone _
    · exact (sealing_registerProject _ _).andThen (fun _ => hdone _)
  case projectDependencies =>
    split
    · exact hdone _
    · exact (sealing_linkFrom _ 0 _).andThen (fun _ => hdone _)
  case archive =>
    split
    · exact hdone _
    · split
      · exact hdone _
      · exact (sealing_registerProject _ _).andThen (fun _ => hdone _)
  case archiveEntries gated =>
    split
    · split <;> exact hdone _
    · exact hdone _
  case sourceFile =>
    split
    · exact hdone _
    · split
      · exact (sealing_registerPackage _ _).andThen (fun _ => hdone _)
      · exact hdone _
  case classes =>
    split
    · exact (sealing_registerClasses _ _).andThen (fun _ => hdone _)
    · exact hdone _
  case classDependencies =>
    split
    · exact (sealing_linkClasses _ _).andThen (fun _ => hdone _)
    · exact hdone _
  case members =>
    split
    · exact (sealing_registerMembers _ _).andThen (fun _ => hdone _)
    · exact hdone _
  case pseudoMethods =>
    split
    · refine Sealing.get_bind (fun current => ?_)
      exact ((sealing_settleCalls _ _).weaken (fun _ _ => trivial) (fun hpost => hpost)).andThen
        (fun _ => hdone _)
    · exact hdone _
  case methodDependencies =>
    split
    · exact (sealing_linkCalls _ _ _ _).andThen (fun _ => hdone _)
    · exact hdone _
  case binaryPackage =>
    split
    · exact (sealing_registerPackage _ _).andThen (fun _ => hdone _)
    · exact hdone _
  case binaryClass =>
    split
    · exact (sealing_registerBinaryClass _ _).andThen (fun _ => hdone _)
    · exact hdone _
  case binaryClassDependencies =>
    split
    · exact (sealing_linkBinaryClass _ _ _).andThen (fun _ => hdone _)
    · exact hdone _
  case binaryMembers =>
    split
    · exact (sealing_registerBinaryMembers _ _ _).andThen (fun _ => hdone _)
    · exact hdone _

/-- A run of loading tasks loses no item and keeps the index orderly. -/
theorem isProgress_orderly (setting : LoadSetting) : setting.workflow.IsProgress
    (fun a b => Continues a.world.index b.world.index ∧
      (a.world.index.Orderly → b.world.index.size < 2 ^ 32 → b.world.index.Orderly)) where
  refl board := ⟨Continues.refl _, fun horderly _ => horderly⟩
  trans hab hbc := ⟨hab.1.trans hbc.1, fun horderly hroom =>
    hbc.2 (hab.2 horderly (Nat.lt_of_le_of_lt hbc.1.size_le hroom)) hroom⟩
  step pending board := by
    rcases index_execute setting pending board with heq | ⟨context, heq⟩
    · rw [heq]
      exact ⟨Continues.refl _, fun horderly _ => horderly⟩
    · rw [heq]
      have hdeed := sealing_deed setting context pending.task
      exact ⟨hdeed.continues _, fun horderly hroom => (hdeed.works horderly trivial hroom).1⟩

end Load

end CodeAtlas
