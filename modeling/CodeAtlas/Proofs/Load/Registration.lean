/-
# Declarations registered and looked up

The classes of a source file are entered along its syntax tree, each inside the class of the declaration
around it.  They are looked up by the names of the declarations around them, joined by dots, among all
packages of the file's package name, those of its project first.  The two agree: a declaration is looked
up to the class that was entered for it, also when other projects have packages of that name, and after
whatever else is entered into the index.
-/
import CodeAtlas.Proofs.Index.OuterClasses
import CodeAtlas.Proofs.Index.QualifiedNames
import CodeAtlas.Proofs.Load.Sealed

namespace CodeAtlas

open Source (Ast CompilationUnit)

namespace Index

variable {a b index : Index} {package cls : ItemId} {name : String} {around : Option ItemId}

/-! ## Classes of a unit's package -/

/-- A package belongs to the project that owns it. -/
theorem Coherent.projectOf_package (h : index.Coherent) {id : ItemId} {item : Item}
    (hget : index.get? id = some item) (hkind : item.kind = .package) :
    index.projectOf id = item.parent := by
  obtain ⟨owner, ownerItem, hparent, howner, hcontain⟩ := h.exists_parent hget (by rw [hkind]; decide)
  have hproject : ownerItem.kind = .project := by
    rw [hkind] at hcontain
    cases hown : ownerItem.kind <;> rw [hown] at hcontain <;> first | rfl | exact absurd hcontain (by decide)
  -- there is an item, so the walk may take a second step
  obtain ⟨steps, hsteps⟩ : ∃ steps, index.size = steps + 1 := by
    refine Nat.exists_eq_succ_of_ne_zero (fun hzero => ?_)
    have hmem := mem_ids_of_get? h.stacked hget
    rw [← length_ids, List.length_eq_zero_iff] at hzero
    rw [hzero] at hmem
    simp at hmem
  rw [projectOf, ownerOfKind, hsteps, ownerWithin, hget]
  simp [hkind, hparent, ownerWithin, howner, hproject]

/-- The class of a unit's package is that of the unit's project, if there is one. -/
theorem Keyed.classInPackage_eq (h : index.Keyed) {unit : CompilationUnit} {project : ItemId}
    (hpackage : index.Has package (some project) .package unit.package)
    (hcls : index.Has cls (some package) .class name) :
    TypeResolver.classInPackage ⟨unit, some project⟩ index name = some cls := by
  -- the packages of the project come first, and there is one of that name
  have hown : ∀ id ∈ (index.findByName .package unit.package).filter
      (fun id => index.projectOf id == some project), id = package := by
    intro id hid
    obtain ⟨hnamed, hproject⟩ := List.mem_filter.1 hid
    obtain ⟨item, hget, hkind, hname⟩ := h.coherent.mem_findByName_iff.1 hnamed
    rw [h.coherent.projectOf_package hget hkind, beq_iff_eq] at hproject
    exact h.eq_of_has (by decide) ⟨item, hget, hproject, hkind, hname⟩ hpackage
  have hmem : package ∈ (index.findByName .package unit.package).filter
      (fun id => index.projectOf id == some project) := by
    obtain ⟨item, hget, hparent, hkind, hname⟩ := hpackage
    refine List.mem_filter.2 ⟨h.coherent.mem_findByName_iff.2 ⟨item, hget, hkind, hname⟩, ?_⟩
    rw [h.coherent.projectOf_package hget hkind, hparent, beq_iff_eq]
  rw [TypeResolver.classInPackage, TypeResolver.unitPackages]
  dsimp only
  generalize (index.findByName .package unit.package).filter
    (fun id => index.projectOf id == some project) = own at hown hmem
  cases own with
  | nil => simp at hmem
  | cons first rest =>
    rw [hown first List.mem_cons_self, List.cons_append, List.findSome?_cons,
      (h.findItem_eq_some_iff (by decide)).2 hcls]

/-- The qualified name of a class of a package. -/
theorem qualifiedName_of_has {owner : Option ItemId} {packageName : String}
    (hpackage : index.Has package owner .package packageName)
    (hcls : index.Has cls (some package) .class name) :
    index.qualifiedName cls = some (inPackage packageName name) := by
  obtain ⟨item, hget, hparent, hkind, rfl⟩ := hcls
  obtain ⟨packageItem, hpackageGet, _, _, rfl⟩ := hpackage
  exact qualifiedNameWithin_class hget hkind hparent hpackageGet index.size

/-! ## Classes in their places -/

/-- A class stands in a package under a name: inside the class that its name tells, or inside none when
its name has no dot. -/
inductive Stands (index : Index) (package : ItemId) : String → Option ItemId → ItemId → Prop
  | top {name : String} {cls : ItemId} (hcls : index.Has cls (some package) .class name)
      (hname : Item.IsSimple name) (hnone : (index.get? cls).bind Item.outerClass = none) :
      Stands index package name none cls
  | inner {outerName simple : String} {outer cls : ItemId}
      (hcls : index.Has cls (some package) .class (outerName ++ "." ++ simple))
      (houter : index.Has outer (some package) .class outerName) (hsimple : Item.IsSimple simple)
      (hsome : (index.get? cls).bind Item.outerClass = some outer) :
      Stands index package (outerName ++ "." ++ simple) (some outer) cls

theorem Stands.has (h : index.Stands package name around cls) :
    index.Has cls (some package) .class name := by
  cases h with
  | top hcls _ _ => exact hcls
  | inner hcls _ _ _ => exact hcls

theorem Stands.outerClass_eq (h : index.Stands package name around cls) :
    (index.get? cls).bind Item.outerClass = around := by
  cases h with
  | top _ _ hnone => exact hnone
  | inner _ _ _ hsome => exact hsome

/-- A class stays in its place when classes are nested under simple names only. -/
theorem Stands.later (h : a.Stands package name around cls) (hnests : Nests Item.IsSimple a b) :
    b.Stands package name around cls := by
  have hlater : ∀ {item : Item}, b.get? cls = some item →
      item.outerClass = around ∨ ∃ outer, item.outerClass = some outer ∧
        b.NestedBy Item.IsSimple item outer :=
    fun hget => h.outerClass_eq ▸ hnests.outer hget
  have hhas := hnests.keeps.has h.has
  obtain ⟨item, hget, hparent, _, hname⟩ := hnests.keeps.has h.has
  have hbind : (b.get? cls).bind Item.outerClass = item.outerClass := by rw [hget, Option.bind_some]
  cases h with
  | top _ hsimple _ =>
    refine .top hhas hsimple (hbind.trans ((hlater hget).resolve_right ?_))
    rintro ⟨_, _, outerName, simple, _, _, hdotted⟩
    rw [← hname, hdotted] at hsimple
    exact Item.not_isSimple_dotted outerName simple hsimple
  | @inner outerName simple outer _ _ houter hsimple _ =>
    have houterLater := hnests.keeps.has houter
    refine .inner hhas houterLater hsimple (hbind.trans ?_)
    rcases hlater hget with hsame | ⟨other, hother, otherName, otherSimple, hotherHas, hplain, hdotted⟩
    · exact hsame
    · -- the name tells one class only
      obtain ⟨rfl, _⟩ := Item.dotted_inj hsimple hplain (hname.symm.trans hdotted)
      rw [hparent] at hotherHas
      rw [hother, hnests.eq_of_has (by decide) hotherHas houterLater]

end Index

namespace Load

open Index

variable {ast : Ast} {package cls : ItemId} {decls : List Nat} {known : List (Nat × ItemId)} {decl : Nat}
  {a b index : Index} {around : Option ItemId}

/-! ## Registered declarations -/

/-- The class around a declaration: that of the type declaration around it. -/
inductive StandsIn (ast : Ast) (known : List (Nat × ItemId)) (decl : Nat) : Option ItemId → Prop
  | top (h : ast.enclosingType decl = none) : StandsIn ast known decl none
  | inner {outer : Nat} {cls : ItemId} (h : ast.enclosingType decl = some outer)
      (hcls : (outer, cls) ∈ known) : StandsIn ast known decl (some cls)

theorem StandsIn.append (h : StandsIn ast known decl around) (more : List (Nat × ItemId)) :
    StandsIn ast (known ++ more) decl around := by
  cases h with
  | top h => exact .top h
  | inner h hcls => exact .inner h (List.mem_append_left _ hcls)

/-- Declarations with names have classes, and every class stands where the tree has its declaration. -/
structure Registered (ast : Ast) (package : ItemId) (decls : List Nat) (known : List (Nat × ItemId))
    (index : Index) : Prop where
  stands : ∀ {decl cls}, (decl, cls) ∈ known → ∃ name around, ast.nestedName decl = some name ∧
    StandsIn ast known decl around ∧ index.Stands package name around cls
  known : ∀ decl ∈ decls, ∀ name, ast.nestedName decl = some name → ∃ cls, (decl, cls) ∈ known

theorem registered_nil (ast : Ast) (package : ItemId) (index : Index) :
    Registered ast package [] [] index :=
  ⟨by simp, by simp⟩

theorem Registered.later (h : Registered ast package decls known a)
    (hnests : Nests Item.IsSimple a b) : Registered ast package decls known b := by
  refine ⟨fun hentry => ?_, h.known⟩
  obtain ⟨name, around, hname, hin, hstands⟩ := h.stands hentry
  exact ⟨name, around, hname, hin, hstands.later hnests⟩

/-- A declaration that gets no class has no nested name. -/
theorem Registered.skip (h : Registered ast package decls known index)
    (hnone : ast.nestedName decl = none) :
    Registered ast package (decls ++ [decl]) known index := by
  refine ⟨h.stands, fun other hother name hname => ?_⟩
  rcases List.mem_append.1 hother with hold | hnew
  · exact h.known other hold name hname
  · rw [List.mem_singleton.1 hnew, hnone] at hname
    exact absurd hname (by simp)

theorem Registered.push (h : Registered ast package decls known index) {name : String}
    (hname : ast.nestedName decl = some name) (hin : StandsIn ast known decl around)
    (hstands : index.Stands package name around cls) :
    Registered ast package (decls ++ [decl]) (known ++ [(decl, cls)]) index := by
  refine ⟨fun {other otherCls} hentry => ?_, fun other hother otherName hotherName => ?_⟩
  · rcases List.mem_append.1 hentry with hold | hnew
    · obtain ⟨otherName, otherAround, hother, hotherIn, hotherStands⟩ := h.stands hold
      exact ⟨otherName, otherAround, hother, hotherIn.append _, hotherStands⟩
    · obtain ⟨rfl, rfl⟩ := Prod.mk.inj (List.mem_singleton.1 hnew)
      exact ⟨name, around, hname, hin.append _, hstands⟩
  · rcases List.mem_append.1 hother with hold | hnew
    · obtain ⟨found, hfound⟩ := h.known other hold otherName hotherName
      exact ⟨found, List.mem_append_left _ hfound⟩
    · rw [List.mem_singleton.1 hnew]
      exact ⟨cls, List.mem_append_right _ (List.mem_singleton.2 rfl)⟩

/-! ## Entering a class -/

/-- A public class gets a flag, which changes nothing else. -/
theorem exists_run_publish (ast : Ast) (decl : Nat) (cls : ItemId) (known : List (Nat × ItemId))
    (index : Index) :
    ∃ after, (do
        if ast.hasModifier decl "public" then
          update cls (fun item => item.setFlag .projectVisible true)
        return known ++ [(decl, cls)] : Edit (List (Nat × ItemId))).run.run index =
          (.ok (known ++ [(decl, cls)]), after) ∧
      Continues index after ∧ (index.Keyed → Nests Item.IsSimple index after) := by
  cases ast.hasModifier decl "public" with
  | false => exact ⟨index, rfl, Continues.refl index, fun hindex => hindex.nests_self⟩
  | true =>
    exact ⟨_, rfl, continues_modify _ _ _, fun hindex =>
      hindex.nests_set cls (.flag .projectVisible true)
        (show AttrKey.projectVisible ≠ .outerClass by decide)⟩

section Step

variable (hindex : index.Keyed) (hordered : ast.IsOrdered)
  (h : Registered ast package decls known index)
include hindex hordered h

theorem exists_run_registerTop (htops : index.FreeTops) (hpackage : index.IsKind package .package)
    {simple : String} (hsimple : ast.nameOf decl = some simple) (hne : simple ≠ "")
    (hplain : Item.IsSimple simple) (henclosing : ast.enclosingType decl = none)
    (hroom : ((registerClass ast package known decl).run.run index).2.size < 2 ^ 32) :
    ∃ known' after, (registerClass ast package known decl).run.run index = (.ok known', after) ∧
      Nests Item.IsSimple index after ∧
      Registered ast package (decls ++ [decl]) known' after := by
  have htake : index.CanTake (some package) .class := hpackage.canTake rfl
  obtain ⟨after, hpublish, hcontinues, hflag⟩ := exists_run_publish ast decl
    (intern (some package) simple .class index).1 known (intern (some package) simple .class index).2
  have hrun : (registerClass ast package known decl).run.run index =
      (.ok (known ++ [(decl, (intern (some package) simple .class index).1)]), after) := by
    rw [registerClass, hsimple, henclosing]
    exact (Edit.run_bind_of_ok (run_createClass_of_canTake htake hne)).trans hpublish
  rw [hrun] at hroom
  obtain ⟨hmade, hcls⟩ := hindex.nests_intern Item.IsSimple (by decide) htake
    (Nat.lt_of_le_of_lt hcontinues.size_le hroom)
  have hstands : (intern (some package) simple .class index).2.Stands package simple none
      (intern (some package) simple .class index).1 := by
    obtain ⟨item, hget, hparent, hkind, hname⟩ := hcls
    refine .top ⟨item, hget, hparent, hkind, hname⟩ hplain ?_
    rw [hget, Option.bind_some]
    exact hmade.freeTops htops hget (hname ▸ hplain)
  have hnests := hflag hmade.toKeyed
  refine ⟨_, after, hrun, hmade.trans hnests, ?_⟩
  exact (h.later (hmade.trans hnests)).push (hordered.nestedName_of_top henclosing |>.trans hsimple)
    (.top henclosing) (hstands.later hnests)

theorem exists_run_registerInner {simple : String} (hsimple : ast.nameOf decl = some simple)
    (hplain : Item.IsSimple simple) {outer : Nat} {outerCls : ItemId}
    (henclosing : ast.enclosingType decl = some outer) (hlookup : known.lookup outer = some outerCls)
    (hroom : ((registerClass ast package known decl).run.run index).2.size < 2 ^ 32) :
    ∃ known' after, (registerClass ast package known decl).run.run index = (.ok known', after) ∧
      Nests Item.IsSimple index after ∧
      Registered ast package (decls ++ [decl]) known' after := by
  have hmem : (outer, outerCls) ∈ known := by
    obtain ⟨before, rest, rfl, _⟩ := List.lookup_eq_some_iff.1 hlookup
    exact List.mem_append_right _ List.mem_cons_self
  obtain ⟨outerName, _, houterName, _, houterStands⟩ := h.stands hmem
  have houter := houterStands.has
  have htake := hindex.coherent.exists_owner houter
  rcases hmade : intern (some package) (outerName ++ "." ++ simple) .class index with ⟨inner, made⟩
  obtain ⟨after, hpublish, hcontinues, hflag⟩ := exists_run_publish ast decl inner known
    (made.nest outerCls inner)
  have hrun : (registerClass ast package known decl).run.run index =
      (.ok (known ++ [(decl, inner)]), after) := by
    have hcreate := run_createInnerClass_of_has houter htake simple
    rw [hmade] at hcreate
    rw [registerClass, hsimple, henclosing]
    dsimp only
    rw [hlookup]
    exact (Edit.run_bind_of_ok hcreate).trans hpublish
  rw [hrun] at hroom
  have hless : made.size < 2 ^ 32 := Nat.lt_of_le_of_lt
    (((continues_modify _ _ _).trans (continues_modify _ _ _)).trans hcontinues).size_le hroom
  obtain ⟨hinterned, hinner⟩ := hindex.nests_intern Item.IsSimple (by decide) htake
    (show (intern (some package) (outerName ++ "." ++ simple) .class index).2.size < 2 ^ 32 by
      rwa [hmade])
  rw [hmade] at hinterned hinner
  have houterMade := hinterned.keeps.has houter
  have hnested : Nests Item.IsSimple made (made.nest outerCls inner) :=
    hinterned.nests_nest hinner houterMade hplain
  have hstands : (made.nest outerCls inner).Stands package (outerName ++ "." ++ simple)
      (some outerCls) inner := by
    refine .inner (hnested.keeps.has hinner) (hnested.keeps.has houterMade) hplain ?_
    obtain ⟨item, hget, _⟩ := hinner
    rw [get?_nest, hget, Option.map_some, Option.bind_some, outerClass_nestItem, if_pos rfl]
  have hnests := hflag hnested.toKeyed
  have hall := (hinterned.trans hnested).trans hnests
  refine ⟨_, after, hrun, hall, ?_⟩
  refine (h.later hall).push ?_ (.inner henclosing hmem) (hstands.later hnests)
  rw [hordered.nestedName_of_inner henclosing, houterName, hsimple]
  rfl

/-- Entering the class of one declaration, when those of smaller numbers have been entered. -/
theorem exists_run_registerClass (htops : index.FreeTops) (hpackage : index.IsKind package .package)
    (hnamed : ∀ name, ast.nameOf decl = some name → name ≠ "" ∧ Item.IsSimple name)
    (hsmaller : ∀ outer < decl, (ast.kind outer).isTypeDeclaration = true → outer ∈ decls)
    (hroom : ((registerClass ast package known decl).run.run index).2.size < 2 ^ 32) :
    ∃ known' after, (registerClass ast package known decl).run.run index = (.ok known', after) ∧
      Nests Item.IsSimple index after ∧
      Registered ast package (decls ++ [decl]) known' after := by
  cases hsimple : ast.nameOf decl with
  | none =>
    have hrun : (registerClass ast package known decl).run.run index = (.ok known, index) := by
      rw [registerClass, hsimple]
      rfl
    refine ⟨known, index, hrun, hindex.nests_self, h.skip ?_⟩
    cases henclosing : ast.enclosingType decl with
    | none => rw [hordered.nestedName_of_top henclosing, hsimple]
    | some outer =>
      rw [hordered.nestedName_of_inner henclosing, hsimple]
      cases ast.nestedName outer <;> rfl
  | some simple =>
    obtain ⟨hne, hplain⟩ := hnamed simple hsimple
    cases henclosing : ast.enclosingType decl with
    | none =>
      exact exists_run_registerTop hindex hordered h htops hpackage hsimple hne hplain henclosing hroom
    | some outer =>
      cases hlookup : known.lookup outer with
      | some outerCls =>
        exact exists_run_registerInner hindex hordered h hsimple hplain henclosing hlookup hroom
      | none =>
        have hrun : (registerClass ast package known decl).run.run index = (.ok known, index) := by
          rw [registerClass, hsimple, henclosing]
          dsimp only
          rw [hlookup]
          rfl
        refine ⟨known, index, hrun, hindex.nests_self, h.skip ?_⟩
        -- the declaration around it has no class, so it has no nested name
        rw [hordered.nestedName_of_inner henclosing]
        cases hnested : ast.nestedName outer with
        | none => rfl
        | some name =>
          have houter : outer ∈ decls := by
            rcases hordered.outerTypes_eq decl with ⟨hnone, _⟩ | ⟨other, hlt, hkind, hsome, _⟩
            · rw [henclosing] at hnone
              exact absurd hnone (by simp)
            · obtain rfl : outer = other := Option.some.inj (henclosing.symm.trans hsome)
              exact hsmaller outer hlt hkind
          obtain ⟨found, hfound⟩ := h.known outer houter name hnested
          exact absurd hfound (fun hmem => by simpa using List.lookup_eq_none_iff.1 hlookup _ hmem)

end Step

/-! ## Entering all classes of a unit -/

/-- The declared names are simple, as those of a file without errors are. -/
def DeclaresPlainly (unit : CompilationUnit) : Prop :=
  ∀ decl ∈ unit.typeDeclarations, ∀ name, unit.ast.nameOf decl = some name →
    name ≠ "" ∧ Item.IsSimple name

theorem exists_run_registerClasses {unit : CompilationUnit} (hindex : index.Keyed)
    (htops : index.FreeTops) (hpackage : index.IsKind package .package)
    (hordered : unit.ast.IsOrdered) (hnamed : DeclaresPlainly unit)
    (hroom : ((registerClasses unit package).run.run index).2.size < 2 ^ 32) :
    ∃ classes registered, (registerClasses unit package).run.run index = (.ok classes, registered) ∧
      Nests Item.IsSimple index registered ∧
      Registered unit.ast package unit.typeDeclarations classes registered := by
  -- along the loop, the declarations that were entered are those of smaller numbers
  have hloop : ∀ (ids done : List Nat) (known : List (Nat × ItemId)) (current : Index),
      done ++ ids = unit.typeDeclarations → Nests Item.IsSimple index current →
      Registered unit.ast package done known current →
      ((ids.foldlM (registerClass unit.ast package) known).run.run current).2.size < 2 ^ 32 →
      ∃ classes registered,
        (ids.foldlM (registerClass unit.ast package) known).run.run current =
          (.ok classes, registered) ∧
        Nests Item.IsSimple index registered ∧
        Registered unit.ast package unit.typeDeclarations classes registered := by
    intro ids
    induction ids with
    | nil =>
      intro done known current hdone hnests hknown _
      rw [List.append_nil] at hdone
      exact ⟨known, current, rfl, hnests, hdone ▸ hknown⟩
    | cons decl rest ih =>
      intro done known current hdone hnests hknown hless
      obtain ⟨_, hsmaller⟩ := typeDeclarations_before hdone
      have hdecl : decl ∈ unit.typeDeclarations :=
        hdone ▸ List.mem_append_right _ List.mem_cons_self
      have hcontinuing : ∀ known, (rest.foldlM (registerClass unit.ast package) known).Continuing :=
        fun known => (Sealing.foldlM lasting_true rest (sealing_registerClass unit.ast package)
          known).continues
      rw [List.foldlM_cons] at hless ⊢
      obtain ⟨known', after, hrun, hstep, hregistered⟩ := exists_run_registerClass hnests.toKeyed
        hordered hknown (hnests.freeTops htops) (hnests.keeps.isKind hpackage) (hnamed decl hdecl)
        hsmaller (Nat.lt_of_le_of_lt
          (Edit.Continuing.continues_bind hcontinuing _ current).size_le hless)
      rw [Edit.run_bind_of_ok hrun] at hless ⊢
      exact ih (done ++ [decl]) known' after (by rw [List.append_assoc]; exact hdone)
        (hnests.trans hstep) hregistered hless
  exact hloop unit.typeDeclarations [] [] index rfl hindex.nests_self (registered_nil _ _ _) hroom

/-! ## Registration and lookup -/

/-- The class that is recorded for a declaration is the one that lookup gives for it.  It has the
qualified name of the declaration and stands in the class of the declaration around it. -/
structure Agrees (unit : CompilationUnit) (project : ItemId) (classes : List (Nat × ItemId))
    (index : Index) : Prop where
  found : ∀ {decl cls}, (decl, cls) ∈ classes →
    TypeResolver.classOfDecl ⟨unit, some project⟩ index decl = some cls
  qualified : ∀ {decl cls}, (decl, cls) ∈ classes → ∃ name, unit.ast.nestedName decl = some name ∧
    index.qualifiedName cls = some (inPackage unit.package name)
  standsIn : ∀ {decl cls}, (decl, cls) ∈ classes →
    StandsIn unit.ast classes decl ((index.get? cls).bind Item.outerClass)

theorem Registered.agrees {unit : CompilationUnit} {project : ItemId} {classes : List (Nat × ItemId)}
    (h : Registered unit.ast package decls classes index) (hindex : index.Keyed)
    (hpackage : index.Has package (some project) .package unit.package) :
    Agrees unit project classes index := by
  refine ⟨fun hentry => ?_, fun hentry => ?_, fun hentry => ?_⟩ <;>
    obtain ⟨name, around, hname, hin, hstands⟩ := h.stands hentry
  · rw [TypeResolver.classOfDecl, hname]
    exact hindex.classInPackage_eq hpackage hstands.has
  · exact ⟨name, hname, qualifiedName_of_has hpackage hstands.has⟩
  · rwa [hstands.outerClass_eq]

/-- Every declaration with a name is entered, and is looked up to its class from then on, whatever other
projects hold and however the index grows, as long as classes are nested under simple names. -/
theorem registered_classes_found {unit : CompilationUnit} (hordered : unit.ast.IsOrdered)
    (hnamed : DeclaresPlainly unit) {index : Index} (hindex : index.NestedReachable)
    {project package : ItemId} (hpackage : index.Has package (some project) .package unit.package)
    (hroom : ((registerClasses unit package).run.run index).2.size < 2 ^ 32) :
    ∃ classes registered, (registerClasses unit package).run.run index = (.ok classes, registered) ∧
      (∀ decl ∈ unit.typeDeclarations, (unit.ast.nestedName decl).isSome →
        ∃ cls, (decl, cls) ∈ classes) ∧
      ∀ later, Relation.ReflTransGen (NestingStep Item.IsSimple) registered later →
        later.size < 2 ^ 32 → Agrees unit project classes later := by
  have hcontinues := (sealing_registerClasses unit package).continues index
  obtain ⟨hkeyed, htops⟩ := hindex.keyed (Nat.lt_of_le_of_lt hcontinues.size_le hroom)
  obtain ⟨classes, registered, hrun, hnests, hregistered⟩ := exists_run_registerClasses hkeyed htops
    hpackage.isKind hordered hnamed hroom
  refine ⟨classes, registered, hrun, fun decl hdecl hsome => ?_, fun later hsteps hless => ?_⟩
  · obtain ⟨name, hname⟩ := Option.isSome_iff_exists.1 hsome
    exact hregistered.known decl hdecl name hname
  · have hlater := nests_of_steps hsteps hnests.toKeyed hless
    exact (hregistered.later hlater).agrees hlater.toKeyed
      (hlater.keeps.has (hnests.keeps.has hpackage))

/-- A class with one class inside it and another in an anonymous body. -/
def anonymousUnit : CompilationUnit :=
  .parse "A.java" ("package p; class A \x7b Object o = new Object() \x7b class L \x7b\x7d \x7d; " ++
      "class B \x7b\x7d \x7d")
    ⟨.node "program" none 0 73 [
      .node "package_declaration" none 0 10 [.node "identifier" none 8 9 []],
      .node "class_declaration" none 11 73
        [.node "identifier" (some "name") 17 18 [], .node "class_body" (some "body") 19 73
          [.node "field_declaration" none 21 60 [.node "type_identifier" (some "type") 21 27 [],
            .node "variable_declarator" (some "declarator") 28 59
              [.node "identifier" (some "name") 28 29 [],
              .node "object_creation_expression" (some "value") 32 59
                [.node "type_identifier" (some "type") 36 42 [],
                .node "argument_list" (some "arguments") 42 44 [],
                .node "class_body" none 45 59 [.node "class_declaration" none 47 57
                  [.node "identifier" (some "name") 53 54 [],
                  .node "class_body" (some "body") 55 57 []]]]]],
          .node "class_declaration" none 61 71
            [.node "identifier" (some "name") 67 68 [], .node "class_body" (some "body") 69 71 []]]]],
      false⟩

/-- A project with a class of that name, and another with a package of the same name. -/
def twoPackages : Index :=
  [Operation.project "lib", .package ⟨0, 1⟩ "p", .class ⟨1, 1⟩ "A", .project "app",
    .package ⟨3, 1⟩ "p"].foldl (fun index operation => (operation.run index).2) (empty 1)

theorem nestedReachable_twoPackages : twoPackages.NestedReachable :=
  ⟨1, steps_foldl _ (by decide) _⟩

/-- The second project with the classes of that file. -/
def enteredPackages : Except GraphError (List (Nat × ItemId)) × Index :=
  (registerClasses anonymousUnit ⟨4, 1⟩).run.run twoPackages

/-- The declarations are found in their own project, also once the class of the other project has a class
of the same name inside it. -/
theorem registered_classes_found_twoPackages :
    enteredPackages.1.toOption = some [(3, ⟨5, 1⟩), (11, ⟨6, 1⟩), (13, ⟨7, 1⟩)] ∧
      anonymousUnit.ast.nestedName 11 = some "A.L" ∧
      Agrees anonymousUnit ⟨3, 1⟩ [(3, ⟨5, 1⟩), (11, ⟨6, 1⟩), (13, ⟨7, 1⟩)]
        ((Operation.innerClass ⟨2, 1⟩ "B").run enteredPackages.2).2 := by
  obtain ⟨hnames, hpackage, hname⟩ :
      (∀ decl ∈ anonymousUnit.typeDeclarations, (anonymousUnit.ast.nameOf decl).all
        (fun name => name ≠ "" ∧ Item.IsSimple name) = true) ∧
      twoPackages.bears ⟨some ⟨3, 1⟩, .package, anonymousUnit.package⟩ ⟨4, 1⟩ = true ∧
      anonymousUnit.ast.nestedName 11 = some "A.L" := by
    decide +kernel
  obtain ⟨hclasses, hsize, hlaterSize⟩ :
      enteredPackages.1.toOption = some [(3, ⟨5, 1⟩), (11, ⟨6, 1⟩), (13, ⟨7, 1⟩)] ∧
      enteredPackages.2.size = 8 ∧
      ((Operation.innerClass ⟨2, 1⟩ "B").run enteredPackages.2).2.size = 9 := by
    decide +kernel
  have hnamed : DeclaresPlainly anonymousUnit := by
    intro decl hdecl name hname
    have hall := hnames decl hdecl
    rw [hname] at hall
    simpa using hall
  have hroom : ((registerClasses anonymousUnit ⟨4, 1⟩).run.run twoPackages).2.size < 2 ^ 32 := by
    rw [← enteredPackages, hsize]
    decide
  obtain ⟨classes, registered, hrun, -, hlater⟩ := registered_classes_found
    (Ast.isOrdered_lower _ _) hnamed nestedReachable_twoPackages (has_iff_bears.2 hpackage) hroom
  rw [← enteredPackages] at hrun
  rw [hrun] at hclasses hlaterSize ⊢
  obtain rfl := Option.some.inj hclasses
  refine ⟨hclasses, hname, hlater _ (steps_foldl [.innerClass ⟨2, 1⟩ "B"] (by decide) registered) ?_⟩
  rw [hlaterSize]
  decide

end Load

end CodeAtlas
