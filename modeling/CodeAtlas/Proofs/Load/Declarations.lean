/-
# Entering declarations is safe

What a source file declares can be entered whatever else is in the index, as long as its names are not
empty.  Every named type declaration gets a class of its nested name.
-/
import CodeAtlas.Load.Declarations
import CodeAtlas.Proofs.Resolve.Calls
import CodeAtlas.Proofs.Source.Lowering

namespace CodeAtlas

open Source (Ast CompilationUnit)

/-! ## Lists of attributes -/

namespace Item

theorem keepsPlace_foldl_pushNew (key : AttrKey) (ids : List ItemId) :
    KeepsPlace (fun item => ids.foldl (fun item id => item.pushNew key id) item) := by
  induction ids with
  | nil => exact fun _ => ⟨rfl, rfl, rfl, rfl⟩
  | cons first rest ih => exact fun item => ih (item.pushNew key first)

theorem mem_attributeIds_foldl_pushNew {key : AttrKey} {ids : List ItemId} {item : Item}
    {target : ItemId}
    (h : target ∈ (ids.foldl (fun item id => item.pushNew key id) item).attributeIds) :
    target ∈ item.attributeIds ∨ target ∈ ids := by
  induction ids generalizing item with
  | nil => exact Or.inl h
  | cons first rest ih =>
    rcases ih h with hmem | hmem
    · rcases mem_attributeIds_pushNew hmem with hold | rfl
      · exact Or.inl hold
      · exact Or.inr List.mem_cons_self
    · exact Or.inr (List.mem_cons_of_mem _ hmem)

end Item

/-! ## Links between items -/

namespace Index

variable {index : Index}

theorem grown_addDependency (index : Index) (source target : ItemId) :
    Grown index (index.addDependency source target).2 := by
  rw [addDependency]
  split
  · exact Grown.refl index
  · exact (grown_modify _ _ _).trans (grown_modify _ _ _)

/-- A dependency between any two items keeps what is known about the index. -/
theorem Live.addDependency (h : index.Live) (source target : ItemId) :
    (index.addDependency source target).2.Live ∧
      index.Extends (index.addDependency source target).2 := by
  rw [Index.addDependency]
  split
  · exact ⟨h, Extends.refl index⟩
  · have hfirst : (index.modify source
        (fun item => { item with dependencies := insertNew item.dependencies target })).Live :=
      h.modify (keepsPlace_dependencies (insertNew · target)) source (fun _ _ _ hmem => Or.inl hmem)
    refine ⟨hfirst.modify (keepsPlace_incoming (insertNew · source)) target
      (fun _ _ _ hmem => Or.inl hmem), ?_⟩
    refine (extends_modify (keepsPlace_dependencies (insertNew · target)) source ?_).trans
      (extends_modify (keepsPlace_incoming (insertNew · source)) target ?_)
    · exact fun _ _ _ => ⟨rfl, rfl⟩
    · exact fun _ _ _ => ⟨rfl, rfl⟩

/-! ## Loops of changes -/

theorem grown_foldl {α : Type} {step : Index → α → Index}
    (h : ∀ index value, Grown index (step index value)) (list : List α) (index : Index) :
    Grown index (list.foldl step index) := by
  induction list generalizing index with
  | nil => exact Grown.refl index
  | cons first rest ih => exact (h index first).trans (ih _)

theorem Live.foldl {α : Type} {step : Index → α → Index} {pre : Index → Prop} {list : List α}
    (hstable : Stable pre)
    (h : ∀ {index : Index}, index.Live → pre index → ∀ value ∈ list,
      (step index value).Live ∧ index.Extends (step index value))
    (hlive : index.Live) (hpre : pre index) :
    (list.foldl step index).Live ∧ index.Extends (list.foldl step index) := by
  induction list generalizing index with
  | nil => exact ⟨hlive, Extends.refl index⟩
  | cons first rest ih =>
    obtain ⟨hfirst, hext⟩ := h hlive hpre first List.mem_cons_self
    obtain ⟨hend, hext'⟩ := ih (fun hlive hpre value hvalue =>
      h hlive hpre value (List.mem_cons_of_mem _ hvalue)) hfirst (hstable _ _ hext hpre)
    exact ⟨hend, hext.trans hext'⟩

end Index

namespace Load

open Index

variable {index : Index}

theorem grown_dependOn (source : ItemId) (targets : List ItemId) (index : Index) :
    Grown index (dependOn source targets index) :=
  grown_foldl (fun index target => grown_addDependency index source target) targets index

theorem live_dependOn (h : index.Live) (source : ItemId) (targets : List ItemId) :
    (dependOn source targets index).Live ∧ index.Extends (dependOn source targets index) :=
  Live.foldl stable_true (fun hlive _ target _ => hlive.addDependency source target) h trivial

/-! ## Supertypes -/

theorem keepsPlace_setSupertypes (superclass : Option ItemId) (interfaces : List ItemId) :
    Item.KeepsPlace (setSupertypes superclass interfaces) := by
  intro item
  cases superclass with
  | none => exact Item.keepsPlace_foldl_pushNew .superinterfaces interfaces item
  | some id =>
    exact Item.keepsPlace_foldl_pushNew .superinterfaces interfaces (item.setId .superclass id)

theorem mem_attributeIds_setSupertypes {superclass : Option ItemId} {interfaces : List ItemId}
    {item : Item} {target : ItemId}
    (h : target ∈ (setSupertypes superclass interfaces item).attributeIds) :
    target ∈ item.attributeIds ∨ superclass = some target ∨ target ∈ interfaces := by
  rcases Item.mem_attributeIds_foldl_pushNew h with hmem | hmem
  · cases superclass with
    | none => exact Or.inl hmem
    | some id =>
      rcases Item.mem_attributeIds_setId hmem with hold | rfl
      · exact Or.inl hold
      · exact Or.inr (Or.inl rfl)
  · exact Or.inr (Or.inr hmem)

/-- Giving a class supertypes that are classes, and dependencies. -/
theorem live_setSupertypes (h : index.Live) {cls : ItemId} (hcls : index.IsKind cls .class)
    {superclass : Option ItemId} {interfaces : List ItemId}
    (hsuper : ∀ id, superclass = some id → index.IsKind id .class)
    (hinterfaces : ∀ id ∈ interfaces, index.IsKind id .class) (targets : List ItemId) :
    (dependOn cls targets (index.modify cls (setSupertypes superclass interfaces))).Live ∧
      index.Extends
        (dependOn cls targets (index.modify cls (setSupertypes superclass interfaces))) := by
  have hplace := keepsPlace_setSupertypes superclass interfaces
  have hlive : (index.modify cls (setSupertypes superclass interfaces)).Live := by
    refine h.modify hplace cls (fun item target _ htarget => ?_)
    rcases mem_attributeIds_setSupertypes htarget with hold | hnew | hnew
    · exact Or.inl hold
    · exact Or.inr (hsuper target hnew)
    · exact Or.inr (hinterfaces target hnew)
  have hext : index.Extends (index.modify cls (setSupertypes superclass interfaces)) := by
    refine extends_modify hplace cls (fun item hget hproject => ?_)
    obtain ⟨other, hother, hkind⟩ := hcls
    rw [hget] at hother
    obtain rfl := Option.some.inj hother
    exact absurd (hkind.symm.trans hproject) (by decide)
  obtain ⟨hend, hext'⟩ := live_dependOn hlive cls targets
  exact ⟨hend, hext.trans hext'⟩

theorem grown_linkClass (index : Index) (cls : ItemId) (links : ClassLinks) :
    Grown index (linkClass index cls links) :=
  (grown_modify _ _ _).trans (grown_dependOn _ _ _)

/-- Linking the classes of a unit. -/
theorem safe_linkClasses (types : TypeResolver) (classes : List (Nat × ItemId)) :
    Safe (fun index => ∀ entry ∈ classes, index.IsKind entry.2 .class)
      (ExceptT.lift (linkClasses types classes)) (fun _ _ => True) := by
  refine Safe.lift (fun index => ?_) ?_
  · exact grown_foldl (fun index (link : ItemId × ClassLinks) =>
      grown_linkClass index link.1 link.2) _ index
  · intro index hlive hclasses _
    -- the links were found in the index as it was, and classes stay classes
    have hlinks : ∀ link ∈ classes.map (fun entry =>
        (entry.2, classLinks types index (importedClasses types index) entry.1)),
        index.IsKind link.1 .class ∧
          (∀ id, link.2.superclass = some id → index.IsKind id .class) ∧
          ∀ id ∈ link.2.interfaces, index.IsKind id .class := by
      intro link hlink
      obtain ⟨⟨decl, cls⟩, hentry, rfl⟩ := List.mem_map.1 hlink
      refine ⟨hclasses _ hentry, fun id hid => ?_, fun id hid => ?_⟩
      · have hmem := List.mem_of_getLast? hid
        simp only [List.mem_filterMap, List.mem_map] at hmem
        obtain ⟨found, ⟨node, _, rfl⟩, hfound⟩ := hmem
        exact types.isKind_of_lookupType hlive.sound.findsClasses hfound
      · simp only [classLinks, List.mem_filterMap, List.mem_map] at hid
        obtain ⟨found, ⟨node, _, rfl⟩, hfound⟩ := hid
        exact types.isKind_of_lookupType hlive.sound.findsClasses hfound
    have hstable : Stable (fun later => index.Extends later) :=
      fun a b hext hbefore => hbefore.trans hext
    have hstep : ∀ {later : Index}, later.Live → index.Extends later →
        ∀ link ∈ classes.map (fun entry =>
          (entry.2, classLinks types index (importedClasses types index) entry.1)),
        (linkClass later link.1 link.2).Live ∧ later.Extends (linkClass later link.1 link.2) := by
      intro later hlater hbefore link hlink
      obtain ⟨hcls, hsuper, hinterfaces⟩ := hlinks link hlink
      exact live_setSupertypes hlater (hbefore.isKind hcls)
        (fun id hid => hbefore.isKind (hsuper id hid))
        (fun id hid => hbefore.isKind (hinterfaces id hid)) _
    obtain ⟨hend, hext⟩ := Live.foldl hstable hstep hlive (Extends.refl index)
    exact ⟨hend, hext, trivial⟩

/-! ## Packages and classes -/

/-- The declarations before one in the list of a unit's are those of smaller numbers. -/
theorem typeDeclarations_before {unit : CompilationUnit} {done rest : List Nat}
    {decl : Nat} (h : done ++ decl :: rest = unit.typeDeclarations) :
    decl ∉ done ∧
      ∀ outer < decl, (unit.ast.kind outer).isTypeDeclaration = true → outer ∈ done := by
  have hsorted : (done ++ decl :: rest).Pairwise (· < ·) :=
    h ▸ List.Pairwise.filter _ List.pairwise_lt_range
  obtain ⟨_, htail, hbefore⟩ := List.pairwise_append.1 hsorted
  obtain ⟨hrest, _⟩ := List.pairwise_cons.1 htail
  refine ⟨fun hmem => Nat.lt_irrefl _ (hbefore decl hmem decl List.mem_cons_self), ?_⟩
  intro outer hlt hkind
  have hdecl : decl ∈ unit.typeDeclarations := h ▸ List.mem_append_right _ List.mem_cons_self
  have hsize : outer ∈ unit.ast.ids :=
    List.mem_range.2 (Nat.lt_trans hlt (List.mem_range.1 (List.mem_filter.1 hdecl).1))
  have hmem : outer ∈ unit.typeDeclarations := List.mem_filter.2 ⟨hsize, hkind⟩
  rw [← h, List.mem_append, List.mem_cons] at hmem
  rcases hmem with hmem | rfl | hmem
  · exact hmem
  · exact absurd hlt (Nat.lt_irrefl _)
  · exact absurd (hrest outer hmem) (Nat.lt_asymm hlt)

theorem safe_registerPackage (project : ItemId) (name : String) :
    Safe (fun index => index.IsKind project .project) (registerPackage project name)
      (fun result index => index.Has result.1 (some project) .package name) := by
  refine Safe.get_bind (fun current => ?_)
  refine ((safe_createPackage project name).weaken (fun _ hall => hall.2)
    (fun _ hpost => hpost.1)).andThen (fun package => ?_)
  exact Safe.pure _ (fun _ hpackage => hpackage)

/-- A unit whose nodes are numbered in pre-order and whose names are not empty. -/
structure IsRegular (unit : CompilationUnit) : Prop where
  ordered : unit.ast.IsOrdered
  named : ∀ {id : Nat} {name : String}, unit.ast.nameOf id = some name → name ≠ ""

/-- The named declarations of a list have classes of their nested names in a package. -/
structure Entered (ast : Ast) (package : ItemId) (decls : List Nat) (known : List (Nat × ItemId))
    (index : Index) : Prop where
  declared : ∀ entry ∈ known, entry.1 ∈ decls
  classes : ∀ entry ∈ known, index.IsKind entry.2 .class
  named : ∀ decl ∈ decls, ∀ name, ast.nestedName decl = some name →
    ∃ cls, known.lookup decl = some cls ∧ index.Has cls (some package) .class name

theorem stable_entered (ast : Ast) (package : ItemId) (decls : List Nat)
    (known : List (Nat × ItemId)) : Stable (Entered ast package decls known) := by
  intro a b hext h
  refine ⟨h.declared, fun entry hentry => hext.isKind (h.classes entry hentry), ?_⟩
  intro decl hdecl name hname
  obtain ⟨cls, hlookup, hhas⟩ := h.named decl hdecl name hname
  exact ⟨cls, hlookup, stable_has _ _ _ _ a b hext hhas⟩

section Entered

variable {ast : Ast} {package : ItemId} {decls : List Nat} {known : List (Nat × ItemId)}

theorem entered_nil (ast : Ast) (package : ItemId) (index : Index) :
    Entered ast package [] [] index :=
  ⟨by simp, by simp, by simp⟩

/-- A declaration that gets no class has no nested name. -/
theorem Entered.skip (h : Entered ast package decls known index) {decl : Nat}
    (hnone : ast.nestedName decl = none) : Entered ast package (decls ++ [decl]) known index := by
  refine ⟨fun entry hentry => List.mem_append_left _ (h.declared entry hentry), h.classes, ?_⟩
  intro other hother name hname
  rcases List.mem_append.1 hother with hold | hnew
  · exact h.named other hold name hname
  · rw [List.mem_singleton.1 hnew, hnone] at hname
    simp at hname

theorem Entered.lookup_eq_none (h : Entered ast package decls known index) {decl : Nat}
    (hdecl : decl ∉ decls) : known.lookup decl = none := by
  rw [List.lookup_eq_none_iff]
  intro entry hentry
  have hne : decl ≠ entry.1 := by
    rintro rfl
    exact hdecl (h.declared entry hentry)
  simpa using hne

/-- A new declaration enters with a class of its nested name. -/
theorem Entered.push (h : Entered ast package decls known index) {decl : Nat} {cls : ItemId}
    (hdecl : decl ∉ decls) (hkind : index.IsKind cls .class)
    (hname : ∀ name, ast.nestedName decl = some name → index.Has cls (some package) .class name) :
    Entered ast package (decls ++ [decl]) (known ++ [(decl, cls)]) index := by
  refine ⟨fun entry hentry => ?_, fun entry hentry => ?_, fun other hother name hother' => ?_⟩
  · rcases List.mem_append.1 hentry with hold | hnew
    · exact List.mem_append_left _ (h.declared entry hold)
    · rw [List.mem_singleton.1 hnew]
      exact List.mem_append_right _ (List.mem_singleton.2 rfl)
  · rcases List.mem_append.1 hentry with hold | hnew
    · exact h.classes entry hold
    · rw [List.mem_singleton.1 hnew]
      exact hkind
  · rw [List.lookup_append]
    rcases List.mem_append.1 hother with hold | hnew
    · obtain ⟨found, hfound, hhas⟩ := h.named other hold name hother'
      exact ⟨found, by rw [hfound, Option.some_or], hhas⟩
    · obtain rfl := List.mem_singleton.1 hnew
      refine ⟨cls, ?_, hname name hother'⟩
      rw [h.lookup_eq_none hdecl, Option.none_or, List.lookup_cons_self]

/-- A declaration whose enclosing one got no class has no nested name. -/
theorem Entered.nestedName_of_missing (h : Entered ast package decls known index)
    (hordered : ast.IsOrdered) {decl outer : Nat} (henclosing : ast.enclosingType decl = some outer)
    (houter : outer ∈ decls) (hlookup : known.lookup outer = none) : ast.nestedName decl = none := by
  rw [hordered.nestedName_of_inner henclosing]
  cases hnested : ast.nestedName outer with
  | none => rfl
  | some name =>
    obtain ⟨cls, hsome, _⟩ := h.named outer houter name hnested
    rw [hlookup] at hsome
    simp at hsome

/-- A class made in that of the enclosing declaration has the nested name of its own. -/
theorem Entered.has_inner (h : Entered ast package decls known index) (hordered : ast.IsOrdered)
    {decl outer : Nat} (henclosing : ast.enclosingType decl = some outer) (houter : outer ∈ decls)
    {simple : String} (hsimple : ast.nameOf decl = some simple) {cls inner owner : ItemId}
    {outerName : String} (hlookup : known.lookup outer = some cls)
    (hcls : index.Has cls (some owner) .class outerName)
    (hinner : index.Has inner (some owner) .class (outerName ++ "." ++ simple)) {name : String}
    (hnested : ast.nestedName decl = some name) : index.Has inner (some package) .class name := by
  rw [hordered.nestedName_of_inner henclosing, hsimple] at hnested
  obtain ⟨nested, houterName, hnested⟩ := Option.bind_eq_some_iff.1 hnested
  obtain ⟨found, hfound, hhas⟩ := h.named outer houter nested houterName
  obtain rfl : cls = found := Option.some.inj (hlookup.symm.trans hfound)
  obtain ⟨hpackage, hname⟩ := hcls.place_eq hhas
  obtain rfl := Option.some.inj hpackage
  subst hname
  obtain rfl := Option.some.inj hnested
  exact hinner

end Entered

theorem nestedName_of_unnamed {ast : Ast} (hordered : ast.IsOrdered) {decl : Nat}
    (hsimple : ast.nameOf decl = none) : ast.nestedName decl = none := by
  cases henclosing : ast.enclosingType decl with
  | none => rw [hordered.nestedName_of_top henclosing, hsimple]
  | some outer =>
    rw [hordered.nestedName_of_inner henclosing, hsimple]
    cases ast.nestedName outer <;> rfl

/-- What stands while the declarations of a unit are entered. -/
def Registering (unit : CompilationUnit) (package : ItemId) (decls : List Nat)
    (known : List (Nat × ItemId)) (index : Index) : Prop :=
  (IsRegular unit ∧ index.IsKind package .package) ∧ Entered unit.ast package decls known index

theorem stable_registering (unit : CompilationUnit) (package : ItemId) (decls : List Nat)
    (known : List (Nat × ItemId)) : Stable (Registering unit package decls known) :=
  ((stable_const _).and (stable_isKind _ _)).and (stable_entered _ _ _ _)

/-- The last step for a declaration whose class is there: its flag, and its place in the list. -/
theorem safe_enterClass (unit : CompilationUnit) (package : ItemId) {decls : List Nat}
    (known : List (Nat × ItemId)) {decl : Nat} (hdecl : decl ∉ decls) (cls : ItemId) :
    Safe (fun index => Registering unit package decls known index ∧ index.IsKind cls .class ∧
        ∀ name, unit.ast.nestedName decl = some name → index.Has cls (some package) .class name)
      (do
        if unit.ast.hasModifier decl "public" then
          Index.update cls (fun item => item.setFlag .projectVisible true)
        return known ++ [(decl, cls)])
      (Entered unit.ast package (decls ++ [decl])) := by
  have hstable := (stable_registering unit package decls known).and
    ((stable_isKind cls .class).and (fun a b hext
      (hall : ∀ name, unit.ast.nestedName decl = some name → a.Has cls (some package) .class name)
      name hname => stable_has _ _ _ _ a b hext (hall name hname)))
  split
  · refine (Safe.update .class (by decide) (Item.keepsPlace_setFlag _ _) ?_).bind hstable
      (fun _ => Safe.pure _ (fun _ hall => hall.1.1.2.push hdecl hall.1.2.1 hall.1.2.2))
    exact fun _ hall => ⟨hall.2.1, fun item target htarget =>
      Or.inl (Item.mem_attributeIds_setFlag htarget)⟩
  · exact Safe.pure _ (fun _ hall => hall.1.2.push hdecl hall.2.1 hall.2.2)

/-- Entering the class of one declaration, when those of smaller numbers have been entered. -/
theorem safe_registerClass (unit : CompilationUnit) (package : ItemId) {decls : List Nat}
    (known : List (Nat × ItemId)) {decl : Nat} (hdecl : decl ∉ decls)
    (hsmaller : ∀ outer < decl, (unit.ast.kind outer).isTypeDeclaration = true → outer ∈ decls) :
    Safe (Registering unit package decls known) (registerClass unit.ast package known decl)
      (Entered unit.ast package (decls ++ [decl])) := by
  have hstable := stable_registering unit package decls known
  have htail := safe_enterClass unit package known hdecl
  rw [registerClass]
  cases hsimple : unit.ast.nameOf decl with
  | none =>
    exact Safe.pure known (fun _ hpre =>
      hpre.2.skip (nestedName_of_unnamed hpre.1.1.ordered hsimple))
  | some simple =>
    cases henclosing : unit.ast.enclosingType decl with
    | none =>
      refine ((safe_createClass package simple).weaken
        (fun _ hpre => ⟨hpre.1.1.named hsimple, hpre.1.2⟩) (fun _ hpost => hpost.1)).bind hstable
        (fun cls => (htail cls).weaken ?_ (fun _ hpost => hpost))
      intro index _ hall
      refine ⟨hall.1, hall.2.isKind, fun name hnested => ?_⟩
      rw [hall.1.1.1.ordered.nestedName_of_top henclosing, hsimple] at hnested
      obtain rfl := Option.some.inj hnested
      exact hall.2
    | some outer =>
      -- the enclosing declaration has a smaller number, so its turn has been
      have houter : unit.ast.IsOrdered → outer ∈ decls := by
        intro hordered
        rcases hordered.outerTypes_eq decl with ⟨hnone, _⟩ | ⟨other, hlt, hkind, hsome, _⟩
        · rw [henclosing] at hnone
          simp at hnone
        · obtain rfl : outer = other := Option.some.inj (henclosing.symm.trans hsome)
          exact hsmaller outer hlt hkind
      cases hlookup : known.lookup outer with
      | none =>
        simp only [hlookup]
        exact Safe.pure known (fun _ hpre => hpre.2.skip (hpre.2.nestedName_of_missing
          hpre.1.1.ordered henclosing (houter hpre.1.1.ordered) hlookup))
      | some cls =>
        simp only [hlookup]
        have hmem : (outer, cls) ∈ known := by
          obtain ⟨before, after, rfl, _⟩ := List.lookup_eq_some_iff.1 hlookup
          exact List.mem_append_right _ List.mem_cons_self
        refine ((safe_createInnerClass cls simple).weaken (fun _ hpre => hpre.2.classes _ hmem)
          (fun _ hpost => hpost)).bind hstable (fun inner => (htail inner).weaken ?_
            (fun _ hpost => hpost))
        rintro index _ ⟨hpre, other, outerName, hcls, hinner⟩
        have hordered := hpre.1.1.ordered
        exact ⟨hpre, hinner.isKind, fun name hnested => hpre.2.has_inner hordered henclosing
          (houter hordered) hsimple hlookup hcls hinner hnested⟩

/-- Entering the classes of a unit: every named type declaration gets a class. -/
theorem safe_registerClasses (unit : CompilationUnit) (package : ItemId) :
    Safe (fun index => IsRegular unit ∧ index.IsKind package .package)
      (registerClasses unit package)
      (Entered unit.ast package unit.typeDeclarations) := by
  -- along the loop, the declarations that were entered are those of smaller numbers
  have hloop : ∀ (ids done : List Nat) (known : List (Nat × ItemId)),
      done ++ ids = unit.typeDeclarations →
      Safe (Registering unit package done known) (ids.foldlM (registerClass unit.ast package) known)
        (Entered unit.ast package unit.typeDeclarations) := by
    intro ids
    induction ids with
    | nil =>
      intro done known hdone
      rw [List.append_nil] at hdone
      subst hdone
      exact Safe.pure known (fun _ hpre => hpre.2)
    | cons decl rest ih =>
      intro done known hdone
      obtain ⟨hnew, hsmaller⟩ := typeDeclarations_before hdone
      rw [List.foldlM_cons]
      have hnext : done ++ [decl] ++ rest = unit.typeDeclarations := by
        rw [List.append_assoc, List.singleton_append, hdone]
      refine (safe_registerClass unit package known hnew hsmaller).seq ?_
        (fun known => ih (done ++ [decl]) known hnext)
      exact fun _ _ hext hpre => ⟨hpre.1.1, hext.isKind hpre.1.2⟩
  refine (hloop unit.typeDeclarations [] [] rfl).weaken (fun _ hpre => ?_) (fun _ hpost => hpost)
  exact ⟨hpre, entered_nil _ _ _⟩

/-! ## Members -/

section Members

variable {types : TypeResolver}

theorem safe_declaredOrAny (types : TypeResolver) (decl : Nat) :
    Safe (fun _ => True) (declaredOrAny types decl) (fun id index => index.IsKind id .class) := by
  rw [declaredOrAny]
  split
  · exact types.safe_materializeType _
  · exact safe_createWildcard

theorem safe_registerField (cls type : ItemId) (members : Members) (name : String) :
    Safe (fun index => name ≠ "" ∧ index.IsKind cls .class ∧ index.IsKind type .class)
      (registerField cls type members name) (fun _ _ => True) := by
  have hstable : Stable (fun index =>
      name ≠ "" ∧ index.IsKind cls .class ∧ index.IsKind type .class) :=
    (stable_const _).and ((stable_isKind _ _).and (stable_isKind _ _))
  refine ((safe_createField cls name).weaken (fun _ hpre => ⟨hpre.1, hpre.2.1⟩)
    (fun _ hpost => hpost.1.isKind)).bind hstable (fun field => ?_)
  refine (Safe.update .field (by decide) (Item.keepsPlace_setId _ _) ?_).andThen
    (fun _ => Safe.pure _ (fun _ _ => trivial))
  intro index _ hall
  refine ⟨hall.2, fun item target htarget => ?_⟩
  rcases Item.mem_attributeIds_setId htarget with hold | rfl
  · exact Or.inl hold
  · exact Or.inr hall.1.2.2

/-- The condition for entering members of a class. -/
theorem stable_memberOwner (unit : CompilationUnit) (cls : ItemId) :
    Stable (fun index => IsRegular unit ∧ index.IsKind cls .class) :=
  (stable_const _).and (stable_isKind _ _)

theorem safe_registerComponent (types : TypeResolver) (cls : ItemId) (members : Members)
    (component : Nat) :
    Safe (fun index => IsRegular types.unit ∧ index.IsKind cls .class)
      (registerComponent types cls members component) (fun _ _ => True) := by
  rw [registerComponent]
  split
  · rename_i name use hname _
    refine ((types.safe_materializeType use).weaken (fun _ _ => trivial)
      (fun _ hpost => hpost)).bind (stable_memberOwner _ _) (fun type => ?_)
    exact (safe_registerField cls type members name).weaken
      (fun _ hall => ⟨hall.1.1.named hname, hall.1.2, hall.2⟩) (fun _ hpost => hpost)
  · exact Safe.pure _ (fun _ _ => trivial)

theorem stable_isClass? (type : Option ItemId) : Stable (fun index => index.IsClass? type) :=
  fun _ _ hext hall id hid => hext.isKind (hall id hid)

/-- What a method is given beside its parameters. -/
def setSignature (returnType : Option ItemId) (thrown : List ItemId) (item : Item) : Item :=
  thrown.foldl (fun item type => item.pushNew .thrownTypes type)
    (match returnType with
      | some type => item.setId .returnType type
      | none => item)

theorem keepsPlace_setSignature (returnType : Option ItemId) (thrown : List ItemId) :
    Item.KeepsPlace (setSignature returnType thrown) := by
  intro item
  cases returnType with
  | none => exact Item.keepsPlace_foldl_pushNew .thrownTypes thrown item
  | some type => exact Item.keepsPlace_foldl_pushNew .thrownTypes thrown (item.setId .returnType type)

theorem mem_attributeIds_setSignature {returnType : Option ItemId} {thrown : List ItemId}
    {item : Item} {target : ItemId}
    (h : target ∈ (setSignature returnType thrown item).attributeIds) :
    target ∈ item.attributeIds ∨ returnType = some target ∨ target ∈ thrown := by
  rcases Item.mem_attributeIds_foldl_pushNew h with hmem | hmem
  · cases returnType with
    | none => exact Or.inl hmem
    | some type =>
      rcases Item.mem_attributeIds_setId hmem with hold | rfl
      · exact Or.inl hold
      · exact Or.inr (Or.inl rfl)
  · exact Or.inr (Or.inr hmem)

/-- Entering a method whose signature is there. -/
theorem safe_enterMethod (cls : ItemId) (name : String) (params : List ItemId)
    (returnType : Option ItemId) (thrown : List ItemId) (result : ItemId → Members) :
    Safe (fun index => (((name ≠ "" ∧ index.IsKind cls .class) ∧
        ∀ param ∈ params, index.IsKind param .class) ∧
        index.IsClass? returnType) ∧ ∀ type ∈ thrown, index.IsKind type .class)
      (do
        let method ← Index.createMethod cls name (some params)
        Index.update method (setSignature returnType thrown)
        return result method)
      (fun _ _ => True) := by
  have hstable : Stable (fun index => (((name ≠ "" ∧ index.IsKind cls .class) ∧
      ∀ param ∈ params, index.IsKind param .class) ∧
        index.IsClass? returnType) ∧ ∀ type ∈ thrown, index.IsKind type .class) :=
    ((((stable_const _).and (stable_isKind _ _)).and
      (Stable.forall_mem (fun param => stable_isKind param .class) _)).and
      (stable_isClass? _)).and
      (Stable.forall_mem (fun type => stable_isKind type .class) _)
  refine ((safe_createMethod cls name (some params)).weaken
    (fun _ hpre => ⟨hpre.1.1.1.1, hpre.1.1.1.2, hpre.1.1.2⟩)
    (fun _ hpost => hpost)).bind hstable (fun method => ?_)
  refine (Safe.update .method (by decide) (keepsPlace_setSignature _ _) ?_).andThen
    (fun _ => Safe.pure _ (fun _ _ => trivial))
  intro index _ hall
  refine ⟨hall.2, fun item target htarget => ?_⟩
  rcases mem_attributeIds_setSignature htarget with hold | hreturn | hthrown
  · exact Or.inl hold
  · exact Or.inr (hall.1.1.2 target hreturn)
  · exact Or.inr (hall.1.2 target hthrown)

theorem safe_registerMethod (types : TypeResolver) (cls : ItemId) (members : Members) (decl : Nat)
    (name : String) :
    Safe (fun index => name ≠ "" ∧ index.IsKind cls .class)
      (registerMethod types cls members decl name) (fun _ _ => True) := by
  have howner : Stable (fun index => name ≠ "" ∧ index.IsKind cls .class) :=
    (stable_const _).and (stable_isKind _ _)
  have hparams : ∀ params, Stable (fun index => (name ≠ "" ∧ index.IsKind cls .class) ∧
      ∀ param ∈ params, index.IsKind param .class) := fun params =>
    howner.and (Stable.forall_mem (fun param => stable_isKind param .class) _)
  -- the rest, once the parameters and the return type are there
  have hrest : ∀ params returnType, Safe (fun index => ((name ≠ "" ∧ index.IsKind cls .class) ∧
      ∀ param ∈ params, index.IsKind param .class) ∧ index.IsClass? returnType)
      (do
        let thrown ← ((types.unit.ast.childrenInRole decl .throws).filter
          (fun id => (types.unit.ast.kind id).isType)).mapM
            (fun id => types.materializeType ⟨id, 0⟩)
        let method ← Index.createMethod cls name (some params)
        Index.update method (setSignature returnType thrown)
        return { members with methods := members.methods ++ [(decl, method)] })
      (fun _ _ => True) := by
    intro params returnType
    have hstable := (hparams params).and (stable_isClass? returnType)
    refine (Safe.mapM hstable (fun type => stable_isKind type .class) _ (fun id _ => ?_)).bind
      hstable (fun thrown => safe_enterMethod cls name params returnType thrown _)
    exact (types.safe_materializeType ⟨id, 0⟩).weaken (fun _ _ => trivial) (fun _ hpost => hpost)
  rw [registerMethod]
  refine (Safe.mapM howner (fun param => stable_isKind param .class) _
    (fun param _ => ?_)).bind howner (fun params => ?_)
  · exact (safe_declaredOrAny types param).weaken (fun _ _ => trivial) (fun _ hpost => hpost)
  · split
    · rename_i use _ _
      rw [map_eq_pure_bind, bind_assoc]
      refine ((types.safe_materializeType use).weaken (fun _ _ => trivial)
        (fun _ hpost => hpost)).bind (hparams params) (fun type => ?_)
      rw [pure_bind]
      refine (hrest params (some type)).weaken (fun _ hall => ⟨hall.1, ?_⟩) (fun _ hpost => hpost)
      rintro id ⟨⟩
      exact hall.2
    · rw [pure_bind]
      refine (hrest params none).weaken (fun _ hall => ⟨hall, ?_⟩) (fun _ hpost => hpost)
      rintro id ⟨⟩

theorem safe_registerMember (types : TypeResolver) (cls : ItemId) (members : Members)
    (member : Nat) :
    Safe (fun index => IsRegular types.unit ∧ index.IsKind cls .class)
      (registerMember types cls members member) (fun _ _ => True) := by
  have hstable := stable_memberOwner types.unit cls
  rw [registerMember]
  split
  · exact (safe_registerMethod types cls members member _).weaken
      (fun _ hpre => ⟨by decide, hpre.2⟩) (fun _ hpost => hpost)
  · split
    · rename_i name hname
      exact (safe_registerMethod types cls members member name).weaken
        (fun _ hpre => ⟨hpre.1.named hname, hpre.2⟩) (fun _ hpost => hpost)
    · exact Safe.pure _ (fun _ _ => trivial)
  · refine ((safe_declaredOrAny types member).weaken (fun _ _ => trivial)
      (fun _ hpost => hpost)).bind hstable (fun type => ?_)
    refine Safe.foldlM_of_stable (hstable.and (stable_isKind type .class)) _
      (fun members name hname => ?_) members
    obtain ⟨id, _, hid⟩ := List.mem_filterMap.1 hname
    exact (safe_registerField cls type members name).weaken
      (fun _ hall => ⟨hall.1.1.named hid, hall.1.2, hall.2⟩) (fun _ hpost => hpost)
  · split
    · rename_i name hname
      exact (safe_registerField cls cls members name).weaken
        (fun _ hpre => ⟨hpre.1.named hname, hpre.2, hpre.2⟩) (fun _ hpost => hpost)
    · exact Safe.pure _ (fun _ _ => trivial)
  · exact Safe.pure _ (fun _ _ => trivial)

theorem safe_registerMembersOf (types : TypeResolver) (members : Members)
    (declared : Nat × ItemId) :
    Safe (fun index => IsRegular types.unit ∧ index.IsKind declared.2 .class)
      (registerMembersOf types members declared) (fun _ _ => True) := by
  obtain ⟨decl, cls⟩ := declared
  have hstable := stable_memberOwner types.unit cls
  refine (Safe.foldlM_of_stable hstable _ (fun members component _ =>
    safe_registerComponent types cls members component) members).bind hstable (fun members => ?_)
  refine (Safe.foldlM_of_stable hstable _ (fun members member _ =>
    safe_registerMember types cls members member) members).weaken (fun _ hall => hall.1)
      (fun _ hpost => hpost)

/-- Entering the members of the classes of a unit. -/
theorem safe_registerMembers (types : TypeResolver) (classes : List (Nat × ItemId)) :
    Safe (fun index => IsRegular types.unit ∧ ∀ entry ∈ classes, index.IsKind entry.2 .class)
      (registerMembers types classes) (fun _ _ => True) := by
  have hstable : Stable (fun index => IsRegular types.unit ∧
      ∀ entry ∈ classes, index.IsKind entry.2 .class) :=
    (stable_const _).and
      (Stable.forall_mem (fun entry : Nat × ItemId => stable_isKind entry.2 .class) _)
  refine Safe.foldlM_of_stable hstable _ (fun members entry hentry => ?_) _
  exact (safe_registerMembersOf types members entry).weaken
    (fun _ hall => ⟨hall.1, hall.2 entry hentry⟩) (fun _ hpost => hpost)

end Members

/-! ## Calls -/

theorem stable_callSound (site : CallSite) : Stable (fun index => site.Sound index) :=
  fun _ _ hext h => ⟨h.name_ne, fun owner howner => hext.isKind (h.owners owner howner)⟩

theorem safe_createPseudo (owner : ItemId) (site : CallSite) :
    Safe (fun index => site.name ≠ "" ∧ index.IsKind owner .class) (Index.createPseudo owner site)
      (fun _ _ => True) := by
  refine (safe_createWildcard.weaken (fun _ _ => trivial) (fun _ hpost => hpost)).bind
    ((stable_const _).and (stable_isKind _ _)) (fun wildcard => ?_)
  refine ((safe_createMethod owner site.name _).weaken
    (fun _ hall => ⟨hall.1.1, hall.1.2, fun param hparam => ?_⟩)
    (fun _ hpost => hpost)).andThen (fun method => Safe.get_bind (fun current => ?_))
  · rw [(List.mem_replicate.1 hparam).2]
    exact hall.2
  · refine (Safe.update .method (by decide) (fun item => ?_) ?_).andThen
      (fun _ => Safe.pure _ (fun _ _ => trivial))
    · dsimp only
      split <;> exact ⟨rfl, rfl, rfl, rfl⟩
    · intro index _ hall
      refine ⟨hall.2, fun item target htarget => Or.inl ?_⟩
      dsimp only at htarget
      split at htarget
      · exact Item.mem_attributeIds_setFlag (Item.mem_attributeIds_setFlag htarget)
      · exact Item.mem_attributeIds_setFlag htarget

theorem safe_resolveOrCreate (site : CallSite) (create : Bool) :
    Safe (fun index => site.Sound index) (Index.resolveOrCreate site create) (fun _ _ => True) := by
  refine Safe.get_bind (fun current => ?_)
  split
  · exact Safe.pure _ (fun _ _ => trivial)
  · cases create with
    | false => exact Safe.pure _ (fun _ _ => trivial)
    | true =>
      refine Safe.get_bind (fun other => ?_)
      split
      · rename_i owner howner
        refine ((safe_createPseudo owner site).weaken (fun _ hall => ⟨hall.2.2.name_ne, ?_⟩)
          (fun _ hpost => hpost)).andThen (fun method => Safe.pure _ (fun _ _ => trivial))
        refine hall.2.2.owners owner (List.mem_of_mem_head? ?_)
        exact (Option.filter_eq_some_iff.1 howner).1
      · exact Safe.pure _ (fun _ _ => trivial)

/-- Resolving calls that name methods and classes. -/
theorem safe_settleCalls (calls : List CallSite) (create : Bool) :
    Safe (fun index => ∀ site ∈ calls, site.Sound index) (settleCalls calls create)
      (fun _ _ => True) := by
  refine Safe.foldlM_of_stable (Stable.forall_mem stable_callSound _) _
    (fun counts site hsite => ?_) _
  refine ((safe_resolveOrCreate site create).weaken (fun _ hall => hall site hsite)
    (fun _ hpost => hpost)).andThen (fun target => ?_)
  split <;> exact Safe.pure _ (fun _ _ => trivial)

/-- Linking calls. -/
theorem safe_linkCalls (ast : Ast) (methods classes : List (Nat × ItemId)) (calls : List CallSite) :
    Safe (fun _ => True) (ExceptT.lift (modify (linkCalls ast methods classes calls)))
      (fun _ _ => True) := by
  refine Safe.lift (fun index => ?_) ?_
  · exact grown_foldl (fun index (edge : ItemId × ItemId) =>
      grown_addDependency index edge.1 edge.2) _ index
  · intro index hlive _ _
    obtain ⟨hend, hext⟩ := Live.foldl stable_true (fun hlive _ (edge : ItemId × ItemId) _ =>
      hlive.addDependency edge.1 edge.2) hlive trivial
    exact ⟨hend, hext, trivial⟩

end Load

end CodeAtlas
