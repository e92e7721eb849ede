/-
# Names of compiled classes

A class file has its name in binary form.  The class is entered part by part: what precedes the last
slash is its package, and what follows it is nested at the dollar signs.  Other class files refer to it
by the whole name with dots for all slashes and dollar signs.  Since a lookup tries every dot, the
reference finds the class, unless the package itself has a dollar sign: then the package keeps the sign
and the reference does not.
-/
import CodeAtlas.Proofs.Load.Compiled
import CodeAtlas.Proofs.Load.Registration

namespace CodeAtlas

/-! ## The two forms of a binary name -/

namespace BinaryName

open Index

theorem toList_sourceName (binary : String) :
    (sourceName binary).toList = (binary.toList.map fun c => if c == '/' then '.' else c).map
      (fun c => if c == '$' then '.' else c) := by
  unfold sourceName
  rw [Text.toList_replaceChar, Text.toList_replaceChar]

/-- No dollar sign is left in a source form. -/
theorem dollar_notMem_sourceName (binary : String) : '$' ∉ (sourceName binary).toList := by
  rw [toList_sourceName]
  intro hmem
  obtain ⟨c, _, hc⟩ := List.mem_map.1 hmem
  split at hc
  · exact absurd hc (by decide)
  · rename_i hdollar
    exact hdollar (beq_iff_eq.2 hc)

/-- The source form can be read as the package and the name of the class exactly when there is no dollar
sign in the package. -/
theorem mem_nameSplits_sourceName_iff (binary : String) :
    ((split binary).1.toList, (split binary).2.toList) ∈ nameSplits (sourceName binary).toList ↔
      '$' ∉ (split binary).1.toList := by
  rw [mem_nameSplits_iff]
  constructor
  · rintro (hname | ⟨hempty, -⟩) hdollar
    · apply dollar_notMem_sourceName binary
      rw [hname]
      exact List.mem_append_left _ hdollar
    · rw [hempty] at hdollar
      exact absurd hdollar (by simp)
  · rw [toList_sourceName]
    unfold split
    cases hsplit : Text.splitLast '/' binary with
    | none =>
      intro _
      right
      rw [Text.map_replace_eq_self (Text.notMem_of_splitLast_eq_none hsplit)]
      exact ⟨rfl, Text.toList_replaceChar '$' '.' binary⟩
    | some cut =>
      obtain ⟨package, name⟩ := cut
      obtain ⟨hbinary, hslash⟩ := Text.exists_of_splitLast hsplit
      intro hdollar
      left
      show _ = (Text.replaceChar '/' '.' package).toList ++
        '.' :: (Text.replaceChar '$' '.' name).toList
      rw [hbinary, List.map_append, List.map_cons, Text.map_replace_eq_self hslash,
        List.map_append, List.map_cons, ← Text.toList_replaceChar '/' '.' package,
        Text.map_replace_eq_self hdollar, Text.toList_replaceChar '$' '.' name]
      rfl

end BinaryName

namespace Load

open Index

variable {index after : Index} {project package cls : ItemId} {name : String}

/-! ## Entering a compiled class -/

/-- What is created under an owner stands there. -/
theorem has_of_createOwned (h : index.Keyed) {owner id : ItemId} {kind : ItemKind}
    (hkind : kind ≠ .method)
    (hrun : (checkOwner owner kind name >>= fun _ =>
      (ExceptT.lift (intern (some owner) name kind) : Edit ItemId)).run.run index = (.ok id, after))
    (hroom : after.size < 2 ^ 32) :
    after.Keyed ∧ KeepsItems index after ∧ after.Has id (some owner) kind name ∧
      (name = "" → kind = .package) := by
  rw [run_createOwned] at hrun
  cases hrefusal : index.refusal? owner kind name with
  | some error =>
    rw [hrefusal] at hrun
    cases hrun
  | none =>
    rw [hrefusal] at hrun
    obtain ⟨hok, rfl⟩ := Prod.mk.inj hrun
    obtain rfl := Except.ok.inj hok
    obtain ⟨htake, hname⟩ := refusal?_eq_none_iff.1 hrefusal
    obtain ⟨hnests, hhas⟩ := h.nests_intern (fun _ => True) hkind htake hroom
    exact ⟨hnests.toKeyed, hnests.keeps, hhas, hname⟩

/-- A package that is entered stands in its project. -/
theorem has_of_registerPackage (h : index.Keyed) {isNew : Bool}
    (hrun : (registerPackage project name).run.run index = (.ok (package, isNew), after))
    (hroom : after.size < 2 ^ 32) :
    after.Keyed ∧ after.Has package (some project) .package name := by
  have hbind : (registerPackage project name).run.run index =
      (createPackage project name >>= fun package => pure (package, !(index.findItem (some project)
        name .package).isSome) : Edit (ItemId × Bool)).run.run index := rfl
  rw [hbind] at hrun
  obtain ⟨made, current, hcreate, hrest⟩ := Edit.exists_of_run_bind_ok (congrArg Prod.fst hrun)
  rw [hrun] at hrest
  obtain ⟨hok, rfl⟩ := Prod.mk.inj hrest
  obtain ⟨rfl, -⟩ := Prod.mk.inj (Except.ok.inj hok)
  obtain ⟨hkeyed, -, hhas, -⟩ := has_of_createOwned h (by decide) hcreate hroom
  exact ⟨hkeyed, hhas⟩

theorem continues_enterInner (names : List String) (outer : ItemId) (index : Index) :
    Continues index ((names.foldlM createInnerClass outer).run.run index).2 :=
  (Sealing.foldlM lasting_true names
    (fun outer simple => (sealing_createInnerClass outer simple).forget) outer).continues index

/-- Inner classes are entered one inside the other, each named by those around it. -/
theorem exists_run_enterInner (names : List String) (h : index.Keyed) {outer : ItemId}
    (houter : index.Has outer (some package) .class name)
    (hroom : ((names.foldlM createInnerClass outer).run.run index).2.size < 2 ^ 32) :
    ∃ inner after, (names.foldlM createInnerClass outer).run.run index = (.ok inner, after) ∧
      after.Keyed ∧ KeepsItems index after ∧ after.Has inner (some package) .class
        (names.foldl (fun outer simple => outer ++ "." ++ simple) name) := by
  induction names generalizing index outer name with
  | nil => exact ⟨outer, index, rfl, h, KeepsItems.refl index, houter⟩
  | cons simple rest ih =>
    have htake := h.coherent.exists_owner houter
    have hcreate := run_createInnerClass_of_has houter htake simple
    rw [List.foldlM_cons, Edit.run_bind_of_ok hcreate] at hroom ⊢
    have hnestRoom := Nat.lt_of_le_of_lt (continues_enterInner rest _ _).size_le hroom
    have hless : (intern (some package) (name ++ "." ++ simple) .class index).2.size < 2 ^ 32 :=
      Nat.lt_of_le_of_lt
        ((continues_modify _ _ _).trans (continues_modify _ _ _)).size_le hnestRoom
    obtain ⟨hinterned, hinner⟩ := h.nests_intern (fun _ => True) (by decide) htake hless
    have houterLater := hinterned.keeps.has houter
    have hnested : Nests (fun _ => True) _ _ := hinterned.nests_nest hinner houterLater trivial
    obtain ⟨inner, after, hrun, hkeyed, hkeeps, hhas⟩ :=
      ih hnested.toKeyed (hnested.keeps.has hinner) hroom
    exact ⟨inner, after, hrun, hkeyed, (hinterned.keeps.trans hnested.keeps).trans hkeeps, hhas⟩

/-- The item of a class that was read from a class file. -/
def markBinary (isPublic : Bool) (item : Item) : Item :=
  if isPublic then (item.setFlag .binary true).setFlag .projectVisible true
  else item.setFlag .binary true

theorem nests_markBinary (h : index.Keyed) (cls : ItemId) (isPublic : Bool) :
    Nests (fun _ => True) index (index.modify cls (markBinary isPublic)) := by
  have hsettings : markBinary isPublic = Setting.applyAll (.flag .binary true ::
      if isPublic then [.flag .projectVisible true] else []) := by
    funext item
    cases isPublic <;> rfl
  rw [hsettings]
  apply h.nests_applyAll
  cases isPublic <;> decide

/-- A compiled class that is entered stands in its package under its nested name. -/
theorem has_of_registerBinaryClass (h : index.Keyed) {binary : BinaryClass}
    (hrun : (registerBinaryClass package binary).run.run index = (.ok cls, after))
    (hroom : after.size < 2 ^ 32) :
    after.Keyed ∧ KeepsItems index after ∧ after.Has cls (some package) .class binary.name ∧
      binary.name ≠ "" := by
  obtain ⟨first, rest, hsplit, hjoined⟩ := Text.foldl_splitOn binary.name
  have hparts : registerBinaryClass package binary = (do
      let outer ← createClass package first
      let cls ← rest.foldlM createInnerClass outer
      update cls (markBinary binary.isPublic)
      return cls) := by
    unfold registerBinaryClass
    rw [hsplit]
    rfl
  rw [hparts] at hrun
  -- the outermost class, those inside it, and the flags
  obtain ⟨outer, made, hcreate, hmade⟩ := Edit.exists_of_run_bind_ok (congrArg Prod.fst hrun)
  rw [hrun] at hmade
  obtain ⟨inner, entered, henter, hmarked⟩ :=
    Edit.exists_of_run_bind_ok (congrArg Prod.fst hmade.symm)
  rw [← hmade] at hmarked
  obtain ⟨hok, hafter⟩ := Prod.mk.inj hmarked
  obtain rfl := Except.ok.inj hok
  obtain rfl : after = entered.modify cls (markBinary binary.isPublic) := hafter
  have hinnerRoom : ((rest.foldlM createInnerClass outer).run.run made).2.size < 2 ^ 32 := by
    rw [henter]
    exact Nat.lt_of_le_of_lt (continues_modify entered cls _).size_le hroom
  obtain ⟨hkeyed, hkeeps, houter, hfirst⟩ := has_of_createOwned h (by decide) hcreate
    (Nat.lt_of_le_of_lt (continues_enterInner rest outer made).size_le hinnerRoom)
  obtain ⟨_, _, hrunInner, henteredKeyed, henteredKeeps, hcls⟩ :=
    exists_run_enterInner rest hkeyed houter hinnerRoom
  obtain ⟨hid, rfl⟩ := Prod.mk.inj (henter.symm.trans hrunInner)
  obtain rfl := Except.ok.inj hid
  rw [hjoined] at hcls
  have hnests := nests_markBinary henteredKeyed cls binary.isPublic
  refine ⟨hnests.toKeyed, (hkeeps.trans henteredKeeps).trans hnests.keeps, hnests.keeps.has hcls, ?_⟩
  intro hempty
  rw [hempty] at hsplit
  have hnone : [""] = first :: rest := hsplit
  obtain ⟨rfl, -⟩ := List.cons.inj hnone
  exact absurd (hfirst rfl) (by decide)

/-! ## References to compiled classes -/

/-- A class file is entered under the qualified name of its class, whatever else is entered before,
between its package and its class, and after.  The form in which other class files name it finds the
class exactly when there is no dollar sign in its package. -/
theorem compiled_class_found_iff {start entered current registered later : Index} {isNew : Bool}
    {binary : BinaryClass} {binaryName : String}
    (hname : BinaryName.split binaryName = (binary.package, binary.name)) (hstart : start.Reachable)
    (hpackage : (registerPackage project binary.package).run.run start =
      (.ok (package, isNew), entered))
    (hbetween : Relation.ReflTransGen Step entered current)
    (hcls : (registerBinaryClass package binary).run.run current = (.ok cls, registered))
    (hafter : Relation.ReflTransGen Step registered later) (hroom : later.size < 2 ^ 32) :
    later.qualifiedName cls = some binary.qualifiedName ∧
      (cls ∈ later.findClasses (BinaryName.sourceName binaryName) ↔
        '$' ∉ binary.package.toList) := by
  have hregisteredRoom := Nat.lt_of_le_of_lt (size_le_of_steps hafter) hroom
  have hcurrentRoom : current.size < 2 ^ 32 := by
    have hcontinues := (sealing_registerBinaryClass package binary).continues current
    rw [hcls] at hcontinues
    exact Nat.lt_of_le_of_lt hcontinues.size_le hregisteredRoom
  have henteredRoom := Nat.lt_of_le_of_lt (size_le_of_steps hbetween) hcurrentRoom
  have hstartRoom : start.size < 2 ^ 32 := by
    have hsealing : Sealing (fun _ => True) (registerPackage project binary.package) _ :=
      sealing_registerPackage project binary.package
    have hcontinues := hsealing.continues start
    rw [hpackage] at hcontinues
    exact Nat.lt_of_le_of_lt hcontinues.size_le henteredRoom
  obtain ⟨hentered, hpackageThere⟩ :=
    has_of_registerPackage (hstart.keyed hstartRoom) hpackage henteredRoom
  obtain ⟨hcurrent, hkept⟩ := hentered.keeps_of_steps hbetween hcurrentRoom
  obtain ⟨hregistered, hkeeps, hthere, hne⟩ :=
    has_of_registerBinaryClass hcurrent hcls hregisteredRoom
  obtain ⟨hlater, hlasting⟩ := hregistered.keeps_of_steps hafter hroom
  have hpackageLater := ((hkept.trans hkeeps).trans hlasting).has hpackageThere
  have hclsLater := hlasting.has hthere
  constructor
  · exact qualifiedName_of_has hpackageLater hclsLater
  · rw [hlater.coherent.mem_findClasses_iff_of_has hlater.distinct hpackageLater hclsLater hne]
    have hsplits := BinaryName.mem_nameSplits_sourceName_iff binaryName
    rw [hname] at hsplits
    exact hsplits

/-- A class file with a given name and nothing else. -/
def bareClass (binaryName : String) : BinaryClass where
  package := (BinaryName.split binaryName).1
  name := (BinaryName.split binaryName).2
  isPublic := true
  superclass := none
  interfaces := []
  methods := []
  fields := []

/-- An index with one project. -/
def projectIndex : Index :=
  ((Operation.project "lib").run (empty 1)).2

/-- That index with the package of a class file and then with its class. -/
def withBarePackage (binaryName : String) : Except GraphError (ItemId × Bool) × Index :=
  (registerPackage ⟨0, 1⟩ (bareClass binaryName).package).run.run projectIndex

def withBareClass (binaryName : String) : Except GraphError ItemId × Index :=
  (registerBinaryClass ⟨1, 1⟩ (bareClass binaryName)).run.run (withBarePackage binaryName).2

theorem reachable_projectIndex : projectIndex.Reachable :=
  ⟨1, Relation.ReflTransGen.single (.operation (.project "lib") (empty 1))⟩

/-- A nested class of a package of two parts is found where other class files refer to it.  A class of
a package with a dollar sign is entered under its name, and what they refer to leads nowhere. -/
theorem compiled_class_found_iff_bareClass :
    (withBareClass "java/util/Map$Entry").2.qualifiedName ⟨3, 1⟩ = some "java.util.Map.Entry" ∧
      ⟨3, 1⟩ ∈ (withBareClass "java/util/Map$Entry").2.findClasses "java.util.Map.Entry" ∧
      (withBareClass "a$b/C").2.qualifiedName ⟨2, 1⟩ = some "a$b.C" ∧
      ⟨2, 1⟩ ∉ (withBareClass "a$b/C").2.findClasses "a.b.C" := by
  have hbare : ∀ (binaryName : String) (cls : ItemId),
      (withBarePackage binaryName).1 = .ok (⟨1, 1⟩, true) →
      (withBareClass binaryName).1 = .ok cls → (withBareClass binaryName).2.size < 2 ^ 32 →
      (withBareClass binaryName).2.qualifiedName cls = some (bareClass binaryName).qualifiedName ∧
        (cls ∈ (withBareClass binaryName).2.findClasses (BinaryName.sourceName binaryName) ↔
          '$' ∉ (bareClass binaryName).package.toList) := by
    intro binaryName cls hpackage hcls hroom
    have hname : BinaryName.split binaryName =
        ((bareClass binaryName).package, (bareClass binaryName).name) := rfl
    exact compiled_class_found_iff hname reachable_projectIndex (Prod.ext hpackage rfl)
      Relation.ReflTransGen.refl (Prod.ext hcls rfl) Relation.ReflTransGen.refl hroom
  have hnested := hbare "java/util/Map$Entry" ⟨3, 1⟩ (by decide +kernel) (by decide +kernel)
    (by decide +kernel)
  have hdollar := hbare "a$b/C" ⟨2, 1⟩ (by decide +kernel) (by decide +kernel) (by decide +kernel)
  have hsource : BinaryName.sourceName "java/util/Map$Entry" = "java.util.Map.Entry" ∧
      BinaryName.sourceName "a$b/C" = "a.b.C" := by
    decide +kernel
  rw [hsource.1] at hnested
  rw [hsource.2] at hdollar
  refine ⟨?_, hnested.2.2 (by decide +kernel), ?_, fun hmem => hdollar.2.1 hmem (by decide +kernel)⟩
  · rw [hnested.1]
    decide +kernel
  · rw [hdollar.1]
    decide +kernel

end Load

end CodeAtlas
