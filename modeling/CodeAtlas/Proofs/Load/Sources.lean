/-
# The way of a source file

When a load runs to its end, every source file of a project directory that can be read and has no errors
has its classes in the index, in the package that it declares and in the project of the directory.
-/
import CodeAtlas.Proofs.Load.Completion

namespace CodeAtlas.Load

open Tasks Index
open Source (CompilationUnit)

variable {setting : LoadSetting} {waiting : List (Pending LoadTask)}
  {board : Board LoadContext LoadState}

/-! ## Classes of a project -/

/-- Every class that a unit declares stands in its package. -/
def HoldsUnit (index : Index) (project : ItemId) (unit : CompilationUnit) : Prop :=
  ∀ decl ∈ unit.typeDeclarations, ∀ name, unit.ast.nestedName decl = some name →
    index.HoldsClass project unit.package name

theorem holdsUnit_of_entered {index : Index} {project package : ItemId} {unit : CompilationUnit}
    {known : List (Nat × ItemId)} (hpackage : index.Has package (some project) .package unit.package)
    (h : Entered unit.ast package unit.typeDeclarations known index) :
    HoldsUnit index project unit := by
  intro decl hdecl name hname
  obtain ⟨cls, _, hcls⟩ := h.named decl hdecl name hname
  exact ⟨package, cls, hpackage, hcls⟩

theorem stable_holdsUnit (project : ItemId) (unit : CompilationUnit) :
    Stable (fun index => HoldsUnit index project unit) := by
  intro a b hext h decl hdecl name hname
  obtain ⟨package, cls, hpackage, hcls⟩ := h decl hdecl name hname
  exact ⟨package, cls, stable_has _ _ _ _ a b hext hpackage, stable_has _ _ _ _ a b hext hcls⟩

/-! ## Stages -/

/-- A context that was opened for a source file of a project directory. -/
structure IsSource (project : ItemId) (path : String) (context : LoadContext) : Prop where
  project : context.project = some project
  source : context.source = some path
  sourceText : context.sourceText = none
  binary : context.binary = none

theorem IsSource.keeps {project : ItemId} {path : String} {task : LoadTask}
    {before after : LoadContext} (h : IsSource project path before)
    (hkeeps : Keeps task before after) : IsSource project path after :=
  ⟨hkeeps.project.trans h.project, hkeeps.source.trans h.source, hkeeps.sourceText h.sourceText,
    hkeeps.binary.trans h.binary⟩

/-- The unit of a source file is what its text on the disk gives. -/
theorem IsSource.sourceUnit?_eq {project : ItemId} {path text : String} {context : LoadContext}
    (h : IsSource project path context) (htext : setting.disk.readText path = .ok text)
    (herrors : (CompilationUnit.parse path text (setting.grammar text)).hasErrors = false) :
    sourceUnit? setting context path =
      some (CompilationUnit.parse path text (setting.grammar text)) := by
  rw [sourceUnit?, sourceText?, h.sourceText, htext, Option.filter_eq_some_iff]
  exact ⟨rfl, by rw [herrors]; rfl⟩

/-- How far a source file has come: it waits, or its package was entered and its classes wait, or its
classes were entered. -/
inductive SourceTrail (project : ItemId) (path : String) (unit : CompilationUnit)
    (waiting : List (Pending LoadTask)) (board : Board LoadContext LoadState) : Prop
  | file {group : Nat} {context : LoadContext} (hwaits : ⟨700, .sourceFile, group⟩ ∈ waiting)
      (hcontext : board.groups[group]? = some context) (hsource : IsSource project path context)
  | classes {group : Nat} {context : LoadContext} {package : ItemId}
      (hwaits : ⟨600, .classes, group⟩ ∈ waiting) (hcontext : board.groups[group]? = some context)
      (hsource : IsSource project path context) (hunit : context.unit = some unit)
      (hpackage : context.package = some package)
      (hhas : board.world.index.Has package (some project) .package unit.package)
  | entered (hholds : HoldsUnit board.world.index project unit)

theorem SourceTrail.perm {project : ItemId} {path : String} {unit : CompilationUnit}
    {others : List (Pending LoadTask)} (h : SourceTrail project path unit waiting board)
    (hperm : waiting.Perm others) : SourceTrail project path unit others board := by
  cases h with
  | file hwaits hcontext hsource => exact .file (hperm.mem_iff.1 hwaits) hcontext hsource
  | classes hwaits hcontext hsource hunit hpackage hhas =>
    exact .classes (hperm.mem_iff.1 hwaits) hcontext hsource hunit hpackage hhas
  | entered hholds => exact .entered hholds

/-- The classes of a unit are entered once its package is there. -/
theorem isEligible_classes {group : Nat} {context : LoadContext} {unit : CompilationUnit}
    {package : ItemId} (hcontext : board.groups[group]? = some context)
    (hunit : context.unit = some unit) (hpackage : context.package = some package) :
    setting.workflow.isEligible board ⟨600, .classes, group⟩ = true := by
  refine (isEligible_iff hcontext).2 (fun key hkey => ?_)
  rcases List.mem_cons.1 hkey with rfl | hkey
  · rw [LoadContext.has, hpackage]
    rfl
  · obtain rfl := List.mem_singleton.1 hkey
    rw [LoadContext.has, hunit]
    rfl

/-- At the end of a run, the classes of a source file were entered. -/
theorem SourceTrail.holdsUnit {project : ItemId} {path : String} {unit : CompilationUnit}
    (h : SourceTrail project path unit waiting board)
    (hend : ∀ pending ∈ waiting, ¬ setting.workflow.isEligible board pending = true) :
    HoldsUnit board.world.index project unit := by
  cases h with
  | file hwaits hcontext hsource =>
    refine absurd ((isEligible_iff hcontext).2 (fun key hkey => ?_)) (hend _ hwaits)
    obtain rfl := List.mem_singleton.1 hkey
    rw [LoadContext.has, hsource.source]
    rfl
  | classes hwaits hcontext hsource hunit hpackage _ =>
    exact absurd (isEligible_classes hcontext hunit hpackage) (hend _ hwaits)
  | entered hholds => exact hholds

/-! ## What the two tasks establish -/

/-- A source file without errors gets its unit and its package, and its classes are next. -/
theorem safe_sourceFile {project : ItemId} {path : String} {context : LoadContext}
    {unit : CompilationUnit} (hproject : context.project = some project)
    (hsource : context.source = some path) (hunit : sourceUnit? setting context path = some unit) :
    Safe (fun index => FitsIndex index context) (deed setting context .sourceFile)
      (fun done index => .classes ∈ done.own ∧ (done.change context).unit = some unit ∧
        ∃ package, (done.change context).package = some package ∧
          index.Has package (some project) .package unit.package) := by
  have hparsed : parsed setting context path =
      fun context' => { context' with sourceText := none, unit := some unit } := by
    have hsome : (sourceText? setting context path).isSome := by
      obtain ⟨hmap, _⟩ := Option.filter_eq_some_iff.1 hunit
      obtain ⟨text, htext, _⟩ := Option.map_eq_some_iff.1 hmap
      rw [htext]
      rfl
    rw [parsed, if_pos hsome, hunit]
  simp only [deed, hsource, hproject, hunit, hparsed]
  refine ((safe_registerPackage project unit.package).weaken
    (fun _ h => h.project project hproject) (fun _ h => h)).andThen
    (fun package => Safe.pure _ (fun _ h => ?_))
  exact ⟨List.mem_cons_self, rfl, package.1, rfl, h⟩

/-- The classes of a unit are entered in its package. -/
theorem safe_classes (setting : LoadSetting) {context : LoadContext} {package : ItemId}
    {unit : CompilationUnit} (hunit : context.unit = some unit) (hpackage : context.package = some package) :
    Safe (fun index => FitsIndex index context) (deed setting context .classes)
      (fun _ index => ∃ known, Entered unit.ast package unit.typeDeclarations known index) := by
  simp only [deed, hunit, hpackage]
  refine ((safe_registerClasses unit package).weaken
    (fun _ h => ⟨h.unit unit hunit, h.package package hpackage⟩) (fun _ h => h)).andThen
    (fun known => Safe.pure _ (fun _ h => ⟨known, h⟩))

/-! ## Steps -/

section Steps

variable {project : ItemId} {path : String} {unit : CompilationUnit} {group : Nat}
  {context : LoadContext} {rest : List (Pending LoadTask)} {after : Board LoadContext LoadState}
  {outcome : Outcome LoadTask}

/-- When a source file was read, its unit and its package are there and its classes wait. -/
theorem source_after (hlive : board.world.index.Live)
    (hfits : FitsIndex board.world.index context) {priority : Int}
    (hexecute : setting.workflow.execute ⟨priority, .sourceFile, group⟩ board = (.ok outcome, after))
    (hroom : after.world.index.HasRoom) (hcontext : board.groups[group]? = some context)
    (hproject : context.project = some project) (hsource : context.source = some path)
    (hunit : sourceUnit? setting context path = some unit) :
    ∃ later package, after.groups[group]? = some later ∧ Keeps .sourceFile context later ∧
      later.unit = some unit ∧ later.package = some package ∧
      after.world.index.Has package (some project) .package unit.package ∧
      ⟨600, .classes, group⟩ ∈ outcome.spawned := by
  obtain ⟨done, _, hdeed, hspawned, _, hown, hkeeps⟩ :=
    exists_own (by decide) hexecute hcontext
  have hsafe := (safe_sourceFile hproject hsource hunit).works hlive hfits
  rw [hdeed] at hsafe
  obtain ⟨_, _, result, hresult, htask, hunit', package, hpackage, hhas⟩ := hsafe hroom
  obtain rfl : done = result := Except.ok.inj hresult
  refine ⟨_, package, hown, hkeeps, hunit', hpackage, hhas, ?_⟩
  rw [hspawned]
  exact mem_spawned_own htask group board.groups.size

/-- When the classes of a unit were entered in its package, they stand there. -/
theorem holdsUnit_after (hfits : Fits board) {priority : Int}
    (hexecute : setting.workflow.execute ⟨priority, .classes, group⟩ board = (.ok outcome, after))
    (hroom : after.world.index.HasRoom) (hext : board.world.index.Extends after.world.index)
    (hcontext : board.groups[group]? = some context) {package : ItemId}
    (hunit : context.unit = some unit) (hpackage : context.package = some package)
    (hhas : board.world.index.Has package (some project) .package unit.package) :
    HoldsUnit after.world.index project unit := by
  obtain ⟨done, _, hdeed, _⟩ := exists_own (by decide) hexecute hcontext
  have hsafe := (safe_classes setting hunit hpackage).works hfits.live (hfits.contexts hcontext)
  rw [hdeed] at hsafe
  obtain ⟨_, _, _, _, known, hentered⟩ := hsafe hroom
  exact holdsUnit_of_entered (stable_has _ _ _ _ _ _ hext hhas) hentered

/-- Until its classes are entered, a source file keeps its unit and its package. -/
theorem source_kept (hfits : Fits board) {first : Pending LoadTask}
    (hlate : first.task.priority ≤ 700)
    (hexecute : setting.workflow.execute first board = (.ok outcome, after))
    (hroom : after.world.index.HasRoom) (hext : board.world.index.Extends after.world.index)
    (hcontext : board.groups[group]? = some context) (hsource : IsSource project path context)
    (hread : sourceUnit? setting context path = some unit) {package : ItemId}
    (hunit : context.unit = some unit) (hpackage : context.package = some package)
    (hhas : board.world.index.Has package (some project) .package unit.package) :
    ∃ later package', after.groups[group]? = some later ∧ IsSource project path later ∧
      later.unit = some unit ∧ later.package = some package' ∧
      after.world.index.Has package' (some project) .package unit.package := by
  have hhas' := stable_has _ _ _ _ _ _ hext hhas
  obtain ⟨priority, task, place⟩ := first
  by_cases hplace : place = group
  · subst hplace
    by_cases htask : task = .sourceFile
    · -- the file is read once more, to the same unit
      subst htask
      obtain ⟨later, other, hlater, hkeeps, hunit', hother, hhas'', _⟩ :=
        source_after hfits.live (hfits.contexts hcontext) hexecute hroom hcontext hsource.project
          hsource.source hread
      exact ⟨later, other, hlater, hsource.keeps hkeeps, hunit', hother, hhas''⟩
    · obtain ⟨done, hinputs, _, _, _, hown, hkeeps⟩ := exists_own hlate hexecute hcontext
      have hbinary : task ≠ .binaryPackage := by
        rintro rfl
        have := hinputs .binary (List.mem_cons_of_mem _ List.mem_cons_self)
        rw [LoadContext.has, hsource.binary] at this
        simp at this
      exact ⟨_, package, hown, hsource.keeps hkeeps, (hkeeps.unit htask).trans hunit,
        (hkeeps.package htask hbinary).trans hpackage, hhas'⟩
  · exact ⟨context, package, getElem?_groups_after hlate hexecute (Ne.symm hplace) hcontext, hsource,
      hunit, hpackage, hhas'⟩

/-- A task that finishes takes no source file off its way. -/
theorem SourceTrail.step (hgrammar : setting.grammar.SpellsNodes) {first : Pending LoadTask}
    (hsustained : Sustained setting (first :: rest) board)
    (hexecute : setting.workflow.execute first board = (.ok outcome, after))
    (hroom : after.world.index.HasRoom)
    (hunits : ∀ context, IsSource project path context →
      sourceUnit? setting context path = some unit)
    (h : SourceTrail project path unit (first :: rest) board) :
    SourceTrail project path unit (outcome.spawned ++ rest) after := by
  obtain ⟨hfits, _, hext⟩ := hsustained.extends_after hgrammar hexecute hroom
  have hlate := hsustained.late first List.mem_cons_self
  cases h with
  | file hwaits hcontext hsource =>
    rcases mem_after outcome.spawned hwaits with rfl | hstill
    · obtain ⟨later, package, hlater, hkeeps, hunit, hpackage, hhas, hspawned⟩ :=
        source_after hfits.live (hfits.contexts hcontext) hexecute hroom hcontext hsource.project
          hsource.source (hunits _ hsource)
      exact .classes (List.mem_append_left _ hspawned) hlater (hsource.keeps hkeeps) hunit hpackage
        hhas
    · obtain ⟨later, hlater, rfl | ⟨_, hkeeps⟩⟩ := exists_kept hlate hexecute hcontext
      · exact .file hstill hlater hsource
      · exact .file hstill hlater (hsource.keeps hkeeps)
  | classes hwaits hcontext hsource hunit hpackage hhas =>
    rcases mem_after outcome.spawned hwaits with rfl | hstill
    · exact .entered (holdsUnit_after hfits hexecute hroom hext hcontext hunit hpackage hhas)
    · obtain ⟨later, other, hlater, hsource', hunit', hother, hhas'⟩ :=
        source_kept hfits hlate hexecute hroom hext hcontext hsource (hunits _ hsource) hunit
          hpackage hhas
      exact .classes hstill hlater hsource' hunit' hother hhas'
  | entered hholds => exact .entered (stable_holdsUnit project unit _ _ hext hholds)

end Steps

/-! ## Whole runs -/

/-- While the index has room, a source file is on its way. -/
theorem isInvariant_sources (hgrammar : setting.grammar.SpellsNodes)
    {project : ItemId} {path : String} {unit : CompilationUnit}
    (hunits : ∀ context, IsSource project path context →
      sourceUnit? setting context path = some unit) :
    setting.workflow.IsInvariant (fun waiting board => Sustained setting waiting board ∧
      (board.world.index.HasRoom → SourceTrail project path unit waiting board)) where
  perm hperm h :=
    ⟨(isInvariant_sustained hgrammar).perm hperm h.1, fun hroom => (h.2 hroom).perm hperm⟩
  step {first rest board after outcome} h hexecute := by
    refine ⟨h.1.step hgrammar hexecute, fun hroom => ?_⟩
    have hgrown := (isProgress_grown setting).step first board
    rw [hexecute] at hgrown
    exact (h.2 (hgrown.hasRoom hroom)).step hgrammar h.1 hexecute hroom hunits

end CodeAtlas.Load
