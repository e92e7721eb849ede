/-
# Searching a pruned index

A load gives an index with all third-party items or one without those that first-party items do not
lead to.  The two hold the classes of every first-party source file.  So a query finds the same in
such a file as soon as what the classes of its references rest on was kept; a query about
declarations, or one that goes by what is written, always does.  A reference that is resolved through
a third-party item nobody recorded a link to is where the two differ.
-/
import CodeAtlas.Proofs.Load.FirstParty
import CodeAtlas.Proofs.Load.Loaded
import CodeAtlas.Proofs.Load.Registration
import CodeAtlas.Proofs.Prune.Embedding
import CodeAtlas.Proofs.Query.Agreement
import CodeAtlas.Query.Files

namespace CodeAtlas

open Load
open Source (CompilationUnit)

namespace Index

variable {index : Index}

/-! ## Room for more items -/

/-- Where items are numbered without gaps, the uppermost layer has used no number twice. -/
theorem Counted.hasRoom (h : index.Counted) : index.HasRoom := by
  have hstacked := h.stacked
  rw [IsStacked, layers] at hstacked
  cases hstacked with
  | cons numbered _ _ _ =>
    have hnodup : (index.top.ids.map (fun id => id.raw.toNat)).Nodup := by
      rw [List.Nodup, List.pairwise_map]
      refine (Layer.ids_pairwise numbered).imp (fun hlt heq => ?_)
      exact absurd (UInt32.lt_iff_toNat_lt.1 hlt) (by omega)
    have hfirst := UInt32.le_iff_toNat_le.1 h.first_le
    have hsub : index.top.ids.map (fun id => id.raw.toNat) ⊆
        List.range' index.top.firstRaw.toNat (index.nextRaw.toNat - index.top.firstRaw.toNat) := by
      intro raw hraw
      obtain ⟨id, hid, rfl⟩ := List.mem_map.1 hraw
      obtain ⟨_, hsome⟩ := (Layer.mem_ids_iff numbered).1 hid
      obtain ⟨item, hitem⟩ := Option.isSome_iff_exists.1 hsome
      have hle := UInt32.le_iff_toNat_le.1 (numbered.first_le hitem)
      have hlt := UInt32.lt_iff_toNat_lt.1 (h.numbered id (List.mem_append_right _ hid))
      rw [List.mem_range'_1]
      omega
    have hlength := (List.subperm_of_subset hnodup hsub).length_le
    rw [List.length_map, Layer.length_ids, List.length_range'] at hlength
    have hbound := index.nextRaw.toNat_lt
    rw [HasRoom]
    omega

/-! ## The classes of a project -/

/-- The classes that a unit declares are kept if they are in a first-party project. -/
theorem Orderly.declaredClasses_retained (h : index.Orderly) {unit : CompilationUnit}
    {project : ItemId} {name : String} {isPseudo : Bool}
    (hproject : index.IsProject project name false isPseudo)
    (hholds : HoldsUnit index project unit) :
    ∀ id ∈ CallContext.declaredClasses ⟨index, ⟨unit, some project⟩⟩, id ∈ index.retained := by
  intro id hid
  obtain ⟨decl, hdecl, hcls⟩ := List.mem_filterMap.1 hid
  obtain ⟨nested, hnested, hfound⟩ := Option.bind_eq_some_iff.1 hcls
  obtain ⟨package, cls, hpackage, hclass⟩ := hholds decl hdecl nested hnested
  have hkeyed : index.Keyed := ⟨h.coherent, h.distinct⟩
  rw [hkeyed.classInPackage_eq hpackage hclass] at hfound
  obtain rfl := Option.some.inj hfound
  obtain ⟨top, htop, hkind, _, hflag, _⟩ := hproject
  obtain ⟨packageItem, hpackageGet, hpackageParent, _⟩ := hpackage
  obtain ⟨clsItem, hclsGet, hclsParent, _⟩ := hclass
  have hroot := (h.coherent.owned.placed htop).parent_eq_none hkind
  exact retained_of_endsAt h.coherent.stacked
    (.above hclsGet hclsParent (.above hpackageGet hpackageParent (.here htop hroot))) hflag

end Index

/-! ## Two loads of a workspace -/

/-- The configuration of a load that prunes or does not. -/
def LoadConfig.pruning (config : LoadConfig) (prune : Bool) : LoadConfig :=
  { config with pruneThirdParty := prune }

section Loads

variable {disk : Disk} {grammar : Source.Grammar} {config : LoadConfig} {base : Option Index}
  {generation : Nat} {root : String} {thirdParty : List Regex.Matcher}

theorem LoadSetting.workflow_pruning (disk : Disk) (grammar : Source.Grammar) (config : LoadConfig)
    (thirdParty : List Regex.Matcher) (prune : Bool) :
    LoadSetting.workflow ⟨disk, grammar, config.pruning prune, thirdParty⟩ =
      LoadSetting.workflow ⟨disk, grammar, config, thirdParty⟩ :=
  rfl

/-- Whether a load prunes does not matter for its tasks. -/
theorem loadRun_pruning (prune : Bool) :
    loadRun ⟨disk, grammar, config.pruning prune, thirdParty⟩ base generation root =
      loadRun ⟨disk, grammar, config, thirdParty⟩ base generation root := by
  rw [loadRun, loadRun, LoadSetting.workflow_pruning]
  rfl

theorem LoadConfig.thirdPartyMatchers?_pruning
    (hpatterns : config.thirdPartyMatchers? = some thirdParty) (prune : Bool) :
    (config.pruning prune).thirdPartyMatchers? = some thirdParty :=
  hpatterns

/-- When a load without pruning succeeds, one with pruning does, and what they end with comes from
the same index. -/
theorem exists_pruned_of_whole {whole : LoadOutcome}
    (hpatterns : config.thirdPartyMatchers? = some thirdParty)
    (hwhole : loadWorkspace disk grammar (config.pruning false) base generation root = .ok whole) :
    let index := endIndex ⟨disk, grammar, config, thirdParty⟩ base generation root
    (∃ report, (loadRun ⟨disk, grammar, config, thirdParty⟩ base generation root).1 = .ok report) ∧
      whole.index = index.propagateThirdParty.2 ∧
      ∃ pruned, loadWorkspace disk grammar (config.pruning true) base generation root =
          .ok pruned ∧
        pruned.index = (index.prune (generation + 1)).index.propagateThirdParty.2 := by
  have hroot := isDirectory_of_loadWorkspace_ok hwhole
  obtain ⟨report, hok, hindex⟩ :=
    run_of_loadWorkspace_ok (LoadConfig.thirdPartyMatchers?_pruning hpatterns false) hwhole
  rw [loadRun_pruning] at hok hindex
  refine ⟨⟨report, hok⟩, hindex, ?_⟩
  obtain ⟨pruned, hpruned⟩ := (exists_loadWorkspace_ok_iff hroot
    (LoadConfig.thirdPartyMatchers?_pruning hpatterns true)).2
      ⟨report, by rw [loadRun_pruning]; exact hok⟩
  obtain ⟨_, _, hindex'⟩ :=
    run_of_loadWorkspace_ok (LoadConfig.thirdPartyMatchers?_pruning hpatterns true) hpruned
  rw [loadRun_pruning] at hindex'
  exact ⟨pruned, hpruned, hindex'⟩

/-! ## Source files of first-party projects -/

/-- A source file in the directory of a project that is not third-party, as part of which it is
searched. -/
def IsFirstPartySource (setting : LoadSetting) (root : String) (index : Index)
    (markers : List String) (path : String) : Prop :=
  ∃ dir ∈ (Discovery.run setting.disk setting.config root).1, path ∈ sourcePaths setting dir ∧
    ∃ project isPseudo, setting.disk.owningProject index markers path = some project ∧
      index.IsProject project (setting.disk.projectName dir) false isPseudo

theorem HoldsUnit.propagate {index : Index} (h : index.IsStacked) {project : ItemId}
    {unit : CompilationUnit} (hholds : HoldsUnit index project unit) :
    HoldsUnit index.propagateThirdParty.2 project unit := by
  intro decl hdecl name hname
  obtain ⟨package, cls, hpackage, hcls⟩ := hholds decl hdecl name hname
  exact ⟨package, cls, hpackage.propagate h, hcls.propagate h⟩

/-- The project of a first-party source file has the classes that the file declares. -/
theorem IsFirstPartySource.exists_holdsUnit {setting : LoadSetting} {markers : List String}
    {path text : String} {report : Tasks.Report}
    (hgrammar : setting.grammar.SpellsNodes) (hbase : IsBase base generation)
    (hok : (loadRun setting base generation root).1 = .ok report)
    (hroom : (endIndex setting base generation root).HasRoom)
    (h : IsFirstPartySource setting root
      (endIndex setting base generation root).propagateThirdParty.2 markers path)
    (htext : setting.disk.readText path = .ok text)
    (herrors : (CompilationUnit.parse path text (setting.grammar text)).hasErrors = false) :
    let index := (endIndex setting base generation root).propagateThirdParty.2
    ∃ project name isPseudo, setting.disk.owningProject index markers path = some project ∧
      index.IsProject project name false isPseudo ∧
      HoldsUnit index project (CompilationUnit.parse path text (setting.grammar text)) := by
  obtain ⟨dir, hdir, hpath, project, isPseudo, howning, hproject⟩ := h
  obtain ⟨hsound, found, standing, _, hfound, hsources⟩ := exists_project_of_run_ok hgrammar
    hbase.live_startIndex setting.config.workers hroom hok hdir
  obtain ⟨rfl, _, _⟩ := hsound.isProject_unique hfound
    ((Index.isProject_propagateThirdParty_iff hsound.stacked).1 hproject)
  exact ⟨found, _, isPseudo, howning, hproject,
    HoldsUnit.propagate hsound.stacked (hsources path hpath text htext herrors)⟩

/-! ## Searching -/

theorem Query.searchFiles_congr {query : Query} {index index' : Index} {markers paths : List String}
    (h : ∀ path ∈ paths, query.appliesTo path = true →
      query.searchFile disk grammar index' markers path =
        query.searchFile disk grammar index markers path) :
    query.searchFiles disk grammar index' markers paths =
      query.searchFiles disk grammar index markers paths := by
  have hall : ∀ list : List String, (∀ path ∈ list, query.searchFile disk grammar index' markers path =
        query.searchFile disk grammar index markers path) →
      list.mapM (query.searchFile disk grammar index' markers) =
        list.mapM (query.searchFile disk grammar index markers) := by
    intro list hlist
    induction list with
    | nil => rfl
    | cons first rest ih =>
      rw [List.mapM_cons, List.mapM_cons, hlist first List.mem_cons_self,
        ih (fun path hpath => hlist path (List.mem_cons_of_mem _ hpath))]
  rw [searchFiles, searchFiles, hall]
  intro path hpath
  obtain ⟨hmem, happlies⟩ := List.mem_filter.1 hpath
  exact h path hmem happlies

/-- The project that a file belongs to, in an index that lies in another. -/
theorem Index.Embeds.owningProject_eq {rename? : ItemId → Option ItemId} {a b : Index}
    (h : a.Embeds rename? b) (disk : Disk) (markers : List String) (path : String) :
    disk.owningProject b markers path = (disk.owningProject a markers path).bind rename? := by
  rw [Disk.owningProject, Disk.owningProject]
  cases (Path.withAncestors path).find? (disk.isProject markers) with
  | none => rfl
  | some dir => exact h.findItem_eq .none _ .project (by decide)

/-- A file is searched alike in an index that lies in another when what the search reads has a new
name. -/
theorem Index.Embeds.searchFile_eq {rename? : ItemId → Option ItemId} {a b : Index}
    (h : a.Embeds rename? b) {query : Query} {markers : List String} {path : String}
    (hkept : ∀ text, disk.readText path = .ok text →
      (CompilationUnit.parse path text (grammar text)).hasErrors = false →
      Kept rename? (disk.owningProject a markers path).toList ∧
      Kept rename? (CallContext.queryReads ⟨a, ⟨CompilationUnit.parse path text (grammar text),
        disk.owningProject a markers path⟩⟩ query)) :
    query.searchFile disk grammar b markers path = query.searchFile disk grammar a markers path := by
  rw [Query.searchFile, Query.searchFile]
  cases hread : disk.readText path with
  | error error => rfl
  | ok text =>
    show (if _ then _ else _) = (if _ then _ else _)
    split
    · rfl
    · rename_i herrors
      obtain ⟨hproject, hreads⟩ := hkept text hread (by simpa using herrors)
      have hembeds : CallContext.Embeds rename?
          ⟨a, ⟨CompilationUnit.parse path text (grammar text), disk.owningProject a markers path⟩⟩
          ⟨b, ⟨CompilationUnit.parse path text (grammar text), disk.owningProject b markers path⟩⟩ :=
        ⟨h, rfl, (Echoes.of_bind (h.owningProject_eq disk markers path)).rel
          (kept_toList.1 hproject), (kept_append.1 hreads).1⟩
      exact congrArg Except.ok (hembeds.search_eq hreads)

/-- A query finds the same in first-party source files of an index and of the pruned index when what
the classes of the references rest on was kept. -/
theorem searchFiles_pruned {whole : LoadOutcome} (hgrammar : grammar.SpellsNodes)
    (hbase : IsBase base generation) (hloaded : ∀ lower ∈ base, lower.Loaded)
    (hpatterns : config.thirdPartyMatchers? = some thirdParty)
    (hroom : (endIndex ⟨disk, grammar, config, thirdParty⟩ base generation root).size < 2 ^ 32)
    (hwhole : loadWorkspace disk grammar (config.pruning false) base generation root = .ok whole) :
    ∃ pruned, loadWorkspace disk grammar (config.pruning true) base generation root = .ok pruned ∧
      ∀ (query : Query) (markers paths : List String),
        (∀ path ∈ paths, query.appliesTo path = true → ∀ text, disk.readText path = .ok text →
          (CompilationUnit.parse path text (grammar text)).hasErrors = false →
          IsFirstPartySource ⟨disk, grammar, config, thirdParty⟩ root whole.index markers path ∧
          ∀ id ∈ CallContext.referenceReads
            ⟨whole.index, ⟨CompilationUnit.parse path text (grammar text),
              disk.owningProject whole.index markers path⟩⟩ query, id ∈ whole.index.retained) →
        query.searchFiles disk grammar pruned.index markers paths =
          query.searchFiles disk grammar whole.index markers paths := by
  obtain ⟨⟨report, hok⟩, hindex, pruned, hpruned, hindex'⟩ := exists_pruned_of_whole hpatterns hwhole
  have hstart : (startIndex base generation).Orderly := Index.orderly_startIndex
    (fun lower hlower => (hloaded lower hlower).isOrderly) (fun lower hlower => (hbase lower hlower).2)
  have horderly := orderly_endIndex hstart hroom
  have hflagged := horderly.propagateThirdParty
  have hembeds := (horderly.embeds_prune (generation + 1)).propagateThirdParty horderly
    (horderly.prune (generation + 1))
  have hkept : ∀ id ∈ (endIndex ⟨disk, grammar, config, thirdParty⟩ base generation
      root).propagateThirdParty.2.retained, (((endIndex ⟨disk, grammar, config, thirdParty⟩ base
        generation root).prune (generation + 1)).rename? id).isSome :=
    fun id hid => (Index.isSome_rename?_iff horderly.coherent.stacked).2
      (Index.retained_of_propagate horderly hid)
  refine ⟨pruned, hpruned, fun query markers paths hpaths => ?_⟩
  rw [hindex] at hpaths ⊢
  rw [hindex']
  refine Query.searchFiles_congr (fun path hpath happlies =>
    hembeds.searchFile_eq (fun text htext herrors => ?_))
  obtain ⟨hsource, hreads⟩ := hpaths path hpath happlies text htext herrors
  obtain ⟨project, name, isPseudo, howning, hproject, hholds⟩ := hsource.exists_holdsUnit hgrammar
    hbase hok horderly.coherent.counted.hasRoom htext herrors
  rw [howning] at hreads ⊢
  refine ⟨kept_toList.2 (fun id hid => hkept id ?_), kept_append.2
    ⟨fun id hid => hkept id (hflagged.declaredClasses_retained hproject hholds id hid),
      fun id hid => hkept id (hreads id hid)⟩⟩
  obtain rfl := Option.some.inj hid
  obtain ⟨top, htop, hkind, _, hflag, _⟩ := hproject
  have hroot := (hflagged.coherent.owned.placed htop).parent_eq_none hkind
  exact Index.retained_of_endsAt hflagged.coherent.stacked (.here htop hroot) hflag

end Loads

/-- The calls of the methods of a class `L`. -/
def callsOfL : Query :=
  ⟨.methodRef, [.className (.literal "L")]⟩

/-- The source file of the workspace. -/
def callingUnit : CompilationUnit :=
  .parse "ws/app/src/A.java" "class A \x7b L f; void m() \x7b f.run(); \x7d \x7d"
    (callingTexts "class A \x7b L f; void m() \x7b f.run(); \x7d \x7d")

/-- The call into the archive is found with and without the rest of the archive. -/
theorem searchFiles_pruned_calling : ∃ whole pruned,
    loadWorkspace callingDisk callingTexts (LoadConfig.pruning {} false) none 0 "ws" = .ok whole ∧
    loadWorkspace callingDisk callingTexts (LoadConfig.pruning {} true) none 0 "ws" = .ok pruned ∧
    callsOfL.searchFiles callingDisk callingTexts pruned.index [".project"] ["ws/app/src/A.java"] =
      callsOfL.searchFiles callingDisk callingTexts whole.index [".project"]
        ["ws/app/src/A.java"] := by
  have hpatterns : LoadConfig.thirdPartyMatchers? {} = some [] := rfl
  obtain ⟨hseen, whole, hwhole⟩ := @exists_loadWorkspace_of_runWithin callingDisk callingTexts
    (LoadConfig.pruning {} false) none 0 30 "ws" [] (fun index =>
      let whole := index.propagateThirdParty.2
      let owner := callingDisk.owningProject whole [".project"] "ws/app/src/A.java"
      decide (index.size < 2 ^ 32 ∧
        owner.any (fun id => (whole.get? id).any fun item =>
          item.kind == .project && item.name == "app" && !item.isThirdParty && !item.isPseudo) ∧
        ∀ id ∈ CallContext.referenceReads ⟨whole, ⟨callingUnit, owner⟩⟩ callsOfL,
          id ∈ whole.retained))
    (by decide +kernel) (LoadConfig.thirdPartyMatchers?_pruning hpatterns false) (by decide +kernel)
  obtain ⟨hroom, howner, hreads⟩ := of_decide_eq_true hseen
  obtain ⟨_, _, hindex⟩ := run_of_loadWorkspace_ok
    (LoadConfig.thirdPartyMatchers?_pruning hpatterns false) hwhole
  have hbase : IsBase none 0 := by
    intro lower hlower
    simp at hlower
  rw [endIndex, loadRun_pruning] at hroom
  obtain ⟨pruned, hpruned, hsame⟩ := searchFiles_pruned spellsNodes_callingTexts hbase (by simp)
    hpatterns hroom hwhole
  refine ⟨whole, pruned, hwhole, hpruned, hsame callsOfL [".project"] ["ws/app/src/A.java"] ?_⟩
  intro path hpath _ text htext _
  obtain rfl := List.mem_singleton.1 hpath
  obtain rfl : "class A \x7b L f; void m() \x7b f.run(); \x7d \x7d" = text := by
    have hread : callingDisk.readText "ws/app/src/A.java" =
        .ok "class A \x7b L f; void m() \x7b f.run(); \x7d \x7d" := by decide +kernel
    exact Except.ok.inj (hread.symm.trans htext)
  obtain ⟨project, hproject, hitem⟩ := Option.any_eq_true _ _ |>.1 howner
  obtain ⟨item, hget, hflags⟩ := Option.any_eq_true _ _ |>.1 hitem
  have hindex' : whole.index = (endIndex ⟨callingDisk, callingTexts, LoadConfig.pruning {} false,
    []⟩ none 0 "ws").propagateThirdParty.2 := hindex
  rw [hindex']
  refine ⟨⟨"ws/app", by decide +kernel, by decide +kernel, project, false, hproject, item, hget, ?_⟩,
    hreads⟩
  have hname : callingDisk.projectName "ws/app" = "app" := by decide +kernel
  rw [hname]
  simpa [and_assoc] using hflags

end CodeAtlas
