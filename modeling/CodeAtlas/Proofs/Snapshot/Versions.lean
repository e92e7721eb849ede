/-
# Versions of snapshots

The file that counts as the latest of a directory has the highest version there, and the next version
lies above it unless the numbers are used up.  Indexing then writes a file that was not there, and what
was on the disk stays as it was.
-/
import CodeAtlas.Cli.Run
import CodeAtlas.Proofs.Disk.Paths
import CodeAtlas.Proofs.Load.Loaded

namespace CodeAtlas

/-! ## The latest version -/

namespace Snapshot

/-- What counts as the latest snapshot among file names: one of them with the highest version, or none
when none of them has a version. -/
def IsLatest (names : List String) : Option (UInt32 × String) → Prop
  | none => ∀ name ∈ names, versionOf? name = none
  | some (version, name) => name ∈ names ∧ versionOf? name = some version ∧
      ∀ other ∈ names, ∀ known, versionOf? other = some known → known ≤ version

theorem IsLatest.newer {names : List String} {best : Option (UInt32 × String)}
    (h : IsLatest names best) (name : String) : IsLatest (names ++ [name]) (newer best name) := by
  rw [Snapshot.newer]
  cases hversion : versionOf? name with
  | none =>
    cases best with
    | none => exact List.forall_mem_append.2 ⟨h, List.forall_mem_singleton.2 hversion⟩
    | some best =>
      obtain ⟨hmem, hbest, hmax⟩ := h
      refine ⟨List.mem_append_left _ hmem, hbest, List.forall_mem_append.2 ⟨hmax, ?_⟩⟩
      simp [hversion]
  | some version =>
    have hself : ∀ other ∈ [name], ∀ known, versionOf? other = some known → known = version := by
      simp [hversion]
    cases best with
    | none =>
      refine ⟨List.mem_append_right _ List.mem_cons_self, hversion,
        List.forall_mem_append.2 ⟨fun other hother known hknown => ?_, fun other hother known hknown => ?_⟩⟩
      · rw [h other hother] at hknown
        cases hknown
      · rw [hself other hother known hknown]
        exact UInt32.le_refl version
    | some best =>
      obtain ⟨hmem, hbest, hmax⟩ := h
      show IsLatest _ (if best.1 < version then some (version, name) else some best)
      split
      · rename_i hlater
        refine ⟨List.mem_append_right _ List.mem_cons_self, hversion,
          List.forall_mem_append.2 ⟨fun other hother known hknown => ?_, fun other hother known hknown => ?_⟩⟩
        · exact UInt32.le_trans (hmax other hother known hknown) (UInt32.le_of_lt hlater)
        · rw [hself other hother known hknown]
          exact UInt32.le_refl version
      · rename_i hlater
        refine ⟨List.mem_append_left _ hmem, hbest,
          List.forall_mem_append.2 ⟨hmax, fun other hother known hknown => ?_⟩⟩
        rw [hself other hother known hknown]
        exact UInt32.not_lt.1 hlater

theorem isLatest_latest (names : List String) : IsLatest names (latest names) := by
  induction names using List.reverseRecOn with
  | nil => simp [IsLatest, latest]
  | append_singleton names name ih =>
    rw [latest, List.foldl_append]
    exact ih.newer name

/-- The last version there is. -/
def lastVersion : UInt32 :=
  4294967295

theorem lt_add_one_of_ne_last {version : UInt32} (h : version ≠ lastVersion) : version < version + 1 := by
  rw [lastVersion, ← UInt32.toNat_inj.ne] at h
  rw [UInt32.lt_iff_toNat_lt, UInt32.toNat_add]
  have := version.toNat_lt
  simp at h ⊢
  omega

theorem le_max_left (a b : UInt32) : a ≤ max a b := by
  show a ≤ if a ≤ b then b else a
  split
  · assumption
  · exact UInt32.le_refl a

theorem le_max_right (a b : UInt32) : b ≤ max a b := by
  show b ≤ if a ≤ b then b else a
  split
  · exact UInt32.le_refl b
  · rename_i hnot
    exact UInt32.le_of_lt (UInt32.not_le.1 hnot)

/-- The next version lies above all versions while the last one is not among them. -/
theorem lt_nextVersion {names : List String} (h : ∀ name ∈ names, versionOf? name ≠ some lastVersion)
    {name : String} (hname : name ∈ names) {known : UInt32} (hknown : versionOf? name = some known) :
    known < nextVersion names := by
  have hlatest := isLatest_latest names
  rw [nextVersion]
  cases hbest : latest names with
  | none =>
    rw [hbest] at hlatest
    rw [hlatest name hname] at hknown
    cases hknown
  | some best =>
    rw [hbest] at hlatest
    obtain ⟨hmem, hversion, hmax⟩ := hlatest
    have hne : best.1 ≠ lastVersion := fun heq => h _ hmem (by rw [hversion, heq])
    exact UInt32.lt_of_le_of_lt (hmax name hname known hknown) (lt_add_one_of_ne_last hne)

theorem not_lastVersion_lt (version : UInt32) : ¬ lastVersion < version := by
  intro hlt
  have hbound := version.toNat_lt
  have hnat := UInt32.lt_iff_toNat_lt.1 hlt
  simp [lastVersion] at hnat
  omega

/-- The next version, or a higher one, lies above all versions exactly while the last one is not among
them. -/
theorem lt_max_nextVersion_iff {names : List String} {floor : UInt32} :
    (∀ name ∈ names, ∀ known, versionOf? name = some known → known < max (nextVersion names) floor) ↔
      ∀ name ∈ names, versionOf? name ≠ some lastVersion := by
  constructor
  · exact fun h name hname hlast => not_lastVersion_lt _ (h name hname _ hlast)
  · exact fun h name hname known hknown =>
      UInt32.lt_of_lt_of_le (lt_nextVersion h hname hknown) (le_max_left _ floor)

/-- Behind the last version only the version that is asked for remains. -/
theorem max_nextVersion_of_last {names : List String} {floor : UInt32} {name : String}
    (hname : name ∈ names) (hlast : versionOf? name = some lastVersion) :
    max (nextVersion names) floor = floor := by
  have hlatest := isLatest_latest names
  have hnext : nextVersion names = 0 := by
    rw [nextVersion]
    cases hbest : latest names with
    | none =>
      rw [hbest] at hlatest
      rw [hlatest name hname] at hlast
      cases hlast
    | some best =>
      rw [hbest] at hlatest
      obtain ⟨_, _, hmax⟩ := hlatest
      obtain heq : best.1 = lastVersion := UInt32.le_antisymm
        (UInt32.not_lt.1 (not_lastVersion_lt best.1)) (hmax name hname _ hlast)
      show best.1 + 1 = 0
      rw [heq]
      rfl
  rw [hnext]
  exact if_pos (UInt32.le_iff_toNat_le.2 (Nat.zero_le _))

/-- The file name of a version spells the version out. -/
theorem versionOf?_fileName (version : UInt32) : versionOf? (fileName version) = some version := by
  have hlead : Text.stripLead? "api-v" (fileName version) =
      some (String.ofList ((Text.showWord32 version).toList ++ ".zip".toList)) := by
    rw [fileName, Text.stripLead?, String.toList_append, String.toList_append, List.append_assoc,
      Text.afterLead?_append]
    rfl
  rw [versionOf?, hlead, Option.bind_some, Text.stripTail?_append, Option.bind_some,
    String.ofList_toList, Text.readWord32?_showWord32]

/-- A name of a later version than all is free. -/
theorem fileName_not_mem {names : List String} {version : UInt32}
    (h : ∀ name ∈ names, ∀ known, versionOf? name = some known → known < version) :
    fileName version ∉ names :=
  fun hmem => UInt32.lt_irrefl _ (h _ hmem version (versionOf?_fileName version))

end Snapshot

/-! ## Making directories -/

/-- What a sequence of steps that succeeds has done. -/
theorem exists_of_bind_ok {ε α β : Type} {result : Except ε α} {next : α → Except ε β} {value : β}
    (h : (result >>= next) = .ok value) : ∃ first, result = .ok first ∧ next first = .ok value := by
  cases result with
  | error error => cases h
  | ok first => exact ⟨first, rfl, h⟩

theorem ok_of_mapError_ok {ε δ α : Type} {result : Except ε α} {f : ε → δ} {value : α}
    (h : result.mapError f = .ok value) : result = .ok value := by
  cases result with
  | error error => cases h
  | ok first => exact congrArg Except.ok (Except.ok.inj h)

namespace Disk

variable {disk made made' later : Disk} {place place' : Place} {segment : String}
  {segments : List String}

/-- Everything on a disk is on another one, unchanged. -/
def IsWithin (disk later : Disk) : Prop :=
  ∀ place node, disk.node? place = some node → later.node? place = some node

theorem IsWithin.refl (disk : Disk) : disk.IsWithin disk :=
  fun _ _ hthere => hthere

theorem IsWithin.put (h : disk.IsWithin later) (hfree : disk.node? place = none) (node : DiskNode) :
    disk.IsWithin (later.put place node) := by
  intro other there hthere
  rw [node?_put_of_ne]
  · exact h other there hthere
  · rintro rfl
    rw [hfree] at hthere
    cases hthere

/-- Nothing stands below a place where nothing stands. -/
def IsRooted (disk : Disk) : Prop :=
  ∀ place name, disk.node? place = none → disk.node? (place ++ [name]) = none

theorem node?_eq_none_of_enter (h : disk.enter place segment = .error .missing)
    (hsegment : segment ≠ "..") : disk.node? (place ++ [segment]) = none := by
  rw [enter] at h
  split at h
  · cases h
  · split at h
    · cases h
    · rw [if_neg (by simpa using hsegment)] at h
      split at h
      · cases h
      · rename_i hfree
        simpa using hfree

/-- Where a segment that does not lead up leads to. -/
theorem eq_of_enter (h : disk.enter place segment = .ok place') (hsegment : segment ≠ "..") :
    place' = place ∨ place' = place ++ [segment] := by
  rw [enter] at h
  split at h
  · cases h
  · split at h
    · exact .inl (Except.ok.inj h).symm
    · rw [if_neg (by simpa using hsegment)] at h
      split at h
      · exact .inr (Except.ok.inj h).symm
      · cases h

/-- A segment leads to what is there, or a directory is made where nothing is. -/
theorem enterOrMake_cases (h : enterOrMake (place, made) segment = .ok (place', made')) :
    (made.enter place segment = .ok place' ∧ made' = made) ∨
      (segment ≠ ".." ∧ place' = place ++ [segment] ∧ made.node? place' = none ∧
        made' = made.put place' .directory) := by
  rw [enterOrMake] at h
  cases henter : made.enter place segment with
  | ok next =>
    simp only [henter, Except.ok.injEq, Prod.mk.injEq] at h
    obtain ⟨rfl, rfl⟩ := h
    exact .inl ⟨rfl, rfl⟩
  | error error =>
    simp only [henter] at h
    cases error with
    | missing =>
      dsimp only at h
      split at h
      · cases h
      · rename_i hsegment
        have hne : segment ≠ ".." := by simpa using hsegment
        obtain ⟨rfl, rfl⟩ := Prod.mk.inj (Except.ok.inj h)
        exact .inr ⟨hne, rfl, node?_eq_none_of_enter henter hne, rfl⟩
    | _ => cases h

/-- Below a place where nothing stood, everything is new. -/
theorem isWithin_of_makeBelow (hrooted : disk.IsRooted) (hsegments : ".." ∉ segments)
    (hwithin : disk.IsWithin made) (hplace : disk.node? place = none)
    (h : segments.foldlM enterOrMake (place, made) = .ok (place', made')) :
    disk.IsWithin made' ∧ disk.node? place' = none := by
  induction segments generalizing place made with
  | nil =>
    obtain ⟨rfl, rfl⟩ := Prod.mk.inj (Except.ok.inj h)
    exact ⟨hwithin, hplace⟩
  | cons segment segments ih =>
    rw [List.mem_cons, not_or] at hsegments
    obtain ⟨hsegment, hsegments⟩ := hsegments
    rw [List.foldlM_cons] at h
    obtain ⟨⟨next, _⟩, hstep, hrest⟩ := exists_of_bind_ok h
    obtain ⟨henter, rfl⟩ | ⟨_, rfl, _, rfl⟩ := enterOrMake_cases hstep
    · refine ih hsegments hwithin ?_ hrest
      rcases eq_of_enter henter (Ne.symm hsegment) with rfl | rfl
      · exact hplace
      · exact hrooted place segment hplace
    · have hfree := hrooted place segment hplace
      exact ih hsegments (hwithin.put hfree _) hfree hrest

/-- Following segments that lead somewhere makes nothing. -/
theorem foldlM_enterOrMake_of_enter (h : segments.foldlM disk.enter place = .ok place') :
    segments.foldlM enterOrMake (place, disk) = .ok (place', disk) := by
  induction segments generalizing place with
  | nil =>
    obtain rfl := Except.ok.inj h
    rfl
  | cons segment segments ih =>
    rw [List.foldlM_cons] at h ⊢
    obtain ⟨next, henter, hrest⟩ := exists_of_bind_ok h
    have hmake : enterOrMake (place, disk) segment = .ok (next, disk) := by
      rw [enterOrMake]
      simp only [henter]
    rw [hmake]
    exact ih hrest

/-- Segments that do not lead up lead to what is there, or to a new directory. -/
theorem foldlM_enterOrMake_cases (hrooted : disk.IsRooted) (hsegments : ".." ∉ segments)
    (h : segments.foldlM enterOrMake (place, disk) = .ok (place', later)) :
    (segments.foldlM disk.enter place = .ok place' ∧ later = disk) ∨
      (disk.IsWithin later ∧ disk.node? place' = none) := by
  induction segments generalizing place with
  | nil =>
    obtain ⟨rfl, rfl⟩ := Prod.mk.inj (Except.ok.inj h)
    exact .inl ⟨rfl, rfl⟩
  | cons segment segments ih =>
    have hrest : ".." ∉ segments := fun hmem => hsegments (List.mem_cons_of_mem _ hmem)
    rw [List.foldlM_cons] at h ⊢
    obtain ⟨⟨next, _⟩, hstep, hlater⟩ := exists_of_bind_ok h
    obtain ⟨henter, rfl⟩ | ⟨_, _, hfree, rfl⟩ := enterOrMake_cases hstep
    · rw [henter]
      exact ih hrest hlater
    · exact .inr (isWithin_of_makeBelow hrooted hrest ((IsWithin.refl disk).put hfree _) hfree hlater)

variable {path : String}

/-- Making a path follows its segments. -/
theorem foldlM_of_makePath (hpath : path ≠ "") (h : disk.makePath path = .ok (place, later)) :
    (Text.splitOn '/' path).foldlM enterOrMake ([], disk) = .ok (place, later) ∧
      Path.isAbsolute path = false := by
  rw [makePath, if_neg (by simpa using hpath)] at h
  cases habsolute : Path.isAbsolute path with
  | true =>
    rw [habsolute] at h
    cases h
  | false =>
    rw [habsolute, if_neg Bool.false_ne_true] at h
    obtain ⟨state, hfold, hrest⟩ := exists_of_bind_ok h
    dsimp only at hrest
    split at hrest
    · exact ⟨hfold.trans hrest, rfl⟩
    · cases hrest

/-- Whether making a path leaves what is on a disk alone: the path leads somewhere, or it does not lead
up and nothing stands outside the directories. -/
def IsSafePath (disk : Disk) (path : String) : Prop :=
  (disk.locate path).isOk ∨ (path ≠ "" ∧ ".." ∉ Text.splitOn '/' path ∧ disk.IsRooted)

theorem locate_eq (hpath : path ≠ "") (habsolute : Path.isAbsolute path = false) :
    disk.locate path = (Text.splitOn '/' path).foldlM disk.enter [] := by
  rw [locate, if_neg (by simp [hpath, habsolute])]

/-- Making a safe path leads to where the path leads, or to a place where nothing stood. -/
theorem makePath_cases (hsafe : disk.IsSafePath path) (h : disk.makePath path = .ok (place, later)) :
    (disk.locate path = .ok place ∧ later = disk) ∨
      (disk.IsWithin later ∧ disk.node? place = none ∧ disk.IsRooted) := by
  rcases hsafe with hlocate | ⟨hpath, hsegments, hrooted⟩
  · cases hplace : disk.locate path with
    | error error =>
      rw [hplace] at hlocate
      cases hlocate
    | ok there =>
      have hrelative := disk.isRelative_of_locate hplace
      obtain ⟨hfold, habsolute⟩ := foldlM_of_makePath hrelative.ne_empty h
      rw [locate_eq hrelative.ne_empty habsolute] at hplace
      rw [foldlM_enterOrMake_of_enter hplace] at hfold
      obtain ⟨rfl, rfl⟩ := Prod.mk.inj (Except.ok.inj hfold)
      exact .inl ⟨rfl, rfl⟩
  · obtain ⟨hfold, habsolute⟩ := foldlM_of_makePath hpath h
    rw [locate_eq hpath habsolute]
    exact (foldlM_enterOrMake_cases hrooted hsegments hfold).imp_right
      fun ⟨hwithin, hfree⟩ => ⟨hwithin, hfree, hrooted⟩

/-- What stands in a directory is among its names. -/
theorem mem_names_of_node? (hlocate : disk.locate path = .ok place) {name : String} {node : DiskNode}
    (h : disk.node? (place ++ [name]) = some node) : name ∈ disk.names path := by
  rw [node?, if_neg (by simp)] at h
  obtain ⟨before, after, hnodes, _⟩ := List.lookup_eq_some_iff.1 h
  have hentry : (place ++ [name], node) ∈ disk.nodes := by
    rw [hnodes]
    exact List.mem_append_right _ List.mem_cons_self
  rw [names, hlocate]
  exact List.mem_filterMap.2 ⟨_, hentry, by simp⟩

end Disk

/-! ## Writing the next version -/

namespace Snapshot

variable {disk later : Disk} {index : Index} {dir path : String} {version : UInt32}

/-- Saving makes the path of the directory and puts one file into it. -/
theorem save_ok (h : save disk index dir version = .ok (path, later)) :
    path = Path.join dir (fileName version) ∧ ∃ place made entries,
      disk.makePath dir = .ok (place, made) ∧
        later = made.put (place ++ [fileName version]) (.archive entries) := by
  rw [save] at h
  obtain ⟨⟨place, made⟩, hmake, hrest⟩ := exists_of_bind_ok h
  dsimp only at hrest
  split at hrest
  · cases hrest
  · obtain ⟨parts, _, hdone⟩ := exists_of_bind_ok hrest
    obtain ⟨rfl, rfl⟩ := Prod.mk.inj (Except.ok.inj hdone)
    exact ⟨rfl, place, made, _, ok_of_mapError_ok hmake, rfl⟩

/-- A snapshot whose name is free leaves everything on the disk alone. -/
theorem isWithin_of_save (hsafe : disk.IsSafePath dir) (hfree : fileName version ∉ disk.names dir)
    (h : save disk index dir version = .ok (path, later)) : disk.IsWithin later := by
  obtain ⟨_, place, made, entries, hmake, rfl⟩ := save_ok h
  obtain ⟨hlocate, rfl⟩ | ⟨hwithin, hplace, hrooted⟩ := Disk.makePath_cases hsafe hmake
  · refine (Disk.IsWithin.refl made).put ?_ _
    cases hthere : made.node? (place ++ [fileName version]) with
    | none => rfl
    | some node => exact absurd (Disk.mem_names_of_node? hlocate hthere) hfree
  · exact hwithin.put (hrooted place _ hplace) _

end Snapshot

namespace Cli

open Snapshot (versionOf? fileName lastVersion)

variable {setting : Setting} {options : IndexOptions} {disk later : Disk} {lines : List String}

/-- What indexing writes. -/
theorem runIndex_ok (h : runIndex setting options disk = .ok (lines, later)) :
    ∃ config index, loadConfig setting disk options.config options.workers options.noPrune = .ok config ∧
      ∃ path, lines = [path] ∧
        Snapshot.save disk index (options.out.getD options.path)
          (max (Snapshot.nextVersion (disk.names (options.out.getD options.path)))
            config.snapshotVersion) = .ok (path, later) := by
  rw [runIndex] at h
  obtain ⟨config, hconfig, hbase⟩ := exists_of_bind_ok h
  obtain ⟨base, _, hload⟩ := exists_of_bind_ok hbase
  obtain ⟨outcome, _, hwrite⟩ := exists_of_bind_ok hload
  obtain ⟨⟨path, made⟩, hsave, hdone⟩ := exists_of_bind_ok hwrite
  obtain ⟨rfl, rfl⟩ := Prod.mk.inj (Except.ok.inj hdone)
  exact ⟨config, outcome.index, hconfig, path, rfl, ok_of_mapError_ok hsave⟩

/-- Indexing writes the version after the highest one in the directory, or a higher one that is asked
for.  It lies above all versions there, so that its file is new and everything on the disk stays as it
was, exactly as long as the last number is not in use; behind that one, the version that is asked for
is written whatever is there. -/
theorem runIndex_version (h : runIndex setting options disk = .ok (lines, later)) :
    ∃ config version, loadConfig setting disk options.config options.workers options.noPrune = .ok config ∧
      lines = [Path.join (options.out.getD options.path) (fileName version)] ∧
      config.snapshotVersion ≤ version ∧
      ((∀ name ∈ disk.names (options.out.getD options.path), ∀ known,
          versionOf? name = some known → known < version) ↔
        ∀ name ∈ disk.names (options.out.getD options.path), versionOf? name ≠ some lastVersion) ∧
      ((∀ name ∈ disk.names (options.out.getD options.path), versionOf? name ≠ some lastVersion) →
        fileName version ∉ disk.names (options.out.getD options.path) ∧
          (disk.IsSafePath (options.out.getD options.path) → disk.IsWithin later)) ∧
      ((∃ name ∈ disk.names (options.out.getD options.path), versionOf? name = some lastVersion) →
        version = config.snapshotVersion) ∧
      Snapshot.IsLatest (disk.names (options.out.getD options.path))
        (Snapshot.latest (disk.names (options.out.getD options.path))) := by
  obtain ⟨config, index, hconfig, path, rfl, hsave⟩ := runIndex_ok h
  obtain ⟨rfl, _⟩ := Snapshot.save_ok hsave
  refine ⟨config, _, hconfig, rfl, Snapshot.le_max_right _ _, Snapshot.lt_max_nextVersion_iff,
    fun hlast => ?_, fun ⟨_, hname, hlast⟩ => Snapshot.max_nextVersion_of_last hname hlast,
    Snapshot.isLatest_latest _⟩
  have hfree : fileName (max (Snapshot.nextVersion (disk.names (options.out.getD options.path)))
      config.snapshotVersion) ∉ disk.names (options.out.getD options.path) :=
    Snapshot.fileName_not_mem (Snapshot.lt_max_nextVersion_iff.2 hlast)
  exact ⟨hfree, fun hsafe => Snapshot.isWithin_of_save hsafe hfree hsave⟩

/-- A workspace without projects that holds a snapshot. -/
def versionedDisk : Disk :=
  ⟨[(["ws"], .directory), (["ws", "api-v3.zip"], .archive [])]⟩

/-- The next snapshot of the workspace stands beside the one there is. -/
theorem runIndex_version_versioned : ∃ later,
    runIndex ⟨emptyTexts, fun _ => none⟩ { path := "ws", noPrune := true } versionedDisk =
      .ok (["ws/api-v4.zip"], later) ∧ versionedDisk.IsWithin later := by
  obtain ⟨hseen, outcome, hload⟩ := @exists_loadWorkspace_of_runWithin versionedDisk emptyTexts
    { pruneThirdParty := false } none 1 20 "ws" []
    (fun index => (Snapshot.firstDescent
      (index.propagateThirdParty.2.items.map (fun item => item.id.raw))).isNone)
    (by decide +kernel) rfl (by decide +kernel)
  have hpatterns : { pruneThirdParty := false : LoadConfig }.thirdPartyMatchers? = some [] := rfl
  obtain ⟨_, _, hindex⟩ := run_of_loadWorkspace_ok hpatterns hload
  have hascends : Snapshot.firstDescent (outcome.index.items.map (fun item => item.id.raw)) = none := by
    rw [hindex]
    exact Option.isNone_iff_eq_none.1 hseen
  have hrun : ∃ later, runIndex ⟨emptyTexts, fun _ => none⟩ { path := "ws", noPrune := true }
      versionedDisk = .ok (["ws/api-v4.zip"], later) := by
    have hnext : max (Snapshot.nextVersion (versionedDisk.names "ws")) 1 = 4 := by decide +kernel
    have hsave : ∃ later, Snapshot.save versionedDisk outcome.index "ws" 4 =
        .ok ("ws/api-v4.zip", later) := by
      have hwrite : ∃ parts, Snapshot.write outcome.index = .ok parts := by
        simp only [Snapshot.write, hascends]
        exact ⟨_, rfl⟩
      obtain ⟨parts, hparts⟩ := hwrite
      rw [Snapshot.save, hparts]
      exact ⟨_, rfl⟩
    obtain ⟨later, hsave⟩ := hsave
    refine ⟨later, ?_⟩
    show ((loadWorkspace versionedDisk emptyTexts { pruneThirdParty := false } none 1 "ws").mapError
      LoadError.message >>= fun outcome => (Snapshot.save versionedDisk outcome.index "ws"
        (max (Snapshot.nextVersion (versionedDisk.names "ws")) 1)).mapError SnapshotError.message >>=
        fun saved => pure ([saved.1], saved.2)) = _
    rw [hload, hnext]
    show ((Snapshot.save versionedDisk outcome.index "ws" 4).mapError SnapshotError.message >>=
      fun saved => pure ([saved.1], saved.2)) = _
    rw [hsave]
    rfl
  obtain ⟨later, hrun⟩ := hrun
  obtain ⟨_, _, _, _, _, _, hnew, _⟩ := runIndex_version hrun
  refine ⟨later, hrun, (hnew ?_).2 (.inl (by decide +kernel))⟩
  decide +kernel

end Cli

end CodeAtlas
