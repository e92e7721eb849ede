/-
# Disks on which archives hold other entries

What an archive holds shows only to those who open it as an archive.  A disk on which the archives hold
other entries has the same directories and files, is traversed in the same way, and describes the same
project directories.
-/
import CodeAtlas.Load.Project

namespace CodeAtlas

/-- What stands at a place when an archive there holds other entries. -/
def DiskNode.changed (change : Archive → Archive) : DiskNode → DiskNode
  | archive entries => archive (change entries)
  | node => node

theorem DiskNode.isDirectory_changed (change : Archive → Archive) (node : DiskNode) :
    (node.changed change).isDirectory = node.isDirectory := by
  cases node <;> rfl

namespace Disk

/-- A disk with the same directories and files, on which the archives hold other entries. -/
def withArchives (disk : Disk) (change : Place → Archive → Archive) : Disk :=
  ⟨disk.nodes.map fun entry => (entry.1, entry.2.changed (change entry.1))⟩

variable (disk : Disk) (change : Place → Archive → Archive)

theorem node?_withArchives (place : Place) :
    (disk.withArchives change).node? place = (disk.node? place).map (DiskNode.changed (change place)) := by
  unfold node? withArchives
  by_cases hroot : place.isEmpty = true
  · rw [if_pos hroot, if_pos hroot]
    rfl
  · rw [if_neg hroot, if_neg hroot]
    induction disk.nodes with
    | nil => rfl
    | cons first rest ih =>
      obtain ⟨other, node⟩ := first
      rw [List.map_cons, List.lookup_cons, List.lookup_cons, ih]
      cases hplace : place == other with
      | false => rfl
      | true =>
        rw [beq_iff_eq] at hplace
        rw [hplace]
        rfl

/-! ## Following paths -/

theorem enter_withArchives (place : Place) (segment : String) :
    (disk.withArchives change).enter place segment = disk.enter place segment := by
  have hdirectory : ((disk.withArchives change).node? place).any DiskNode.isDirectory =
      (disk.node? place).any DiskNode.isDirectory := by
    rw [node?_withArchives, Option.any_map]
    congr 1
    funext node
    exact node.isDirectory_changed _
  unfold enter
  rw [hdirectory, node?_withArchives, Option.isSome_map]

theorem locate_withArchives (path : String) :
    (disk.withArchives change).locate path = disk.locate path := by
  have henter : (disk.withArchives change).enter = disk.enter := by
    funext place segment
    exact disk.enter_withArchives change place segment
  unfold locate
  rw [henter]

/-- A path leads to the same node, but for what an archive at that place holds. -/
theorem exists_open?_withArchives (path : String) : ∃ place,
    (∀ other, disk.locate path = .ok other → other = place) ∧
      (disk.withArchives change).open? path =
        (disk.open? path).map (DiskNode.changed (change place)) := by
  unfold open?
  rw [locate_withArchives]
  rcases disk.locate path with error | place
  · exact ⟨[], by simp, rfl⟩
  · refine ⟨place, by simp, ?_⟩
    simp only [bind, Except.bind, node?_withArchives]
    cases hnode : disk.node? place with
    | none => rfl
    | some node => rfl

theorem isDirectory_withArchives (path : String) :
    (disk.withArchives change).isDirectory path = disk.isDirectory path := by
  obtain ⟨_, _, hopen⟩ := disk.exists_open?_withArchives change path
  unfold isDirectory
  rw [hopen]
  rcases disk.open? path with error | node
  · rfl
  · exact node.isDirectory_changed _

theorem isFile_withArchives (path : String) :
    (disk.withArchives change).isFile path = disk.isFile path := by
  obtain ⟨_, _, hopen⟩ := disk.exists_open?_withArchives change path
  unfold isFile
  rw [hopen]
  rcases disk.open? path with error | node
  · rfl
  · exact congrArg Bool.not (node.isDirectory_changed _)

theorem readText_withArchives (path : String) :
    (disk.withArchives change).readText path = disk.readText path := by
  obtain ⟨_, _, hopen⟩ := disk.exists_open?_withArchives change path
  unfold readText
  rw [hopen]
  rcases disk.open? path with error | node
  · rfl
  · cases node <;> rfl

/-- The archive that a path leads to holds other entries. -/
theorem exists_archive?_withArchives (path : String) : ∃ place,
    (∀ other, disk.locate path = .ok other → other = place) ∧
      (disk.withArchives change).archive? path = (disk.archive? path).map (change place) := by
  obtain ⟨place, hplace, hopen⟩ := disk.exists_open?_withArchives change path
  refine ⟨place, hplace, ?_⟩
  unfold archive?
  rw [hopen]
  rcases disk.open? path with error | node
  · rfl
  · cases node <;> rfl

/-! ## Traversals -/

theorem walk_withArchives (root : String) :
    (disk.withArchives change).walk root = disk.walk root := by
  have hvisit : ∀ place, (disk.withArchives change).nodes.filterMap (visit? root place) =
      disk.nodes.filterMap (visit? root place) := by
    intro place
    unfold withArchives
    rw [List.filterMap_map]
    congr 1
    funext entry
    show visit? root place (entry.1, entry.2.changed _) = visit? root place entry
    unfold visit?
    rw [DiskNode.isDirectory_changed]
  unfold walk
  rw [locate_withArchives, isDirectory_withArchives]
  rcases disk.locate root with error | place
  · rfl
  · cases disk.isDirectory root with
    | false => rfl
    | true => exact congrArg _ (hvisit place)

theorem filesWithExtension_withArchives (root extension : String) :
    (disk.withArchives change).filesWithExtension root extension =
      disk.filesWithExtension root extension := by
  unfold filesWithExtension
  rw [walk_withArchives]

/-! ## Project directories -/

theorem isProject_withArchives (markers : List String) (dir : String) :
    (disk.withArchives change).isProject markers dir = disk.isProject markers dir := by
  unfold isProject
  simp only [isFile_withArchives]

theorem classPath?_withArchives (dir : String) :
    (disk.withArchives change).classPath? dir = disk.classPath? dir := by
  unfold classPath?
  rw [readText_withArchives]

theorem sourceFolders_withArchives (config : LoadConfig) (dir : String) :
    (disk.withArchives change).sourceFolders config dir = disk.sourceFolders config dir := by
  unfold sourceFolders
  simp only [classPath?_withArchives, isDirectory_withArchives]

theorem projectName_withArchives (dir : String) :
    (disk.withArchives change).projectName dir = disk.projectName dir := by
  unfold projectName
  rw [readText_withArchives]

theorem projectDependencies_withArchives (dir : String) (folders : List String) :
    (disk.withArchives change).projectDependencies dir folders =
      disk.projectDependencies dir folders := by
  unfold projectDependencies requiredProjects
  simp only [classPath?_withArchives, readText_withArchives]

/-- The same project directories and archives are found. -/
theorem discover_withArchives (config : LoadConfig) (root : String) :
    Discovery.run (disk.withArchives change) config root = Discovery.run disk config root := by
  have hstep : Discovery.step (disk.withArchives change) config = Discovery.step disk config := by
    funext found visit
    unfold Discovery.step
    rw [isProject_withArchives, sourceFolders_withArchives]
  unfold Discovery.run
  rw [hstep, walk_withArchives]

end Disk

end CodeAtlas
