/-
# Snapshots

A snapshot is an archive of text parts.  The parts `items<start>-<end>.txt` hold one item to a line
and the parts `rels<start>-<end>.txt` one relation to a line, each part at most `batchSize` lines.
Reading takes the item parts first, both sorts of parts by their start; other entries are ignored.
Snapshots are kept under the names `api-v<version>.zip`.
-/
import CodeAtlas.Disk.Archive
import CodeAtlas.Snapshot.ItemLine

namespace CodeAtlas

/-- One part of a snapshot. -/
structure SnapshotPart where
  name : String
  text : String
deriving DecidableEq, Repr

namespace Snapshot

/-- The number of lines of a full part. -/
def batchSize : Nat := 100000

/-! ## Writing -/

/-- A list cut into runs of `n + 1`, the last one possibly shorter. -/
def chunks {α : Type} (n : Nat) : List α → List (List α)
  | [] => []
  | a :: rest => (a :: rest.take n) :: chunks n (rest.drop n)
termination_by list => list.length
decreasing_by simp only [List.length_drop, List.length_cons]; omega

/-- The parts that hold the given lines; `start` is the place of the first line. -/
def partsFrom (stem : String) : Nat → List (List String) → List SnapshotPart
  | _, [] => []
  | start, batch :: rest =>
    let stop := start + batch.length - 1
    { name := stem ++ Text.showNat start ++ "-" ++ Text.showNat stop ++ ".txt"
      text := String.join (batch.map (fun line => line ++ "\n")) } ::
      partsFrom stem (start + batchSize) rest

/-- The parts that hold the given lines. -/
def parts (stem : String) (lines : List String) : List SnapshotPart :=
  partsFrom stem 0 (chunks (batchSize - 1) lines)

/-- The first number that does not exceed the one before it, with that one. -/
def firstDescent : List UInt32 → Option (UInt32 × UInt32)
  | last :: raw :: rest => if raw ≤ last then some (raw, last) else firstDescent (raw :: rest)
  | _ => none

/-- The parts of the snapshot of an index. -/
def write (index : Index) : Except SnapshotError (List SnapshotPart) :=
  let items := index.items
  match firstDescent (items.map (fun item => item.id.raw)) with
  | some (raw, last) => .error (.outOfOrder raw last)
  | none =>
    .ok (parts "items" (items.map (fun item => (ItemLine.ofItem item).text)) ++
      parts "rels" ((items.flatMap Relation.ofItem).map Relation.line))

/-! ## Reading -/

/-- The start that the name of a part spells out. -/
def partStart? (stem name : String) : Option Nat :=
  match (Text.stripLead? stem name).bind (Text.stripTail? ".txt") with
  | none => none
  | some range =>
    match Text.splitOnce '-' range with
    | none => none
    | some (start, _) => Text.readWord64? start

/-- The order in which parts are read: by start, then by name. -/
def readsBefore (a b : Nat × ArchiveEntry) : Bool :=
  a.1 < b.1 || (a.1 == b.1 && decide (a.2.name ≤ b.2.name))

/-- The parts of a sort, in reading order. -/
def partsOf (stem : String) (archive : Archive) : List ArchiveEntry :=
  let found := archive.filterMap fun entry =>
    (partStart? stem entry.name).map (fun start => (start, entry))
  (found.mergeSort readsBefore).map Prod.snd

/-- Reads the lines of a part into an index; blank lines are skipped. -/
def readPart (step : Index → String → Except SnapshotError Index) (index : Index)
    (entry : ArchiveEntry) : Except SnapshotError Index :=
  match entry.data.readText with
  | .error error => .error (.disk error)
  | .ok text => ((Text.lines text).filter (fun line => !Text.allBlank line)).foldlM step index

/-- Makes the link of a relation line. -/
def readRelation (index : Index) (line : String) : Except SnapshotError Index :=
  match Relation.ofLine line with
  | .error error => .error error
  | .ok relation => relation.apply index

/-- Builds an index of the given generation from a snapshot.  Items keep their numbers. -/
def read (generation : Nat) (archive : Archive) : Except SnapshotError Index := do
  let index ← (partsOf "items" archive).foldlM (readPart ItemLine.insert) (.empty generation)
  let index ← (partsOf "rels" archive).foldlM (readPart readRelation) index
  return index.rebuildRegistry

/-! ## Versions -/

/-- The file name of a version. -/
def fileName (version : UInt32) : String :=
  "api-v" ++ Text.showWord32 version ++ ".zip"

/-- The version that a file name spells out. -/
def versionOf? (name : String) : Option UInt32 :=
  ((Text.stripLead? "api-v" name).bind (Text.stripTail? ".zip")).bind Text.readWord32?

/-- The better of the snapshot found so far and a file; an earlier file wins over a later one of
the same version. -/
def newer (best : Option (UInt32 × String)) (name : String) : Option (UInt32 × String) :=
  match versionOf? name with
  | none => best
  | some version =>
    match best with
    | none => some (version, name)
    | some (known, _) => if known < version then some (version, name) else best

/-- The snapshot of the highest version among the files of a directory. -/
def latest (names : List String) : Option (UInt32 × String) :=
  names.foldl newer none

/-- The version after the highest one. -/
def nextVersion (names : List String) : UInt32 :=
  match latest names with
  | some (version, _) => version + 1
  | none => 1

end Snapshot

end CodeAtlas
