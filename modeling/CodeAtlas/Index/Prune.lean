/-
# Pruning third-party items

Pruning copies the part of an index worth keeping into a fresh index: every item of a project not
flagged as third party and everything such items lead to.  A third-party item that is kept leads on
to its owner, its dependencies and its attributes only.
-/
import CodeAtlas.Index.Hierarchy
import Std.Data.TreeSet

namespace CodeAtlas

namespace Index

/-- The item at the top of the parent chain, within `steps` steps. -/
def rootWithin (index : Index) : Nat → ItemId → Option Item
  | 0, _ => none
  | steps + 1, id =>
    match index.get? id with
    | none => none
    | some item =>
      match item.parent with
      | some parent => rootWithin index steps parent
      | none => some item

/-- Whether the parent chain of an item ends at a project flagged as third party. -/
def ownedByThirdParty (index : Index) (id : ItemId) : Bool :=
  match index.rootWithin (index.size + 1) id with
  | some root => root.kind == .project && root.isThirdParty
  | none => false

/-- The handles an item leads to when it is kept. -/
def leadsTo (index : Index) (id : ItemId) : List ItemId :=
  match index.get? id with
  | none => []
  | some item =>
    let targets :=
      if index.ownedByThirdParty id then
        item.parent.toList ++ item.dependencies.toList ++ item.attributeIds
      else item.referencedIds
    targets.filter index.contains

/-- The handles that are kept whatever else is. -/
def firstParty (index : Index) : List ItemId :=
  index.ids.filter (fun id => !index.ownedByThirdParty id)

/-- Adds handles to a set; the second part lists those that are new. -/
def addAll (kept : Std.TreeSet ItemId) (ids : List ItemId) : Std.TreeSet ItemId × List ItemId :=
  ids.foldl
    (fun (kept, new) id => if kept.contains id then (kept, new) else (kept.insert id, id :: new))
    (kept, [])

/-- Follows the handles of a worklist and adds what they lead to, for at most `steps` handles. -/
def closeUnder (index : Index) : Nat → Std.TreeSet ItemId → List ItemId → Std.TreeSet ItemId
  | 0, kept, _ => kept
  | _ + 1, kept, [] => kept
  | steps + 1, kept, id :: work =>
    let (kept, new) := addAll kept (index.leadsTo id)
    closeUnder index steps kept (new ++ work)

/-- The handles that pruning keeps. -/
def retained (index : Index) : Std.TreeSet ItemId :=
  let (kept, work) := addAll ∅ index.firstParty
  index.closeUnder (index.size + 1) kept work

end Index

/-- The result of pruning: the new index, the new handle of every item kept and the number of
items left behind. -/
structure Pruned where
  index : Index
  renamed : List (ItemId × ItemId)
  removed : Nat

namespace Index

/-- Copies the items of the list into an index, one after the other. -/
def adoptAll (source target : Index) : List ItemId → List (ItemId × ItemId) × Index
  | [] => ([], target)
  | id :: rest =>
    match source.get? id with
    | none => adoptAll source target rest
    | some item =>
      let (new, target) := target.adopt item
      let (renamed, target) := adoptAll source target rest
      ((id, new) :: renamed, target)

/-- Copies what is worth keeping into a fresh index of the given generation.  References to items
left behind are dropped. -/
def prune (index : Index) (generation : Nat) : Pruned :=
  let kept := index.retained
  let old := index.ids.filter kept.contains
  let (renamed, copies) := index.adoptAll (.empty generation) old
  let table : Std.TreeMap ItemId ItemId := Std.TreeMap.ofList renamed
  let copies := renamed.foldl
    (fun copies entry => copies.modify entry.2 (fun item => item.remap (table[·]?))) copies
  { index := copies.rebuildRegistry
    renamed := renamed
    removed := index.ids.length - renamed.length }

end Index

end CodeAtlas
