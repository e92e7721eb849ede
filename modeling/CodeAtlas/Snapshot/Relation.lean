/-
# Relations

A snapshot keeps the links between items as relations between their numbers, one to a line:
`r s <source> t <target> r <KIND>`.  Parents and incoming dependencies are not written; they follow
from the children and the dependencies.
-/
import CodeAtlas.Disk.Archive
import CodeAtlas.Index.Basic
import CodeAtlas.Text.Blank

namespace CodeAtlas

/-- Why a snapshot cannot be read or written. -/
inductive SnapshotError where
  /-- The line is not an item line. -/
  | badItemLine (line : String)
  /-- The line is not a relation line. -/
  | badRelationLine (line : String)
  /-- A relation names a number that no item has. -/
  | unknownNumber (raw : UInt32)
  /-- The items to be written are not in order. -/
  | outOfOrder (raw last : UInt32)
  /-- An item or a link is refused by the index. -/
  | graph (error : GraphError)
  /-- The file or a part of it cannot be read. -/
  | disk (error : DiskError)
  /-- The file is not an archive. -/
  | notArchive
deriving DecidableEq, Repr

namespace SnapshotError

/-- The message. -/
def message : SnapshotError → String
  | badItemLine line => "malformed snapshot: malformed item line: " ++ line
  | badRelationLine line => "malformed snapshot: malformed relationship line: " ++ line
  | unknownNumber raw =>
    "malformed snapshot: relationship names unknown id " ++ Text.showWord32 raw
  | outOfOrder raw last =>
    "invalid state: item id " ++ Text.showWord32 raw ++ " written after id " ++
      Text.showWord32 last
  | graph error => error.message
  | disk error => "I/O error: " ++ error.message
  | notArchive => "zip archive error: invalid Zip archive: Could not find EOCD"

end SnapshotError

/-- Kind of a relation, in the order in which the relations of one item are written. -/
inductive RelKind where
  | child
  | dependency
  | superclass
  | superinterface
  | returnType
  | paramType
  | fieldType
  | throws
  | innerClass
  | outerClass
  | arrayBase
deriving DecidableEq, Repr

namespace RelKind

/-- Every kind, in writing order. -/
def all : List RelKind :=
  [child, dependency, superclass, superinterface, returnType, paramType, fieldType, throws,
    innerClass, outerClass, arrayBase]

/-- The word of a kind. -/
def text : RelKind → String
  | child => "CHILD"
  | dependency => "DEPENDENCY"
  | superclass => "SUPERCLASS"
  | superinterface => "SUPERINTERFACE"
  | returnType => "RETURN_TYPE"
  | paramType => "PARAM_TYPE"
  | fieldType => "FIELD_TYPE"
  | throws => "THROWS"
  | innerClass => "INNER_CLASS"
  | outerClass => "OUTER_CLASS"
  | arrayBase => "ARRAY_BASE"

/-- Reads the word of a kind. -/
def ofText? (word : String) : Option RelKind :=
  all.find? (fun kind => kind.text == word)

/-- Reading a written kind gives it back. -/
@[simp] theorem ofText?_text (kind : RelKind) : ofText? kind.text = some kind := by
  cases kind <;> decide

/-- The items a given item is related to by a kind, in order. -/
def targets (item : Item) : RelKind → List ItemId
  | child => item.children.toList
  | dependency => item.dependencies.toList
  | superclass => item.superclass.toList
  | superinterface => item.superinterfaces
  | returnType => item.returnType.toList
  | paramType => item.paramTypes
  | fieldType => item.fieldType.toList
  | throws => item.thrownTypes
  | innerClass => item.innerClasses
  | outerClass => item.outerClass.toList
  | arrayBase => item.arrayBase.toList

/-- Records a relation that is kept as an attribute of its source. -/
def record (target : ItemId) (item : Item) : RelKind → Item
  | child => item
  | dependency => item
  | superclass => item.setId .superclass target
  | superinterface => item.pushNew .superinterfaces target
  | returnType => item.setId .returnType target
  | paramType => item.push .paramTypes target
  | fieldType => item.setId .fieldType target
  | throws => item.pushNew .thrownTypes target
  | innerClass => item.pushNew .innerClasses target
  | outerClass => item.setId .outerClass target
  | arrayBase => item.setId .arrayBase target

end RelKind

/-- One relation between item numbers. -/
structure Relation where
  source : UInt32
  target : UInt32
  kind : RelKind
deriving DecidableEq, Repr

namespace Relation

/-- The relations of an item, kind by kind. -/
def ofItem (item : Item) : List Relation :=
  RelKind.all.flatMap fun kind =>
    (kind.targets item).map (fun target => ⟨item.id.raw, target.raw, kind⟩)

/-- The line of a relation. -/
def line (relation : Relation) : String :=
  "r s " ++ Text.showWord32 relation.source ++ " t " ++ Text.showWord32 relation.target ++
    " r " ++ relation.kind.text

/-- Reads the words of a relation line. -/
def ofWords? : List String → Option Relation
  | ["r", "s", source, "t", target, "r", kind] =>
    match Text.readWord32? source, Text.readWord32? target, RelKind.ofText? kind with
    | some source, some target, some kind => some ⟨source, target, kind⟩
    | _, _, _ => none
  | _ => none

/-- Reads a relation line; any blanks may stand between its words. -/
def ofLine (line : String) : Except SnapshotError Relation :=
  match ofWords? (Text.words line) with
  | some relation => .ok relation
  | none => .error (.badRelationLine line)

/-- Finds the item of a number. -/
def endpoint (index : Index) (raw : UInt32) : Except SnapshotError ItemId :=
  match index.resolveRaw raw with
  | some id => .ok id
  | none => .error (.unknownNumber raw)

/-- Makes the link a relation stands for. -/
def link (index : Index) (source target : ItemId) : RelKind → Except SnapshotError Index
  | .child => (index.setParent target source).mapError .graph
  | .dependency => .ok (index.addDependency source target).2
  | kind => .ok (index.modify source (fun item => kind.record target item))

/-- Makes the link of a relation between items that have its numbers. -/
def apply (index : Index) (relation : Relation) : Except SnapshotError Index :=
  match endpoint index relation.source, endpoint index relation.target with
  | .ok source, .ok target => link index source target relation.kind
  | .error error, _ => .error error
  | .ok _, .error error => .error error

end Relation

end CodeAtlas
