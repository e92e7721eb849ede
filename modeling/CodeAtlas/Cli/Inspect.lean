/-
# Inspection

Describing an index: how many items of each kind it holds, and what an item is linked to.
-/
import CodeAtlas.Snapshot.Relation
import CodeAtlas.Index.Hierarchy

namespace CodeAtlas.Index

/-- The kinds of items, containers before what they contain. -/
def kindOrder : List ItemKind :=
  [.project, .package, .class, .method, .field]

/-- A text with blanks behind it up to a width. -/
def padded (width : Nat) (s : String) : String :=
  s ++ String.ofList (List.replicate (width - s.length) ' ')

/-- The number of items of each kind, and how many are flagged. -/
def overview (index : Index) : List String :=
  kindOrder.map (fun kind => padded 8 kind.text ++ " " ++ Text.showNat (index.itemsOfKind kind).length) ++
    ["third-party " ++ Text.showNat (index.items.countP Item.isThirdParty) ++ ", pseudo " ++
      Text.showNat (index.items.countP Item.isPseudo)]

/-- The items of a qualified name: classes, members of classes, packages and projects. -/
def itemsNamed (index : Index) (name : String) : List ItemId :=
  let members := match Text.splitLast '.' name with
    | none => []
    | some (owner, member) => (index.findClasses owner).flatMap fun cls =>
        index.findAll (some cls) member .method ++ index.findAll (some cls) member .field
  index.findClasses name ++ members ++ index.findByName .package name ++
    index.findByName .project name

/-- The qualified name of an item, or its number when it has none. -/
def label (index : Index) (id : ItemId) : String :=
  (index.qualifiedName id).getD id.text

/-- What a relation leads to. -/
def targetLabel (index : Index) (relation : Relation) : String :=
  match index.resolveRaw relation.target with
  | some id => index.label id
  | none => "#" ++ Text.showWord32 relation.target

/-- The texts of the kinds of some relations, in order and without repetition. -/
def kindTexts (relations : List Relation) : List String :=
  ((relations.map (fun relation => relation.kind.text)).mergeSort (fun a b => decide (a ≤ b))).eraseReps

/-- An item with what it is linked to, the kinds of links in order of their texts. -/
def describe (index : Index) (id : ItemId) : List String :=
  match index.get? id with
  | none => []
  | some item =>
    let relations := Relation.ofItem item
    let line := fun (head : String) (targets : List String) =>
      "  " ++ head ++ ": " ++ ", ".intercalate targets
    let edges := (kindTexts relations).map fun kind =>
      line kind ((relations.filter (fun relation => relation.kind.text == kind)).map index.targetLabel)
    let users := item.incoming.toList.map index.label
    (item.kind.text ++ " " ++ index.label id) :: edges ++
      if users.isEmpty then [] else [line "USED_BY" users]

end CodeAtlas.Index
