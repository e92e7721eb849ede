/-
# What can go wrong in the item graph

An operation on the graph is refused either because an argument does not fit or because the graph
is in a state that forbids it.
-/
import CodeAtlas.Item.Basic
import CodeAtlas.Text.Decimal

namespace CodeAtlas

/-- A handle as messages show it. -/
def ItemId.text (id : ItemId) : String :=
  "#" ++ Text.showWord32 id.raw

/-- Why an operation on the item graph is refused. -/
inductive GraphError where
  /-- The owner of a new item is not in the index. -/
  | unknownOwner (owner : ItemId)
  /-- The owner may not own an item of this kind. -/
  | cannotContain (ownerKind : ItemKind) (ownerName : String) (kind : ItemKind) (name : String)
  /-- Only a package may have the empty name. -/
  | emptyName (kind : ItemKind)
  /-- The item to nest a class in is not a class. -/
  | notClass (id : ItemId)
  /-- The class stands in no package. -/
  | noPackage (name : String)
  /-- The element type of an array is not a class. -/
  | badArrayBase (id : ItemId)
  /-- The name is not that of a primitive type. -/
  | notPrimitive (name : String)
  /-- The number lies below those this index hands out. -/
  | numberTooSmall (raw first : UInt32)
  /-- The number is taken. -/
  | numberTaken (raw : UInt32)
  /-- The parent of a link is not in the index. -/
  | unknownParent (id : ItemId)
  /-- The child of a link is not in the index. -/
  | unknownChild (id : ItemId)
  /-- The child has another parent. -/
  | alreadyOwned (child parent : ItemId)
deriving DecidableEq, Repr

namespace GraphError

/-- Whether the state of the graph, not an argument, is the cause. -/
def isState : GraphError → Bool
  | numberTooSmall .. | numberTaken .. | unknownParent .. | unknownChild .. | alreadyOwned .. => true
  | _ => false

/-- What went wrong, without the class of the error. -/
def detail : GraphError → String
  | unknownOwner owner => "unknown parent " ++ owner.text
  | cannotContain ownerKind ownerName kind name =>
    ownerKind.text ++ " " ++ ownerName ++ " cannot contain " ++ kind.text ++ " " ++ name
  | emptyName kind => "empty " ++ kind.text ++ " name"
  | notClass id => id.text ++ " is not a class"
  | noPackage name => "class " ++ name ++ " has no package"
  | badArrayBase id => "array base " ++ id.text ++ " is not a class"
  | notPrimitive name => name ++ " is not a primitive type"
  | numberTooSmall raw first =>
    "raw id " ++ Text.showWord32 raw ++ " precedes first id " ++ Text.showWord32 first ++
      " of this index"
  | numberTaken raw => "duplicate item id " ++ Text.showWord32 raw
  | unknownParent id => "unknown parent " ++ id.text
  | unknownChild id => "unknown child " ++ id.text
  | alreadyOwned child parent => child.text ++ " already belongs to " ++ parent.text

/-- The message of a refusal. -/
def message (error : GraphError) : String :=
  (if error.isState then "invalid state: " else "invalid argument: ") ++ error.detail

end GraphError

end CodeAtlas
