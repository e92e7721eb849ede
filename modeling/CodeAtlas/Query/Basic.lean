/-
# Queries

A query says which nodes of a source file to look at and gives the filters they have to pass.
-/
import CodeAtlas.Disk.Path
import CodeAtlas.Query.Name
import CodeAtlas.Query.ParamCount

namespace CodeAtlas

/-- A condition on a node. -/
inductive Filter where
  /-- The simple name of a method or the qualified name of a class. -/
  | name (matcher : NameMatcher)
  /-- The qualified name of the node's class. -/
  | className (matcher : NameMatcher)
  | hasParam (count : ParamCount)
  /-- Some proper supertype of the node's class passes every filter. -/
  | hasSupertype (filters : List Filter)
  /-- The node is written in an `extends` or `implements` clause. -/
  | isSupertype
  /-- The nearest method declaration around the node passes every filter. -/
  | isInMethod (filters : List Filter)
  /-- Not every filter is passed. -/
  | not (filters : List Filter)
  | and (filters : List Filter)

namespace Filter

/-- The tag a filter is written with. -/
def tag : Filter → String
  | name _ => "name"
  | className _ => "classname"
  | hasParam _ => "hasparam"
  | hasSupertype _ => "hassupertype"
  | isSupertype => "issupertype"
  | isInMethod _ => "isinmethod"
  | not _ => "not"
  | and _ => "and"

/-- The filters inside a filter. -/
def inner : Filter → List Filter
  | hasSupertype filters => filters
  | isInMethod filters => filters
  | not filters => filters
  | and filters => filters
  | _ => []

/-- The place of a filter when calls are searched: what the call spells out comes first. -/
def rank : Filter → Nat
  | hasParam _ => 0
  | name _ => 1
  | className _ => 2
  | hasSupertype _ => 3
  | _ => 4

/-- Whether a filter looks only at what a call spells out. -/
def isSyntactic (filter : Filter) : Bool :=
  filter.rank ≤ 1

end Filter

/-- The nodes a query looks at. -/
inductive SearchKind where
  | classDecl
  | classRef
  | methodDecl
  | methodRef
deriving DecidableEq, Repr

namespace SearchKind

/-- Every kind. -/
def all : List SearchKind :=
  [classDecl, classRef, methodDecl, methodRef]

/-- The tag a kind is written with. -/
def tag : SearchKind → String
  | classDecl => "classdecl"
  | classRef => "classref"
  | methodDecl => "methoddecl"
  | methodRef => "methodref"

/-- The kind of a tag. -/
def ofTag? (tag : String) : Option SearchKind :=
  all.find? (fun kind => kind.tag == tag)

/-- Reading the tag of a kind gives it back. -/
@[simp] theorem ofTag?_tag (kind : SearchKind) : ofTag? kind.tag = some kind := by
  cases kind <;> decide

end SearchKind

/-- A query. -/
structure Query where
  kind : SearchKind
  filters : List Filter

/-- Refuses an empty list of filters. -/
def someFilters (tag : String) (filters : List Filter) : Except QueryError (List Filter) :=
  if filters.isEmpty then .error (.needsFilter tag) else .ok filters

namespace Query

/-- A query with at least one filter. -/
def make (kind : SearchKind) (filters : List Filter) : Except QueryError Query :=
  (someFilters kind.tag filters).map (fun filters => ⟨kind, filters⟩)

/-- Whether a file is searched: sources are told by their extension. -/
def appliesTo (_query : Query) (path : String) : Bool :=
  Path.extension? path == some "java"

/-- The filters in the order in which they are tried. -/
def orderedFilters (query : Query) : List Filter :=
  if query.kind = .methodRef then query.filters.mergeSort (fun a b => a.rank ≤ b.rank)
  else query.filters

end Query

end CodeAtlas
