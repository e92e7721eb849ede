/-
# Declarations of a class file

Entering a compiled class into an index: the class, its supertypes and its members.  Types that are
not in the index become the wildcard.
-/
import CodeAtlas.ClassFile.Basic
import CodeAtlas.Load.Declarations

namespace CodeAtlas.Load

/-- Enters a class, inner classes one inside the other. -/
def registerBinaryClass (package : ItemId) (binary : BinaryClass) : Edit ItemId := do
  let names := Text.splitOn '.' binary.name
  let outer ← Index.createClass package (names.head?.getD "")
  let cls ← names.tail.foldlM Index.createInnerClass outer
  Index.update cls fun item =>
    let item := item.setFlag .binary true
    if binary.isPublic then item.setFlag .projectVisible true else item
  return cls

/-- The class of a qualified name; one of the project comes first. -/
def classNamed (index : Index) (project : Option ItemId) (name : String) : Option ItemId :=
  index.preferProject project (index.findClasses name)

/-- Links a class to its supertypes; returns the number of those that are not in the index. -/
def linkBinaryClass (project : Option ItemId) (cls : ItemId) (binary : BinaryClass) :
    StateM Index Nat := fun index =>
  let superclass := binary.superclass.map (classNamed index project)
  let interfaces := binary.interfaces.map (classNamed index project)
  let found := interfaces.filterMap fun id => id
  ((superclass.toList ++ interfaces).countP Option.isNone,
    dependOn cls (superclass.join.toList ++ found)
      (index.modify cls (setSupertypes superclass.join found)))

/-- The item of a type. -/
def binaryType (project : Option ItemId) (type : TypeName) : Edit ItemId := do
  let base ←
    if primitives.contains type.name then Index.createPrimitive type.name
    else
      match classNamed (← get) project type.name with
      | some id => pure id
      | none => Index.createWildcard
  Index.createArrayClass base type.dims

/-- Enters a method. -/
def registerBinaryMethod (project : Option ItemId) (cls : ItemId) (method : BinaryMethod) :
    Edit PUnit := do
  let params ← method.params.mapM (binaryType project)
  let returnType ← match method.returnType with
    | some type => binaryType project type
    | none => Index.createPrimitive "void"
  let id ← Index.createMethod cls method.name (some params)
  Index.update id (fun item => (item.setId .returnType returnType).setFlag .binary true)

/-- Enters a field. -/
def registerBinaryField (project : Option ItemId) (cls : ItemId) (field : BinaryField) :
    Edit PUnit := do
  let type ← binaryType project field.type
  let id ← Index.createField cls field.name
  Index.update id (fun item => (item.setId .fieldType type).setFlag .binary true)

/-- Enters the methods and then the fields of a class. -/
def registerBinaryMembers (project : Option ItemId) (cls : ItemId) (binary : BinaryClass) :
    Edit PUnit := do
  binary.methods.forM (registerBinaryMethod project cls)
  binary.fields.forM (registerBinaryField project cls)

end CodeAtlas.Load
