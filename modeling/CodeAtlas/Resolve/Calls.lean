/-
# Calls

A call site names the classes that may declare the method it calls.  A call is resolved by name and
number of arguments, in each of these classes and its supertypes in turn.  A call that nothing
declares can be given a pseudo method, whose parameters are all the wildcard.
-/
import CodeAtlas.Index.Factory

namespace CodeAtlas

/-- What a call calls. -/
inductive CallKind where
  | method
  /-- A constructor: of a new object, of the same class or of the superclass. -/
  | constructor
deriving DecidableEq, Repr

/-- The method name of constructors. -/
def constructorName : String := "<init>"

/-- A call in a source file: its node, the name and number of arguments, the classes that may
declare its target, in lookup order, and the method declaration around it. -/
structure CallSite where
  node : Nat
  kind : CallKind
  name : String
  owners : List ItemId
  argCount : Nat
  enclosing : Option Nat
deriving DecidableEq, Repr

/-- What became of a call. -/
inductive CallTarget where
  | resolved (method : ItemId)
  /-- A pseudo method was made for it. -/
  | created (method : ItemId)
  | unresolved
deriving DecidableEq, Repr

namespace Index

/-- The method a call refers to. -/
def resolveCall (index : Index) (site : CallSite) : Option ItemId :=
  site.owners.findSome? (fun owner => index.findMethod owner (.ofCount site.name site.argCount))

/-- Whether a pseudo method may be put on a class: arrays and builtin classes get none. -/
def acceptsPseudo (index : Index) (owner : ItemId) : Bool :=
  match index.get? owner with
  | none => false
  | some item =>
    let isBuiltin :=
      match (index.projectOf owner).bind index.get? with
      | some project => project.name == builtinProject
      | none => false
    item.arrayBase.isNone && !isBuiltin

/-- The class that gets a pseudo method for a call: the first that may declare it. -/
def pseudoOwner? (index : Index) (site : CallSite) : Option ItemId :=
  site.owners.head?.filter index.acceptsPseudo

/-- Puts a pseudo method for a call on a class. -/
def createPseudo (owner : ItemId) (site : CallSite) : Edit ItemId := do
  let wildcard ← createWildcard
  let method ← createMethod owner site.name (some (List.replicate site.argCount wildcard))
  let isThirdParty := (← get).inThirdParty owner
  update method fun item =>
    let item := item.setFlag .pseudo true
    if isThirdParty then item.setFlag .thirdParty true else item
  return method

/-- Resolves a call; with `create`, one that nothing declares gets a pseudo method. -/
def resolveOrCreate (site : CallSite) (create : Bool) : Edit CallTarget := do
  match (← get).resolveCall site with
  | some method => return .resolved method
  | none =>
    if create then
      match (← get).pseudoOwner? site with
      | some owner => return .created (← createPseudo owner site)
      | none => return .unresolved
    else return .unresolved

end Index

end CodeAtlas
