/-
# Operations on an index

The operations by which an index is built, as data: finding or creating items, setting attributes,
recording and removing dependencies, resolving calls and flagging third-party items.  The items
that an operation names are left open as a parameter, so that one operation can be given by handles
or by item numbers.  An operation answers with what it found, made or changed, or with the message
of its refusal.
-/
import CodeAtlas.Resolve.Calls

namespace CodeAtlas

variable {ι κ : Type}

/-! ## Settings -/

namespace AttrKey

/-- The attributes that hold one item. -/
def holdsOne : AttrKey → Bool
  | superclass | returnType | fieldType | outerClass | arrayBase => true
  | _ => false

/-- The attributes that hold a list of different items. -/
def holdsMany : AttrKey → Bool
  | superinterfaces | thrownTypes | innerClasses => true
  | _ => false

theorem holdsOne_superclass : superclass.holdsOne = true := rfl

end AttrKey

/-- What can be set on an item. -/
inductive Setting (ι : Type) where
  /-- The item under a key that holds one. -/
  | one (key : { key : AttrKey // key.holdsOne = true }) (target : ι)
  /-- One more item under a key that holds different items. -/
  | member (key : { key : AttrKey // key.holdsMany = true }) (target : ι)
  /-- The parameter list. -/
  | params (types : List ι)
  /-- A flag, under any key. -/
  | flag (key : AttrKey) (value : Bool)

namespace Setting

/-- The items that a setting names. -/
def targets : Setting ι → List ι
  | one _ target => [target]
  | member _ target => [target]
  | params types => types
  | flag _ _ => []

/-- A setting with its items sent through `f`. -/
def map (f : ι → κ) : Setting ι → Setting κ
  | one key target => one key (f target)
  | member key target => member key (f target)
  | params types => params (types.map f)
  | flag key value => flag key value

/-- A setting with its items sent through `f`; none when `f` refuses one of them. -/
def mapM (f : ι → Option κ) : Setting ι → Option (Setting κ)
  | one key target => (f target).map (one key)
  | member key target => (f target).map (member key)
  | params types => (types.mapM f).map params
  | flag key value => some (flag key value)

/-- The item after a setting. -/
def apply (setting : Setting ItemId) (item : Item) : Item :=
  match setting with
  | one key target => item.setId key.1 target
  | member key target => item.pushNew key.1 target
  | params types => item.setParamTypes types
  | flag key value => item.setFlag key value

end Setting

/-! ## Operations -/

/-- An operation on an index. -/
inductive Operation (ι : Type) where
  | project (name : String)
  | package (project : ι) (name : String)
  | «class» (package : ι) (name : String)
  | innerClass (outer : ι) (simple : String)
  | method (owner : ι) (name : String) (params : Option (List ι))
  | field (owner : ι) (name : String)
  | arrayClass (base : ι) (dims : Nat)
  | builtinProject
  | primitive (name : String)
  | wildcard
  | set (item : ι) (setting : Setting ι)
  | addDependency (source target : ι)
  | removeDependency (source target : ι)
  /-- Resolves a call whose target one of `owners` may declare. -/
  | call (site : CallSite) (owners : List ι) (create : Bool)
  | propagateThirdParty

/-- The answer of an operation. -/
inductive Answer (ι : Type) where
  /-- The item that was found or made. -/
  | item (id : ι)
  /-- Whether there was something to change. -/
  | changed (value : Bool)
  /-- How many items were changed. -/
  | count (number : Nat)
  | resolved (method : ι)
  | created (method : ι)
  | unresolved
  | refused (message : String)
deriving DecidableEq

/-- An answer with its items sent through `f`. -/
def Answer.map (f : ι → κ) : Answer ι → Answer κ
  | item id => item (f id)
  | changed value => changed value
  | count number => count number
  | resolved method => resolved (f method)
  | created method => created (f method)
  | unresolved => unresolved
  | refused message => refused message

/-- The answer that tells what became of a call. -/
def Answer.ofCall : CallTarget → Answer ItemId
  | .resolved method => resolved method
  | .created method => created method
  | .unresolved => unresolved

namespace Operation

/-- An operation with its items sent through `f`. -/
def map (f : ι → κ) : Operation ι → Operation κ
  | project name => project name
  | package owner name => package (f owner) name
  | .class owner name => .class (f owner) name
  | innerClass outer simple => innerClass (f outer) simple
  | method owner name params => method (f owner) name (params.map (List.map f))
  | field owner name => field (f owner) name
  | arrayClass base dims => arrayClass (f base) dims
  | builtinProject => builtinProject
  | primitive name => primitive name
  | wildcard => wildcard
  | set item setting => set (f item) (setting.map f)
  | addDependency source target => addDependency (f source) (f target)
  | removeDependency source target => removeDependency (f source) (f target)
  | call site owners create => call site (owners.map f) create
  | propagateThirdParty => propagateThirdParty

/-- An operation with its items sent through `f`; none when `f` refuses one of them. -/
def mapM (f : ι → Option κ) : Operation ι → Option (Operation κ)
  | project name => some (project name)
  | package owner name => (f owner).map (package · name)
  | .class owner name => (f owner).map (.class · name)
  | innerClass outer simple => (f outer).map (innerClass · simple)
  | method owner name none => (f owner).map (method · name none)
  | method owner name (some params) =>
    (f owner).bind fun owner => (params.mapM f).map (fun params => method owner name (some params))
  | field owner name => (f owner).map (field · name)
  | arrayClass base dims => (f base).map (arrayClass · dims)
  | builtinProject => some builtinProject
  | primitive name => some (primitive name)
  | wildcard => some wildcard
  | set item setting => (f item).bind fun item => (setting.mapM f).map (set item)
  | addDependency source target => (f source).bind fun source => (f target).map (addDependency source)
  | removeDependency source target =>
    (f source).bind fun source => (f target).map (removeDependency source)
  | call site owners create => (owners.mapM f).map (call site · create)
  | propagateThirdParty => some propagateThirdParty

/-- The items that an operation records as attributes if it succeeds. -/
def recorded : Operation ι → List ι
  | method _ _ params => params.getD []
  | set _ setting => setting.targets
  | _ => []

/-- What an operation does to an index. -/
def edit : Operation ItemId → Edit (Answer ItemId)
  | project name => return .item (← Index.createProject name)
  | package owner name => return .item (← Index.createPackage owner name)
  | .class owner name => return .item (← Index.createClass owner name)
  | innerClass outer simple => return .item (← Index.createInnerClass outer simple)
  | method owner name params => return .item (← Index.createMethod owner name params)
  | field owner name => return .item (← Index.createField owner name)
  | arrayClass base dims => return .item (← Index.createArrayClass base dims)
  | builtinProject => return .item (← Index.createBuiltinProject)
  | primitive name => return .item (← Index.createPrimitive name)
  | wildcard => return .item (← Index.createWildcard)
  | set item setting => do
    let known := (← get).contains item
    Index.update item setting.apply
    return .changed known
  | addDependency source target =>
    return .changed (← modifyGet (fun index : Index => index.addDependency source target))
  | removeDependency source target =>
    return .changed (← modifyGet (fun index : Index => index.removeDependency source target))
  | call site owners create =>
    return .ofCall (← Index.resolveOrCreate { site with owners := owners } create)
  | propagateThirdParty =>
    return .count (← modifyGet (fun index : Index => index.propagateThirdParty))

/-- Runs an operation: its answer and the index after it. -/
def run (operation : Operation ItemId) (index : Index) : Answer ItemId × Index :=
  match operation.edit.run.run index with
  | (.ok answer, after) => (answer, after)
  | (.error error, after) => (.refused error.message, after)

end Operation

end CodeAtlas
