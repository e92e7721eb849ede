/-
# Scopes

The local variables in sight at a place of a source text: one frame per enclosing block, the
innermost first, and in each frame the newest binding first.
-/
import CodeAtlas.Item.Id

namespace CodeAtlas

/-- A variable and its type, when that is known. -/
structure Binding where
  name : String
  type : Option ItemId
deriving DecidableEq, Repr

/-- Frames of bindings, the innermost first. -/
structure Scope where
  frames : List (List Binding)
deriving DecidableEq, Repr

namespace Scope

/-- No frame is open. -/
def empty : Scope :=
  ⟨[]⟩

/-- Opens a frame. -/
def push (scope : Scope) : Scope :=
  ⟨[] :: scope.frames⟩

/-- Closes the innermost frame. -/
def pop (scope : Scope) : Scope :=
  ⟨scope.frames.tail⟩

/-- The number of open frames. -/
def depth (scope : Scope) : Nat :=
  scope.frames.length

/-- Binds a variable in the innermost frame, which is opened when there is none. -/
def bind (scope : Scope) (name : String) (type : Option ItemId) : Scope :=
  match scope.frames with
  | [] => ⟨[[⟨name, type⟩]]⟩
  | frame :: outer => ⟨(⟨name, type⟩ :: frame) :: outer⟩

/-- The innermost binding of a name. -/
def lookup (scope : Scope) (name : String) : Option Binding :=
  scope.frames.flatten.find? (fun binding => binding.name == name)

/-- A new binding is the one that is found, and it hides no other name. -/
theorem lookup_bind (scope : Scope) (name other : String) (type : Option ItemId) :
    (scope.bind name type).lookup other =
      if name = other then some ⟨name, type⟩ else scope.lookup other := by
  by_cases h : name = other
  · cases hf : scope.frames <;> simp [bind, lookup, hf, h]
  · have hb : (name == other) = false := by simpa using h
    cases hf : scope.frames <;> simp [bind, lookup, hf, h, hb]

/-- Closing a frame that was just opened changes nothing. -/
@[simp] theorem pop_push (scope : Scope) : scope.push.pop = scope := rfl

end Scope

end CodeAtlas
