/-
# Item kinds

The five kinds of items and which kind may own which: projects own packages, packages own
classes, classes own methods and fields.
-/
import Std.Data.TreeMap

namespace CodeAtlas

/-- Kind of an item, in containment order. -/
inductive ItemKind where
  | project
  | package
  | «class»
  | method
  | field
deriving DecidableEq, Repr

namespace ItemKind

/-- Every kind, in containment order. -/
def all : List ItemKind :=
  [project, package, .class, method, field]

/-- Place of a kind in the containment order. -/
def depth : ItemKind → Nat
  | project => 0
  | package => 1
  | .class => 2
  | method => 3
  | field => 4

instance : Ord ItemKind :=
  ⟨compareOn depth⟩

instance : Std.TransOrd ItemKind :=
  inferInstanceAs (Std.TransCmp (compareOn depth))

instance : Std.LawfulEqOrd ItemKind where
  eq_of_compare {a b} h := by
    have h' : compareOn depth a b = .eq := h
    simp only [compareOn, Std.compare_eq_iff_eq] at h'
    cases a <;> cases b <;> simp [depth] at h' <;> rfl

/-- The word that stands for a kind in snapshots and messages. -/
def text : ItemKind → String
  | project => "PROJECT"
  | package => "PACKAGE"
  | .class => "CLASS"
  | method => "METHOD"
  | field => "FIELD"

/-- Reads the word of a kind. -/
def ofText? (word : String) : Option ItemKind :=
  all.find? (fun kind => kind.text == word)

/-- Reading a written kind gives it back. -/
@[simp] theorem ofText?_text (kind : ItemKind) : ofText? kind.text = some kind := by
  cases kind <;> decide

/-- Whether an item of the first kind may own one of the second. -/
def canContain : ItemKind → ItemKind → Bool
  | project, package => true
  | package, .class => true
  | .class, method => true
  | .class, field => true
  | _, _ => false

/-- An owner stands above what it owns. -/
theorem depth_lt_of_canContain {owner owned : ItemKind} (h : owner.canContain owned = true) :
    owner.depth < owned.depth := by
  cases owner <;> cases owned <;> simp_all [canContain, depth]

end ItemKind

end CodeAtlas
