/-
# Item handles

A handle names an item by its persisted number and by the generation of the index that made it,
so that a handle kept from one index never addresses an unrelated item of another.  Numbers are
32-bit words and are handed out in increasing order.
-/
import Std.Data.TreeMap

namespace CodeAtlas

/-- Handle of an item: its persisted number and the generation of the index that made it. -/
structure ItemId where
  raw : UInt32
  generation : Nat
deriving DecidableEq, Repr

namespace ItemId

/-- Handles are ordered by number, then by generation. -/
instance : Ord ItemId :=
  ⟨compareLex (compareOn ItemId.raw) (compareOn ItemId.generation)⟩

instance : Std.TransOrd ItemId :=
  inferInstanceAs (Std.TransCmp (compareLex (compareOn ItemId.raw) (compareOn ItemId.generation)))

instance : Std.LawfulEqOrd ItemId where
  eq_of_compare {a b} h := by
    have h' : (compareLex (compareOn ItemId.raw) (compareOn ItemId.generation)) a b = .eq := h
    simp only [compareLex_eq_eq, compareOn, Std.compare_eq_iff_eq] at h'
    cases a; cases b; simp_all

end ItemId

/-! ## Numbering -/

/-- The source of item numbers: the number the next item gets. -/
structure IdSource where
  next : UInt32
deriving DecidableEq, Repr

namespace IdSource

/-- Hands out a number. -/
def draw (source : IdSource) : UInt32 × IdSource :=
  (source.next, ⟨source.next + 1⟩)

/-- Makes sure that `raw` is not handed out again. -/
def reserve (source : IdSource) (raw : UInt32) : IdSource :=
  ⟨max source.next (raw + 1)⟩

end IdSource

end CodeAtlas
