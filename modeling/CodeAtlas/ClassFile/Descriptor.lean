/-
# Binary names and descriptors

Compiled classes are named in binary form: slashes between the packages and a dollar sign in front
of each nested class, as in `java/util/Map$Entry`.  In source form both are dots.

A compiled field or method gives its types in a descriptor: a letter for a primitive type,
`L<binary name>;` for a class, and a bracket in front of the element type for each dimension of an
array.  A method descriptor lists the parameters in parentheses, followed by the return type or `V`.
-/
import CodeAtlas.Text.Split

namespace CodeAtlas

/-! ## Binary names -/

namespace BinaryName

/-- The source form of a binary name. -/
def sourceName (binary : String) : String :=
  Text.replaceChar '$' '.' (Text.replaceChar '/' '.' binary)

/-- The package of a binary name and the name of the class within the package. -/
def split (binary : String) : String × String :=
  match Text.splitLast '/' binary with
  | some (package, name) => (Text.replaceChar '/' '.' package, Text.replaceChar '$' '.' name)
  | none => ("", Text.replaceChar '$' '.' binary)

/-- Whether a part of a name begins with an ASCII digit. -/
def startsWithDigit (part : String) : Bool :=
  part.toList.head?.any Char.isDigit

/-- Whether the name is that of an anonymous or local class: a part after the first dollar sign
begins with a digit. -/
def isAnonymous (binary : String) : Bool :=
  (Text.splitOn '$' (Text.lastPiece '/' binary)).tail.any startsWithDigit

end BinaryName

/-! ## Descriptors -/

/-- A type in a descriptor: a primitive type or the source form of a class name, with its number
of array dimensions. -/
structure TypeName where
  name : String
  dims : Nat
deriving DecidableEq, Repr

namespace Descriptor

/-- The primitive type of a letter. -/
def primitive? : Char → Option String
  | 'B' => some "byte"
  | 'C' => some "char"
  | 'D' => some "double"
  | 'F' => some "float"
  | 'I' => some "int"
  | 'J' => some "long"
  | 'S' => some "short"
  | 'Z' => some "boolean"
  | _ => none

/-- Reads a type; the second part is what follows it. -/
def readType : List Char → Option (TypeName × List Char)
  | [] => none
  | '[' :: rest => (readType rest).map fun (type, rest) => (⟨type.name, type.dims + 1⟩, rest)
  | 'L' :: rest =>
    (Text.cutFirst (· == ';') rest).map fun (name, rest) =>
      (⟨BinaryName.sourceName (String.ofList name), 0⟩, rest)
  | c :: rest => (primitive? c).map fun name => (⟨name, 0⟩, rest)

/-- The type of a field descriptor. -/
def fieldType? (descriptor : String) : Option TypeName :=
  match readType descriptor.toList with
  | some (type, []) => some type
  | _ => none

/-- What follows the parts of a text between the characters that satisfy `p` is shorter. -/
theorem length_cutFirst {p : Char → Bool} {s before after : List Char}
    (h : Text.cutFirst p s = some (before, after)) : after.length < s.length := by
  induction s generalizing before with
  | nil => simp [Text.cutFirst] at h
  | cons c rest ih =>
    simp only [Text.cutFirst] at h
    split at h
    · simp only [Option.some.injEq, Prod.mk.injEq] at h
      simp [← h.2]
    · obtain ⟨cut, hcut, heq⟩ := Option.map_eq_some_iff.1 h
      simp only [Prod.mk.injEq] at heq
      have hrest : Text.cutFirst p rest = some (cut.1, after) := by rw [hcut, ← heq.2]
      have := ih hrest
      simp only [List.length_cons]
      omega

/-- Reading a type uses up something. -/
theorem length_readType {s rest : List Char} {type : TypeName}
    (h : readType s = some (type, rest)) : rest.length < s.length := by
  fun_induction readType s generalizing type rest with
  | case1 => simp at h
  | case2 tail ih =>
    obtain ⟨inner, hinner, heq⟩ := Option.map_eq_some_iff.1 h
    simp only [Prod.mk.injEq] at heq
    have htail : readType tail = some (inner.1, rest) := by rw [hinner, ← heq.2]
    have := ih htail
    simp only [List.length_cons]
    omega
  | case3 tail =>
    obtain ⟨cut, hcut, heq⟩ := Option.map_eq_some_iff.1 h
    simp only [Prod.mk.injEq] at heq
    have htail : Text.cutFirst (· == ';') tail = some (cut.1, rest) := by rw [hcut, ← heq.2]
    have := length_cutFirst htail
    simp only [List.length_cons]
    omega
  | case4 c tail =>
    obtain ⟨name, _, heq⟩ := Option.map_eq_some_iff.1 h
    simp only [Prod.mk.injEq] at heq
    simp [← heq.2]

/-- Reads parameter types up to the closing parenthesis; the second part is what follows it. -/
def readParams (s : List Char) : Option (List TypeName × List Char) :=
  match s with
  | ')' :: rest => some ([], rest)
  | s =>
    match h : readType s with
    | none => none
    | some (type, rest) =>
      have := length_readType h
      (readParams rest).map fun (types, rest) => (type :: types, rest)
termination_by s.length

/-- The parameter types and the return type of a method descriptor; no return type is `void`. -/
def methodType? (descriptor : String) : Option (List TypeName × Option TypeName) :=
  match descriptor.toList with
  | '(' :: rest =>
    match readParams rest with
    | some (params, ['V']) => some (params, none)
    | some (params, rest) =>
      match readType rest with
      | some (type, []) => some (params, some type)
      | _ => none
    | none => none
  | _ => none

end Descriptor

end CodeAtlas
