/-
# Class files

The part of a compiled class that other code can see: its name, superclass, interfaces, methods and
fields.  Members that the compiler made up are left out, as are bridge methods and static
initialisers.  A file that is not a class file gives nothing.
-/
import CodeAtlas.ClassFile.Descriptor

namespace CodeAtlas

/-- A method of a compiled class; no return type is `void`. -/
structure BinaryMethod where
  name : String
  params : List TypeName
  returnType : Option TypeName
deriving DecidableEq, Repr

/-- A field of a compiled class. -/
structure BinaryField where
  name : String
  type : TypeName
deriving DecidableEq, Repr

/-- What a compiled class shows.  Its name is relative to the package. -/
structure BinaryClass where
  package : String
  name : String
  isPublic : Bool
  superclass : Option String
  interfaces : List String
  methods : List BinaryMethod
  fields : List BinaryField
deriving DecidableEq, Repr

/-- The qualified name of a compiled class. -/
def BinaryClass.qualifiedName (cls : BinaryClass) : String :=
  if cls.package.isEmpty then cls.name else cls.package ++ "." ++ cls.name

namespace ClassFile

/-! ## Bytes -/

/-- A reader takes bytes from the front, or fails. -/
abbrev Reader := StateT (List UInt8) Option

/-- Reads a byte. -/
def byte : Reader Nat
  | [] => none
  | b :: rest => some (b.toNat, rest)

/-- Reads a number of `n` bytes, most significant first. -/
def number : Nat → Nat → Reader Nat
  | 0, value => pure value
  | n + 1, value => do number n (256 * value + (← byte))

/-- Reads a number of two bytes. -/
def short : Reader Nat := number 2 0

/-- Reads a number of four bytes. -/
def word : Reader Nat := number 4 0

/-- Reads `n` bytes. -/
def bytes (n : Nat) : Reader (List UInt8) := fun input =>
  if n ≤ input.length then some (input.take n, input.drop n) else none

/-- Reads `n` things, one after the other. -/
def times {α : Type} : Nat → Reader α → Reader (List α)
  | 0, _ => pure []
  | n + 1, item => do return (← item) :: (← times n item)

/-- Reads a table: its length in two bytes, then its entries. -/
def table {α : Type} (entry : Reader α) : Reader (List α) := do
  times (← short) entry

/-! ## Text

Text is kept as UTF-16 units, each written in one to three bytes; zero takes two. -/

/-- The UTF-16 units of a text. -/
def units : List UInt8 → Option (List Nat)
  | [] => some []
  | a :: rest =>
    let a := a.toNat
    if a < 0x80 then if a = 0 then none else (units rest).map (a :: ·)
    else if a / 32 = 6 then
      match rest with
      | b :: rest =>
        let b := b.toNat
        if b / 64 = 2 then (units rest).map ((a % 32 * 64 + b % 64) :: ·) else none
      | _ => none
    else if a / 16 = 14 then
      match rest with
      | b :: c :: rest =>
        let b := b.toNat
        let c := c.toNat
        if b / 64 = 2 && c / 64 = 2 then
          (units rest).map ((a % 16 * 4096 + b % 64 * 64 + c % 64) :: ·)
        else none
      | _ => none
    else none

/-- The characters of UTF-16 units. -/
def characters : List Nat → Option (List Char)
  | [] => some []
  | a :: rest =>
    if 0xD800 ≤ a && a < 0xDC00 then
      match rest with
      | b :: rest =>
        if 0xDC00 ≤ b && b < 0xE000 then
          (characters rest).map (Char.ofNat (0x10000 + (a - 0xD800) * 1024 + (b - 0xDC00)) :: ·)
        else none
      | [] => none
    else if 0xDC00 ≤ a && a < 0xE000 then none
    else (characters rest).map (Char.ofNat a :: ·)

/-- Reads a text: its length in bytes, then the bytes. -/
def text : Reader String := do
  let content ← bytes (← short)
  match (units content).bind characters with
  | some chars => return String.ofList chars
  | none => failure

/-! ## The constant pool -/

/-- The constants that other parts of a class file refer to. -/
inductive Constant where
  | text (value : String)
  /-- A class, by the place of its name. -/
  | classRef (name : Nat)
  | other
deriving DecidableEq, Repr

/-- Reads a constant and the number of places it takes. -/
def constant : Reader (Constant × Nat) := do
  match ← byte with
  | 1 => return (.text (← text), 1)
  | 7 => return (.classRef (← short), 1)
  | 3 | 4 | 9 | 10 | 11 | 12 | 17 | 18 =>
    discard word
    return (.other, 1)
  | 5 | 6 =>
    discard (bytes 8)
    return (.other, 2)
  | 8 | 16 | 19 | 20 =>
    discard short
    return (.other, 1)
  | 15 =>
    let kind ← byte
    discard short
    if 1 ≤ kind && kind ≤ 9 then return (.other, 1) else failure
  | _ => failure

/-- Reads constants into the places from `first` on, up to `last`, with at most `fuel` constants. -/
def constants : Nat → Nat → Nat → Reader (List (Nat × Constant))
  | 0, _, _ => pure []
  | fuel + 1, first, last => do
    if last < first then return []
    let (value, places) ← constant
    return (first, value) :: (← constants fuel (first + places) last)

/-- The constants by place. -/
abbrev Pool := List (Nat × Constant)

/-- Reads the constant pool. -/
def pool : Reader Pool := do
  let count ← short
  constants count 1 (count - 1)

namespace Pool

/-- The text at a place. -/
def text? (pool : Pool) (place : Nat) : Option String :=
  match pool.lookup place with
  | some (.text value) => some value
  | _ => none

/-- The binary name of the class at a place. -/
def className? (pool : Pool) (place : Nat) : Option String :=
  match pool.lookup place with
  | some (.classRef name) => text? pool name
  | _ => none

end Pool

/-! ## Members -/

/-- A field or method as it stands in the file. -/
structure Member where
  flags : Nat
  name : Nat
  descriptor : Nat
deriving DecidableEq, Repr

/-- Reads an attribute.  Only its name is checked. -/
def skipAttribute (pool : Pool) : Reader PUnit := do
  let name ← short
  discard (bytes (← word))
  match pool.text? name with
  | some _ => return ()
  | none => failure

/-- Reads a field or method. -/
def member (pool : Pool) : Reader Member := do
  let flags ← short
  let name ← short
  let descriptor ← short
  discard (table (skipAttribute pool))
  return ⟨flags, name, descriptor⟩

/-- Whether a flag is set. -/
def hasFlag (flags flag : Nat) : Bool :=
  flags / flag % 2 == 1

/-- The flag of public classes. -/
def publicFlag : Nat := 0x0001

/-- The flag of bridge methods. -/
def bridgeFlag : Nat := 0x0040

/-- The flag of members that the compiler made up. -/
def syntheticFlag : Nat := 0x1000

/-- The name of static initialisers. -/
def initializerName : String := "<clinit>"

/-- The fields that are shown.  The descriptor of every field has to be right. -/
def fields (pool : Pool) : List Member → Option (List BinaryField)
  | [] => some []
  | field :: rest => do
    let type ← (pool.text? field.descriptor).bind Descriptor.fieldType?
    let others ← fields pool rest
    if hasFlag field.flags syntheticFlag then return others
    return ⟨← pool.text? field.name, type⟩ :: others

/-- The methods that are shown.  Only their descriptors have to be right. -/
def methods (pool : Pool) : List Member → Option (List BinaryMethod)
  | [] => some []
  | method :: rest => do
    let others ← methods pool rest
    if hasFlag method.flags syntheticFlag || hasFlag method.flags bridgeFlag then return others
    let name ← pool.text? method.name
    if name == initializerName then return others
    let (params, returnType) ← (pool.text? method.descriptor).bind Descriptor.methodType?
    return ⟨name, params, returnType⟩ :: others

/-! ## Classes -/

/-- The number every class file begins with. -/
def magic : Nat := 0xCAFEBABE

/-- The versions of the format that are read. -/
def isKnownVersion (major : Nat) : Bool :=
  45 ≤ major && major ≤ 69

/-- The superclass at a place; place 0 stands for none. -/
def superclass? (pool : Pool) (place : Nat) : Option (Option String) :=
  if place = 0 then some none
  else (pool.className? place).map (fun name => some (BinaryName.sourceName name))

/-- Reads a class file. -/
def reader : Reader BinaryClass := do
  if (← word) ≠ magic then failure
  discard short
  if !isKnownVersion (← short) then failure
  let pool ← pool
  let flags ← short
  let thisPlace ← short
  let superPlace ← short
  let interfaces ← table short
  let fieldTable ← table (member pool)
  let methodTable ← table (member pool)
  discard (table (skipAttribute pool))
  let (package, name) := BinaryName.split (← pool.className? thisPlace)
  return {
    package := package
    name := name
    isPublic := hasFlag flags publicFlag
    superclass := ← superclass? pool superPlace
    interfaces := ← interfaces.mapM (fun place => (pool.className? place).map BinaryName.sourceName)
    methods := ← methods pool methodTable
    fields := ← fields pool fieldTable }

/-- The class of a class file. -/
def read? (content : ByteArray) : Option BinaryClass :=
  (reader content.toList).map Prod.fst

end ClassFile

end CodeAtlas
