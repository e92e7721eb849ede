/-
# File data and archives

What a file or an archive entry holds, and archives as lists of named entries.
-/

namespace CodeAtlas

/-- Why something on the disk cannot be read or written. -/
inductive DiskError where
  | missing
  | taken
  | notDirectory
  | isDirectory
  /-- The checksum is wrong. -/
  | damaged
  /-- The data is not UTF-8. -/
  | notText
deriving DecidableEq, Repr

/-- The message of a disk error. -/
def DiskError.message : DiskError → String
  | missing => "No such file or directory (os error 2)"
  | taken => "File exists (os error 17)"
  | notDirectory => "Not a directory (os error 20)"
  | isDirectory => "Is a directory (os error 21)"
  | damaged => "Invalid checksum"
  | notText => "stream did not contain valid UTF-8"

/-- What a file or an archive entry holds. -/
inductive FileData where
  /-- Characters. -/
  | text (content : String)
  /-- Bytes of any meaning. -/
  | bytes (content : ByteArray)
  /-- Data whose checksum is wrong; it cannot be read. -/
  | damaged

namespace FileData

/-- The data as a string. -/
def readText : FileData → Except DiskError String
  | text content => .ok content
  | bytes content =>
    match String.fromUTF8? content with
    | some content => .ok content
    | none => .error .notText
  | damaged => .error .damaged

/-- The data as a string, when it can be read and is UTF-8. -/
def text? (data : FileData) : Option String :=
  data.readText.toOption

/-- The data as bytes, when it can be read. -/
def bytes? : FileData → Option ByteArray
  | text content => some content.toUTF8
  | bytes content => some content
  | damaged => none

end FileData

/-- A named entry of an archive.  A name that ends in a slash is a directory. -/
structure ArchiveEntry where
  name : String
  data : FileData

/-- An archive: its entries in order. -/
abbrev Archive := List ArchiveEntry

namespace Archive

/-- The entry of a name. -/
def entry? (archive : Archive) (name : String) : Option ArchiveEntry :=
  archive.find? (fun entry => entry.name == name)

/-- The names of the entries. -/
def names (archive : Archive) : List String :=
  archive.map ArchiveEntry.name

end Archive

end CodeAtlas
