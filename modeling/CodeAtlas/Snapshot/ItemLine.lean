/-
# Item lines

A snapshot keeps one item to a line: `i n "<name>" id <number> t <KIND>`, followed by
` f <flag>,<flag>` when the item has flags.  In the name a backslash stands in front of every
backslash and every quote.
-/
import CodeAtlas.Snapshot.Relation

namespace CodeAtlas

/-! ## Quoted names -/

namespace QuotedName

/-- A name with a backslash in front of every backslash and quote. -/
def encode : List Char → List Char
  | [] => []
  | c :: rest =>
    if c = '\\' || c = '"' then '\\' :: c :: encode rest else c :: encode rest

/-- Reads a name up to the quote that ends it; the second part is what follows the quote.  A
backslash makes the next character part of the name. -/
def decode : List Char → Option (List Char × List Char)
  | [] => none
  | ['\\'] => none
  | '\\' :: c :: rest => (decode rest).map (fun (name, tail) => (c :: name, tail))
  | '"' :: rest => some ([], rest)
  | c :: rest => (decode rest).map (fun (name, tail) => (c :: name, tail))

/-- Reading a written name gives the name and what follows it. -/
theorem decode_encode (name tail : List Char) :
    decode (encode name ++ '"' :: tail) = some (name, tail) := by
  induction name with
  | nil => simp [encode, decode]
  | cons c rest ih =>
    by_cases hb : c = '\\'
    · subst hb
      simp [encode, decode, ih]
    · by_cases hq : c = '"'
      · subst hq
        simp [encode, decode, ih]
      · simp only [encode, hb, hq, decide_false, Bool.or_self, Bool.false_eq_true, if_false,
          List.cons_append]
        rw [decode.eq_5 c _ (by rintro rfl; exact absurd rfl hb)
          (by rintro _ _ rfl; exact absurd rfl hb) (by rintro rfl; exact absurd rfl hq)]
        simp [ih]

end QuotedName

/-! ## Flags -/

/-- The flags a snapshot keeps, with their words, in writing order. -/
def snapshotFlags : List (AttrKey × String) :=
  [(.binary, "binary"), (.thirdParty, "third-party"), (.projectVisible, "project-visible"),
    (.pseudo, "pseudo")]

/-- The flag a word stands for. -/
def flagOfText? (word : String) : Option AttrKey :=
  (snapshotFlags.find? (fun entry => entry.2 == word)).map Prod.fst

/-! ## Lines -/

/-- What an item line holds; `flags` is the word after `f`. -/
structure ItemLine where
  name : String
  raw : UInt32
  kind : ItemKind
  flags : Option String
deriving DecidableEq, Repr

namespace ItemLine

/-- The line content of an item. -/
def ofItem (item : Item) : ItemLine :=
  let set := snapshotFlags.filter (fun entry => item.attributes.flag entry.1)
  { name := item.name
    raw := item.id.raw
    kind := item.kind
    flags := if set.isEmpty then none else some (",".intercalate (set.map Prod.snd)) }

/-- The text of an item line. -/
def text (line : ItemLine) : String :=
  "i n \"" ++ String.ofList (QuotedName.encode line.name.toList) ++ "\" id " ++
    Text.showWord32 line.raw ++ " t " ++ line.kind.text ++
    (match line.flags with
      | some flags => " f " ++ flags
      | none => "")

/-- Reads the number and the kind. -/
def ofFields? (name raw kind : String) (flags : Option String) : Option ItemLine :=
  match Text.readWord32? raw, ItemKind.ofText? kind with
  | some raw, some kind => some ⟨name, raw, kind, flags⟩
  | _, _ => none

/-- Reads the words that follow the name. -/
def ofWords? (name : String) : List String → Option ItemLine
  | ["id", raw, "t", kind] => ofFields? name raw kind none
  | ["id", raw, "t", kind, "f", flags] => ofFields? name raw kind (some flags)
  | _ => none

/-- Reads an item line. -/
def ofText? (line : String) : Option ItemLine :=
  match Text.afterLead? "i n \"".toList line.toList with
  | none => none
  | some rest =>
    match QuotedName.decode rest with
    | none => none
    | some (name, tail) => ofWords? (String.ofList name) (Text.words (String.ofList tail))

/-- The flags of the word after `f`; none when one of them is unknown. -/
def flagKeys? (flags : Option String) : Option (List AttrKey) :=
  match flags with
  | none => some []
  | some word => (Text.splitOn ',' word).mapM flagOfText?

/-- Puts the item of a line into an index. -/
def insert (index : Index) (line : String) : Except SnapshotError Index :=
  match ofText? line with
  | none => .error (.badItemLine line)
  | some content =>
    match index.insertRaw content.raw content.name content.kind with
    | .error error => .error (.graph error)
    | .ok (id, index) =>
      match flagKeys? content.flags with
      | none => .error (.badItemLine line)
      | some keys =>
        .ok (index.modify id (fun item => keys.foldl (fun item key => item.setFlag key true) item))

end ItemLine

end CodeAtlas
