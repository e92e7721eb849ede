/-
# Properties of characters

The sets that patterns name: general categories and groups of them, scripts, and a few properties
that cut across the categories.  Names are compared loosely: case, blanks, hyphens and underscores
say nothing, and a leading `is` is dropped.
-/
import CodeAtlas.Regex.Category
import CodeAtlas.Regex.Pattern
import CodeAtlas.Text.Blank
import CodeAtlas.Text.Split

namespace CodeAtlas.Regex

/-- The form in which names are compared. -/
def normalName (name : String) : String :=
  let body := match name.toList with
    | i :: s :: rest => if i.toLower == 'i' && s.toLower == 's' then rest else i :: s :: rest
    | short => short
  let kept := body.filter (fun c => c != ' ' && c != '_' && c != '-' && c.toNat < 128)
  String.ofList (kept.map Char.toLower)

/-! ## General categories -/

/-- Long names of categories and groups, with their codes. -/
def categoryAliases : List (String × String) :=
  [("uppercaseletter", "lu"), ("lowercaseletter", "ll"), ("titlecaseletter", "lt"),
    ("casedletter", "lc"), ("modifierletter", "lm"), ("otherletter", "lo"), ("letter", "l"),
    ("nonspacingmark", "mn"), ("spacingmark", "mc"), ("enclosingmark", "me"), ("mark", "m"),
    ("combiningmark", "m"), ("decimalnumber", "nd"), ("digit", "nd"), ("letternumber", "nl"),
    ("othernumber", "no"), ("number", "n"), ("connectorpunctuation", "pc"),
    ("dashpunctuation", "pd"), ("openpunctuation", "ps"), ("closepunctuation", "pe"),
    ("initialpunctuation", "pi"), ("finalpunctuation", "pf"), ("otherpunctuation", "po"),
    ("punctuation", "p"), ("punct", "p"), ("mathsymbol", "sm"), ("currencysymbol", "sc"),
    ("modifiersymbol", "sk"), ("othersymbol", "so"), ("symbol", "s"), ("spaceseparator", "zs"),
    ("lineseparator", "zl"), ("paragraphseparator", "zp"), ("separator", "z"), ("control", "cc"),
    ("cntrl", "cc"), ("format", "cf"), ("privateuse", "co"), ("surrogate", "cs"),
    ("unassigned", "cn"), ("other", "c")]

/-- The characters of the categories whose codes pass a test. -/
def inCategories (p : String → Bool) : CharSet :=
  let runs := (Category.table.filter (fun entry => p entry.1)).flatMap Prod.snd
  inRuns runs

/-- The code points that have a category. -/
def isAssigned : CharSet :=
  inCategories (fun _ => true)

/-- The set of a category or group by its code. -/
def codeSet? (code : String) : Option CharSet :=
  match code with
  | "any" => some (fun _ => true)
  | "ascii" => some (fun c => c.toNat < 128)
  | "assigned" => some isAssigned
  | "cn" => some (CharSet.compl isAssigned)
  | "cs" => some (fun _ => false)
  | "c" => some (CharSet.union (CharSet.compl isAssigned) (inCategories (Text.startsWith "c")))
  | "lc" => some (inCategories (fun code => code == "lu" || code == "ll" || code == "lt"))
  | code =>
    if ["l", "m", "n", "p", "s", "z"].contains code then some (inCategories (Text.startsWith code))
    else (Category.table.lookup code).map inRuns

/-- The set of a category or group by its normal name. -/
def categorySet? (name : String) : Option CharSet :=
  codeSet? ((categoryAliases.lookup name).getD name)

/-! ## Other properties -/

/-- The uppercase characters that are no letters. -/
def otherUppercase : List CodeRun :=
  [⟨0x2160, 0x216F, 1⟩, ⟨0x24B6, 0x24CF, 1⟩, ⟨0x1F130, 0x1F149, 1⟩, ⟨0x1F150, 0x1F169, 1⟩,
    ⟨0x1F170, 0x1F189, 1⟩]

/-- The lowercase characters that are no lowercase letters. -/
def otherLowercase : List CodeRun :=
  [⟨0xAA, 0xAA, 1⟩, ⟨0xBA, 0xBA, 1⟩, ⟨0x2B0, 0x2B8, 1⟩, ⟨0x2C0, 0x2C1, 1⟩, ⟨0x2E0, 0x2E4, 1⟩,
    ⟨0x345, 0x345, 1⟩, ⟨0x37A, 0x37A, 1⟩, ⟨0x1D2C, 0x1D6A, 1⟩, ⟨0x1D78, 0x1D78, 1⟩,
    ⟨0x1D9B, 0x1DBF, 1⟩, ⟨0x2071, 0x2071, 1⟩, ⟨0x207F, 0x207F, 1⟩, ⟨0x2090, 0x209C, 1⟩,
    ⟨0x2170, 0x217F, 1⟩, ⟨0x24D0, 0x24E9, 1⟩, ⟨0x2C7C, 0x2C7D, 1⟩, ⟨0xA69C, 0xA69D, 1⟩,
    ⟨0xA770, 0xA770, 1⟩, ⟨0xA7F8, 0xA7F9, 1⟩, ⟨0xAB5C, 0xAB5F, 1⟩]

/-- The letters and what counts as one: word characters that are no marks beside the line, digits,
connectors or joiners. -/
def isAlphabetic : CharSet := fun c =>
  isWord c && !inRuns Category.nonspacingMarks c && !inRuns Category.enclosingMarks c &&
    !inRuns Category.decimalNumbers c && !inRuns Category.connectors c &&
    !inRuns Category.formats c

/-- The set of a property that cuts across the categories. -/
def crossingSet? : String → Option CharSet
  | "alphabetic" | "alpha" => some isAlphabetic
  | "uppercase" | "upper" => some (inRuns (Category.uppercaseLetters ++ otherUppercase))
  | "lowercase" | "lower" => some (inRuns (Category.lowercaseLetters ++ otherLowercase))
  | "whitespace" | "wspace" | "space" => some Text.isBlank
  | _ => none

/-! ## Scripts -/

/-- Scripts by normal names. -/
def scripts : List (String × List CodeRun) :=
  let latin : List CodeRun :=
    [⟨0x41, 0x5A, 1⟩, ⟨0x61, 0x7A, 1⟩, ⟨0xAA, 0xAA, 1⟩, ⟨0xBA, 0xBA, 1⟩, ⟨0xC0, 0xD6, 1⟩,
      ⟨0xD8, 0xF6, 1⟩, ⟨0xF8, 0x2B8, 1⟩, ⟨0x2E0, 0x2E4, 1⟩, ⟨0x1D00, 0x1D25, 1⟩,
      ⟨0x1D2C, 0x1D5C, 1⟩, ⟨0x1D62, 0x1D65, 1⟩, ⟨0x1D6B, 0x1D77, 1⟩, ⟨0x1D79, 0x1DBE, 1⟩,
      ⟨0x1E00, 0x1EFF, 1⟩, ⟨0x2071, 0x2071, 1⟩, ⟨0x207F, 0x207F, 1⟩, ⟨0x2090, 0x209C, 1⟩,
      ⟨0x212A, 0x212B, 1⟩, ⟨0x2132, 0x2132, 1⟩, ⟨0x214E, 0x214E, 1⟩, ⟨0x2160, 0x2188, 1⟩,
      ⟨0x2C60, 0x2C7F, 1⟩, ⟨0xA722, 0xA787, 1⟩, ⟨0xA78B, 0xA7CA, 1⟩, ⟨0xA7F2, 0xA7FF, 1⟩,
      ⟨0xAB30, 0xAB5A, 1⟩, ⟨0xAB5C, 0xAB64, 1⟩, ⟨0xFB00, 0xFB06, 1⟩, ⟨0xFF21, 0xFF3A, 1⟩,
      ⟨0xFF41, 0xFF5A, 1⟩]
  let greek : List CodeRun :=
    [⟨0x370, 0x373, 1⟩, ⟨0x375, 0x377, 1⟩, ⟨0x37A, 0x37D, 1⟩, ⟨0x37F, 0x37F, 1⟩,
      ⟨0x384, 0x384, 1⟩, ⟨0x386, 0x386, 1⟩, ⟨0x388, 0x38A, 1⟩, ⟨0x38C, 0x38C, 1⟩,
      ⟨0x38E, 0x3A1, 1⟩, ⟨0x3A3, 0x3E1, 1⟩, ⟨0x3F0, 0x3FF, 1⟩, ⟨0x1D26, 0x1D2A, 1⟩,
      ⟨0x1D5D, 0x1D61, 1⟩, ⟨0x1D66, 0x1D6A, 1⟩, ⟨0x1DBF, 0x1DBF, 1⟩, ⟨0x1F00, 0x1F15, 1⟩,
      ⟨0x1F18, 0x1F1D, 1⟩, ⟨0x1F20, 0x1F45, 1⟩, ⟨0x1F48, 0x1F4D, 1⟩, ⟨0x1F50, 0x1F57, 1⟩,
      ⟨0x1F59, 0x1F5F, 2⟩, ⟨0x1F60, 0x1F7D, 1⟩, ⟨0x1F80, 0x1FB4, 1⟩, ⟨0x1FB6, 0x1FC4, 1⟩,
      ⟨0x1FC6, 0x1FD3, 1⟩, ⟨0x1FD6, 0x1FDB, 1⟩, ⟨0x1FDD, 0x1FEF, 1⟩, ⟨0x1FF2, 0x1FF4, 1⟩,
      ⟨0x1FF6, 0x1FFE, 1⟩, ⟨0x2126, 0x2126, 1⟩]
  let cyrillic : List CodeRun :=
    [⟨0x400, 0x484, 1⟩, ⟨0x487, 0x52F, 1⟩, ⟨0x1C80, 0x1C88, 1⟩, ⟨0x1D2B, 0x1D2B, 1⟩,
      ⟨0x1D78, 0x1D78, 1⟩, ⟨0x2DE0, 0x2DFF, 1⟩, ⟨0xA640, 0xA69F, 1⟩, ⟨0xFE2E, 0xFE2F, 1⟩]
  let han : List CodeRun :=
    [⟨0x2E80, 0x2E99, 1⟩, ⟨0x2E9B, 0x2EF3, 1⟩, ⟨0x2F00, 0x2FD5, 1⟩, ⟨0x3005, 0x3007, 2⟩,
      ⟨0x3021, 0x3029, 1⟩, ⟨0x3038, 0x303B, 1⟩, ⟨0x3400, 0x4DBF, 1⟩, ⟨0x4E00, 0x9FFF, 1⟩,
      ⟨0xF900, 0xFA6D, 1⟩, ⟨0xFA70, 0xFAD9, 1⟩, ⟨0x20000, 0x2A6DF, 1⟩, ⟨0x2A700, 0x2EBE0, 1⟩,
      ⟨0x2F800, 0x2FA1D, 1⟩, ⟨0x30000, 0x323AF, 1⟩]
  [("latin", latin), ("latn", latin), ("greek", greek), ("grek", greek), ("cyrillic", cyrillic),
    ("cyrl", cyrillic), ("han", han), ("hani", han)]

/-- The set of a script by its normal name. -/
def scriptSet? (name : String) : Option CharSet :=
  (scripts.lookup name).map inRuns

/-! ## Names in patterns -/

/-- The set that a single name stands for. -/
def propertySet? (name : String) : Option CharSet :=
  let name := normalName name
  (crossingSet? name).or ((categorySet? name).or (scriptSet? name))

/-- The set that a property and a value of it stand for. -/
def valueSet? (property value : String) : Option CharSet :=
  match normalName property with
  | "gc" | "generalcategory" => categorySet? (normalName value)
  | "sc" | "script" | "scx" | "scriptextensions" => scriptSet? (normalName value)
  | _ => none

/-- A text cut at the first exclamation mark with an equals sign behind it. -/
def cutUnequal : List Char → Option (List Char × List Char)
  | [] => none
  | '!' :: '=' :: rest => some ([], rest)
  | c :: rest => (cutUnequal rest).map (fun (before, after) => (c :: before, after))

/-- The set that the text in braces stands for, and whether its complement is meant. -/
def braceSet? (text : List Char) : Option (CharSet × Bool) :=
  let value? := fun (cut : List Char × List Char) =>
    valueSet? (String.ofList cut.1) (String.ofList cut.2)
  match cutUnequal text with
  | some cut => (value? cut).map (·, true)
  | none =>
    match (Text.cutFirst (· == ':') text).or (Text.cutFirst (· == '=') text) with
    | some cut => (value? cut).map (·, false)
    | none => (propertySet? (String.ofList text)).map (·, false)

end CodeAtlas.Regex
