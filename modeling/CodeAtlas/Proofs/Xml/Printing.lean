/-
# Reading a document that was printed

A tree of elements and texts is printed with its texts and attribute values escaped and with elements
without children closed at once.  Reading the printed text gives the tree back, as long as the tree can
be told from its text at all: texts are not empty and do not stand side by side, and neither texts nor
values hold characters that reading replaces.
-/
import CodeAtlas.Proofs.Text.Cuts
import CodeAtlas.Xml.Document
import Mathlib.Data.List.Nodup

namespace CodeAtlas.Xml

/-! ## Character data -/

/-- The written form of some text. -/
def escaped (text : String) : List Char :=
  text.toList.flatMap escapeChar

theorem toList_escape (text : String) : (escape text).toList = escaped text := by
  rw [escape, String.toList_ofList, escaped]

/-- Whether a character is written as a reference. -/
def isEscaped (c : Char) : Bool :=
  c == '<' || c == '>' || c == '&' || c == '\'' || c == '"'

/-- What a written character is read as. -/
def pieceOf (c : Char) : Piece :=
  if isEscaped c then .reference c else .plain c

theorem escapeChar_of_not {c : Char} (h : isEscaped c = false) : escapeChar c = [c] := by
  simp only [isEscaped, Bool.or_eq_false_iff, beq_eq_false_iff_ne] at h
  rw [escapeChar.eq_def]
  split <;> simp_all

theorem escaped_eq_self {text : String} (h : ∀ c ∈ text.toList, isEscaped c = false) :
    escaped text = text.toList := by
  rw [escaped]
  generalize text.toList = chars at h
  induction chars with
  | nil => rfl
  | cons c rest ih =>
    rw [List.flatMap_cons, escapeChar_of_not (h c List.mem_cons_self),
      ih (fun other hother => h other (List.mem_cons_of_mem _ hother)), List.singleton_append]

theorem eq_of_isEscaped {c : Char} (h : isEscaped c = true) :
    c = '<' ∨ c = '>' ∨ c = '&' ∨ c = '\'' ∨ c = '"' := by
  simpa [isEscaped, or_assoc] using h

theorem pieces_escapeChar (c : Char) (rest : List Char) :
    pieces (escapeChar c ++ rest) = (pieces rest).map (pieceOf c :: ·) := by
  cases h : isEscaped c with
  | true =>
    rcases eq_of_isEscaped h with rfl | rfl | rfl | rfl | rfl <;> rfl
  | false =>
    rw [escapeChar_of_not h, List.singleton_append, pieceOf, h]
    have hne : c ≠ '&' := by
      rintro rfl
      exact absurd h (by decide)
    rw [pieces]
    · simp
    · exact hne

theorem pieces_escaped (text : String) : pieces (escaped text) = some (text.toList.map pieceOf) := by
  rw [escaped]
  induction text.toList with
  | nil => rfl
  | cons c rest ih => rw [List.flatMap_cons, pieces_escapeChar, ih]; rfl

/-- Text without carriage returns is what its pieces say. -/
theorem textOf_map_pieceOf {chars : List Char} (h : '\r' ∉ chars) (afterReference : Bool) :
    textOf afterReference (chars.map pieceOf) = chars := by
  induction chars generalizing afterReference with
  | nil => rfl
  | cons c rest ih =>
    have hc : c ≠ '\r' := fun heq => h (heq ▸ List.mem_cons_self)
    have hrest : '\r' ∉ rest := fun hmem => h (List.mem_cons_of_mem _ hmem)
    rw [List.map_cons, pieceOf]
    split
    · rw [textOf, ih hrest]
    · rw [textOf, ih hrest] <;> simp [hc]

theorem text?_escaped {text : String} (h : '\r' ∉ text.toList) : text? (escaped text) = some text := by
  rw [text?, pieces_escaped, Option.map_some, textOf_map_pieceOf h, String.ofList_toList]

/-- A value whose only blanks are spaces is what its pieces say. -/
theorem valueOf_map_pieceOf {chars : List Char} (h : ∀ c ∈ chars, isSpace c = true → c = ' ') :
    valueOf (chars.map pieceOf) = chars := by
  induction chars with
  | nil => rfl
  | cons c rest ih =>
    have hc := h c List.mem_cons_self
    have hrest := ih (fun other hother => h other (List.mem_cons_of_mem _ hother))
    have hreturn : c ≠ '\r' := by
      rintro rfl
      exact absurd (hc (by decide)) (by decide)
    rw [List.map_cons, pieceOf]
    split
    · rw [valueOf, hrest]
    · rw [valueOf, hrest]
      · split
        · rename_i hspace
          rw [hc hspace]
        · rfl
      · simp [hreturn]

theorem value?_escaped {value : String} (h : ∀ c ∈ value.toList, isSpace c = true → c = ' ') :
    value? (escaped value) = some value := by
  rw [value?, pieces_escaped, Option.map_some, valueOf_map_pieceOf h, String.ofList_toList]

/-- A character of written text: it begins no tag and ends neither a tag nor a value. -/
def isWritten (c : Char) : Bool :=
  isXmlChar c && c != '<' && c != '>' && c != '"'

theorem isWritten_of_mem_escaped {text : String} (h : ∀ c ∈ text.toList, isXmlChar c = true) {c : Char}
    (hc : c ∈ escaped text) : isWritten c = true := by
  obtain ⟨source, hsource, hmem⟩ := List.mem_flatMap.1 hc
  cases hescaped : isEscaped source with
  | true =>
    have hall : (escapeChar source).all isWritten = true := by
      rcases eq_of_isEscaped hescaped with rfl | rfl | rfl | rfl | rfl <;> decide
    exact List.all_eq_true.1 hall c hmem
  | false =>
    rw [escapeChar_of_not hescaped, List.mem_singleton] at hmem
    subst hmem
    have hchar := h c hsource
    simp only [isEscaped, Bool.or_eq_false_iff, beq_eq_false_iff_ne] at hescaped
    simp [isWritten, hchar, hescaped]

theorem occursIn_eq_false {part text : List Char} {last : Char} (hlast : last ∈ part)
    (htext : last ∉ text) : Text.occursIn part text = false := by
  induction text with
  | nil =>
    rw [Text.occursIn, List.isEmpty_eq_false_iff]
    exact List.ne_nil_of_mem hlast
  | cons c rest ih =>
    rw [Text.occursIn, ih (fun hmem => htext (List.mem_cons_of_mem _ hmem)), Bool.or_false]
    cases hlead : Text.afterLead? part (c :: rest) with
    | none => rfl
    | some after =>
      rw [Text.eq_append_of_afterLead? hlead] at htext
      exact absurd (List.mem_append_left _ hlast) htext

/-! ## Readers on printed text -/

theorem afterLead?_of_ne {first c : Char} (hne : first ≠ c) (lead rest : List Char) :
    Text.afterLead? (first :: lead) (c :: rest) = none := by
  simp [Text.afterLead?, hne]

theorem afterLead?_cons (c : Char) (lead rest : List Char) :
    Text.afterLead? (c :: lead) (c :: rest) = Text.afterLead? lead rest := by
  simp [Text.afterLead?]

/-- A name without a prefix. -/
def IsName (name : String) : Prop :=
  name.toList.head?.any isNameStart = true ∧ ∀ c ∈ name.toList, isNameChar c = true

instance (name : String) : Decidable (IsName name) :=
  decidable_of_iff ((name.toList.head?.any isNameStart && name.toList.all isNameChar) = true)
    (by rw [IsName, Bool.and_eq_true, List.all_eq_true])

theorem isSpace_of_isNameStart {c : Char} (h : isNameStart c = true) : isSpace c = false := by
  cases hspace : isSpace c with
  | false => rfl
  | true =>
    simp only [isSpace, Bool.or_eq_true, beq_iff_eq, or_assoc] at hspace
    rcases hspace with rfl | rfl | rfl | rfl <;> exact absurd h (by decide)

theorem ne_of_isNameStart {c other : Char} (h : isNameStart c = true)
    (hother : isNameStart other = false) : other ≠ c := by
  rintro rfl
  exact absurd h (by simp [hother])

theorem IsName.exists_cons {name : String} (h : IsName name) :
    ∃ first tail, name.toList = first :: tail ∧ isNameStart first = true := by
  cases hlist : name.toList with
  | nil => exact absurd h.1 (by simp [hlist])
  | cons first tail => exact ⟨first, tail, rfl, by simpa [hlist] using h.1⟩

namespace Reader

variable {α β : Type}

theorem bind_of_some {reader : Reader α} {next : α → Reader β} {input rest : List Char} {value : α}
    (h : reader input = some (value, rest)) : (reader >>= next) input = next value rest := by
  show (reader input).bind _ = _
  rw [h]
  rfl

theorem next_bind (lead : String) (rest : Bool → Reader α) (input : List Char) :
    (next lead >>= rest) input = rest (Text.afterLead? lead.toList input).isSome input := rfl

theorem next_bind_of_none {lead : String} {input : List Char}
    (h : Text.afterLead? lead.toList input = none) (rest : Bool → Reader α) :
    (next lead >>= rest) input = rest false input := by
  rw [next_bind, h]
  rfl

theorem next_bind_of_some {lead : String} {input after : List Char}
    (h : Text.afterLead? lead.toList input = some after) (rest : Bool → Reader α) :
    (next lead >>= rest) input = rest true input := by
  rw [next_bind, h]
  rfl

theorem expect_append (lead : String) (rest : List Char) :
    expect lead (lead.toList ++ rest) = some (⟨⟩, rest) := by
  rw [expect, Text.afterLead?_append]
  rfl

theorem run_append {p : Char → Bool} {front rest : List Char} (hfront : ∀ c ∈ front, p c = true)
    (hrest : rest.head?.all (fun c => !p c) = true) : run p (front ++ rest) = some (front, rest) := by
  have htake : (front ++ rest).takeWhile p = front := by
    rw [List.takeWhile_append_of_pos hfront]
    cases rest with
    | nil => simp
    | cons c rest =>
      have hc : p c = false := by simpa using hrest
      simp [hc]
  have hdrop : (front ++ rest).dropWhile p = rest := by
    rw [List.dropWhile_append_of_pos hfront]
    cases rest with
    | nil => rfl
    | cons c rest =>
      have hc : p c = false := by simpa using hrest
      simp [hc]
  rw [run, htake, hdrop]

/-- A name up to a character that is none of a name. -/
theorem qname_append {name : String} (h : IsName name) {stop : Char} (rest : List Char)
    (hstop : isNameChar stop = false) (hcolon : stop ≠ ':') :
    qname (name.toList ++ stop :: rest) = some (⟨"", name⟩, stop :: rest) := by
  rw [qname, bind_of_some (run_append h.2 (by simpa using hstop)), next_bind]
  have hnext : Text.afterLead? ":".toList (stop :: rest) = none := by
    simp [Text.afterLead?, hcolon.symm]
  rw [hnext]
  have hbegins : beginsName name.toList = true := h.1
  simp [hbegins]
  rfl

end Reader

/-- An attribute whose value is read as it is printed. -/
structure IsPlainAttribute (entry : String × String) : Prop where
  name : IsName entry.1
  notDeclaration : entry.1 ≠ "xmlns"
  chars : ∀ c ∈ entry.2.toList, isXmlChar c = true
  spaces : ∀ c ∈ entry.2.toList, isSpace c = true → c = ' '

/-- The printed form of an attribute, with the blank before it. -/
def printAttribute (entry : String × String) : List Char :=
  ' ' :: (entry.1.toList ++ '=' :: '"' :: (escaped entry.2 ++ ['"']))

/-- The attribute of a name without a prefix. -/
def attributeOf (entry : String × String) : Attribute :=
  ⟨⟨"", entry.1⟩, entry.2⟩

namespace Reader

theorem spaces_of_not {c : Char} (rest : List Char) (hc : isSpace c = false) :
    spaces (c :: rest) = some (false, c :: rest) := by
  have hrun : run isSpace ([] ++ c :: rest) = some ([], c :: rest) :=
    run_append (by simp) (by simpa using hc)
  exact bind_of_some hrun

/-- One blank in front of something else. -/
theorem spaces_one {c : Char} (rest : List Char) (hc : isSpace c = false) :
    spaces (' ' :: c :: rest) = some (true, c :: rest) := by
  have hrun : run isSpace ([' '] ++ c :: rest) = some ([' '], c :: rest) :=
    run_append (by simp [isSpace]) (by simpa using hc)
  exact bind_of_some hrun

theorem discard_of_some {reader : Reader α} {input rest : List Char} {value : α}
    (h : reader input = some (value, rest)) : discard reader input = some (⟨⟩, rest) := by
  show (reader input).bind _ = _
  rw [h]
  rfl

theorem attr_append {entry : String × String} (h : IsPlainAttribute entry) (rest : List Char) :
    attr (entry.1.toList ++ '=' :: '"' :: (escaped entry.2 ++ '"' :: rest)) =
      some (attributeOf entry, rest) := by
  have hvalue : run (fun c => c != '"' && c != '<' && isXmlChar c) (escaped entry.2 ++ '"' :: rest) =
      some (escaped entry.2, '"' :: rest) := by
    refine run_append (fun c hc => ?_) rfl
    have hwritten := isWritten_of_mem_escaped h.chars hc
    simp only [isWritten, Bool.and_eq_true] at hwritten ⊢
    exact ⟨⟨hwritten.2, hwritten.1.1.2⟩, hwritten.1.1.1⟩
  have hequals : ∀ tail, expect "=" ('=' :: tail) = some (⟨⟩, tail) := expect_append "="
  have hquote : ∀ tail, expect (String.singleton '"') ('"' :: tail) = some (⟨⟩, tail) :=
    expect_append (String.singleton '"')
  have hnext : ∀ tail, Text.afterLead? "\"".toList ('"' :: tail) = some tail :=
    Text.afterLead?_append ['"']
  rw [attr, bind_of_some (qname_append h.name _ (by decide) (by decide)),
    bind_of_some (discard_of_some (spaces_of_not _ (by decide))),
    bind_of_some (hequals _),
    bind_of_some (discard_of_some (spaces_of_not _ (by decide))), next_bind, hnext]
  simp only [Option.isSome_some, if_true, pure_bind]
  rw [bind_of_some (hquote _), bind_of_some hvalue, bind_of_some (hquote _), value?_escaped h.spaces]
  rfl

/-- The end of a printed start tag. -/
def tagEnd (closed : Bool) : List Char :=
  if closed then ['/', '>'] else ['>']

theorem startTag_append (name : QName) (closed : Bool) (rest : List Char)
    {entries : List (String × String)} (h : ∀ entry ∈ entries, IsPlainAttribute entry) {fuel : Nat}
    (hfuel : entries.length < fuel) (known : List Attribute) :
    startTag name fuel known (entries.flatMap printAttribute ++ (tagEnd closed ++ rest)) =
      some (.start name (known.reverse ++ entries.map attributeOf) closed, rest) := by
  induction entries generalizing fuel known with
  | nil =>
    obtain ⟨fuel, rfl⟩ := Nat.exists_eq_succ_of_ne_zero (Nat.ne_of_gt hfuel)
    rw [startTag, List.map_nil, List.append_nil]
    cases closed with
    | true =>
      have hend : expect "/>" ('/' :: '>' :: rest) = some (⟨⟩, rest) := expect_append "/>" rest
      show (spaces >>= _) ('/' :: '>' :: rest) = _
      rw [bind_of_some (spaces_of_not _ (by decide)), next_bind]
      exact bind_of_some hend
    | false =>
      have hend : expect ">" ('>' :: rest) = some (⟨⟩, rest) := expect_append ">" rest
      show (spaces >>= _) ('>' :: rest) = _
      rw [bind_of_some (spaces_of_not _ (by decide)), next_bind]
      show (next ">" >>= _) _ = _
      rw [next_bind]
      exact bind_of_some hend
  | cons entry entries ih =>
    obtain ⟨fuel, rfl⟩ := Nat.exists_eq_succ_of_ne_zero (Nat.ne_of_gt (Nat.zero_lt_of_lt hfuel))
    have hentry := h entry List.mem_cons_self
    have hattr := attr_append hentry
      (entries.flatMap printAttribute ++ (tagEnd closed ++ rest))
    obtain ⟨first, tail, hname, hstart⟩ := hentry.name.exists_cons
    have hinput : (entry :: entries).flatMap printAttribute ++ (tagEnd closed ++ rest) =
        ' ' :: (entry.1.toList ++ '=' :: '"' :: (escaped entry.2 ++ '"' ::
          (entries.flatMap printAttribute ++ (tagEnd closed ++ rest)))) := by
      simp [printAttribute]
    rw [hinput, startTag]
    rw [hname] at hattr ⊢
    have hslash : ∀ rest, Text.afterLead? "/".toList (first :: rest) = none :=
      afterLead?_of_ne (ne_of_isNameStart hstart (by decide)) []
    have hgreater : ∀ rest, Text.afterLead? ">".toList (first :: rest) = none :=
      afterLead?_of_ne (ne_of_isNameStart hstart (by decide)) []
    rw [List.cons_append, bind_of_some (spaces_one _ (isSpace_of_isNameStart hstart)),
      next_bind_of_none (hslash _), if_neg (by decide), next_bind_of_none (hgreater _),
      if_neg (by decide), if_pos rfl]
    rw [← List.cons_append, bind_of_some hattr, ih (fun other hother => h other (List.mem_cons_of_mem _ hother))
      (Nat.lt_of_succ_lt_succ hfuel)]
    simp

/-- Where no tag begins there is text up to the next tag. -/
theorem token_text (size : Nat) {raw : List Char} (rest : List Char) (hne : raw ≠ [])
    (hraw : ∀ c ∈ raw, isWritten c = true) :
    token size (raw ++ '<' :: rest) = some (.text raw, '<' :: rest) := by
  have hlt : ∀ c ∈ raw, (c != '<') = true := by
    intro c hc
    have hwritten := hraw c hc
    simp only [isWritten, Bool.and_eq_true] at hwritten
    exact hwritten.1.1.2
  have hrun : run (fun c => c != '<') (raw ++ '<' :: rest) = some (raw, '<' :: rest) :=
    run_append hlt rfl
  have hall : raw.all isXmlChar = true := by
    refine List.all_eq_true.2 (fun c hc => ?_)
    have hwritten := hraw c hc
    simp only [isWritten, Bool.and_eq_true] at hwritten
    exact hwritten.1.1.1
  have hend : Text.occursIn [']', ']', '>'] raw = false := by
    refine occursIn_eq_false (by simp : '>' ∈ [']', ']', '>']) (fun hmem => ?_)
    exact absurd (hraw '>' hmem) (by decide)
  obtain ⟨c, tail, rfl⟩ := List.exists_cons_of_ne_nil hne
  have hc : '<' ≠ c := by
    rintro rfl
    exact absurd (hlt '<' List.mem_cons_self) (by decide)
  rw [token, List.cons_append]
  iterate 6
    rw [next_bind_of_none (by exact afterLead?_of_ne hc _ _), if_neg (by decide)]
  rw [← List.cons_append, bind_of_some hrun, hall, hend]
  rfl

/-- What follows the name of a start tag is no part of a name. -/
theorem exists_tag_stop (entries : List (String × String)) (closed : Bool) (rest : List Char) :
    ∃ stop tail, entries.flatMap printAttribute ++ (tagEnd closed ++ rest) = stop :: tail ∧
      isNameChar stop = false ∧ stop ≠ ':' := by
  cases entries with
  | nil => cases closed <;> exact ⟨_, _, rfl, by decide, by decide⟩
  | cons entry entries => exact ⟨_, _, rfl, by decide, by decide⟩

theorem token_start (size : Nat) {tag : String} (htag : IsName tag)
    {entries : List (String × String)} (h : ∀ entry ∈ entries, IsPlainAttribute entry)
    (hsize : entries.length < size) (closed : Bool) (rest : List Char) :
    token size ('<' :: (tag.toList ++ (entries.flatMap printAttribute ++ (tagEnd closed ++ rest)))) =
      some (.start ⟨"", tag⟩ (entries.map attributeOf) closed, rest) := by
  have hstart := startTag_append ⟨"", tag⟩ closed rest h hsize []
  obtain ⟨stop, after, hstop, hchar, hcolon⟩ := exists_tag_stop entries closed rest
  rw [hstop] at hstart ⊢
  have hname := qname_append htag after hchar hcolon
  obtain ⟨first, tail, hfirst, hbegin⟩ := htag.exists_cons
  rw [hfirst] at hname ⊢
  -- after the bracket comes a name, so this is no other kind of markup
  have hother : ∀ {second : Char}, isNameStart second = false → ∀ lead,
      Text.afterLead? ('<' :: second :: lead) ('<' :: (first :: tail ++ stop :: after)) = none := by
    intro second hsecond lead
    rw [afterLead?_cons]
    exact afterLead?_of_ne (ne_of_isNameStart hbegin hsecond) lead _
  have hopen : expect "<" ('<' :: (first :: tail ++ stop :: after)) =
      some (⟨⟩, first :: tail ++ stop :: after) := expect_append "<" _
  rw [token, next_bind_of_none (by exact hother (by decide) _), if_neg (by decide),
    next_bind_of_none (by exact hother (by decide) _), if_neg (by decide),
    next_bind_of_none (by exact hother (by decide) _), if_neg (by decide),
    next_bind_of_none (by exact hother (by decide) _), if_neg (by decide),
    next_bind_of_none (by exact hother (by decide) _), if_neg (by decide),
    next_bind_of_some (by exact afterLead?_cons '<' [] _), if_pos rfl, bind_of_some hopen,
    bind_of_some hname, hstart]
  rfl

theorem token_stop (size : Nat) {tag : String} (htag : IsName tag) (rest : List Char) :
    token size ('<' :: '/' :: (tag.toList ++ '>' :: rest)) = some (.stop ⟨"", tag⟩, rest) := by
  have hother : ∀ {second : Char}, second ≠ '/' → ∀ lead,
      Text.afterLead? ('<' :: second :: lead) ('<' :: '/' :: (tag.toList ++ '>' :: rest)) = none := by
    intro second hsecond lead
    rw [afterLead?_cons]
    exact afterLead?_of_ne hsecond lead _
  have hopen : expect "</" ('<' :: '/' :: (tag.toList ++ '>' :: rest)) =
      some (⟨⟩, tag.toList ++ '>' :: rest) := expect_append "</" _
  have hclose : expect ">" ('>' :: rest) = some (⟨⟩, rest) := expect_append ">" rest
  have hnext : Text.afterLead? "</".toList ('<' :: '/' :: (tag.toList ++ '>' :: rest)) =
      some (tag.toList ++ '>' :: rest) := Text.afterLead?_append ['<', '/'] _
  rw [token, next_bind_of_none (by exact hother (by decide) _), if_neg (by decide),
    next_bind_of_none (by exact hother (by decide) _), if_neg (by decide),
    next_bind_of_none (by exact hother (by decide) _), if_neg (by decide),
    next_bind_of_none (by exact hother (by decide) _), if_neg (by decide),
    next_bind_of_some hnext, if_pos rfl, bind_of_some hopen,
    bind_of_some (qname_append htag rest (by decide) (by decide)),
    bind_of_some (discard_of_some (spaces_of_not rest (by decide))), bind_of_some hclose]
  rfl

end Reader

/-- A tag at the very beginning is no declaration. -/
theorem Reader.prolog_of_tag {c : Char} (hc : isNameStart c = true) (rest : List Char) :
    Reader.prolog ('<' :: c :: rest) = some (⟨⟩, '<' :: c :: rest) := by
  have hmark : Text.afterLead? "\uFEFF".toList ('<' :: c :: rest) = none :=
    afterLead?_of_ne (by decide) [] _
  have hdeclaration : Text.afterLead? "<?xml ".toList ('<' :: c :: rest) = none := by
    refine (afterLead?_cons '<' ['?', 'x', 'm', 'l', ' '] _).trans ?_
    exact afterLead?_of_ne (ne_of_isNameStart hc (by decide)) _ _
  rw [Reader.prolog, next_bind_of_none hmark, if_neg (by decide)]
  dsimp only
  rw [next_bind_of_none hdeclaration, if_neg (by decide)]
  rfl

theorem tokens_of_token {input after : List Char} {token : Token}
    (h : Reader.token input.length input = some (token, after)) (hshort : after.length < input.length) :
    tokens input = (tokens after).map (token :: ·) := by
  cases input with
  | nil => exact absurd hshort (by simp)
  | cons c rest =>
    rw [tokens, h]
    exact dif_pos hshort

/-! ## Printing -/

namespace Node

/-- Whether a node is a text. -/
def isText : Node → Bool
  | text _ => true
  | _ => false

mutual

/-- The printed form of a node. -/
def print : Node → List Char
  | text content => escaped content
  | element tag entries children =>
    '<' :: (tag.toList ++ (entries.flatMap printAttribute ++ (Reader.tagEnd children.isEmpty ++
      (if children.isEmpty then [] else printAll children ++ '<' :: '/' :: (tag.toList ++ ['>'])))))
  | comment => []
  | instruction => []

/-- The printed form of a list of nodes. -/
def printAll : List Node → List Char
  | [] => []
  | node :: rest => print node ++ printAll rest

end

mutual

/-- The tokens of a printed node. -/
def tokenList : Node → List Token
  | text content => [.text (escaped content)]
  | element tag entries children =>
    .start ⟨"", tag⟩ (entries.map attributeOf) children.isEmpty ::
      (if children.isEmpty then [] else tokenLists children ++ [.stop ⟨"", tag⟩])
  | comment => []
  | instruction => []

/-- The tokens of a printed list of nodes. -/
def tokenLists : List Node → List Token
  | [] => []
  | node :: rest => tokenList node ++ tokenLists rest

end

mutual

/-- A node that is read as it is printed. -/
def Printable : Node → Prop
  | text content => content ≠ "" ∧ ∀ c ∈ content.toList, isXmlChar c = true ∧ c ≠ '\r'
  | element tag entries children =>
    IsName tag ∧ (∀ entry ∈ entries, IsPlainAttribute entry) ∧ (entries.map Prod.fst).Nodup ∧
      AllPrintable children
  | comment => False
  | instruction => False

/-- Nodes that are read as they are printed side by side. -/
def AllPrintable : List Node → Prop
  | [] => True
  | node :: rest => Printable node ∧ (node.isText = true → rest.head?.any isText = false) ∧
      AllPrintable rest

end

/-- What is printed behind a text begins with a tag. -/
theorem exists_tag_of_not_text {nodes : List Node} (h : AllPrintable nodes)
    (hhead : nodes.head?.any isText = false) (rest : List Char) :
    ∃ tail, printAll nodes ++ '<' :: rest = '<' :: tail := by
  cases nodes with
  | nil => exact ⟨rest, rfl⟩
  | cons node nodes =>
    rw [AllPrintable] at h
    cases node with
    | text content => simp [isText] at hhead
    | element tag entries children => exact ⟨_, rfl⟩
    | comment => exact absurd h.1 (by simp [Printable])
    | instruction => exact absurd h.1 (by simp [Printable])

theorem escaped_ne_nil {text : String} (h : text ≠ "") : escaped text ≠ [] := by
  cases hlist : text.toList with
  | nil => exact absurd (String.toList_eq_nil_iff.1 hlist) h
  | cons c rest =>
    rw [escaped, hlist, List.flatMap_cons]
    cases hescaped : isEscaped c with
    | false => simp [escapeChar_of_not hescaped]
    | true =>
      refine List.append_ne_nil_of_left_ne_nil ?_ _
      rcases eq_of_isEscaped hescaped with rfl | rfl | rfl | rfl | rfl <;> decide

theorem tokens_text {content : String} (h : (text content).Printable) (rest : List Char) :
    tokens (escaped content ++ '<' :: rest) =
      (tokens ('<' :: rest)).map (.text (escaped content) :: ·) := by
  rw [Printable] at h
  have hne := escaped_ne_nil h.1
  refine tokens_of_token (Reader.token_text _ rest hne
    (fun c hc => isWritten_of_mem_escaped (fun c hc => (h.2 c hc).1) hc)) ?_
  rw [List.length_append]
  have hpos := List.length_pos_iff.2 hne
  omega

theorem length_le_flatMap_printAttribute (entries : List (String × String)) :
    entries.length ≤ (entries.flatMap printAttribute).length := by
  induction entries with
  | nil => exact Nat.le_refl 0
  | cons entry rest ih =>
    rw [List.flatMap_cons, List.length_append, printAttribute]
    simp only [List.length_cons]
    omega

theorem tokens_start {tag : String} (htag : IsName tag) {entries : List (String × String)}
    (h : ∀ entry ∈ entries, IsPlainAttribute entry) (closed : Bool) (rest : List Char) :
    tokens ('<' :: (tag.toList ++ (entries.flatMap printAttribute ++ (Reader.tagEnd closed ++ rest)))) =
      (tokens rest).map (.start ⟨"", tag⟩ (entries.map attributeOf) closed :: ·) := by
  have hlength := length_le_flatMap_printAttribute entries
  refine tokens_of_token (Reader.token_start _ htag h ?_ closed rest) ?_
  · simp only [List.length_cons, List.length_append]
    omega
  · simp only [List.length_cons, List.length_append]
    omega

theorem tokens_stop {tag : String} (htag : IsName tag) (rest : List Char) :
    tokens ('<' :: '/' :: (tag.toList ++ '>' :: rest)) = (tokens rest).map (.stop ⟨"", tag⟩ :: ·) := by
  refine tokens_of_token (Reader.token_stop _ htag rest) ?_
  simp only [List.length_cons, List.length_append]
  omega

mutual

/-- The tokens of a printed node are read first. -/
theorem tokens_print {node : Node} (h : node.Printable) {rest : List Char}
    (htext : node.isText = true → ∃ tail, rest = '<' :: tail) :
    tokens (node.print ++ rest) = (tokens rest).map (node.tokenList ++ ·) := by
  cases node with
  | text content =>
    obtain ⟨tail, rfl⟩ := htext rfl
    exact tokens_text h tail
  | element tag entries children =>
    rw [Printable] at h
    obtain ⟨htag, hentries, _, hchildren⟩ := h
    rw [print, tokenList]
    simp only [List.cons_append, List.append_assoc]
    rw [tokens_start htag hentries]
    by_cases hempty : children.isEmpty = true
    · simp [hempty]
    · rw [if_neg hempty, if_neg hempty]
      simp only [List.append_assoc, List.cons_append, List.nil_append]
      rw [tokens_printAll hchildren, tokens_stop htag, Option.map_map, Option.map_map]
      congr 1
  | comment => exact absurd h (by simp [Printable])
  | instruction => exact absurd h (by simp [Printable])

theorem tokens_printAll {nodes : List Node} (h : AllPrintable nodes) (rest : List Char) :
    tokens (printAll nodes ++ '<' :: rest) = (tokens ('<' :: rest)).map (tokenLists nodes ++ ·) := by
  cases nodes with
  | nil => simp [printAll, tokenLists]
  | cons node nodes =>
    rw [AllPrintable] at h
    obtain ⟨hnode, hnext, hnodes⟩ := h
    rw [printAll, tokenLists, List.append_assoc,
      tokens_print hnode (fun htext => exists_tag_of_not_text hnodes (hnext htext) rest),
      tokens_printAll hnodes, Option.map_map]
    congr 1
    funext later
    simp

end

end Node

/-! ## Building the tree -/

theorem role_attributeOf {entry : String × String} (h : IsPlainAttribute entry) :
    (attributeOf entry).role = .plain := by
  rw [Attribute.role, attributeOf]
  simp [h.notDeclaration]

theorem allDistinct_iff_nodup {α : Type} [BEq α] [LawfulBEq α] {list : List α} :
    allDistinct list = true ↔ list.Nodup := by
  induction list with
  | nil => simp [allDistinct]
  | cons first rest ih => simp [allDistinct, ih]

/-- The attribute of a name without a namespace. -/
def resolvedOf (entry : String × String) : ResolvedAttribute :=
  ⟨none, entry.1, entry.2⟩

theorem mapM_attributeSpace? (scope : Namespaces) (entries : List (String × String)) :
    (entries.map attributeOf).mapM (fun a => (attributeSpace? scope a.name.qualifier).map
        (fun space => (⟨space, a.name.localName, a.value⟩ : ResolvedAttribute))) =
      some (entries.map resolvedOf) := by
  induction entries with
  | nil => rfl
  | cons entry rest ih =>
    rw [List.map_cons, List.mapM_cons, ih]
    rfl

theorem map_filter_resolvedOf (entries : List (String × String)) :
    ((entries.map resolvedOf).filter (fun a => a.space.isNone)).map (fun a => (a.name, a.value)) =
      entries := by
  have hall : (entries.map resolvedOf).filter (fun a => a.space.isNone) = entries.map resolvedOf := by
    refine List.filter_eq_self.2 (fun attr hattr => ?_)
    obtain ⟨entry, _, rfl⟩ := List.mem_map.1 hattr
    rfl
  rw [hall, List.map_map]
  exact List.map_id entries

/-- A start tag with plain attributes opens an element that has them. -/
theorem openElement_plain (scope : Namespaces) (tag : String) {entries : List (String × String)}
    (h : ∀ entry ∈ entries, IsPlainAttribute entry) (hnodup : (entries.map Prod.fst).Nodup) :
    openElement scope ⟨"", tag⟩ (entries.map attributeOf) =
      some { name := ⟨"", tag⟩, attributes := entries, children := [], scope := scope } := by
  have hrole : ∀ attr ∈ entries.map attributeOf, attr.role = .plain := by
    intro attr hattr
    obtain ⟨entry, hentry, rfl⟩ := List.mem_map.1 hattr
    exact role_attributeOf (h entry hentry)
  have hallowed : (entries.map attributeOf).all Attribute.isAllowed = true := by
    refine List.all_eq_true.2 (fun attr hattr => ?_)
    rw [Attribute.isAllowed, hrole attr hattr]
  have hdeclares : (entries.map attributeOf).filter (fun a => a.role == .declaresPrefix) = [] := by
    refine List.filter_eq_nil_iff.2 (fun attr hattr => ?_)
    rw [hrole attr hattr]
    decide
  have hdeclared : declaredPrefixes (entries.map attributeOf) = [] := by
    rw [declaredPrefixes, List.map_eq_nil_iff]
    refine List.filter_eq_nil_iff.2 (fun attr hattr => ?_)
    rw [hrole attr hattr]
    simp
  have hplain : (entries.map attributeOf).filter (fun a => a.role == .plain) =
      entries.map attributeOf := by
    refine List.filter_eq_self.2 (fun attr hattr => ?_)
    rw [hrole attr hattr]
    decide
  have hresolve : resolveAttributes scope (entries.map attributeOf) =
      some (entries.map resolvedOf) := by
    have hdistinct : allDistinct ((entries.map resolvedOf).map (fun a => (a.space, a.name))) = true := by
      have hpairs : (entries.map resolvedOf).map (fun a => (a.space, a.name)) =
          (entries.map Prod.fst).map (fun name => ((none : Option String), name)) := by
        rw [List.map_map, List.map_map]
        rfl
      rw [hpairs, allDistinct_iff_nodup]
      exact List.Nodup.map (fun _ _ heq => (Prod.mk.inj heq).2) hnodup
    rw [resolveAttributes, hplain, mapM_attributeSpace?]
    simp only [hdistinct, if_true]
  rw [openElement, hallowed, hdeclares, hdeclared, List.nil_append, hresolve]
  simp [allDistinct, map_filter_resolvedOf]

theorem addNode_of_not_text {node : Node} {children : List Node}
    (h : node.isText = true → children.head?.any Node.isText = false) :
    addNode node children = node :: children := by
  rw [addNode.eq_def]
  split
  · simp [Node.isText] at h
  · rfl

/-! ### Taking in the tokens of a node -/

namespace Node

mutual

/-- The tokens of a printed node put the node behind those of the innermost open element. -/
theorem foldlM_tokenList {node : Node} (h : node.Printable) (root : Option Node) (frame : Frame)
    (outer : List Frame) (htext : node.isText = true → frame.children.head?.any isText = false) :
    node.tokenList.foldlM Partial.step ⟨root, frame :: outer⟩ =
      some ⟨root, { frame with children := node :: frame.children } :: outer⟩ := by
  cases node with
  | text content =>
    rw [Printable] at h
    have hread := text?_escaped (fun hmem => (h.2 '\r' hmem).2 rfl)
    have hadd : addNode (.text content) frame.children = .text content :: frame.children :=
      addNode_of_not_text htext
    simp [tokenList, Partial.step, hread, Partial.add, hadd]
  | element tag entries children =>
    rw [Printable] at h
    obtain ⟨htag, hentries, hnodup, hchildren⟩ := h
    have hadd : addNode (.element tag entries children) frame.children =
        .element tag entries children :: frame.children :=
      addNode_of_not_text (by simp [isText])
    rw [tokenList, List.foldlM_cons, Partial.step]
    simp only [List.head?_cons, Option.map_some, Option.getD_some,
      openElement_plain frame.scope tag hentries hnodup]
    by_cases hempty : children.isEmpty = true
    · rw [if_pos hempty, if_pos hempty]
      obtain rfl := List.isEmpty_iff.1 hempty
      simp [Frame.close, Partial.add, hadd]
    · rw [if_neg hempty, if_neg hempty]
      simp only [List.isEmpty_cons, Bool.false_and, Bool.false_eq_true, if_false, bind,
        Option.bind_some]
      rw [List.foldlM_append, foldlM_tokenLists hchildren root _ _ (by simp)]
      simp [Partial.step, Partial.add, Frame.close, hadd]
  | comment => exact absurd h (by simp [Printable])
  | instruction => exact absurd h (by simp [Printable])

theorem foldlM_tokenLists {nodes : List Node} (h : AllPrintable nodes) (root : Option Node)
    (frame : Frame) (outer : List Frame)
    (htext : nodes.head?.any isText = true → frame.children.head?.any isText = false) :
    (tokenLists nodes).foldlM Partial.step ⟨root, frame :: outer⟩ =
      some ⟨root, { frame with children := nodes.reverse ++ frame.children } :: outer⟩ := by
  cases nodes with
  | nil => rfl
  | cons node nodes =>
    rw [AllPrintable] at h
    obtain ⟨hnode, hnext, hnodes⟩ := h
    have hhead : nodes.head?.any isText = true → (node :: frame.children).head?.any isText = false := by
      intro hany
      cases hnodeText : node.isText with
      | false => simp [hnodeText]
      | true => exact absurd hany (by simp [hnext hnodeText])
    rw [tokenLists, List.foldlM_append, foldlM_tokenList hnode root frame outer (by simpa using htext)]
    simp only [bind, Option.bind_some]
    rw [foldlM_tokenLists hnodes root _ outer hhead]
    simp

end

end Node

/-- Reading a printed element gives it back. -/
theorem parse_print {tag : String} {entries : List (String × String)} {children : List Node}
    (h : (Node.element tag entries children).Printable) :
    parse (String.ofList (Node.element tag entries children).print) =
      some (.element tag entries children) := by
  have htokens : tokens (Node.element tag entries children).print =
      some (Node.element tag entries children).tokenList := by
    have hread := @Node.tokens_print _ h [] (by simp [Node.isText])
    rw [List.append_nil, tokens, Option.map_some, List.append_nil] at hread
    exact hread
  have hdocument : documentTokens (String.ofList (Node.element tag entries children).print) =
      some (Node.element tag entries children).tokenList := by
    rw [Node.Printable] at h
    obtain ⟨first, tail, hname, hfirst⟩ := h.1.exists_cons
    rw [documentTokens, String.toList_ofList]
    have hprint : ∃ rest, (Node.element tag entries children).print = '<' :: first :: rest := by
      rw [Node.print, hname]
      exact ⟨_, rfl⟩
    obtain ⟨rest, hrest⟩ := hprint
    rw [hrest, Reader.prolog_of_tag hfirst, ← hrest]
    exact htokens
  rw [Node.Printable] at h
  obtain ⟨htag, hentries, hnodup, hchildren⟩ := h
  rw [parse, hdocument, Option.bind_some, Node.tokenList, List.foldlM_cons, Partial.step]
  simp only [List.head?_nil, Option.map_none, Option.getD_none,
    openElement_plain [] tag hentries hnodup]
  by_cases hempty : children.isEmpty = true
  · rw [if_pos hempty, if_pos hempty]
    obtain rfl := List.isEmpty_iff.1 hempty
    simp [Frame.close, Partial.add, Node.isElement, Node.name?]
  · rw [if_neg hempty, if_neg hempty]
    simp only [Option.isSome_none, Bool.and_false, Bool.false_eq_true, if_false, bind,
      Option.bind_some]
    rw [List.foldlM_append, Node.foldlM_tokenLists hchildren none _ [] (by simp)]
    simp [Partial.step, Partial.add, Frame.close, Node.isElement, Node.name?]

end CodeAtlas.Xml
