/-
# Documents in two parts

What has been read of a tag, a text or a comment does not depend on what follows, as long as it is
complete.  A document may therefore be read in two parts; a text that goes on in the second part says
what its two parts say.  A comment between the parts is noticed only as a node of its own.
-/
import CodeAtlas.Proofs.Xml.Printing
import CodeAtlas.Proofs.Xml.Reading

namespace CodeAtlas.Xml

/-! ## Readers and what follows -/

/-- Input that holds the end of a tag is not the beginning of a text that has it only as its last
character. -/
theorem afterLead?_append_of_none {lead s : List Char} (hlead : '>' ∉ lead.dropLast) (hs : '>' ∈ s)
    (h : Text.afterLead? lead s = none) (more : List Char) :
    Text.afterLead? lead (s ++ more) = none := by
  induction lead generalizing s with
  | nil => simp [Text.afterLead?] at h
  | cons l lead ih =>
    cases s with
    | nil => simp at hs
    | cons c s =>
      rw [Text.afterLead?] at h
      rw [List.cons_append, Text.afterLead?]
      split
      · rename_i hc
        rw [if_pos hc] at h
        cases lead with
        | nil => simp [Text.afterLead?] at h
        | cons next lead =>
          rw [List.dropLast_cons_cons, List.mem_cons, not_or] at hlead
          rcases List.mem_cons.1 hs with rfl | hs
          · exact absurd (by simpa using hc) (Ne.symm hlead.1)
          · exact ih hlead.2 hs h
      · rfl

/-- The first occurrence of an ending is the first one in more input. -/
theorem splitAt_append {tail input before after : List Char} (hend : '>' ∈ tail)
    (htail : '>' ∉ tail.dropLast) (h : Reader.splitAt tail input = some (before, after))
    (more : List Char) : Reader.splitAt tail (input ++ more) = some (before, after ++ more) := by
  induction input generalizing before with
  | nil => simp [Reader.splitAt] at h
  | cons c rest ih =>
    rw [Reader.splitAt] at h
    rw [List.cons_append, Reader.splitAt]
    split at h
    case h_1 found hfound =>
      obtain ⟨rfl, rfl⟩ := Prod.mk.inj (Option.some.inj h)
      rw [← List.cons_append, Text.afterLead?_append_of_some hfound]
    case h_2 hnone =>
      obtain ⟨⟨front, back⟩, hsplit, hcons⟩ := Option.map_eq_some_iff.1 h
      obtain ⟨rfl, rfl⟩ := Prod.mk.inj hcons
      have hinside : '>' ∈ c :: rest := by
        rw [Reader.splitAt_eq hsplit]
        simp [hend]
      rw [← List.cons_append, afterLead?_append_of_none htail hinside hnone, ih hsplit]
      rfl

namespace Reader

variable {α β : Type}

/-- A reader that leaves the end of a tag to be read reads the same, whatever follows. -/
def Passes (reader : Reader α) : Prop :=
  ∀ input value rest, reader input = some (value, rest) → rest <:+ input ∧
    ('>' ∈ rest → ∀ more, reader (input ++ more) = some (value, rest ++ more))

/-- What a reader reads is read by the other one, whatever follows. -/
def Extends (reader later : Reader α) : Prop :=
  ∀ input value rest, reader input = some (value, rest) → rest <:+ input ∧
    ∀ more, later (input ++ more) = some (value, rest ++ more)

/-- What a reader reads up to the end of a tag is read by the other one, whatever follows. -/
def Finishes (reader later : Reader α) : Prop :=
  ∀ input value rest, reader input = some (value, rest) → rest <:+ input ∧
    '>' ∈ input ∧ ∀ more, later (input ++ more) = some (value, rest ++ more)

variable {reader later : Reader α} {next following : α → Reader β}

theorem bind_eq_some {input : List Char} {value : β} {rest : List Char} :
    (reader >>= next) input = some (value, rest) ↔
      ∃ first between, reader input = some (first, between) ∧
        next first between = some (value, rest) := by
  show (reader input).bind (fun result => next result.1 result.2) = some (value, rest) ↔ _
  rw [Option.bind_eq_some_iff]
  exact Prod.exists

/-! ### Readers inside a tag -/

theorem Passes.pure (value : α) : (Pure.pure value : Reader α).Passes := by
  intro input other rest h
  obtain ⟨rfl, rfl⟩ := Prod.mk.inj (Option.some.inj h)
  exact ⟨List.suffix_refl _, fun _ _ => rfl⟩

theorem Passes.failure : (Alternative.failure : Reader α).Passes := by
  intro input value rest h
  exact absurd h (fun hnone => by cases hnone)

theorem Passes.bind (h : reader.Passes) (hnext : ∀ value, (next value).Passes) :
    (reader >>= next).Passes := by
  intro input value rest hread
  obtain ⟨first, between, hfirst, hlast⟩ := bind_eq_some.1 hread
  obtain ⟨hsuffix, hmore⟩ := h input first between hfirst
  obtain ⟨hsuffix', hmore'⟩ := hnext first between value rest hlast
  refine ⟨hsuffix'.trans hsuffix, fun hend more => bind_eq_some.2 ⟨first, between ++ more, ?_, ?_⟩⟩
  · exact hmore (hsuffix'.subset hend) more
  · exact hmore' hend more

theorem Passes.ite {condition : Prop} [Decidable condition] {yes no : Reader α} (hyes : yes.Passes)
    (hno : no.Passes) : (if condition then yes else no).Passes := by
  split
  · exact hyes
  · exact hno

theorem Passes.discard (h : reader.Passes) : (discard reader : Reader PUnit).Passes :=
  h.bind (fun _ => Passes.pure _)

theorem passes_run (p : Char → Bool) : (run p).Passes := by
  intro input value rest h
  obtain ⟨rfl, rfl⟩ := Prod.mk.inj (Option.some.inj h)
  refine ⟨List.dropWhile_suffix p, fun hend more => ?_⟩
  have hne : (input.dropWhile p).isEmpty = false :=
    List.isEmpty_eq_false_iff.2 (List.ne_nil_of_mem hend)
  have hdrop : (input ++ more).dropWhile p = input.dropWhile p ++ more := by
    rw [List.dropWhile_append, hne, if_neg Bool.false_ne_true]
  have htake : (input ++ more).takeWhile p = input.takeWhile p := by
    have hwhole := List.takeWhile_append_dropWhile (p := p) (l := input ++ more)
    rw [hdrop, ← List.append_assoc] at hwhole
    have hinput := List.append_cancel_right hwhole
    exact List.append_cancel_right (hinput.trans List.takeWhile_append_dropWhile.symm)
  rw [run, htake, hdrop]

theorem passes_expect (lead : String) : (expect lead).Passes := by
  intro input value rest h
  obtain ⟨after, hafter, hrest⟩ := Option.map_eq_some_iff.1 h
  obtain ⟨-, rfl⟩ := Prod.mk.inj hrest
  refine ⟨⟨lead.toList, (Text.eq_append_of_afterLead? hafter).symm⟩, fun _ more => ?_⟩
  rw [expect, Text.afterLead?_append_of_some hafter]
  rfl

theorem passes_next {lead : String} (hlead : '>' ∉ lead.toList.dropLast) : (Reader.next lead).Passes := by
  intro input value rest h
  obtain ⟨rfl, rfl⟩ := Prod.mk.inj (Option.some.inj h)
  refine ⟨List.suffix_refl _, fun hend more => ?_⟩
  rw [Reader.next]
  cases hnext : Text.afterLead? lead.toList input with
  | none => rw [afterLead?_append_of_none hlead hend hnext]
  | some after => rw [Text.afterLead?_append_of_some hnext]; rfl

theorem passes_spaces : spaces.Passes :=
  (passes_run isSpace).bind (fun _ => Passes.pure _)

theorem passes_qname : qname.Passes := by
  refine (passes_run isNameChar).bind (fun first => (passes_next (by decide)).bind (fun colon => ?_))
  refine Passes.ite ?_ (Passes.ite (Passes.pure _) Passes.failure)
  refine (passes_expect ":").bind (fun _ => (passes_run isNameChar).bind (fun second => ?_))
  exact (passes_next (by decide)).bind (fun again => Passes.ite (Passes.pure _) Passes.failure)

theorem passes_attrValue (name : QName) (quote : Char) : Passes (do
    expect (String.singleton quote)
    let raw ← run (fun c => c != quote && c != '<' && isXmlChar c)
    expect (String.singleton quote)
    match value? raw with
    | some value => return (⟨name, value⟩ : Attribute)
    | none => failure) := by
  refine (passes_expect _).bind (fun _ => (passes_run _).bind (fun raw => (passes_expect _).bind
    (fun _ => ?_)))
  split
  · exact Passes.pure _
  · exact Passes.failure

theorem passes_attr : attr.Passes := by
  refine passes_qname.bind (fun name => passes_spaces.discard.bind (fun _ => ?_))
  refine (passes_expect "=").bind (fun _ => passes_spaces.discard.bind (fun _ => ?_))
  exact (passes_next (by decide)).bind (fun double =>
    Passes.ite (passes_attrValue name '"') (passes_attrValue name '\''))

theorem passes_declarationGap : declarationGap.Passes := by
  refine passes_spaces.bind (fun blank => (passes_next (by decide)).bind (fun ended => ?_))
  exact Passes.ite Passes.failure (Passes.pure _)

theorem passes_declarationPart {name : String} (hname : '>' ∉ name.toList.dropLast) :
    (declarationPart name).Passes :=
  (passes_next hname).bind (fun _ => Passes.ite passes_attr.discard (Passes.pure _))

theorem passes_declaration : declaration.Passes := by
  have hrest : Passes (do
      declarationPart "standalone"
      discard spaces
      expect "?>") :=
    (passes_declarationPart (by decide)).bind (fun _ => passes_spaces.discard.bind
      (fun _ => passes_expect "?>"))
  refine (passes_expect "<?xml").bind (fun _ => passes_declarationGap.bind (fun _ => ?_))
  refine (passes_next (by decide)).bind (fun _ => Passes.ite ?_ Passes.failure)
  refine passes_attr.discard.bind (fun _ => passes_declarationGap.bind (fun _ => ?_))
  refine (passes_next (by decide)).bind (fun _ => Passes.ite ?_ hrest)
  exact passes_attr.discard.bind (fun _ => passes_declarationGap.bind (fun _ => hrest))

theorem passes_prolog : prolog.Passes := by
  have hrest : Passes (do if ← Reader.next "<?xml " then declaration) :=
    (passes_next (by decide)).bind (fun _ => Passes.ite passes_declaration (Passes.pure _))
  refine (passes_next (by decide)).bind (fun _ => Passes.ite ?_ hrest)
  exact (passes_expect "\uFEFF").bind (fun _ => hrest)

/-! ### Readers up to the end of a tag -/

theorem Extends.pure (value : α) :
    (Pure.pure value : Reader α).Extends (Pure.pure value) := by
  intro input other rest h
  obtain ⟨rfl, rfl⟩ := Prod.mk.inj (Option.some.inj h)
  exact ⟨List.suffix_refl _, fun _ => rfl⟩

theorem Extends.failure : (Alternative.failure : Reader α).Extends later := by
  intro input value rest h
  exact absurd h (fun hnone => by cases hnone)

theorem Extends.ite {condition : Prop} [Decidable condition] {yes no yes' no' : Reader α}
    (hyes : yes.Extends yes') (hno : no.Extends no') :
    (if condition then yes else no).Extends (if condition then yes' else no') := by
  split
  · exact hyes
  · exact hno

theorem Finishes.failure : (Alternative.failure : Reader α).Finishes later := by
  intro input value rest h
  exact absurd h (fun hnone => by cases hnone)

theorem Finishes.ite {condition : Prop} [Decidable condition] {yes no yes' no' : Reader α}
    (hyes : yes.Finishes yes') (hno : no.Finishes no') :
    (if condition then yes else no).Finishes (if condition then yes' else no') := by
  split
  · exact hyes
  · exact hno

/-- What was read up to the end of a tag is worked up. -/
theorem Finishes.bind (h : reader.Finishes later)
    (hnext : ∀ value, (next value).Extends (following value)) :
    (reader >>= next).Finishes (later >>= following) := by
  intro input value rest hread
  obtain ⟨first, between, hfirst, hlast⟩ := bind_eq_some.1 hread
  obtain ⟨hsuffix, hend, hmore⟩ := h input first between hfirst
  obtain ⟨hsuffix', hmore'⟩ := hnext first between value rest hlast
  refine ⟨hsuffix'.trans hsuffix, hend, fun more => ?_⟩
  exact bind_eq_some.2 ⟨first, between ++ more, hmore more, hmore' more⟩

/-- What comes first inside a tag is read the same, as the end of the tag follows. -/
theorem Passes.bind_finishes (h : reader.Passes)
    (hnext : ∀ value, (next value).Finishes (following value)) :
    (reader >>= next).Finishes (reader >>= following) := by
  intro input value rest hread
  obtain ⟨first, between, hfirst, hlast⟩ := bind_eq_some.1 hread
  obtain ⟨hsuffix, hpass⟩ := h input first between hfirst
  obtain ⟨hsuffix', hend, hmore⟩ := hnext first between value rest hlast
  refine ⟨hsuffix'.trans hsuffix, hsuffix.subset hend, fun more => ?_⟩
  exact bind_eq_some.2 ⟨first, between ++ more, hpass hend more, hmore more⟩

theorem finishes_expect {lead : String} (hlead : '>' ∈ lead.toList) :
    (expect lead).Finishes (expect lead) := by
  intro input value rest h
  obtain ⟨after, hafter, hrest⟩ := Option.map_eq_some_iff.1 h
  obtain ⟨-, rfl⟩ := Prod.mk.inj hrest
  refine ⟨⟨lead.toList, (Text.eq_append_of_afterLead? hafter).symm⟩, ?_, fun more => ?_⟩
  · rw [Text.eq_append_of_afterLead? hafter]
    exact List.mem_append_left _ hlead
  · rw [expect, Text.afterLead?_append_of_some hafter]
    rfl

theorem finishes_upTo {tail : String} (hend : '>' ∈ tail.toList)
    (htail : '>' ∉ tail.toList.dropLast) : (upTo tail).Finishes (upTo tail) := by
  intro input value rest h
  rw [upTo] at h
  split at h
  case h_1 content after hsplit =>
    split at h
    case isTrue hall =>
      obtain ⟨rfl, rfl⟩ := Prod.mk.inj (Option.some.inj h)
      refine ⟨⟨content ++ tail.toList, ?_⟩, ?_, fun more => ?_⟩
      · rw [splitAt_eq hsplit, List.append_assoc]
      · rw [splitAt_eq hsplit]
        simp [hend]
      · rw [upTo, splitAt_append hend htail hsplit]
        exact if_pos hall
    case isFalse => simp at h
  case h_2 => simp at h

/-- A start tag is read within more attributes, too. -/
theorem finishes_startTag (name : QName) {fuel more : Nat} (hfuel : fuel ≤ more)
    (known : List Attribute) : (startTag name fuel known).Finishes (startTag name more known) := by
  induction fuel generalizing more known with
  | zero => exact Finishes.failure
  | succ fuel ih =>
    obtain ⟨more, rfl⟩ : ∃ fewer, more = fewer + 1 := ⟨more - 1, by omega⟩
    rw [startTag, startTag]
    refine passes_spaces.bind_finishes (fun separated => ?_)
    refine (passes_next (by decide)).bind_finishes (fun closed => Finishes.ite ?_ ?_)
    · exact (finishes_expect (by decide)).bind (fun _ => Extends.pure _)
    refine (passes_next (by decide)).bind_finishes (fun ended => Finishes.ite ?_ ?_)
    · exact (finishes_expect (by decide)).bind (fun _ => Extends.pure _)
    refine Finishes.ite ?_ Finishes.failure
    exact passes_attr.bind_finishes (fun entry => ih (by omega) _)

theorem finishes_instruction : instruction.Finishes instruction := by
  refine (passes_run _).bind_finishes (fun target => Finishes.ite ?_ Finishes.failure)
  refine Finishes.bind ?_ (fun _ => Extends.pure _)
  exact (finishes_upTo (by decide) (by decide)).bind (fun _ => Extends.pure _)

/-- Reads a token that begins as tags do. -/
def markup (size : Nat) : Reader Token := do
  if ← Reader.next "<!--" then
    expect "<!--"
    let content ← upTo "-->"
    if isComment content then return .comment else Alternative.failure
  else if ← Reader.next "<![CDATA[" then
    expect "<![CDATA["
    return .cdata (← upTo "]]>")
  else if ← Reader.next "<?xml " then Alternative.failure
  else if ← Reader.next "<?" then
    expect "<?"
    instruction
  else if ← Reader.next "</" then
    expect "</"
    let name ← qname
    discard spaces
    expect ">"
    return .stop name
  else if ← Reader.next "<" then
    expect "<"
    startTag (← qname) size []
  else Alternative.failure

theorem finishes_markup {size more : Nat} (hsize : size ≤ more) :
    (markup size).Finishes (markup more) := by
  refine (passes_next (by decide)).bind_finishes (fun _ => Finishes.ite ?_ ?_)
  · refine (passes_expect "<!--").bind_finishes (fun _ => ?_)
    refine (finishes_upTo (by decide) (by decide)).bind (fun content => ?_)
    exact Extends.ite (Extends.pure _) Extends.failure
  refine (passes_next (by decide)).bind_finishes (fun _ => Finishes.ite ?_ ?_)
  · refine (passes_expect "<![CDATA[").bind_finishes (fun _ => ?_)
    exact (finishes_upTo (by decide) (by decide)).bind (fun content => Extends.pure _)
  refine (passes_next (by decide)).bind_finishes (fun _ => Finishes.ite Finishes.failure ?_)
  refine (passes_next (by decide)).bind_finishes (fun _ => Finishes.ite ?_ ?_)
  · exact (passes_expect "<?").bind_finishes (fun _ => finishes_instruction)
  refine (passes_next (by decide)).bind_finishes (fun _ => Finishes.ite ?_ ?_)
  · refine (passes_expect "</").bind_finishes (fun _ => passes_qname.bind_finishes (fun name => ?_))
    refine passes_spaces.discard.bind_finishes (fun _ => ?_)
    exact (finishes_expect (by decide)).bind (fun _ => Extends.pure _)
  refine (passes_next (by decide)).bind_finishes (fun _ => Finishes.ite ?_ Finishes.failure)
  refine (passes_expect "<").bind_finishes (fun _ => passes_qname.bind_finishes (fun name => ?_))
  exact finishes_startTag name hsize []

theorem next_bind_congr {lead : String} {input : List Char} {yes no other : Reader α}
    (h : Text.afterLead? lead.toList input = none → no input = other input) :
    (Reader.next lead >>= fun found => if found then yes else no) input =
      (Reader.next lead >>= fun found => if found then yes else other) input := by
  rw [next_bind, next_bind]
  cases hlead : Text.afterLead? lead.toList input with
  | none => exact h hlead
  | some after => rfl

theorem token_of_tag (size : Nat) (rest : List Char) :
    token size ('<' :: rest) = markup size ('<' :: rest) := by
  refine next_bind_congr (fun _ => next_bind_congr (fun _ => next_bind_congr (fun _ =>
    next_bind_congr (fun _ => next_bind_congr (fun _ => next_bind_congr (fun hnone => ?_))))))
  exact absurd hnone (by simp [Text.afterLead?])

/-- Whether characters may stand between tags. -/
def isCharData (raw : List Char) : Bool :=
  raw.all isXmlChar && !Text.occursIn [']', ']', '>'] raw

theorem token_of_not_tag (size : Nat) {c : Char} (hc : '<' ≠ c) (rest : List Char) :
    token size (c :: rest) =
      if isCharData ((c :: rest).takeWhile (· != '<')) then
        some (.text ((c :: rest).takeWhile (· != '<')), (c :: rest).dropWhile (· != '<'))
      else none := by
  rw [token]
  iterate 6
    rw [next_bind_of_none (by exact afterLead?_of_ne hc _ _), if_neg (by decide)]
  rw [bind_of_some (show run (· != '<') (c :: rest) = some (_, _) from rfl)]
  unfold isCharData
  split
  · rfl
  · rfl

end Reader

/-! ## Tokens and what follows -/

/-- A tag is read first, whatever follows. -/
theorem tokens_of_markup {rest after : List Char} {token : Token}
    (hread : Reader.token ('<' :: rest).length ('<' :: rest) = some (token, after))
    (hshort : after.length < ('<' :: rest).length) :
    after <:+ '<' :: rest ∧ '>' ∈ '<' :: rest ∧ ∀ more, tokens ('<' :: rest ++ more) =
      (tokens (after ++ more)).map (token :: ·) := by
  rw [Reader.token_of_tag] at hread
  obtain ⟨hsuffix, hend, -⟩ := Reader.finishes_markup (Nat.le_refl _) _ _ _ hread
  refine ⟨hsuffix, hend, fun more => ?_⟩
  have hlength : ('<' :: rest).length ≤ ('<' :: rest ++ more).length := by
    rw [List.length_append]
    omega
  refine tokens_of_token ?_ ?_
  · rw [List.cons_append, Reader.token_of_tag, ← List.cons_append]
    exact (Reader.finishes_markup hlength _ _ _ hread).2.2 more
  · rw [List.length_append, List.length_append]
    omega

/-- Where no tag begins there is a text up to the next tag. -/
theorem tokens_of_not_tag {raw rest : List Char} (hne : raw ≠ []) (hraw : '<' ∉ raw)
    (hrest : rest.head?.all (· == '<') = true) :
    tokens (raw ++ rest) =
      if Reader.isCharData raw then (tokens rest).map (.text raw :: ·) else none := by
  have hrun : Reader.run (· != '<') (raw ++ rest) = some (raw, rest) := by
    refine Reader.run_append (fun c hc => ?_) ?_
    · exact bne_iff_ne.2 (fun heq => hraw (heq ▸ hc))
    · simp only [bne, Bool.not_not]
      exact hrest
  obtain ⟨htake, hdrop⟩ := Prod.mk.inj (Option.some.inj hrun)
  obtain ⟨c, tail, rfl⟩ := List.exists_cons_of_ne_nil hne
  have hc : '<' ≠ c := fun heq => hraw (heq ▸ List.mem_cons_self)
  have hread := Reader.token_of_not_tag (c :: tail ++ rest).length hc (tail ++ rest)
  rw [← List.cons_append, htake, hdrop] at hread
  split
  case isTrue hdata =>
    rw [if_pos hdata] at hread
    refine tokens_of_token hread ?_
    rw [List.length_append, List.length_cons]
    omega
  case isFalse hdata =>
    rw [if_neg hdata] at hread
    rw [List.cons_append, tokens]
    rw [List.cons_append] at hread
    rw [hread]

/-- Input is a text up to the next tag, and the rest. -/
theorem takeWhile_text (input : List Char) :
    '<' ∉ input.takeWhile (· != '<') ∧
      (input.dropWhile (· != '<')).head?.all (· == '<') = true := by
  refine ⟨fun hmem => absurd (List.mem_takeWhile_imp hmem) (by decide), ?_⟩
  have hhead := List.head?_dropWhile_not (· != '<') input
  cases hdrop : (input.dropWhile (· != '<')).head? with
  | none => rfl
  | some c =>
    rw [hdrop] at hhead
    simpa using hhead

/-- What is read where no tag begins. -/
theorem text_of_token {size : Nat} {c : Char} (hc : '<' ≠ c) {rest after : List Char} {token : Token}
    (hread : Reader.token size (c :: rest) = some (token, after)) :
    ∃ raw, token = .text raw ∧ c :: rest = raw ++ after ∧ raw ≠ [] ∧ '<' ∉ raw ∧
      Reader.isCharData raw = true ∧ after.head?.all (· == '<') = true := by
  rw [Reader.token_of_not_tag size hc] at hread
  split at hread
  case isTrue hdata =>
    obtain ⟨rfl, rfl⟩ := Prod.mk.inj (Option.some.inj hread)
    obtain ⟨hraw, hafter⟩ := takeWhile_text (c :: rest)
    refine ⟨_, rfl, List.takeWhile_append_dropWhile.symm, ?_, hraw, hdata, hafter⟩
    rw [List.takeWhile_cons, if_pos (bne_iff_ne.2 hc.symm)]
    exact List.cons_ne_nil _ _
  case isFalse => simp at hread

/-- In front of a tag, tokens are read as at the end of the input. -/
theorem tokens_append {input more : List Char} {tokenList : List Token}
    (h : tokens input = some tokenList) (hmore : more.head?.all (· == '<') = true) :
    tokens (input ++ more) = (tokens more).map (tokenList ++ ·) := by
  fun_induction tokens input generalizing tokenList with
  | case1 =>
    obtain rfl := Option.some.inj h
    exact Option.map_id'.symm
  | case2 => simp at h
  | case3 c rest token after hread hshort ih =>
    obtain ⟨later, hlater, rfl⟩ := Option.map_eq_some_iff.1 h
    by_cases hc : '<' = c
    · subst hc
      rw [(tokens_of_markup hread hshort).2.2, ih hlater, Option.map_map]
      rfl
    · obtain ⟨raw, rfl, hinput, hne, hraw, hdata, hafter⟩ := text_of_token hc hread
      have hnext : (after ++ more).head?.all (· == '<') = true := by
        cases after with
        | nil => exact hmore
        | cons d tail => exact hafter
      rw [hinput, List.append_assoc, tokens_of_not_tag hne hraw hnext, if_pos hdata, ih hlater,
        Option.map_map]
      rfl
  | case4 => simp at h

/-- A token that is no text ends like a tag. -/
theorem tag_of_mem_tokens {input : List Char} {tokenList : List Token}
    (h : tokens input = some tokenList) {token : Token} (htoken : token ∈ tokenList)
    (htext : ∀ raw, token ≠ .text raw) : '>' ∈ input := by
  fun_induction tokens input generalizing tokenList with
  | case1 =>
    obtain rfl := Option.some.inj h
    simp at htoken
  | case2 => simp at h
  | case3 c rest first after hread hshort ih =>
    obtain ⟨later, hlater, rfl⟩ := Option.map_eq_some_iff.1 h
    by_cases hc : '<' = c
    · subst hc
      exact (tokens_of_markup hread hshort).2.1
    · obtain ⟨raw, rfl, hinput, -⟩ := text_of_token hc hread
      rcases List.mem_cons.1 htoken with rfl | htoken
      · exact absurd rfl (htext raw)
      · rw [hinput]
        exact List.mem_append_right _ (ih hlater htoken)
  | case4 => simp at h

/-! ## Texts in two parts -/

/-- The last character that a piece is written with. -/
def Piece.lastChar : Piece → Char
  | .plain c => c
  | .reference _ => ';'

mutual

/-- Pieces do not reach beyond complete ones. -/
theorem pieces_append {raw : List Char} {data : List Piece} (h : pieces raw = some data)
    (more : List Char) : pieces (raw ++ more) = (pieces more).map (data ++ ·) := by
  match raw with
  | [] =>
    obtain rfl := Option.some.inj h
    exact Option.map_id'.symm
  | c :: rest =>
    by_cases hc : c = '&'
    · subst hc
      rw [pieces] at h
      rw [List.cons_append, pieces]
      exact referencePieces_append h more
    · rw [pieces_cons hc] at h
      obtain ⟨later, hlater, rfl⟩ := Option.map_eq_some_iff.1 h
      rw [List.cons_append, pieces_cons hc, pieces_append hlater more, Option.map_map]
      rfl

theorem referencePieces_append {name raw : List Char} {data : List Piece}
    (h : referencePieces name raw = some data) (more : List Char) :
    referencePieces name (raw ++ more) = (pieces more).map (data ++ ·) := by
  match raw with
  | [] => simp [referencePieces] at h
  | c :: rest =>
    by_cases hc : c = ';'
    · subst hc
      rw [referencePieces] at h
      rw [List.cons_append, referencePieces]
      split at h
      case h_1 stands hstands =>
        obtain ⟨later, hlater, rfl⟩ := Option.map_eq_some_iff.1 h
        rw [pieces_append hlater more, Option.map_map]
        rfl
      case h_2 => simp at h
    · rw [referencePieces_cons name hc] at h
      rw [List.cons_append, referencePieces_cons name hc]
      exact referencePieces_append h more

end

mutual

/-- The last piece is written last. -/
theorem getLast?_of_pieces {raw : List Char} {data : List Piece} (h : pieces raw = some data) :
    raw.getLast? = data.getLast?.map Piece.lastChar := by
  match raw with
  | [] =>
    obtain rfl := Option.some.inj h
    rfl
  | c :: rest =>
    by_cases hc : c = '&'
    · subst hc
      rw [pieces] at h
      obtain ⟨last, hlast, hdata⟩ := getLast?_of_referencePieces h
      rw [List.getLast?_cons, hlast, hdata]
      rfl
    · rw [pieces_cons hc] at h
      obtain ⟨later, hlater, rfl⟩ := Option.map_eq_some_iff.1 h
      rw [List.getLast?_cons, List.getLast?_cons, getLast?_of_pieces hlater]
      cases later.getLast? with
      | none => rfl
      | some last => rfl

theorem getLast?_of_referencePieces {name raw : List Char} {data : List Piece}
    (h : referencePieces name raw = some data) :
    ∃ last, raw.getLast? = some last ∧ data.getLast?.map Piece.lastChar = some last := by
  match raw with
  | [] => simp [referencePieces] at h
  | c :: rest =>
    by_cases hc : c = ';'
    · subst hc
      rw [referencePieces] at h
      split at h
      case h_1 stands hstands =>
        obtain ⟨later, hlater, rfl⟩ := Option.map_eq_some_iff.1 h
        rw [List.getLast?_cons, List.getLast?_cons, getLast?_of_pieces hlater]
        cases later.getLast? with
        | none => exact ⟨_, rfl, rfl⟩
        | some last => exact ⟨_, rfl, rfl⟩
      case h_2 => simp at h
    · rw [referencePieces_cons name hc] at h
      obtain ⟨last, hlast, hdata⟩ := getLast?_of_referencePieces h
      rw [List.getLast?_cons, hlast]
      exact ⟨last, rfl, hdata⟩

end

mutual

/-- A character that neither begins nor ends a reference is a piece. -/
theorem pieces_concat {raw : List Char} {last : Char} (hbegin : last ≠ '&') (hend : last ≠ ';') :
    pieces (raw ++ [last]) = (pieces raw).map (· ++ [.plain last]) := by
  match raw with
  | [] =>
    rw [List.nil_append, pieces_cons hbegin, pieces]
    rfl
  | c :: rest =>
    by_cases hc : c = '&'
    · subst hc
      rw [List.cons_append, pieces, pieces]
      exact referencePieces_concat hbegin hend
    · rw [List.cons_append, pieces_cons hc, pieces_cons hc, pieces_concat hbegin hend,
        Option.map_map, Option.map_map]
      rfl

theorem referencePieces_concat {name raw : List Char} {last : Char} (hbegin : last ≠ '&')
    (hend : last ≠ ';') :
    referencePieces name (raw ++ [last]) = (referencePieces name raw).map (· ++ [.plain last]) := by
  match raw with
  | [] =>
    rw [List.nil_append, referencePieces_cons name hend]
    rfl
  | c :: rest =>
    by_cases hc : c = ';'
    · subst hc
      rw [List.cons_append, referencePieces, referencePieces]
      cases referenced? name.reverse with
      | none => rfl
      | some stands =>
        dsimp only
        rw [pieces_concat hbegin hend, Option.map_map, Option.map_map]
        rfl
    · rw [List.cons_append, referencePieces_cons name hc, referencePieces_cons name hc]
      exact referencePieces_concat hbegin hend

end

theorem head?_of_referencePieces {name raw : List Char} {data : List Piece}
    (h : referencePieces name raw = some data) : ∃ c, data.head? = some (.reference c) := by
  induction raw generalizing name with
  | nil => simp [referencePieces] at h
  | cons c rest ih =>
    by_cases hc : c = ';'
    · subst hc
      rw [referencePieces] at h
      split at h
      case h_1 stands hstands =>
        obtain ⟨later, -, rfl⟩ := Option.map_eq_some_iff.1 h
        exact ⟨stands, rfl⟩
      case h_2 => simp at h
    · rw [referencePieces_cons name hc] at h
      exact ih h

theorem head?_of_pieces {raw : List Char} {data : List Piece} (h : pieces raw = some data) {c : Char}
    (hhead : data.head? = some (.plain c)) : raw.head? = some c := by
  cases raw with
  | nil =>
    obtain rfl := Option.some.inj h
    simp at hhead
  | cons first rest =>
    by_cases hfirst : first = '&'
    · subst hfirst
      rw [pieces] at h
      obtain ⟨stands, hstands⟩ := head?_of_referencePieces h
      rw [hstands] at hhead
      simp at hhead
    · rw [pieces_cons hfirst] at h
      obtain ⟨later, hlater, rfl⟩ := Option.map_eq_some_iff.1 h
      simpa using hhead

theorem textOf_plain (afterReference : Bool) {c : Char} (hc : c ≠ '\r') (rest : List Piece) :
    textOf afterReference (.plain c :: rest) = c :: textOf false rest :=
  textOf.eq_7 afterReference c rest (fun _ => hc) (fun _ _ _ => hc) (fun _ _ => hc) hc

/-- A carriage return is a line break of its own, unless a line feed or a reference follows or the text
ends. -/
theorem textOf_return (afterReference : Bool) {rest : List Piece} (hnil : rest ≠ [])
    (hreferred : ∀ c more, rest ≠ .reference c :: more) (hfeed : ∀ more, rest ≠ .plain '\n' :: more) :
    textOf afterReference (.plain '\r' :: rest) = '\n' :: textOf false rest :=
  textOf.eq_6 afterReference rest hnil hreferred hfeed

/-- A text that is more than a carriage return is read the same behind a reference. -/
theorem textOf_true {data : List Piece} (h : data ≠ [.plain '\r']) :
    textOf true data = textOf false data := by
  fun_cases textOf true data with
  | case3 => exact absurd rfl h
  | case7 rest hnil hreferred hfeed => rw [textOf_return false hnil hreferred hfeed]
  | case8 c rest hnil hreferred hfeed hc => rw [textOf_plain false hc]
  | _ => rfl

/-- Whether a piece is a reference. -/
def Piece.isReference : Piece → Bool
  | .plain _ => false
  | .reference _ => true

/-- Whether a reference comes right before what follows the pieces. -/
def endsInReference (afterReference : Bool) (data : List Piece) : Bool :=
  (data.getLast?.map Piece.isReference).getD afterReference

theorem endsInReference_cons (afterReference : Bool) (piece : Piece) (rest : List Piece) :
    endsInReference afterReference (piece :: rest) = endsInReference piece.isReference rest := by
  unfold endsInReference
  rw [List.getLast?_cons]
  cases rest.getLast? with
  | none => rfl
  | some last => rfl

/-- Pieces of a text may be parted.  A carriage return in front of the place is neither the first half
of a line break nor next to a reference, unless it ends the text, and one behind a reference is not all
that follows: what such a carriage return stands for depends on both sides. -/
structure MayPart (afterReference : Bool) (data later : List Piece) : Prop where
  lineBreak : ∀ front, data = front ++ [.plain '\r'] → later = [] ∨
    endsInReference afterReference front = false ∧ ∃ c ≠ '\n', later.head? = some (.plain c)
  reference : endsInReference afterReference data = true → later ≠ [.plain '\r']

theorem MayPart.tail {afterReference : Bool} {piece : Piece} {data later : List Piece}
    (h : MayPart afterReference (piece :: data) later) : MayPart piece.isReference data later where
  lineBreak := by
    intro front hdata
    rw [← endsInReference_cons afterReference]
    exact h.lineBreak (piece :: front) (by rw [hdata, List.cons_append])
  reference := by
    rw [← endsInReference_cons afterReference]
    exact h.reference

/-- The text of pieces is that of their parts. -/
theorem textOf_append {afterReference : Bool} {data later : List Piece}
    (h : MayPart afterReference data later) :
    textOf afterReference (data ++ later) = textOf afterReference data ++ textOf false later := by
  fun_induction textOf afterReference data with
  | case1 afterReference =>
    cases afterReference with
    | false => rfl
    | true => exact textOf_true (h.reference rfl)
  | case2 afterReference c rest ih =>
    rw [List.cons_append, List.cons_append, textOf, ih h.tail]
  | case3 =>
    -- a carriage return behind a reference, which has to end the text
    rcases h.lineBreak [] rfl with rfl | ⟨hfront, -⟩
    · rfl
    · exact absurd hfront (by decide)
  | case4 afterReference hfalse =>
    obtain rfl : afterReference = false := by simpa using hfalse
    rcases h.lineBreak [] rfl with rfl | ⟨-, c, hc, hhead⟩
    · rfl
    · obtain ⟨rest, rfl⟩ := List.head?_eq_some_iff.1 hhead
      refine textOf_return false (by simp) (by simp) (fun more heq => hc ?_)
      rw [Piece.plain.inj (List.cons.inj heq).1]
  | case5 afterReference c rest ih =>
    rw [List.cons_append, List.cons_append, textOf, ih h.tail.tail]
    rfl
  | case6 afterReference rest ih =>
    rw [List.cons_append, List.cons_append, textOf, ih h.tail.tail]
    rfl
  | case7 afterReference rest hnil hreferred hfeed ih =>
    obtain ⟨piece, rest, rfl⟩ := List.exists_cons_of_ne_nil hnil
    rw [List.cons_append, List.cons_append, textOf_return, ← List.cons_append, ih h.tail]
    · rfl
    · exact List.cons_ne_nil _ _
    · rintro c more heq
      exact hreferred c rest (by rw [(List.cons.inj heq).1])
    · rintro more heq
      exact hfeed rest (by rw [(List.cons.inj heq).1])
  | case8 afterReference c rest hnil hreferred hfeed hc ih =>
    rw [List.cons_append, textOf_plain afterReference hc, ih h.tail]
    rfl

/-- A text may be cut between two parts of a document without a change to its line breaks.  A carriage
return in front of the place has neither a line feed nor a reference behind it and no semicolon in front
of it, unless it ends the text, and one that comes behind a semicolon at the place does not end the
text. -/
structure MayCut (before after : List Char) : Prop where
  lineBreak : before.getLast? = some '\r' → after.head?.all (· == '<') = true ∨
    ¬ [';', '\r'] <:+ before ∧ after.head? ≠ some '\n' ∧ after.head? ≠ some '&'
  reference : before.getLast? = some ';' → ∀ rest, after = '\r' :: rest →
    rest.head?.all (· == '<') = false

theorem MayCut.of_suffix {input after more : List Char} (h : MayCut input more)
    (hsuffix : after <:+ input) : MayCut after more := by
  have hlast : ∀ {c : Char}, after.getLast? = some c → input.getLast? = some c := by
    intro c hc
    obtain ⟨before, rfl⟩ := hsuffix
    rw [List.getLast?_append, hc]
    rfl
  refine ⟨fun hc => (h.lineBreak (hlast hc)).imp_right (fun hplain => ⟨?_, hplain.2⟩),
    fun hc => h.reference (hlast hc)⟩
  exact fun hsemicolon => hplain.1 (hsemicolon.trans hsuffix)

/-- The text at the place ends where the next tag begins. -/
theorem MayCut.of_text {before text after : List Char} (h : MayCut before (text ++ after))
    (hne : text ≠ []) (hafter : after.head?.all (· == '<') = true) : MayCut before text := by
  obtain ⟨c, rest, rfl⟩ := List.exists_cons_of_ne_nil hne
  refine ⟨h.lineBreak, fun hlast more heq => ?_⟩
  obtain ⟨rfl, rfl⟩ := List.cons.inj heq
  have hmore := h.reference hlast (rest ++ after) rfl
  cases rest with
  | nil => exact absurd hmore (by rw [List.nil_append, hafter]; decide)
  | cons d others => exact hmore

theorem pieces_eq_nil {raw : List Char} (h : pieces raw = some []) : raw = [] := by
  have hlast := getLast?_of_pieces h
  exact List.getLast?_eq_none_iff.1 hlast

theorem getLast?_of_endsInReference {raw : List Char} {data : List Piece} (h : pieces raw = some data)
    (hends : endsInReference false data = true) : raw.getLast? = some ';' := by
  unfold endsInReference at hends
  rw [getLast?_of_pieces h]
  cases hlast : data.getLast? with
  | none => simp [hlast] at hends
  | some piece =>
    cases piece with
    | plain c => simp [hlast, Piece.isReference] at hends
    | reference c => rfl

/-- Where a text may be cut, its pieces may be parted. -/
theorem MayCut.mayPart {raw more : List Char} (h : MayCut raw more) (hplain : '<' ∉ more)
    {data later : List Piece} (hdata : pieces raw = some data) (hlater : pieces more = some later) :
    MayPart false data later where
  lineBreak := by
    rintro front rfl
    have hlast : raw.getLast? = some '\r' := by
      rw [getLast?_of_pieces hdata, List.getLast?_concat]
      rfl
    obtain ⟨before, rfl⟩ := List.getLast?_eq_some_iff.1 hlast
    cases more with
    | nil =>
      obtain rfl := Option.some.inj hlater
      exact .inl rfl
    | cons c rest =>
      rcases h.lineBreak hlast with hend | ⟨hsemicolon, hfeed, hand⟩
      · exact absurd (by simpa using hend) (List.ne_of_not_mem_cons hplain).symm
      · rw [pieces_concat (by decide) (by decide)] at hdata
        obtain ⟨other, hfront, hother⟩ := Option.map_eq_some_iff.1 hdata
        obtain rfl := List.append_cancel_right hother
        rw [List.head?_cons] at hfeed hand
        rw [pieces_cons (fun heq => hand (by rw [heq]))] at hlater
        obtain ⟨others, -, rfl⟩ := Option.map_eq_some_iff.1 hlater
        refine .inr ⟨?_, c, fun heq => hfeed (by rw [heq]), rfl⟩
        by_contra hends
        rw [Bool.not_eq_false] at hends
        refine hsemicolon ?_
        obtain ⟨first, rfl⟩ := List.getLast?_eq_some_iff.1 (getLast?_of_endsInReference hfront hends)
        exact ⟨first, by simp⟩
  reference := by
    rintro hends rfl
    have hhead := head?_of_pieces hlater rfl
    obtain ⟨rest, rfl⟩ := List.head?_eq_some_iff.1 hhead
    rw [pieces_cons (by decide)] at hlater
    obtain ⟨others, hothers, hnil⟩ := Option.map_eq_some_iff.1 hlater
    obtain rfl : others = [] := (List.cons.inj hnil).2
    obtain rfl := pieces_eq_nil hothers
    exact absurd (h.reference (getLast?_of_endsInReference hdata hends) [] rfl) (by decide)

/-- The text of character data is that of its parts. -/
theorem text?_append {raw more : List Char} {content : String} (h : text? raw = some content)
    (hcut : MayCut raw more) (hplain : '<' ∉ more) :
    text? (raw ++ more) = (text? more).map (content ++ ·) := by
  unfold text? at h ⊢
  obtain ⟨data, hdata, rfl⟩ := Option.map_eq_some_iff.1 h
  rw [pieces_append hdata, Option.map_map, Option.map_map]
  cases hmore : pieces more with
  | none => rfl
  | some later =>
    simp only [Option.map_some, Function.comp_apply,
      textOf_append (hcut.mayPart hplain hdata hmore), String.ofList_append]

/-! ## Documents in two parts -/

theorem addNode_addNode (content more : String) (children : List Node) :
    addNode (.text more) (addNode (.text content) children) =
      addNode (.text (content ++ more)) children := by
  cases children with
  | nil => rfl
  | cons node rest =>
    cases node with
    | text first =>
      show Node.text (first ++ content ++ more) :: rest = .text (first ++ (content ++ more)) :: rest
      rw [String.append_assoc]
    | element name attributes inside => rfl
    | comment => rfl
    | instruction => rfl

theorem occursIn_of_suffix {part s more : List Char} (h : Text.occursIn part more = true) :
    Text.occursIn part (s ++ more) = true := by
  induction s with
  | nil => exact h
  | cons c rest ih =>
    rw [List.cons_append, Text.occursIn, ih, Bool.or_true]

theorem isCharData_of_suffix {raw more : List Char} (h : Reader.isCharData (raw ++ more) = true) :
    Reader.isCharData more = true := by
  unfold Reader.isCharData at h ⊢
  rw [Bool.and_eq_true, List.all_append, Bool.and_eq_true, Bool.not_eq_true'] at h
  rw [Bool.and_eq_true, Bool.not_eq_true', ← Bool.not_eq_true]
  refine ⟨h.1.2, fun hoccurs => ?_⟩
  rw [occursIn_of_suffix hoccurs] at h
  exact absurd h.2 (by decide)

variable {start middle final : Partial}

theorem step_text {state : Partial} (hopen : state.frames ≠ []) (raw : List Char) :
    state.step (.text raw) = (text? raw).bind (fun content => state.add (.text content)) := by
  show (if state.frames.isEmpty then _ else _) = _
  rw [if_neg (by simpa using hopen)]

/-- A text that goes on in the second part is taken in as its two parts. -/
theorem step_text_append {raw more : List Char} (hcut : MayCut raw more)
    (hplain : '<' ∉ more) (hmiddle : start.step (.text raw) = some middle) (hopen : middle.frames ≠ []) :
    start.step (.text (raw ++ more)) = middle.step (.text more) := by
  have hstart : start.frames ≠ [] := by
    intro hempty
    have hstep : (if raw.all isSpace then some start else none) = some middle := by
      rw [← hmiddle]
      show _ = if start.frames.isEmpty then _ else _
      rw [hempty]
      rfl
    split at hstep
    · exact hopen ((Option.some.inj hstep) ▸ hempty)
    · simp at hstep
  rw [step_text hstart] at hmiddle
  rw [step_text hstart, step_text hopen]
  obtain ⟨content, hcontent, hadd⟩ := Option.bind_eq_some_iff.1 hmiddle
  rw [text?_append hcontent hcut hplain, Option.bind_map]
  refine Option.bind_congr (fun later _ => ?_)
  obtain ⟨frame, outer, hframes⟩ := List.exists_cons_of_ne_nil hstart
  unfold Partial.add at hadd ⊢
  rw [hframes] at hadd ⊢
  obtain rfl := Option.some.inj hadd
  simp only [Function.comp_apply, addNode_addNode]

theorem foldlM_cons_eq_some {token : Token} {rest : List Token} :
    (token :: rest).foldlM Partial.step start = some final ↔
      ∃ next, start.step token = some next ∧ rest.foldlM Partial.step next = some final := by
  rw [List.foldlM_cons]
  exact Option.bind_eq_some_iff

/-- A part that is one text, which may go on in the other part. -/
theorem exists_rest_of_text {raw more : List Char} (hne : raw ≠ []) (hraw : '<' ∉ raw)
    (hdata : Reader.isCharData raw = true) (hcut : MayCut raw more)
    (hmiddle : start.step (.text raw) = some middle) (hopen : middle.frames ≠ [])
    {whole : List Token} (hwhole : tokens (raw ++ more) = some whole)
    (hfinal : whole.foldlM Partial.step start = some final) :
    ∃ rest, tokens more = some rest ∧ rest.foldlM Partial.step middle = some final := by
  obtain ⟨hplain, hrest⟩ := takeWhile_text more
  have hmore := List.takeWhile_append_dropWhile (p := (· != '<')) (l := more)
  cases hcase : more.takeWhile (· != '<') with
  | nil =>
    -- the text ends at the end of the part
    rw [hcase, List.nil_append] at hmore
    rw [hmore] at hrest
    rw [tokens_of_not_tag hne hraw hrest, if_pos hdata] at hwhole
    obtain ⟨rest, hrest, rfl⟩ := Option.map_eq_some_iff.1 hwhole
    obtain ⟨next, hnext, hfold⟩ := foldlM_cons_eq_some.1 hfinal
    rw [hmiddle] at hnext
    obtain rfl := Option.some.inj hnext
    exact ⟨rest, hrest, hfold⟩
  | cons c tail =>
    rw [hcase] at hmore hplain
    have hjoined : '<' ∉ raw ++ c :: tail := by
      rw [List.mem_append, not_or]
      exact ⟨hraw, hplain⟩
    have hcut' : MayCut raw (c :: tail) := by
      rw [← hmore] at hcut
      exact hcut.of_text (List.cons_ne_nil c tail) hrest
    rw [← hmore, ← List.append_assoc,
      tokens_of_not_tag (List.append_ne_nil_of_left_ne_nil hne _) hjoined hrest] at hwhole
    split at hwhole
    case isTrue hwholeData =>
      obtain ⟨rest, hlater, rfl⟩ := Option.map_eq_some_iff.1 hwhole
      obtain ⟨next, hnext, hfold⟩ := foldlM_cons_eq_some.1 hfinal
      rw [step_text_append hcut' hplain hmiddle hopen] at hnext
      refine ⟨.text (c :: tail) :: rest, ?_, foldlM_cons_eq_some.2 ⟨next, hnext, hfold⟩⟩
      rw [← hmore, tokens_of_not_tag (List.cons_ne_nil c tail) hplain hrest,
        if_pos (isCharData_of_suffix hwholeData), hlater]
      rfl
    case isFalse => simp at hwhole

/-- What a document says does not depend on where it is cut: the tokens of the second part are taken in
after those of the first. -/
theorem exists_rest_of_tokens {input more : List Char} {front whole : List Token}
    (hfront : tokens input = some front) (hmiddle : front.foldlM Partial.step start = some middle)
    (hopen : middle.frames ≠ []) (hcut : MayCut input more) (hwhole : tokens (input ++ more) = some whole)
    (hfinal : whole.foldlM Partial.step start = some final) :
    ∃ rest, tokens more = some rest ∧ rest.foldlM Partial.step middle = some final := by
  fun_induction tokens input generalizing start front whole with
  | case1 =>
    obtain rfl := Option.some.inj hfront
    obtain rfl := Option.some.inj hmiddle
    exact ⟨whole, hwhole, hfinal⟩
  | case2 => simp at hfront
  | case3 c rest token after hread hshort ih =>
    obtain ⟨later, hlater, rfl⟩ := Option.map_eq_some_iff.1 hfront
    obtain ⟨next, hnext, hfold⟩ := foldlM_cons_eq_some.1 hmiddle
    by_cases hc : '<' = c
    · subst hc
      obtain ⟨hsuffix, -, htokens⟩ := tokens_of_markup hread hshort
      rw [htokens] at hwhole
      obtain ⟨others, hothers, rfl⟩ := Option.map_eq_some_iff.1 hwhole
      obtain ⟨other, hother, hrest⟩ := foldlM_cons_eq_some.1 hfinal
      rw [hnext] at hother
      obtain rfl := Option.some.inj hother
      exact ih hlater hfold (hcut.of_suffix hsuffix) hothers hrest
    · obtain ⟨raw, rfl, hinput, hne, hraw, hdata, hafter⟩ := text_of_token hc hread
      rw [hinput] at hwhole hcut
      cases after with
      | nil =>
        rw [tokens] at hlater
        obtain rfl := Option.some.inj hlater
        obtain rfl := Option.some.inj hfold
        rw [List.append_nil] at hwhole hcut
        exact exists_rest_of_text hne hraw hdata hcut hnext hopen hwhole hfinal
      | cons d tail =>
        have hnext' : (d :: tail ++ more).head?.all (· == '<') = true := hafter
        rw [List.append_assoc, tokens_of_not_tag hne hraw hnext', if_pos hdata] at hwhole
        obtain ⟨others, hothers, rfl⟩ := Option.map_eq_some_iff.1 hwhole
        obtain ⟨other, hother, hrest⟩ := foldlM_cons_eq_some.1 hfinal
        rw [hnext] at hother
        obtain rfl := Option.some.inj hother
        exact ih hlater hfold (hcut.of_suffix (List.suffix_append raw _)) hothers hrest
  | case4 => simp at hfront

/-- The state after a part of a document, from its beginning on. -/
def readPart (part : String) : Option Partial :=
  (documentTokens part).bind (fun tokens => tokens.foldlM Partial.step ⟨none, []⟩)

theorem parse_eq_some_iff {document : String} {root : Node} :
    parse document = some root ↔ readPart document = some ⟨some root, []⟩ := by
  unfold parse readPart
  constructor
  · intro h
    split at h
    · rename_i found hread
      rw [hread, Option.some.inj h]
    · simp at h
  · intro h
    rw [h]

/-- Texts open no element. -/
theorem frames_of_texts {tokenList : List Token} (htexts : ∀ token ∈ tokenList, ∃ raw, token = .text raw)
    (hstart : start.frames = []) (hfinal : tokenList.foldlM Partial.step start = some final) :
    final.frames = [] := by
  induction tokenList generalizing start with
  | nil =>
    obtain rfl := Option.some.inj hfinal
    exact hstart
  | cons token rest ih =>
    obtain ⟨next, hnext, hfold⟩ := foldlM_cons_eq_some.1 hfinal
    obtain ⟨raw, rfl⟩ := htexts token List.mem_cons_self
    refine ih (fun other hother => htexts other (List.mem_cons_of_mem _ hother)) ?_ hfold
    change (if start.frames.isEmpty then _ else _) = some next at hnext
    rw [hstart, List.isEmpty_nil, if_pos rfl] at hnext
    split at hnext
    · exact (Option.some.inj hnext) ▸ hstart
    · simp at hnext

/-- A part inside of the root, without the declaration in front. -/
theorem exists_body_of_readPart {part : String} (h : readPart part = some middle)
    (hopen : middle.frames ≠ []) : ∃ body front, tokens body = some front ∧
      front.foldlM Partial.step ⟨none, []⟩ = some middle ∧ body <:+ part.toList ∧
      ∀ more : List Char, Reader.prolog (part.toList ++ more) = some (⟨⟩, body ++ more) := by
  obtain ⟨front, hfront, hfold⟩ := Option.bind_eq_some_iff.1 h
  unfold documentTokens at hfront
  split at hfront
  case h_2 => simp at hfront
  case h_1 body hprolog =>
    obtain ⟨hsuffix, hpass⟩ := Reader.passes_prolog _ _ _ hprolog
    have hend : '>' ∈ body := by
      by_contra hnot
      refine hopen (frames_of_texts (fun token htoken => ?_) rfl hfold)
      by_contra htext
      exact hnot (tag_of_mem_tokens hfront htoken (fun raw heq => htext ⟨raw, heq⟩))
    exact ⟨body, front, hfront, hfold, hsuffix, hpass hend⟩

/-- The second part of a document is taken in after the first one. -/
theorem exists_rest_of_readPart {before after : String} (hbefore : readPart before = some middle)
    (hopen : middle.frames ≠ []) (hcut : MayCut before.toList after.toList)
    (hwhole : readPart (before ++ after) = some final) :
    ∃ rest, tokens after.toList = some rest ∧ rest.foldlM Partial.step middle = some final := by
  obtain ⟨body, front, hfront, hfold, hsuffix, hprolog⟩ := exists_body_of_readPart hbefore hopen
  obtain ⟨whole, htokens, hfinal⟩ := Option.bind_eq_some_iff.1 hwhole
  unfold documentTokens at htokens
  rw [String.toList_append, hprolog] at htokens
  exact exists_rest_of_tokens hfront hfold hopen (hcut.of_suffix hsuffix) htokens hfinal

/-! ## Comments -/

/-- What may stand in a comment. -/
def IsCommentText (content : List Char) : Prop :=
  Reader.isComment content = true ∧ content.all isXmlChar = true

instance (content : List Char) : Decidable (IsCommentText content) :=
  inferInstanceAs (Decidable (_ ∧ _))

/-- A comment as it is written. -/
def writtenComment (content : List Char) : List Char :=
  "<!--".toList ++ (content ++ "-->".toList)

/-- A comment ends at its end, not before. -/
theorem splitAt_comment {content : List Char} (hpairs : Text.occursIn ['-', '-'] content = false)
    (hlast : content.getLast? ≠ some '-') (rest : List Char) :
    Reader.splitAt "-->".toList (content ++ ("-->".toList ++ rest)) = some (content, rest) := by
  induction content with
  | nil => rfl
  | cons c tail ih =>
    rw [Text.occursIn, Bool.or_eq_false_iff] at hpairs
    have htail : tail.getLast? ≠ some '-' := by
      intro heq
      rw [List.getLast?_cons, heq] at hlast
      exact hlast rfl
    have hhere : Text.afterLead? "-->".toList (c :: tail ++ ("-->".toList ++ rest)) = none := by
      by_cases hc : '-' = c
      · subst hc
        cases tail with
        | nil => exact absurd rfl hlast
        | cons d others =>
          by_cases hd : '-' = d
          · subst hd
            exact absurd hpairs.1 (by simp [Text.afterLead?])
          · exact afterLead?_of_ne hd _ _
      · exact afterLead?_of_ne hc _ _
    rw [List.cons_append, Reader.splitAt]
    rw [List.cons_append] at hhere
    rw [hhere, ih hpairs.2 htail]
    rfl

theorem tokens_comment {content : List Char} (h : IsCommentText content) (rest : List Char) :
    tokens (writtenComment content ++ rest) = (tokens rest).map (.comment :: ·) := by
  obtain ⟨hcomment, hchars⟩ := h
  have hparts := hcomment
  unfold Reader.isComment at hparts
  rw [Bool.and_eq_true, Bool.not_eq_true', bne_iff_ne] at hparts
  have hsplit : Reader.upTo "-->" (content ++ ("-->".toList ++ rest)) = some (content, rest) := by
    rw [Reader.upTo, splitAt_comment hparts.1 hparts.2]
    exact if_pos hchars
  unfold writtenComment
  rw [List.append_assoc, List.append_assoc]
  refine tokens_of_token ?_ ?_
  · rw [Reader.token, Reader.next_bind_of_some (Text.afterLead?_append _ _), if_pos rfl,
      Reader.bind_of_some (Reader.expect_append _ _), Reader.bind_of_some hsplit, if_pos hcomment]
    rfl
  · simp only [List.length_append]
    have hlength : "<!--".toList.length = 4 := rfl
    omega

/-- A comment between two parts of a document is taken in as a node. -/
theorem readPart_comment {before after : String} (hbefore : readPart before = some middle)
    (hopen : middle.frames ≠ []) {content : String} (hcontent : IsCommentText content.toList)
    {rest : List Token} (hafter : tokens after.toList = some rest) :
    readPart (before ++ ("<!--" ++ (content ++ "-->")) ++ after) =
      (middle.add .comment).bind (fun noted => rest.foldlM Partial.step noted) := by
  obtain ⟨body, front, hfront, hfold, -, hprolog⟩ := exists_body_of_readPart hbefore hopen
  have htokens : tokens (body ++ (writtenComment content.toList ++ after.toList)) =
      some (front ++ .comment :: rest) := by
    rw [tokens_append hfront rfl, tokens_comment hcontent, hafter]
    rfl
  have hwritten : (before ++ ("<!--" ++ (content ++ "-->")) ++ after).toList =
      before.toList ++ (writtenComment content.toList ++ after.toList) := by
    simp only [writtenComment, String.toList_append, List.append_assoc]
  unfold readPart documentTokens
  rw [hwritten, hprolog]
  dsimp only
  rw [htokens, Option.bind_some, List.foldlM_append, hfold]
  show (Token.comment :: rest).foldlM Partial.step middle = _
  rw [List.foldlM_cons]
  show (middle.addAside .comment).bind _ = _
  unfold Partial.addAside
  rw [if_neg (by simpa using hopen)]

end CodeAtlas.Xml
