/-
# The texts of a document

Every character of the texts of a document is one that a document may hold.  A document that holds no
carriage return, neither as it stands nor as a reference in its character data, has none in its texts.

The readers take characters from the front and hand on the rest, so that what holds of all characters
of the document holds of all characters of its tokens.
-/
import CodeAtlas.Xml.Document

namespace CodeAtlas.Xml

/-! ## Character data -/

/-- A character that a document may hold and that is no carriage return. -/
def IsClean (c : Char) : Prop :=
  isXmlChar c = true ∧ c ≠ '\r'

theorem isXmlChar_of_xmlCharOfCode? {n : Nat} {c : Char} (h : xmlCharOfCode? n = some c) :
    isXmlChar c = true := by
  rw [xmlCharOfCode?] at h
  split at h
  · rename_i hchar
    exact Option.some.inj h ▸ hchar
  · simp at h

theorem isXmlChar_of_referenced? {name : List Char} {c : Char} (h : referenced? name = some c) :
    isXmlChar c = true := by
  rw [referenced?.eq_def] at h
  split at h
  · obtain ⟨n, _, hn⟩ := Option.bind_eq_some_iff.1 h
    exact isXmlChar_of_xmlCharOfCode? hn
  · obtain ⟨n, _, hn⟩ := Option.bind_eq_some_iff.1 h
    exact isXmlChar_of_xmlCharOfCode? hn
  · exact Option.some.inj h ▸ by decide
  · exact Option.some.inj h ▸ by decide
  · exact Option.some.inj h ▸ by decide
  · exact Option.some.inj h ▸ by decide
  · exact Option.some.inj h ▸ by decide
  · simp at h

/-- A piece as it stands comes from the raw data, and a reference stands for a character of a
document. -/
def Piece.IsFrom (raw : List Char) : Piece → Prop
  | .plain c => c ∈ raw
  | .reference c => isXmlChar c = true

theorem Piece.IsFrom.mono {raw more : List Char} {piece : Piece} (h : piece.IsFrom raw)
    (hsubset : ∀ c ∈ raw, c ∈ more) : piece.IsFrom more := by
  cases piece with
  | plain c => exact hsubset c h
  | reference c => exact h

theorem Piece.isFrom_cons {c : Char} {rest : List Char} {front : Piece} {data more : List Piece}
    (hmap : (some data).map (front :: ·) = some more) (hfront : front.IsFrom (c :: rest))
    (hdata : ∀ piece ∈ data, piece.IsFrom rest) {piece : Piece} (hpiece : piece ∈ more) :
    piece.IsFrom (c :: rest) := by
  obtain rfl := Option.some.inj hmap
  rcases List.mem_cons.1 hpiece with rfl | hlater
  · exact hfront
  · exact (hdata piece hlater).mono (fun _ hmem => List.mem_cons_of_mem _ hmem)

/-- A character that begins no reference stands for itself. -/
theorem pieces_cons {c : Char} (hc : c ≠ '&') (rest : List Char) :
    pieces (c :: rest) = (pieces rest).map (.plain c :: ·) :=
  pieces.eq_3 c rest hc

/-- A character that does not end a reference goes on with its name. -/
theorem referencePieces_cons (name : List Char) {c : Char} (hc : c ≠ ';') (rest : List Char) :
    referencePieces name (c :: rest) = referencePieces (c :: name) rest :=
  referencePieces.eq_3 name c rest hc

mutual

theorem isFrom_of_mem_pieces {raw : List Char} {data : List Piece} (h : pieces raw = some data) :
    ∀ piece ∈ data, piece.IsFrom raw := by
  intro piece hpiece
  cases raw with
  | nil =>
    rw [pieces] at h
    exact absurd hpiece (by simp [← Option.some.inj h])
  | cons c rest =>
    by_cases hc : c = '&'
    · subst hc
      rw [pieces] at h
      exact (isFrom_of_mem_referencePieces h piece hpiece).mono
        (fun _ hmem => List.mem_cons_of_mem _ hmem)
    · rw [pieces_cons hc] at h
      cases hrest : pieces rest with
      | none => simp [hrest] at h
      | some later =>
        rw [hrest] at h
        exact Piece.isFrom_cons h List.mem_cons_self (isFrom_of_mem_pieces hrest) hpiece

theorem isFrom_of_mem_referencePieces {name raw : List Char} {data : List Piece}
    (h : referencePieces name raw = some data) : ∀ piece ∈ data, piece.IsFrom raw := by
  intro piece hpiece
  cases raw with
  | nil => simp [referencePieces] at h
  | cons c rest =>
    by_cases hc : c = ';'
    · subst hc
      rw [referencePieces] at h
      split at h
      · rename_i stands hstands
        cases hrest : pieces rest with
        | none => simp [hrest] at h
        | some later =>
          rw [hrest] at h
          exact Piece.isFrom_cons h (isXmlChar_of_referenced? hstands) (isFrom_of_mem_pieces hrest)
            hpiece
      · simp at h
    · rw [referencePieces_cons name hc] at h
      exact (isFrom_of_mem_referencePieces h piece hpiece).mono
        (fun _ hmem => List.mem_cons_of_mem _ hmem)

end

theorem mem_textOf {afterReference : Bool} {data : List Piece} {c : Char}
    (h : c ∈ textOf afterReference data) : .reference c ∈ data ∨ .plain c ∈ data ∨ c = '\n' := by
  fun_induction textOf afterReference data <;> grind

theorem mem_plainBreaks {chars : List Char} {c : Char} (h : c ∈ Text.plainBreaks chars) :
    c ∈ chars ∨ c = '\n' := by
  fun_induction Text.plainBreaks chars <;> grind

/-! ## Readers -/

/-- The characters of a token's character data are clean. -/
def Token.HoldsClean : Token → Prop
  | text raw => ∀ c ∈ raw, IsClean c
  | cdata content => ∀ c ∈ content, IsClean c
  | _ => True

namespace Reader

variable {α β : Type}

/-- On input without carriage returns, the reader leaves such input, and what it reads is as said. -/
def Keeps (reader : Reader α) (post : α → Prop) : Prop :=
  ∀ input value rest, '\r' ∉ input → reader input = some (value, rest) → '\r' ∉ rest ∧ post value

theorem Keeps.pure {post : α → Prop} {value : α} (h : post value) :
    (Pure.pure value : Reader α).Keeps post := by
  intro input other rest hinput heq
  obtain ⟨rfl, rfl⟩ := Prod.mk.inj (Option.some.inj heq)
  exact ⟨hinput, h⟩

theorem Keeps.failure {post : α → Prop} : (Alternative.failure : Reader α).Keeps post := by
  intro input value rest _ heq
  exact absurd heq (fun hnone => by cases hnone)

theorem Keeps.bind {reader : Reader α} {next : α → Reader β} {mid : α → Prop} {post : β → Prop}
    (h : reader.Keeps mid) (hnext : ∀ value, mid value → (next value).Keeps post) :
    (reader >>= next).Keeps post := by
  intro input value rest hinput heq
  have hbind : (reader input).bind (fun result => next result.1 result.2) = some (value, rest) := heq
  obtain ⟨⟨first, between⟩, hfirst, hlast⟩ := Option.bind_eq_some_iff.1 hbind
  obtain ⟨hbetween, hmid⟩ := h input first between hinput hfirst
  exact hnext first hmid between value rest hbetween hlast

theorem Keeps.ite {condition : Prop} [Decidable condition] {yes no : Reader α} {post : α → Prop}
    (hyes : condition → yes.Keeps post) (hno : ¬ condition → no.Keeps post) :
    (if condition then yes else no).Keeps post := by
  split
  · rename_i h
    exact hyes h
  · rename_i h
    exact hno h

theorem Keeps.discard {reader : Reader α} (h : reader.Keeps (fun _ => True)) :
    (discard reader : Reader PUnit).Keeps (fun _ => True) :=
  h.bind (fun _ _ => Keeps.pure trivial)

theorem keeps_run (p : Char → Bool) : (run p).Keeps (fun front => '\r' ∉ front) := by
  intro input value rest hinput heq
  obtain ⟨rfl, rfl⟩ := Prod.mk.inj (Option.some.inj heq)
  exact ⟨fun hmem => hinput ((List.dropWhile_sublist p).mem hmem),
    fun hmem => hinput ((List.takeWhile_sublist p).mem hmem)⟩

theorem keeps_spaces : spaces.Keeps (fun _ => True) :=
  (keeps_run isSpace).bind (fun _ _ => Keeps.pure trivial)

theorem keeps_expect (lead : String) : (expect lead).Keeps (fun _ => True) := by
  intro input value rest hinput heq
  obtain ⟨after, hafter, hrest⟩ := Option.map_eq_some_iff.1 heq
  obtain ⟨_, rfl⟩ := Prod.mk.inj hrest
  rw [Text.eq_append_of_afterLead? hafter] at hinput
  exact ⟨fun hmem => hinput (List.mem_append_right _ hmem), trivial⟩

theorem keeps_next (lead : String) : (next lead).Keeps (fun _ => True) := by
  intro input value rest hinput heq
  obtain ⟨_, rfl⟩ := Prod.mk.inj (Option.some.inj heq)
  exact ⟨hinput, trivial⟩

theorem splitAt_eq {tail input before after : List Char}
    (h : splitAt tail input = some (before, after)) : input = before ++ (tail ++ after) := by
  induction input generalizing before with
  | nil => simp [splitAt] at h
  | cons c rest ih =>
    rw [splitAt] at h
    split at h
    · rename_i found hfound
      obtain ⟨rfl, rfl⟩ := Prod.mk.inj (Option.some.inj h)
      rw [List.nil_append]
      exact Text.eq_append_of_afterLead? hfound
    · obtain ⟨⟨front, back⟩, hsplit, hcons⟩ := Option.map_eq_some_iff.1 h
      obtain ⟨rfl, rfl⟩ := Prod.mk.inj hcons
      rw [ih hsplit]
      rfl

theorem keeps_upTo (tail : String) : (upTo tail).Keeps (fun content => ∀ c ∈ content, IsClean c) := by
  intro input value rest hinput heq
  rw [upTo] at heq
  split at heq
  · rename_i content after hsplit
    split at heq
    · rename_i hall
      obtain ⟨rfl, rfl⟩ := Prod.mk.inj (Option.some.inj heq)
      rw [splitAt_eq hsplit] at hinput
      refine ⟨fun hmem => hinput ?_, fun c hc => ⟨List.all_eq_true.1 hall c hc, ?_⟩⟩
      · exact List.mem_append_right _ (List.mem_append_right _ hmem)
      · rintro rfl
        exact hinput (List.mem_append_left _ hc)
    · simp at heq
  · simp at heq

theorem keeps_qname : qname.Keeps (fun _ => True) := by
  refine (keeps_run isNameChar).bind (fun first _ => (keeps_next ":").bind (fun colon _ => ?_))
  refine Keeps.ite (fun _ => ?_) (fun _ => Keeps.ite (fun _ => Keeps.pure trivial)
    (fun _ => Keeps.failure))
  refine (keeps_expect ":").bind (fun _ _ => (keeps_run isNameChar).bind (fun second _ => ?_))
  refine (keeps_next ":").bind (fun again _ => ?_)
  exact Keeps.ite (fun _ => Keeps.pure trivial) (fun _ => Keeps.failure)

theorem keeps_attrValue (name : QName) (quote : Char) : Keeps (do
    expect (String.singleton quote)
    let raw ← run (fun c => c != quote && c != '<' && isXmlChar c)
    expect (String.singleton quote)
    match value? raw with
    | some value => return (⟨name, value⟩ : Attribute)
    | none => failure) (fun _ => True) := by
  refine (keeps_expect _).bind (fun _ _ => (keeps_run _).bind (fun raw _ =>
    (keeps_expect _).bind (fun _ _ => ?_)))
  split
  · exact Keeps.pure trivial
  · exact Keeps.failure

theorem keeps_attr : attr.Keeps (fun _ => True) := by
  refine keeps_qname.bind (fun name _ => (keeps_spaces.discard).bind (fun _ _ => ?_))
  refine (keeps_expect "=").bind (fun _ _ => (keeps_spaces.discard).bind (fun _ _ => ?_))
  refine (keeps_next "\"").bind (fun double _ => ?_)
  exact Keeps.ite (fun _ => keeps_attrValue name '"') (fun _ => keeps_attrValue name '\'')

theorem keeps_startTag (name : QName) (fuel : Nat) (known : List Attribute) :
    (startTag name fuel known).Keeps Token.HoldsClean := by
  induction fuel generalizing known with
  | zero => exact Keeps.failure
  | succ fuel ih =>
    rw [startTag]
    refine keeps_spaces.bind (fun separated _ => (keeps_next "/").bind (fun closed _ => ?_))
    refine Keeps.ite (fun _ => (keeps_expect "/>").bind (fun _ _ => Keeps.pure trivial)) (fun _ => ?_)
    refine (keeps_next ">").bind (fun ended _ => ?_)
    refine Keeps.ite (fun _ => (keeps_expect ">").bind (fun _ _ => Keeps.pure trivial)) (fun _ => ?_)
    exact Keeps.ite (fun _ => keeps_attr.bind (fun entry _ => ih (entry :: known)))
      (fun _ => Keeps.failure)

theorem keeps_instruction : instruction.Keeps Token.HoldsClean := by
  refine (keeps_run _).bind (fun target _ => Keeps.ite (fun _ => ?_) (fun _ => Keeps.failure))
  refine Keeps.bind (Keeps.discard ?_) (fun _ _ => Keeps.pure trivial)
  exact fun input value rest hinput heq => ⟨(keeps_upTo "?>" input value rest hinput heq).1, trivial⟩

theorem keeps_token (size : Nat) : (token size).Keeps Token.HoldsClean := by
  refine (keeps_next "<!--").bind (fun _ _ => Keeps.ite (fun _ => ?_) (fun _ => ?_))
  · refine (keeps_expect "<!--").bind (fun _ _ => (keeps_upTo "-->").bind (fun content _ => ?_))
    exact Keeps.ite (fun _ => Keeps.pure trivial) (fun _ => Keeps.failure)
  refine (keeps_next "<![CDATA[").bind (fun _ _ => Keeps.ite (fun _ => ?_) (fun _ => ?_))
  · exact (keeps_expect "<![CDATA[").bind (fun _ _ => (keeps_upTo "]]>").bind
      (fun content hcontent => Keeps.pure hcontent))
  refine (keeps_next "<?xml ").bind (fun _ _ => Keeps.ite (fun _ => Keeps.failure) (fun _ => ?_))
  refine (keeps_next "<?").bind (fun _ _ => Keeps.ite (fun _ => ?_) (fun _ => ?_))
  · exact (keeps_expect "<?").bind (fun _ _ => keeps_instruction)
  refine (keeps_next "</").bind (fun _ _ => Keeps.ite (fun _ => ?_) (fun _ => ?_))
  · exact (keeps_expect "</").bind (fun _ _ => keeps_qname.bind (fun name _ =>
      (keeps_spaces.discard).bind (fun _ _ => (keeps_expect ">").bind
        (fun _ _ => Keeps.pure trivial))))
  refine (keeps_next "<").bind (fun _ _ => Keeps.ite (fun _ => ?_) (fun _ => ?_))
  · exact (keeps_expect "<").bind (fun _ _ => keeps_qname.bind
      (fun name _ => keeps_startTag name size []))
  · refine (keeps_run _).bind (fun raw hraw => Keeps.ite (fun hall => ?_) (fun _ => Keeps.failure))
    rw [Bool.and_eq_true] at hall
    refine Keeps.pure (fun c hc => ⟨List.all_eq_true.1 hall.1 c hc, ?_⟩)
    rintro rfl
    exact hraw hc

theorem keeps_declarationGap : declarationGap.Keeps (fun _ => True) := by
  refine keeps_spaces.bind (fun blank _ => (keeps_next "?>").bind (fun ended _ => ?_))
  exact Keeps.ite (fun _ => Keeps.failure) (fun _ => Keeps.pure trivial)

theorem keeps_declarationPart (name : String) : (declarationPart name).Keeps (fun _ => True) :=
  (keeps_next name).bind (fun _ _ => Keeps.ite (fun _ => keeps_attr.discard)
    (fun _ => Keeps.pure trivial))

theorem keeps_declaration : declaration.Keeps (fun _ => True) := by
  have hrest : Keeps (do
      declarationPart "standalone"
      discard spaces
      expect "?>") (fun _ => True) :=
    (keeps_declarationPart "standalone").bind (fun _ _ => (keeps_spaces.discard).bind
      (fun _ _ => keeps_expect "?>"))
  refine (keeps_expect "<?xml").bind (fun _ _ => keeps_declarationGap.bind (fun _ _ => ?_))
  refine (keeps_next "version").bind (fun _ _ => Keeps.ite (fun _ => ?_) (fun _ => Keeps.failure))
  refine (keeps_attr.discard).bind (fun _ _ => keeps_declarationGap.bind (fun _ _ => ?_))
  refine (keeps_next "encoding").bind (fun _ _ => Keeps.ite (fun _ => ?_) (fun _ => hrest))
  exact (keeps_attr.discard).bind (fun _ _ => keeps_declarationGap.bind (fun _ _ => hrest))

theorem keeps_prolog : prolog.Keeps (fun _ => True) := by
  have hrest : Keeps (do if ← next "<?xml " then declaration) (fun _ => True) :=
    (keeps_next "<?xml ").bind (fun _ _ => Keeps.ite (fun _ => keeps_declaration)
      (fun _ => Keeps.pure trivial))
  refine (keeps_next "\uFEFF").bind (fun _ _ => Keeps.ite (fun _ => ?_) (fun _ => hrest))
  exact (keeps_expect "\uFEFF").bind (fun _ _ => hrest)

end Reader

/-! ## Tokens -/

theorem holdsClean_of_mem_tokens {input : List Char} (h : '\r' ∉ input) {tokenList : List Token}
    (htokens : tokens input = some tokenList) : ∀ token ∈ tokenList, token.HoldsClean := by
  fun_induction tokens input generalizing tokenList with
  | case1 =>
    obtain rfl := Option.some.inj htokens
    simp
  | case2 => simp at htokens
  | case3 c rest token after hread hshort ih =>
    obtain ⟨hafter, htoken⟩ := Reader.keeps_token _ _ _ _ h hread
    obtain ⟨later, hlater, rfl⟩ := Option.map_eq_some_iff.1 htokens
    intro other hother
    rcases List.mem_cons.1 hother with rfl | hmem
    · exact htoken
    · exact ih hafter hlater other hmem
  | case4 => simp at htokens

theorem holdsClean_of_mem_documentTokens {document : String} (h : '\r' ∉ document.toList)
    {tokenList : List Token} (htokens : documentTokens document = some tokenList) :
    ∀ token ∈ tokenList, token.HoldsClean := by
  rw [documentTokens] at htokens
  split at htokens
  · rename_i rest hprolog
    exact holdsClean_of_mem_tokens (Reader.keeps_prolog _ _ _ h hprolog).1 htokens
  · simp at htokens

/-- The document holds no carriage return, neither as it stands nor as a reference in its character
data. -/
structure WithoutReturns (document : String) : Prop where
  plain : '\r' ∉ document.toList
  references : ∀ tokenList, documentTokens document = some tokenList → ∀ raw, .text raw ∈ tokenList →
    ∀ data, pieces raw = some data → .reference '\r' ∉ data

/-- Whether a token is character data with a reference to a carriage return. -/
def Token.holdsReturn : Token → Bool
  | .text raw => (pieces raw).any (·.contains (.reference '\r'))
  | _ => false

theorem Token.holdsReturn_text {raw : List Char} :
    (Token.text raw).holdsReturn = false ↔ ∀ data, pieces raw = some data → .reference '\r' ∉ data := by
  cases h : pieces raw <;> simp [holdsReturn, h]

instance (document : String) : Decidable (WithoutReturns document) :=
  decidable_of_iff ('\r' ∉ document.toList ∧
      (documentTokens document).all (fun tokens => tokens.all (fun token => !token.holdsReturn)) = true) <| by
    constructor
    · rintro ⟨hplain, hall⟩
      refine ⟨hplain, fun tokenList htokens raw hraw => Token.holdsReturn_text.1 ?_⟩
      simp only [htokens, Option.all_some, List.all_eq_true] at hall
      simpa using hall _ hraw
    · rintro ⟨hplain, hreferences⟩
      refine ⟨hplain, ?_⟩
      cases htokens : documentTokens document with
      | none => rfl
      | some tokenList =>
        simp only [Option.all_some, List.all_eq_true]
        intro token htoken
        cases token with
        | text raw => simpa using Token.holdsReturn_text.2 (hreferences tokenList htokens raw htoken)
        | _ => rfl

/-! ## Nodes -/

mutual

/-- The characters of all texts in a node are clean. -/
def Node.IsClean : Node → Prop
  | .text content => ∀ c ∈ content.toList, Xml.IsClean c
  | .element _ _ children => Node.AllClean children
  | .comment => True
  | .instruction => True

/-- The characters of all texts in some nodes are clean. -/
def Node.AllClean : List Node → Prop
  | [] => True
  | node :: rest => node.IsClean ∧ Node.AllClean rest

end

theorem Node.allClean_iff {nodes : List Node} : AllClean nodes ↔ ∀ node ∈ nodes, node.IsClean := by
  induction nodes with
  | nil => simp [AllClean]
  | cons node rest ih => simp [AllClean, ih]

/-- Everything read so far is clean. -/
structure Partial.IsClean (state : Partial) : Prop where
  root : ∀ node, state.root = some node → node.IsClean
  frames : ∀ frame ∈ state.frames, ∀ node ∈ frame.children, node.IsClean

theorem isClean_addNode {node : Node} {children : List Node} (hnode : node.IsClean)
    (hchildren : ∀ child ∈ children, child.IsClean) : ∀ child ∈ addNode node children, child.IsClean := by
  rw [addNode.eq_def]
  split
  · rename_i more content rest
    intro child hchild
    rcases List.mem_cons.1 hchild with rfl | hrest
    · have hcontent := hchildren (.text content) List.mem_cons_self
      rw [Node.IsClean] at hnode hcontent ⊢
      intro c hc
      rw [String.toList_append, List.mem_append] at hc
      exact hc.elim (hcontent c) (hnode c)
    · exact hchildren child (List.mem_cons_of_mem _ hrest)
  · intro child hchild
    rcases List.mem_cons.1 hchild with rfl | hrest
    · exact hnode
    · exact hchildren child hrest

theorem Partial.IsClean.add {state after : Partial} (h : state.IsClean) {node : Node}
    (hnode : node.IsClean) (hadd : state.add node = some after) : after.IsClean := by
  rw [Partial.add] at hadd
  split at hadd
  · rename_i frame outer hframes
    obtain rfl := Option.some.inj hadd
    refine ⟨h.root, fun other hother => ?_⟩
    rcases List.mem_cons.1 hother with rfl | houter
    · exact isClean_addNode hnode (h.frames frame (by simp [hframes]))
    · exact h.frames other (by simp [hframes, houter])
  · split at hadd
    · obtain rfl := Option.some.inj hadd
      exact ⟨fun other hother => Option.some.inj hother ▸ hnode, h.frames⟩
    · simp at hadd

theorem Partial.IsClean.addAside {state after : Partial} (h : state.IsClean) {node : Node}
    (hnode : node.IsClean) (hadd : state.addAside node = some after) : after.IsClean := by
  rw [Partial.addAside] at hadd
  split at hadd
  · exact Option.some.inj hadd ▸ h
  · exact h.add hnode hadd

theorem children_openElement {scope : Namespaces} {name : QName} {attributes : List Attribute}
    {frame : Frame} (h : openElement scope name attributes = some frame) : frame.children = [] := by
  rw [openElement] at h
  split at h
  · simp at h
  · obtain ⟨resolved, _, rfl⟩ := Option.map_eq_some_iff.1 h
    rfl

theorem isClean_close {frame : Frame} (h : ∀ node ∈ frame.children, node.IsClean) :
    frame.close.IsClean := by
  rw [Frame.close, Node.IsClean, Node.allClean_iff]
  intro node hnode
  exact h node (List.mem_reverse.1 hnode)

/-- Text of clean raw data that refers to no carriage return is clean. -/
theorem isClean_of_text? {raw : List Char} {content : String} (hraw : ∀ c ∈ raw, IsClean c)
    (hreferences : ∀ data, pieces raw = some data → .reference '\r' ∉ data)
    (h : text? raw = some content) : ∀ c ∈ content.toList, IsClean c := by
  obtain ⟨data, hdata, rfl⟩ := Option.map_eq_some_iff.1 h
  intro c hc
  rw [String.toList_ofList] at hc
  have hfrom := isFrom_of_mem_pieces hdata
  rcases mem_textOf hc with href | hplain | rfl
  · refine ⟨hfrom _ href, ?_⟩
    rintro rfl
    exact hreferences data hdata href
  · exact hraw c (hfrom _ hplain)
  · exact ⟨by decide, by decide⟩

theorem isClean_of_plainBreaks {content : List Char} (h : ∀ c ∈ content, IsClean c) :
    ∀ c ∈ (String.ofList (Text.plainBreaks content)).toList, IsClean c := by
  intro c hc
  rw [String.toList_ofList] at hc
  rcases mem_plainBreaks hc with hmem | rfl
  · exact h c hmem
  · exact ⟨by decide, by decide⟩

theorem Partial.IsClean.step {state after : Partial} (h : state.IsClean) {token : Token}
    (htoken : token.HoldsClean)
    (hreferences : ∀ raw, token = .text raw → ∀ data, pieces raw = some data → .reference '\r' ∉ data)
    (hstep : state.step token = some after) : after.IsClean := by
  cases token with
  | start name attributes closed =>
    rw [Partial.step] at hstep
    split at hstep
    · simp at hstep
    · rename_i frame hframe
      have hempty : ∀ node ∈ frame.children, node.IsClean := by
        rw [children_openElement hframe]
        simp
      split at hstep
      · exact h.add (isClean_close hempty) hstep
      · split at hstep
        · simp at hstep
        · obtain rfl := Option.some.inj hstep
          refine ⟨h.root, fun other hother => ?_⟩
          rcases List.mem_cons.1 hother with rfl | houter
          · exact hempty
          · exact h.frames other houter
  | stop name =>
    rw [Partial.step] at hstep
    split at hstep
    · simp at hstep
    · rename_i frame outer hframes
      split at hstep
      · have houter : ({ state with frames := outer } : Partial).IsClean :=
          ⟨h.root, fun other hother => h.frames other (by simp [hframes, hother])⟩
        exact houter.add (isClean_close (h.frames frame (by simp [hframes]))) hstep
      · simp at hstep
  | text raw =>
    rw [Partial.step] at hstep
    split at hstep
    · split at hstep
      · exact Option.some.inj hstep ▸ h
      · simp at hstep
    · obtain ⟨content, hcontent, hadd⟩ := Option.bind_eq_some_iff.1 hstep
      refine h.add ?_ hadd
      rw [Node.IsClean]
      exact isClean_of_text? htoken (hreferences raw rfl) hcontent
  | cdata content =>
    rw [Partial.step] at hstep
    split at hstep
    · simp at hstep
    · refine h.add ?_ hstep
      rw [Node.IsClean]
      exact isClean_of_plainBreaks htoken
  | comment => exact h.addAside (by simp [Node.IsClean]) hstep
  | instruction => exact h.addAside (by simp [Node.IsClean]) hstep

theorem Partial.IsClean.foldlM {state after : Partial} (h : state.IsClean) {tokenList : List Token}
    (htokens : ∀ token ∈ tokenList, token.HoldsClean)
    (hreferences : ∀ raw, .text raw ∈ tokenList → ∀ data, pieces raw = some data →
      .reference '\r' ∉ data)
    (hfold : tokenList.foldlM Partial.step state = some after) : after.IsClean := by
  induction tokenList generalizing state with
  | nil => exact Option.some.inj hfold ▸ h
  | cons token rest ih =>
    rw [List.foldlM_cons] at hfold
    obtain ⟨middle, hmiddle, hrest⟩ := Option.bind_eq_some_iff.1 hfold
    refine ih (h.step (htokens token List.mem_cons_self) ?_ hmiddle)
      (fun other hother => htokens other (List.mem_cons_of_mem _ hother))
      (fun raw hraw => hreferences raw (List.mem_cons_of_mem _ hraw)) hrest
    rintro raw rfl
    exact hreferences raw List.mem_cons_self

/-- The texts of a document without carriage returns are clean. -/
theorem isClean_of_parse {document : String} (h : WithoutReturns document) {root : Node}
    (hparse : parse document = some root) : root.IsClean := by
  rw [parse] at hparse
  split at hparse
  · rename_i node hread
    obtain rfl := Option.some.inj hparse
    obtain ⟨tokenList, htokens, hfold⟩ := Option.bind_eq_some_iff.1 hread
    have hstart : (⟨none, []⟩ : Partial).IsClean := ⟨by simp, by simp⟩
    exact (hstart.foldlM (holdsClean_of_mem_documentTokens h.plain htokens)
      (h.references tokenList htokens) hfold).root node rfl
  · simp at hparse

end CodeAtlas.Xml
