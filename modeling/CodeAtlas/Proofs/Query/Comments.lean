/-
# Comments in queries

Two documents are alike but for comments when their elements are the same, one for one, and between
these the same text stands, however it is cut.  A comment that is put into a document leaves it alike.

Of a pattern only the text is read that its element begins with, so that a comment inside or in front of
this text cuts the pattern off.  Elsewhere comments do not change a query.
-/
import CodeAtlas.Proofs.Query.Written
import CodeAtlas.Proofs.Xml.Parts
import Mathlib.Logic.Relation
import Mathlib.Logic.Relation

namespace CodeAtlas

namespace Xml

/-! ## Nodes without comments -/

/-- Puts text in front of nodes; it joins text that comes first. -/
def joinText (content : String) : List Node → List Node
  | .text more :: rest => .text (content ++ more) :: rest
  | rest => .text content :: rest

theorem joinText_joinText (first second : String) (behind : List Node) :
    joinText first (joinText second behind) = joinText (first ++ second) behind := by
  cases behind with
  | nil => rfl
  | cons node rest =>
    cases node with
    | text more =>
      show Node.text (first ++ (second ++ more)) :: rest = .text (first ++ second ++ more) :: rest
      rw [String.append_assoc]
    | element name attributes children => rfl
    | comment => rfl
    | instruction => rfl

namespace Node

/-- The text that nodes begin with. -/
def beginning (nodes : List Node) : List Node :=
  ((nodes.head?.bind content?).map text).toList

mutual

/-- A node in front of others, without the comments in it and with all text of a place in one node.  Of
the elements with a pinned name only the text they begin with is kept. -/
def bare (pinned : String → Bool) (behind : List Node) : Node → List Node
  | element name attributes children =>
    element name attributes
      (if pinned name then beginning children else bareAll pinned [] children) :: behind
  | text content => joinText content behind
  | comment => behind
  | instruction => instruction :: behind

/-- Nodes in front of others, without comments. -/
def bareAll (pinned : String → Bool) (behind : List Node) : List Node → List Node
  | [] => behind
  | node :: rest => bare pinned (bareAll pinned behind rest) node

end

variable {pinned : String → Bool}

theorem bareAll_append (front back behind : List Node) :
    bareAll pinned behind (front ++ back) = bareAll pinned (bareAll pinned behind back) front := by
  induction front with
  | nil => rfl
  | cons node rest ih => rw [List.cons_append, bareAll, bareAll, ih]

theorem bareAll_reverse_cons (node : Node) (children behind : List Node) :
    bareAll pinned behind (node :: children).reverse =
      bareAll pinned (bare pinned behind node) children.reverse := by
  rw [List.reverse_cons, bareAll_append]
  rfl

/-- A node that is put behind others, latest first, joins them if both are text. -/
theorem bareAll_addNode (node : Node) (children behind : List Node) :
    bareAll pinned behind (addNode node children).reverse =
      bareAll pinned (bare pinned behind node) children.reverse := by
  by_cases hjoin : node.isText = true → children.head?.any isText = false
  · rw [addNode_of_not_text hjoin, bareAll_reverse_cons]
  · cases node with
    | text more =>
      cases children with
      | nil => simp at hjoin
      | cons first rest =>
        cases first with
        | text content =>
          show bareAll pinned behind (text (content ++ more) :: rest).reverse = _
          rw [bareAll_reverse_cons, bareAll_reverse_cons]
          simp only [bare, joinText_joinText]
        | _ => simp [isText] at hjoin
    | _ => simp [isText] at hjoin

/-! ### The text in front -/

theorem head?_beginning (nodes : List Node) :
    (beginning nodes).head?.bind content? = nodes.head?.bind content? := by
  unfold beginning
  cases nodes.head?.bind content? <;> rfl

/-- The text that nodes, latest first, begin with, and whether it is complete. -/
def lead : List Node → Option String × Bool
  | [] => (none, false)
  | [node] => (node.content?, node.content?.isNone)
  | _ :: rest => ((lead rest).1, true)

/-- What nodes begin with once another one is put behind them: text makes incomplete text longer, and
everything else completes it. -/
def extendLead (front : Option String × Bool) (content : Option String) : Option String × Bool :=
  match front.2, content with
  | false, some more => (some (front.1.getD "" ++ more), false)
  | _, _ => (front.1, true)

theorem extendLead_none (front : Option String × Bool) : extendLead front none = (front.1, true) := by
  obtain ⟨text, complete⟩ := front
  cases complete <;> rfl

theorem lead_cons_of_ne_nil (node : Node) {children : List Node} (h : children ≠ []) :
    lead (node :: children) = ((lead children).1, true) := by
  obtain ⟨first, rest, rfl⟩ := List.exists_cons_of_ne_nil h
  rfl

theorem lead_addNode (node : Node) (children : List Node) :
    lead (addNode node children) = extendLead (lead children) node.content? := by
  cases children with
  | nil => cases node <;> simp [addNode, lead, extendLead, content?]
  | cons first rest =>
    by_cases hrest : rest = []
    · subst hrest
      cases node <;> cases first <;> rfl
    · have hfirst : ∀ other : Node, lead (other :: rest) = ((lead rest).1, true) :=
        fun other => lead_cons_of_ne_nil other hrest
      have hnode : ∀ other, lead (other :: first :: rest) = ((lead rest).1, true) := by
        intro other
        rw [lead_cons_of_ne_nil other (List.cons_ne_nil first rest), hfirst]
      rw [hfirst]
      cases node <;> cases first <;> simp [addNode, extendLead, hfirst, hnode]

theorem lead_fst (children : List Node) :
    (lead children).1 = children.reverse.head?.bind content? := by
  induction children with
  | nil => rfl
  | cons node rest ih =>
    by_cases hrest : rest = []
    · subst hrest
      rfl
    · rw [lead_cons_of_ne_nil node hrest, ih, List.reverse_cons, List.head?_append_of_ne_nil]
      simpa using hrest

/-- Two nodes are alike but for comments and for where these cut text. -/
structure Alike (pinned : String → Bool) (a b : Node) : Prop where
  isElement_eq : b.isElement = a.isElement
  content_eq : b.content? = a.content?
  bare_eq : ∀ behind, bare pinned behind b = bare pinned behind a

theorem Alike.refl (node : Node) : Alike pinned node node :=
  ⟨rfl, rfl, fun _ => rfl⟩

theorem Alike.trans {a b c : Node} (hab : Alike pinned a b) (hbc : Alike pinned b c) :
    Alike pinned a c :=
  ⟨hbc.isElement_eq.trans hab.isElement_eq, hbc.content_eq.trans hab.content_eq,
    fun behind => (hbc.bare_eq behind).trans (hab.bare_eq behind)⟩

end Node

/-! ## Open elements and documents -/

namespace Frame

variable {pinned : String → Bool} {a b : Frame}

/-- Two open elements are alike but for comments; those of a pinned name begin with the same text. -/
structure Alike (pinned : String → Bool) (a b : Frame) : Prop where
  name_eq : b.name = a.name
  attributes_eq : b.attributes = a.attributes
  scope_eq : b.scope = a.scope
  bare_eq : ∀ behind, Node.bareAll pinned behind b.children.reverse =
    Node.bareAll pinned behind a.children.reverse
  beginning_eq : pinned a.name.localName = true → (Node.lead b.children).1 = (Node.lead a.children).1

/-- Two open elements are alike, and their text goes on in both or in neither of them. -/
structure Aligned (pinned : String → Bool) (a b : Frame) : Prop extends Alike pinned a b where
  lead_eq : pinned a.name.localName = true → Node.lead b.children = Node.lead a.children

theorem Aligned.refl (frame : Frame) : Aligned pinned frame frame :=
  ⟨⟨rfl, rfl, rfl, fun _ => rfl, fun _ => rfl⟩, fun _ => rfl⟩

/-- Open elements stay alike when alike nodes are put behind those in them, unless a text goes on in one
of them only. -/
theorem Alike.add (h : Alike pinned a b) {first second : Node}
    (hnode : Node.Alike pinned first second) (hmeet : Aligned pinned a b ∨ first.content? = none) :
    Aligned pinned { a with children := addNode first a.children }
      { b with children := addNode second b.children } := by
  have hlead : pinned a.name.localName = true →
      Node.lead (addNode second b.children) = Node.lead (addNode first a.children) := by
    intro hpinned
    rw [Node.lead_addNode, Node.lead_addNode, hnode.content_eq]
    rcases hmeet with haligned | hnone
    · rw [haligned.lead_eq hpinned]
    · rw [hnone, Node.extendLead_none, Node.extendLead_none, h.beginning_eq hpinned]
  refine ⟨⟨h.name_eq, h.attributes_eq, h.scope_eq, fun behind => ?_, fun hpinned => ?_⟩, hlead⟩
  · show Node.bareAll pinned behind (addNode second b.children).reverse =
      Node.bareAll pinned behind (addNode first a.children).reverse
    rw [Node.bareAll_addNode, Node.bareAll_addNode, hnode.bare_eq, h.bare_eq]
  · show (Node.lead (addNode second b.children)).1 = (Node.lead (addNode first a.children)).1
    rw [hlead hpinned]

theorem Alike.close (h : Alike pinned a b) : Node.Alike pinned a.close b.close := by
  refine ⟨rfl, rfl, fun behind => ?_⟩
  unfold Frame.close Node.bare
  rw [h.name_eq, h.attributes_eq, h.bare_eq]
  cases hpinned : pinned a.name.localName with
  | false => rfl
  | true =>
    unfold Node.beginning
    rw [if_pos rfl, if_pos rfl, ← Node.lead_fst, ← Node.lead_fst, h.beginning_eq hpinned]

/-- A comment leaves an open element alike. -/
theorem alike_comment (frame : Frame) :
    Alike pinned frame { frame with children := addNode .comment frame.children } where
  name_eq := rfl
  attributes_eq := rfl
  scope_eq := rfl
  bare_eq := by
    intro behind
    show Node.bareAll pinned behind (addNode .comment frame.children).reverse = _
    rw [Node.bareAll_addNode]
    rfl
  beginning_eq := by
    intro _
    show (Node.lead (addNode .comment frame.children)).1 = _
    rw [Node.lead_addNode]
    show (Node.extendLead _ none).1 = _
    rw [Node.extendLead_none]

/-- A comment does not cut off a text that is complete. -/
theorem aligned_comment {frame : Frame}
    (hlead : pinned frame.name.localName = true → (Node.lead frame.children).2 = true) :
    Aligned pinned frame { frame with children := addNode .comment frame.children } := by
  refine ⟨alike_comment frame, ?_⟩
  intro hpinned
  show Node.lead (addNode .comment frame.children) = _
  rw [Node.lead_addNode]
  show Node.extendLead _ none = _
  rw [Node.extendLead_none, ← hlead hpinned]

end Frame

/-! ## Tokens that are no text -/

/-- Whether a token is text. -/
def Token.isCharData : Token → Bool
  | .text _ => true
  | .cdata _ => true
  | _ => false

namespace Reader

/-- A reader that never reads text. -/
def ReadsNoText (reader : Reader Token) : Prop :=
  ∀ input token rest, reader input = some (token, rest) → token.isCharData = false

theorem ReadsNoText.pure {token : Token} (h : token.isCharData = false) :
    ReadsNoText (Pure.pure token) := by
  intro input other rest heq
  obtain ⟨rfl, -⟩ := Prod.mk.inj (Option.some.inj heq)
  exact h

theorem ReadsNoText.failure : ReadsNoText Alternative.failure := by
  intro input token rest heq
  exact absurd heq (fun hnone => by cases hnone)

theorem ReadsNoText.bind {α : Type} {reader : Reader α} {next : α → Reader Token}
    (h : ∀ value, ReadsNoText (next value)) : ReadsNoText (reader >>= next) := by
  intro input token rest heq
  obtain ⟨first, between, -, hlast⟩ := bind_eq_some.1 heq
  exact h first between token rest hlast

theorem ReadsNoText.ite {condition : Prop} [Decidable condition] {yes no : Reader Token}
    (hyes : ReadsNoText yes) (hno : ReadsNoText no) : ReadsNoText (if condition then yes else no) := by
  split
  · exact hyes
  · exact hno

theorem readsNoText_startTag (name : QName) (fuel : Nat) (known : List Attribute) :
    ReadsNoText (startTag name fuel known) := by
  induction fuel generalizing known with
  | zero => exact ReadsNoText.failure
  | succ fuel ih =>
    rw [startTag]
    refine ReadsNoText.bind (fun separated => ReadsNoText.bind (fun closed => ReadsNoText.ite ?_ ?_))
    · exact ReadsNoText.bind (fun _ => ReadsNoText.pure rfl)
    refine ReadsNoText.bind (fun ended => ReadsNoText.ite ?_ (ReadsNoText.ite ?_ ReadsNoText.failure))
    · exact ReadsNoText.bind (fun _ => ReadsNoText.pure rfl)
    · exact ReadsNoText.bind (fun entry => ih (entry :: known))

theorem readsNoText_instruction : ReadsNoText instruction :=
  ReadsNoText.bind (fun _ => ReadsNoText.ite (ReadsNoText.bind (fun _ => ReadsNoText.pure rfl))
    ReadsNoText.failure)

/-- Markup is no text unless it is one in brackets. -/
theorem not_isCharData_of_markup {size : Nat} {input after : List Char} {token : Token}
    (hbrackets : Text.afterLead? "<![CDATA[".toList input = none)
    (h : markup size input = some (token, after)) : token.isCharData = false := by
  rw [markup, next_bind] at h
  split at h
  · refine ReadsNoText.bind (fun _ => ReadsNoText.bind (fun _ => ?_)) _ _ _ h
    exact ReadsNoText.ite (ReadsNoText.pure rfl) ReadsNoText.failure
  · rw [next_bind_of_none hbrackets, if_neg (by decide)] at h
    refine ReadsNoText.bind (fun _ => ReadsNoText.ite ReadsNoText.failure ?_) _ _ _ h
    refine ReadsNoText.bind (fun _ => ReadsNoText.ite ?_ ?_)
    · exact ReadsNoText.bind (fun _ => readsNoText_instruction)
    refine ReadsNoText.bind (fun _ => ReadsNoText.ite ?_ ?_)
    · refine ReadsNoText.bind (fun _ => ReadsNoText.bind (fun name => ReadsNoText.bind (fun _ => ?_)))
      exact ReadsNoText.bind (fun _ => ReadsNoText.pure rfl)
    refine ReadsNoText.bind (fun _ => ReadsNoText.ite ?_ ReadsNoText.failure)
    exact ReadsNoText.bind (fun _ => ReadsNoText.bind (fun name => readsNoText_startTag name size []))

end Reader

/-- Whether a tag, a comment or an instruction begins here. -/
def beginsTag (input : List Char) : Bool :=
  input.head? == some '<' && (Text.afterLead? "<![CDATA[".toList input).isNone

theorem not_isCharData_of_beginsTag {input : List Char} (h : beginsTag input = true)
    {tokenList : List Token} (htokens : tokens input = some tokenList) :
    ∀ token ∈ tokenList.head?, token.isCharData = false := by
  obtain ⟨hhead, hbrackets⟩ := Bool.and_eq_true_iff.1 h
  obtain ⟨rest, rfl⟩ := List.head?_eq_some_iff.1 (eq_of_beq hhead)
  rw [tokens] at htokens
  split at htokens
  case h_1 => simp at htokens
  case h_2 token after hread =>
    rw [Reader.token_of_tag] at hread
    split at htokens
    case isTrue =>
      obtain ⟨later, -, rfl⟩ := Option.map_eq_some_iff.1 htokens
      intro first hfirst
      obtain rfl := Option.some.inj hfirst
      exact Reader.not_isCharData_of_markup (Option.isNone_iff_eq_none.1 hbrackets) hread
    case isFalse => simp at htokens

namespace Partial

variable {pinned : String → Bool} {a b : Partial}

/-- Two states are alike but for comments. -/
structure Alike (pinned : String → Bool) (a b : Partial) : Prop where
  root : Option.Rel (Node.Alike pinned) a.root b.root
  frames : List.Forall₂ (Frame.Alike pinned) a.frames b.frames

/-- Two states are alike, and the text of the innermost element goes on in both or in neither. -/
structure Aligned (pinned : String → Bool) (a b : Partial) : Prop extends Alike pinned a b where
  top : Option.Rel (Frame.Aligned pinned) a.frames.head? b.frames.head?

theorem Aligned.refl (state : Partial) : Aligned pinned state state where
  root := by
    cases state.root with
    | none => exact .none
    | some root => exact .some (.refl root)
  frames := List.forall₂_same.2 (fun frame _ => (Frame.Aligned.refl frame).toAlike)
  top := by
    cases state.frames with
    | nil => exact .none
    | cons frame outer => exact .some (.refl frame)

theorem Alike.isEmpty_eq (h : Alike pinned a b) : b.frames.isEmpty = a.frames.isEmpty := by
  obtain ⟨root, frames⟩ := a
  obtain ⟨root', frames'⟩ := b
  cases h.frames with
  | nil => rfl
  | cons _ _ => rfl

theorem Alike.isSome_eq (h : Alike pinned a b) : b.root.isSome = a.root.isSome := by
  obtain ⟨root, frames⟩ := a
  obtain ⟨root', frames'⟩ := b
  cases h.root with
  | none => rfl
  | some _ => rfl

theorem Alike.scope_eq (h : Alike pinned a b) :
    b.frames.head?.map Frame.scope = a.frames.head?.map Frame.scope := by
  obtain ⟨root, frames⟩ := a
  obtain ⟨root', frames'⟩ := b
  cases h.frames with
  | nil => rfl
  | cons hframe _ => exact congrArg some hframe.scope_eq

/-- Outside of the root no text goes on. -/
theorem Alike.aligned (h : Alike pinned a b) (hempty : a.frames = []) : Aligned pinned a b := by
  obtain ⟨root, frames⟩ := a
  obtain ⟨root', frames'⟩ := b
  obtain rfl : frames = [] := hempty
  refine ⟨h, ?_⟩
  cases h.frames
  exact .none

/-- Alike nodes are added to both of two alike states, unless a text goes on in one of them only. -/
theorem Alike.add (h : Alike pinned a b) {first second : Node}
    (hnode : Node.Alike pinned first second) (hmeet : Aligned pinned a b ∨ first.content? = none)
    {after : Partial} (hadd : a.add first = some after) :
    ∃ other, b.add second = some other ∧ Aligned pinned after other := by
  have hroot := h.isSome_eq
  obtain ⟨root, frames⟩ := a
  obtain ⟨root', frames'⟩ := b
  unfold Partial.add at hadd ⊢
  cases h.frames with
  | nil =>
    dsimp only at hadd hroot ⊢
    split at hadd
    case isTrue hfirst =>
      obtain rfl := Option.some.inj hadd
      rw [hnode.isElement_eq, ← Option.not_isSome, hroot, Option.not_isSome, if_pos hfirst]
      exact ⟨_, rfl, ⟨.some hnode, .nil⟩, .none⟩
    case isFalse => simp at hadd
  | cons hframe houter =>
    obtain rfl := Option.some.inj hadd
    have hframes := hframe.add hnode (hmeet.imp_left (fun haligned => by
      cases haligned.top with
      | some htop => exact htop))
    exact ⟨_, rfl, ⟨h.root, .cons hframes.toAlike houter⟩, .some hframes⟩

theorem Alike.addAside (h : Alike pinned a b) {node : Node} (hnode : node.content? = none)
    {after : Partial} (hadd : a.addAside node = some after) :
    ∃ other, b.addAside node = some other ∧ Aligned pinned after other := by
  unfold Partial.addAside at hadd ⊢
  rw [h.isEmpty_eq]
  split at hadd
  case isTrue hempty =>
    obtain rfl := Option.some.inj hadd
    exact ⟨b, if_pos hempty, h.aligned (List.isEmpty_iff.1 hempty)⟩
  case isFalse hopen =>
    rw [if_neg hopen]
    exact h.add (.refl node) (.inr hnode) hadd

/-- One token is taken in by both of two alike states, unless it is text that goes on in one of them
only. -/
theorem Alike.step (h : Alike pinned a b) {token : Token}
    (hmeet : Aligned pinned a b ∨ token.isCharData = false) {after : Partial}
    (hstep : a.step token = some after) :
    ∃ other, b.step token = some other ∧ Aligned pinned after other := by
  have hempty := h.isEmpty_eq
  cases token with
  | start name attributes closed =>
    unfold Partial.step at hstep ⊢
    dsimp only at hstep ⊢
    rw [h.scope_eq]
    split at hstep
    case h_1 => simp at hstep
    case h_2 frame hframe =>
      split at hstep
      case isTrue hclosed =>
        rw [if_pos hclosed]
        exact h.add (.refl _) (.inr rfl) hstep
      case isFalse hclosed =>
        rw [if_neg hclosed, hempty, h.isSome_eq]
        split at hstep
        case isTrue => simp at hstep
        case isFalse hroom =>
          obtain rfl := Option.some.inj hstep
          rw [if_neg hroom]
          have hopen : Frame.Aligned pinned frame frame := Frame.Aligned.refl frame
          exact ⟨_, rfl, ⟨h.root, .cons hopen.toAlike h.frames⟩, .some hopen⟩
  | stop name =>
    obtain ⟨root, frames⟩ := a
    obtain ⟨root', frames'⟩ := b
    unfold Partial.step at hstep ⊢
    dsimp only at hstep ⊢
    cases h.frames with
    | nil => simp at hstep
    | @cons frame frame' outer outer' hframe houter =>
      dsimp only at hstep ⊢
      rw [hframe.name_eq]
      split at hstep
      case isTrue hname =>
        rw [if_pos hname]
        have hclosed : Alike pinned ⟨root, outer⟩ ⟨root', outer'⟩ := ⟨h.root, houter⟩
        exact hclosed.add hframe.close (.inr rfl) hstep
      case isFalse => simp at hstep
  | text raw =>
    have hgoes := hmeet.resolve_right (by simp [Token.isCharData])
    unfold Partial.step at hstep ⊢
    dsimp only at hstep ⊢
    rw [hempty]
    split at hstep
    case isTrue houtside =>
      rw [if_pos houtside]
      split at hstep
      case isTrue hblank =>
        obtain rfl := Option.some.inj hstep
        exact ⟨b, if_pos hblank, hgoes⟩
      case isFalse => simp at hstep
    case isFalse hinside =>
      obtain ⟨content, hcontent, hadd⟩ := Option.bind_eq_some_iff.1 hstep
      rw [if_neg hinside, hcontent]
      exact h.add (.refl _) (.inl hgoes) hadd
  | cdata content =>
    have hgoes := hmeet.resolve_right (by simp [Token.isCharData])
    unfold Partial.step at hstep ⊢
    dsimp only at hstep ⊢
    rw [hempty]
    split at hstep
    case isTrue => simp at hstep
    case isFalse hinside =>
      rw [if_neg hinside]
      exact h.add (.refl _) (.inl hgoes) hstep
  | comment => exact h.addAside rfl hstep
  | instruction => exact h.addAside rfl hstep

theorem Aligned.foldlM (h : Aligned pinned a b) {tokenList : List Token} {final : Partial}
    (hfinal : tokenList.foldlM Partial.step a = some final) :
    ∃ other, tokenList.foldlM Partial.step b = some other ∧ Aligned pinned final other := by
  induction tokenList generalizing a b with
  | nil =>
    obtain rfl := Option.some.inj hfinal
    exact ⟨b, rfl, h⟩
  | cons token rest ih =>
    obtain ⟨next, hnext, hfold⟩ := foldlM_cons_eq_some.1 hfinal
    obtain ⟨next', hnext', haligned⟩ := h.toAlike.step (.inl h) hnext
    obtain ⟨other, hother, hfinal'⟩ := ih haligned hfold
    exact ⟨other, foldlM_cons_eq_some.2 ⟨next', hnext', hother⟩, hfinal'⟩

/-- Tokens are taken in by both of two alike states, unless the first one is text that goes on in one of
them only. -/
theorem Alike.foldlM (h : Alike pinned a b) {tokenList : List Token}
    (hmeet : Aligned pinned a b ∨ ∀ token ∈ tokenList.head?, token.isCharData = false)
    {final : Partial} (hfinal : tokenList.foldlM Partial.step a = some final) :
    ∃ other, tokenList.foldlM Partial.step b = some other ∧ Alike pinned final other := by
  cases tokenList with
  | nil =>
    obtain rfl := Option.some.inj hfinal
    exact ⟨b, rfl, h⟩
  | cons token rest =>
    obtain ⟨next, hnext, hfold⟩ := foldlM_cons_eq_some.1 hfinal
    obtain ⟨next', hnext', haligned⟩ := h.step (hmeet.imp_right (fun hfirst => hfirst token rfl)) hnext
    obtain ⟨other, hother, hfinal'⟩ := haligned.foldlM hfold
    exact ⟨other, foldlM_cons_eq_some.2 ⟨next', hnext', hother⟩, hfinal'.toAlike⟩

end Partial

/-! ## Comments in documents -/

/-- Whether a comment may be put between an open element and what follows.  If the element has a pinned
name, the text it begins with has to be complete or to end at the place. -/
def Frame.takesComment (pinned : String → Bool) (frame : Frame) (after : List Char) : Bool :=
  !pinned frame.name.localName || (Node.lead frame.children).2 || beginsTag after

/-- A document and the same one with a comment somewhere inside of the root. -/
inductive AddsComment (pinned : String → Bool) : String → String → Prop
  | intro {before content after : String} {root : Option Node} {frame : Frame} {outer : List Frame}
      (inside : readPart before = some ⟨root, frame :: outer⟩)
      (cut : MayCut before.toList after.toList)
      (keeps : frame.takesComment pinned after.toList = true)
      (comment : IsCommentText content.toList) :
      AddsComment pinned (before ++ after) (before ++ ("<!--" ++ (content ++ "-->")) ++ after)

/-- Whether a comment may be put between two parts can be computed from them. -/
theorem AddsComment.of_place {pinned : String → Bool} {before content after : String}
    (place : ((readPart before).bind (·.frames.head?)).any (·.takesComment pinned after.toList) = true)
    (cut : MayCut before.toList after.toList) (comment : IsCommentText content.toList) :
    AddsComment pinned (before ++ after) (before ++ ("<!--" ++ (content ++ "-->")) ++ after) := by
  obtain ⟨hsome, hkeeps⟩ := (Option.any_eq_true_iff_get _ _).1 place
  obtain ⟨⟨root, frames⟩, hread, hhead⟩ := Option.bind_eq_some_iff.1 (Option.some_get hsome).symm
  obtain ⟨outer, rfl⟩ := List.head?_eq_some_iff.1 hhead
  exact .intro hread cut hkeeps comment

/-- A comment inside of the root leaves a document alike. -/
theorem AddsComment.exists_alike {pinned : String → Bool} {document commented : String}
    (h : AddsComment pinned document commented) {root : Node} (hroot : parse document = some root) :
    ∃ other, parse commented = some other ∧ Node.Alike pinned root other := by
  obtain @⟨before, content, after, start, frame, outer, hinside, hcut, hkeeps, hcomment⟩ := h
  have hopen : frame :: outer ≠ [] := List.cons_ne_nil frame outer
  obtain ⟨rest, hrest, hfold⟩ :=
    exists_rest_of_readPart hinside hopen hcut (parse_eq_some_iff.1 hroot)
  -- the states in front of the place, without and with the comment
  let noted : Frame := { frame with children := addNode .comment frame.children }
  have halike : Partial.Alike pinned ⟨start, frame :: outer⟩ ⟨start, noted :: outer⟩ := by
    have hsame : Partial.Aligned pinned ⟨start, outer⟩ ⟨start, outer⟩ := .refl _
    exact ⟨hsame.root, .cons (Frame.alike_comment frame) hsame.frames⟩
  have hmeet : Partial.Aligned pinned ⟨start, frame :: outer⟩ ⟨start, noted :: outer⟩ ∨
      ∀ token ∈ rest.head?, token.isCharData = false := by
    unfold Frame.takesComment at hkeeps
    rw [Bool.or_eq_true, Bool.or_eq_true, Bool.not_eq_true'] at hkeeps
    rcases hkeeps with hframe | htag
    · refine .inl ⟨halike, .some (Frame.aligned_comment (fun hpinned => ?_))⟩
      exact hframe.resolve_left (by simp [hpinned])
    · exact .inr (not_isCharData_of_beginsTag htag hrest)
  obtain ⟨⟨last, frames⟩, hlast, hfinal⟩ := halike.foldlM hmeet hfold
  obtain ⟨hresult, hframes⟩ := hfinal
  cases hframes
  cases hresult with
  | @some _ other hnode =>
    refine ⟨other, parse_eq_some_iff.2 ?_, hnode⟩
    rw [readPart_comment hinside hopen hcomment hrest]
    exact hlast

/-- Any number of comments inside of the root leave a document alike. -/
theorem exists_alike_of_comments {pinned : String → Bool} {document commented : String}
    (h : Relation.ReflTransGen (AddsComment pinned) document commented) {root : Node}
    (hroot : parse document = some root) :
    ∃ other, parse commented = some other ∧ Node.Alike pinned root other := by
  induction h with
  | refl => exact ⟨root, hroot, .refl root⟩
  | tail _ hadds ih =>
    obtain ⟨first, hfirst, halike⟩ := ih
    obtain ⟨other, hother, hadded⟩ := hadds.exists_alike hfirst
    exact ⟨other, hother, halike.trans hadded⟩

end Xml

namespace Query

open Xml (Node)
open Xml.Node (bare bareAll)

/-! ## What is read of a query -/

/-- The name of elements that hold a pattern. -/
def isPattern (tag : String) : Bool :=
  tag == "regex"

/-- What is the same for text that is joined, for a comment that is left out and for an element without
its comments, in front of any nodes, is the same for nodes without their comments. -/
theorem apply_bareAll {β : Type} (f : List Node → β)
    (hcons : ∀ node {front back : List Node}, f front = f back → f (node :: front) = f (node :: back))
    (hbare : ∀ node behind, f (bare isPattern behind node) = f (node :: behind))
    (nodes behind : List Node) : f (bareAll isPattern behind nodes) = f (nodes ++ behind) := by
  induction nodes with
  | nil => rfl
  | cons node rest ih =>
    rw [bareAll, hbare, List.cons_append]
    exact hcons node ih

/-- The text of the first pattern among nodes. -/
def patternText? (nodes : List Node) : Option (Option String) :=
  (nodes.find? (Node.hasName "regex")).map Node.text?

/-- The text among nodes. -/
def allText (nodes : List Node) : String :=
  String.join (nodes.filterMap Node.content?)

theorem patternText?_cons (node : Node) (behind : List Node) :
    patternText? (node :: behind) =
      if node.hasName "regex" then some node.text? else patternText? behind := by
  unfold patternText?
  rw [List.find?_cons]
  cases node.hasName "regex" <;> rfl

theorem patternText?_bareAll (nodes behind : List Node) :
    patternText? (bareAll isPattern behind nodes) = patternText? (nodes ++ behind) := by
  refine apply_bareAll patternText? (fun node front back h => ?_) (fun node behind => ?_) nodes behind
  · rw [patternText?_cons, patternText?_cons, h]
  · cases node with
    | element name attributes children =>
      rw [bare, patternText?_cons, patternText?_cons]
      have hname : ∀ inside : List Node,
          (Node.element name attributes inside).hasName "regex" = isPattern name := fun _ => rfl
      rw [hname, hname]
      cases isPattern name with
      | false => rfl
      | true =>
        rw [if_pos rfl, if_pos rfl, if_pos rfl]
        exact congrArg some (Node.head?_beginning children)
    | text content =>
      cases behind with
      | nil => rfl
      | cons first rest => cases first <;> rfl
    | comment => rfl
    | instruction => rfl

theorem allText_cons (node : Node) (behind : List Node) :
    allText (node :: behind) = node.content?.getD "" ++ allText behind := by
  unfold allText
  rw [List.filterMap_cons]
  cases node.content? with
  | none => exact String.empty_append.symm
  | some content => exact String.join_cons

theorem allText_bareAll (nodes behind : List Node) :
    allText (bareAll isPattern behind nodes) = allText (nodes ++ behind) := by
  refine apply_bareAll allText (fun node front back h => ?_) (fun node behind => ?_) nodes behind
  · rw [allText_cons, allText_cons, h]
  · cases node with
    | text content =>
      cases behind with
      | nil => rfl
      | cons first rest =>
        cases first with
        | text more =>
          show allText (.text (content ++ more) :: rest) = _
          simp [allText_cons, Node.content?, String.append_assoc]
        | _ => rfl
    | element name attributes children =>
      rw [bare, allText_cons, allText_cons]
      rfl
    | comment => exact String.empty_append.symm
    | instruction => rfl

/-- A name is read from its text and its first pattern. -/
theorem readMatcher_congr {front back : List Node} (hpattern : patternText? front = patternText? back)
    (htext : allText front = allText back) : readMatcher front = readMatcher back := by
  unfold patternText? at hpattern
  unfold allText at htext
  unfold readMatcher
  rw [htext]
  cases hfront : front.find? (Node.hasName "regex") with
  | none =>
    rw [hfront] at hpattern
    rw [Option.map_eq_none_iff.1 hpattern.symm]
  | some regex =>
    rw [hfront] at hpattern
    obtain ⟨other, hother, htext⟩ := Option.map_eq_some_iff.1 hpattern.symm
    rw [hother]
    dsimp only
    rw [htext]

/-! ## Filters without comments -/

theorem readFilters_cons_congr (node : Node) {front back : List Node}
    (h : readFilters front = readFilters back) :
    readFilters (node :: front) = readFilters (node :: back) := by
  rw [readFilters, readFilters, h]

theorem readFilters_aside {node : Node} (hnode : readFilter node = .ok none) (behind : List Node) :
    readFilters (node :: behind) = readFilters behind := by
  rw [readFilters, hnode]
  cases h : readFilters behind <;> rfl

/-- A filter is read from its name, its attributes and what is read inside of it. -/
theorem readFilter_bare {tag : String} {attributes : List (String × String)} {children : List Node}
    (hchildren : readFilters (bareAll isPattern [] children) = readFilters children) :
    readFilter (.element tag attributes
        (if isPattern tag then Node.beginning children else bareAll isPattern [] children)) =
      readFilter (.element tag attributes children) := by
  have hmatcher : readMatcher (bareAll isPattern [] children) = readMatcher children := by
    refine readMatcher_congr ?_ ?_
    · rw [patternText?_bareAll, List.append_nil]
    · rw [allText_bareAll, List.append_nil]
  by_cases htag : tag = "regex"
  · have hunknown : ∀ inside, readFilter (.element "regex" attributes inside) =
        .error (.unknownFilter "regex") := fun inside => by simp [readFilter, groupFilter?]
    rw [htag, hunknown, hunknown]
  · rw [if_neg (by simpa [isPattern] using htag)]
    unfold readFilter
    split
    · rw [hmatcher]
    · rw [hmatcher]
    · rfl
    · rfl
    · -- a group, or no filter at all, whatever is inside
      rw [hchildren]

mutual

/-- Comments do not change the filters that are read. -/
theorem readFilters_bare (behind : List Node) (node : Node) :
    readFilters (bare isPattern behind node) = readFilters (node :: behind) := by
  match node with
  | .text content =>
    have htext : ∀ (content : String) (rest : List Node),
        readFilters (.text content :: rest) = readFilters rest :=
      fun content rest => readFilters_aside (by rw [readFilter]) rest
    rw [htext, bare]
    cases behind with
    | nil => exact htext content []
    | cons first rest =>
      cases first with
      | text more => exact (htext (content ++ more) rest).trans (htext more rest).symm
      | _ => exact htext content _
  | .comment => rw [readFilters_aside (by rw [readFilter]), bare]
  | .instruction => rfl
  | .element tag attributes children =>
    have hchildren := readFilters_bareAll [] children
    rw [List.append_nil] at hchildren
    rw [bare, readFilters, readFilters, readFilter_bare hchildren]

theorem readFilters_bareAll (behind nodes : List Node) :
    readFilters (bareAll isPattern behind nodes) = readFilters (nodes ++ behind) := by
  match nodes with
  | [] => rfl
  | node :: rest =>
    rw [bareAll, readFilters_bare _ node, List.cons_append]
    exact readFilters_cons_congr node (readFilters_bareAll behind rest)

end

/-! ## Queries -/

/-- Alike elements, but those of a pattern, hold the same filters. -/
theorem readFilters_children {a b : Node} (h : Node.Alike isPattern a b)
    (hname : isPattern (a.name?.getD "") = false) :
    b.name? = a.name? ∧ readFilters b.children = readFilters a.children := by
  have hbare := h.bare_eq []
  have helement := h.isElement_eq
  cases a with
  | element tag attributes children =>
    cases b with
    | element tag' attributes' children' =>
      rw [bare, bare] at hbare
      obtain ⟨rfl, -, hinside⟩ := Node.element.inj (List.cons.inj hbare).1
      change isPattern tag' = false at hname
      rw [hname, if_neg Bool.false_ne_true, if_neg Bool.false_ne_true] at hinside
      refine ⟨rfl, ?_⟩
      have hread := congrArg readFilters hinside
      rwa [readFilters_bareAll, readFilters_bareAll, List.append_nil, List.append_nil] at hread
    | _ => simp [Node.isElement, Node.name?] at helement
  | _ => cases b <;> simp_all [Node.isElement, Node.name?, Node.children]

/-- Comments inside of the root of a query do not change the query, as long as none of them stands inside
or in front of the text that a pattern begins with. -/
theorem ofXml_of_comments {text commented : String}
    (h : Relation.ReflTransGen (Xml.AddsComment isPattern) text commented) {query : Query}
    (hquery : ofXml text = .ok query) : ofXml commented = .ok query := by
  rw [← hquery]
  unfold ofXml at hquery ⊢
  cases hparse : Xml.parse text with
  | none => simp [hparse] at hquery
  | some root =>
    obtain ⟨other, hother, halike⟩ := Xml.exists_alike_of_comments h hparse
    rw [hother]
    rw [hparse] at hquery
    dsimp only at hquery ⊢
    cases hkind : SearchKind.ofTag? (root.name?.getD "") with
    | none => simp [hkind] at hquery
    | some kind =>
      have hname : isPattern (root.name?.getD "") = false := by
        have htag : (kind.tag == root.name?.getD "") = true :=
          List.find?_some (p := fun kind : SearchKind => kind.tag == root.name?.getD "") hkind
        rw [← eq_of_beq htag]
        cases kind <;> rfl
      obtain ⟨htag, hfilters⟩ := readFilters_children halike hname
      rw [htag, hkind, hfilters]

/-- A comment in a literal name. -/
theorem ofXml_of_comments_literal :
    ∃ query, ofXml ("<methodref><name>get" ++ "Size</name></methodref>") = .ok query ∧
      ofXml ("<methodref><name>get" ++ ("<!--" ++ (" the " ++ "-->")) ++ "Size</name></methodref>") =
        .ok query := by
  have hadds : Xml.AddsComment isPattern ("<methodref><name>get" ++ "Size</name></methodref>")
      ("<methodref><name>get" ++ ("<!--" ++ (" the " ++ "-->")) ++ "Size</name></methodref>") := by
    refine Xml.AddsComment.of_place (by decide +kernel) ⟨?_, ?_⟩ (by decide)
    · exact fun hreturn => absurd hreturn (by decide)
    · exact fun hsemicolon => absurd hsemicolon (by decide)
  have hok : (ofXml ("<methodref><name>get" ++ "Size</name></methodref>")).isOk = true := by
    decide +kernel
  cases h : ofXml ("<methodref><name>get" ++ "Size</name></methodref>") with
  | error e =>
    rw [h] at hok
    simp [Except.isOk, Except.toBool] at hok
  | ok query => exact ⟨query, rfl, ofXml_of_comments (.single hadds) h⟩

/-- A comment in the text of a pattern cuts it off. -/
example : (ofXml "<methodref><name><regex>a<!-- -->b</regex></name></methodref>").map toXml =
    (ofXml "<methodref><name><regex>a</regex></name></methodref>").map toXml := by
  decide +kernel

end Query

end CodeAtlas
