/-
# Reading a query that was written

A query is written as the printed form of a tree of elements, with line breaks between them.  Reading
the text gives the query back, whatever names, patterns and counts it holds, as long as those can be
written at all.  A query that was read from a document without carriage returns can: its names are
trimmed, its patterns are not empty, and their characters are characters of a document.

The counts in a query are texts of their own: an operator with a decimal number of 64 bits behind it.
These are all the texts that are read, blanks at either end apart, so that an operator alone, a sign
in front of the digits and a number that is too large are refused.
-/
import CodeAtlas.Proofs.Xml.Printing
import CodeAtlas.Proofs.Xml.Reading
import CodeAtlas.Query.Xml
import Mathlib.Data.Nat.Digits.Defs

namespace CodeAtlas

open Xml (Node)

/-! ## Queries that can be written -/

/-- A pattern is compiled to the matcher that it holds. -/
theorem NameMatcher.ofRegex_pattern {pattern : NamePattern} (h : pattern.pattern ≠ "") :
    ofRegex pattern.pattern = .ok (.regex pattern) := by
  have hne : pattern.pattern.isEmpty = false := by simpa using h
  rw [ofRegex, hne]
  simp only [Bool.false_eq_true, if_false]
  split
  case h_1 matcher hmatcher =>
    obtain rfl : pattern.matcher = matcher := by
      simpa [pattern.compiled] using hmatcher
    rfl
  case h_2 hnone => exact absurd hnone (by simp [pattern.compiled])

/-- A text that can stand in a document. -/
def IsDocumentText (text : String) : Prop :=
  ∀ c ∈ text.toList, Xml.IsClean c

/-- A name that is read as it is written. -/
def NameMatcher.IsWritable : NameMatcher → Prop
  | literal name => Text.trim name = name ∧ Text.allBlank name = false ∧ IsDocumentText name
  | regex pattern => pattern.pattern ≠ "" ∧ IsDocumentText pattern.pattern

mutual

/-- A filter that is read as it is written. -/
def Filter.IsWritable : Filter → Prop
  | .name matcher => matcher.IsWritable
  | .className matcher => matcher.IsWritable
  | .hasParam count => count.count < Text.bound64
  | .isSupertype => True
  | .hasSupertype filters => filters ≠ [] ∧ Filter.AllWritable filters
  | .isInMethod filters => filters ≠ [] ∧ Filter.AllWritable filters
  | .not filters => filters ≠ [] ∧ Filter.AllWritable filters
  | .and filters => filters ≠ [] ∧ Filter.AllWritable filters

/-- Filters that are read as they are written. -/
def Filter.AllWritable : List Filter → Prop
  | [] => True
  | filter :: rest => filter.IsWritable ∧ Filter.AllWritable rest

end

/-- A query that is read as it is written. -/
def Query.IsWritable (query : Query) : Prop :=
  query.filters ≠ [] ∧ Filter.AllWritable query.filters

namespace Query

/-! ## The tree of a query -/

/-- A line break and the indentation of a depth, as a node. -/
def breakNode (depth : Nat) : Node :=
  .text (lineBreak depth)

/-- The element of a name. -/
def matcherNode (depth : Nat) (tag : String) : NameMatcher → Node
  | .literal name => .element tag [] [.text name]
  | .regex pattern => .element tag []
      [breakNode (depth + 1), .element "regex" [] [.text pattern.pattern], breakNode depth]

mutual

/-- The element of a filter. -/
def filterNode (depth : Nat) : Filter → Node
  | .name matcher => matcherNode depth "name" matcher
  | .className matcher => matcherNode depth "classname" matcher
  | .hasParam count => .element "hasparam" [("num", count.text)] []
  | .isSupertype => .element "issupertype" [] []
  | .hasSupertype filters => .element "hassupertype" [] (groupNodes depth filters)
  | .isInMethod filters => .element "isinmethod" [] (groupNodes depth filters)
  | .not filters => .element "not" [] (groupNodes depth filters)
  | .and filters => .element "and" [] (groupNodes depth filters)

/-- The elements of the filters in a group, each behind a line break, and the line break of the
group's end. -/
def groupNodes (depth : Nat) : List Filter → List Node
  | [] => [breakNode depth]
  | filter :: rest => breakNode (depth + 1) :: filterNode (depth + 1) filter :: groupNodes depth rest

end

/-- The element of a query. -/
def node (query : Query) : Node :=
  .element query.kind.tag [] (groupNodes 0 query.filters)

theorem lineBreak_succ (depth : Nat) : lineBreak (depth + 1) = lineBreak depth ++ "  " := by
  rw [lineBreak, lineBreak, List.replicate_succ', String.join_append]
  apply String.toList_inj.1
  simp

/-- A line break holds a line feed and spaces. -/
theorem mem_lineBreak {depth : Nat} {c : Char} (h : c ∈ (lineBreak depth).toList) :
    c = '\n' ∨ c = ' ' := by
  induction depth with
  | zero => simpa [lineBreak] using Or.inl h
  | succ depth ih =>
    rw [lineBreak_succ, String.toList_append, List.mem_append] at h
    rcases h with hbefore | hspace
    · exact ih hbefore
    · exact Or.inr (by simpa using hspace)

theorem isDocumentText_lineBreak (depth : Nat) : IsDocumentText (lineBreak depth) := by
  intro c hc
  rcases mem_lineBreak hc with rfl | rfl <;> exact ⟨by decide, by decide⟩

theorem print_breakNode (depth : Nat) : (breakNode depth).print = (lineBreak depth).toList := by
  rw [breakNode, Node.print]
  refine Xml.escaped_eq_self (fun c hc => ?_)
  rcases mem_lineBreak hc with rfl | rfl <;> decide

theorem toList_textElement (depth : Nat) (tag text : String) :
    (textElement depth tag text).toList =
      Node.printAll [breakNode depth, .element tag [] [.text text]] := by
  simp [textElement, Node.printAll, print_breakNode, Node.print, Xml.Reader.tagEnd, Xml.toList_escape]

theorem toList_wrapElement (depth : Nat) (tag inside : String) (children : List Node)
    (hne : children.isEmpty = false)
    (h : inside.toList ++ (lineBreak depth).toList = Node.printAll children) :
    (wrapElement depth tag inside).toList =
      Node.printAll [breakNode depth, .element tag [] children] := by
  simp [wrapElement, Node.printAll, print_breakNode, Node.print, Xml.Reader.tagEnd, hne, ← h]

theorem toList_writeMatcher (depth : Nat) (tag : String) (matcher : NameMatcher) :
    (writeMatcher depth tag matcher).toList =
      Node.printAll [breakNode depth, matcherNode depth tag matcher] := by
  cases matcher with
  | literal name => exact toList_textElement depth tag name
  | regex pattern =>
    refine toList_wrapElement depth tag _ _ rfl ?_
    rw [toList_textElement]
    simp [Node.printAll, print_breakNode]

theorem isEmpty_groupNodes (depth : Nat) (filters : List Filter) :
    (groupNodes depth filters).isEmpty = false := by
  cases filters <;> simp [groupNodes]

mutual

theorem toList_writeFilter (depth : Nat) (filter : Filter) :
    (writeFilter depth filter).toList = Node.printAll [breakNode depth, filterNode depth filter] := by
  cases filter with
  | name matcher => exact toList_writeMatcher depth "name" matcher
  | className matcher => exact toList_writeMatcher depth "classname" matcher
  | hasParam count =>
    simp [writeFilter, filterNode, Node.printAll, print_breakNode, Node.print, Xml.Reader.tagEnd,
      Xml.printAttribute, Xml.toList_escape]
  | isSupertype =>
    simp [writeFilter, filterNode, Node.printAll, print_breakNode, Node.print, Xml.Reader.tagEnd]
  | hasSupertype filters =>
    rw [writeFilter, filterNode]
    exact toList_wrapElement depth _ _ _ (isEmpty_groupNodes depth filters)
      (toList_writeFilters depth filters)
  | isInMethod filters =>
    rw [writeFilter, filterNode]
    exact toList_wrapElement depth _ _ _ (isEmpty_groupNodes depth filters)
      (toList_writeFilters depth filters)
  | not filters =>
    rw [writeFilter, filterNode]
    exact toList_wrapElement depth _ _ _ (isEmpty_groupNodes depth filters)
      (toList_writeFilters depth filters)
  | and filters =>
    rw [writeFilter, filterNode]
    exact toList_wrapElement depth _ _ _ (isEmpty_groupNodes depth filters)
      (toList_writeFilters depth filters)

theorem toList_writeFilters (depth : Nat) (filters : List Filter) :
    (writeFilters (depth + 1) filters).toList ++ (lineBreak depth).toList =
      Node.printAll (groupNodes depth filters) := by
  cases filters with
  | nil => simp [writeFilters, groupNodes, Node.printAll, print_breakNode]
  | cons filter rest =>
    rw [writeFilters, groupNodes, String.toList_append, toList_writeFilter, List.append_assoc,
      toList_writeFilters depth rest]
    simp [Node.printAll]

end

theorem toXml_eq_print (query : Query) : query.toXml = String.ofList query.node.print := by
  apply String.toList_inj.1
  rw [String.toList_ofList, node, Node.print, isEmpty_groupNodes, ← toList_writeFilters]
  simp [toXml, Xml.Reader.tagEnd]

/-! ## The tree can be printed -/

theorem printable_breakNode (depth : Nat) : (breakNode depth).Printable := by
  rw [breakNode, Node.Printable]
  refine ⟨fun hempty => ?_, isDocumentText_lineBreak depth⟩
  have hlist := congrArg String.toList hempty
  simp [lineBreak] at hlist

theorem printable_text {text : String} (hne : text ≠ "") (h : IsDocumentText text) :
    (Node.text text).Printable := by
  rw [Node.Printable]
  exact ⟨hne, h⟩

theorem ne_empty_of_not_allBlank {text : String} (h : Text.allBlank text = false) : text ≠ "" := by
  rintro rfl
  exact absurd h (by decide)

theorem isText_matcherNode (depth : Nat) (tag : String) (matcher : NameMatcher) :
    (matcherNode depth tag matcher).isText = false := by
  cases matcher <;> rfl

theorem isText_filterNode (depth : Nat) (filter : Filter) : (filterNode depth filter).isText = false := by
  cases filter with
  | name matcher => exact isText_matcherNode depth "name" matcher
  | className matcher => exact isText_matcherNode depth "classname" matcher
  | _ => rfl

theorem printable_matcherNode (depth : Nat) {tag : String} (htag : Xml.IsName tag)
    {matcher : NameMatcher} (h : matcher.IsWritable) : (matcherNode depth tag matcher).Printable := by
  cases matcher with
  | literal name =>
    have htext := printable_text (ne_empty_of_not_allBlank h.2.1) h.2.2
    simp [matcherNode, Node.Printable, Node.AllPrintable, htag] at htext ⊢
    exact htext
  | regex pattern =>
    have htext := printable_text h.1 h.2
    have hregex : (Node.element "regex" [] [.text pattern.pattern]).Printable := by
      rw [Node.Printable]
      exact ⟨by decide, by simp, by simp, htext, by simp, trivial⟩
    rw [matcherNode, Node.Printable]
    exact ⟨htag, by simp, by simp, printable_breakNode _, fun _ => rfl, hregex,
      fun htext => absurd htext (by simp [Node.isText]), printable_breakNode _, fun _ => rfl, trivial⟩

/-- The characters of a count. -/
theorem mem_countText {count : ParamCount} {c : Char} (h : c ∈ count.text.toList) :
    c = '=' ∨ c = '<' ∨ c = '>' ∨ c.isDigit = true := by
  rw [ParamCount.text, String.toList_append, List.mem_append] at h
  rcases h with hop | hdigit
  · cases hcase : count.op <;> simp [ParamCount.opText, hcase] at hop <;> grind
  · exact Or.inr (Or.inr (Or.inr (Text.isDigit_of_mem_showNat hdigit)))

theorem toNat_of_isDigit {c : Char} (h : c.isDigit = true) : 48 ≤ c.toNat ∧ c.toNat ≤ 57 := by
  simp only [Char.isDigit, Bool.and_eq_true, decide_eq_true_eq] at h
  exact ⟨h.1, h.2⟩

theorem isPlainAttribute_count (count : ParamCount) : Xml.IsPlainAttribute ("num", count.text) := by
  have hname : Xml.IsName "num" := by decide
  refine ⟨hname, by simp, fun c hc => ?_, fun c hc hspace => ?_⟩
  · rcases mem_countText hc with rfl | rfl | rfl | hdigit
    · decide
    · decide
    · decide
    · have hbounds := toNat_of_isDigit hdigit
      rw [Xml.isXmlChar, if_neg (by omega)]
      simp only [Bool.and_eq_true, bne_iff_ne]
      omega
  · rcases mem_countText hc with rfl | rfl | rfl | hdigit
    · exact absurd hspace (by decide)
    · exact absurd hspace (by decide)
    · exact absurd hspace (by decide)
    · simp only [Xml.isSpace, Bool.or_eq_true, beq_iff_eq, or_assoc] at hspace
      rcases hspace with rfl | rfl | rfl | rfl <;> exact absurd hdigit (by decide)

mutual

theorem printable_filterNode (depth : Nat) {filter : Filter} (h : filter.IsWritable) :
    (filterNode depth filter).Printable := by
  cases filter with
  | name matcher =>
    rw [Filter.IsWritable] at h
    exact printable_matcherNode depth (by decide) h
  | className matcher =>
    rw [Filter.IsWritable] at h
    exact printable_matcherNode depth (by decide) h
  | hasParam count =>
    rw [filterNode, Node.Printable]
    exact ⟨by decide, by simpa using isPlainAttribute_count count, by simp, trivial⟩
  | isSupertype =>
    rw [filterNode, Node.Printable]
    exact ⟨by decide, by simp, by simp, trivial⟩
  | hasSupertype filters =>
    rw [Filter.IsWritable] at h
    rw [filterNode, Node.Printable]
    exact ⟨by decide, by simp, by simp, printable_groupNodes depth h.2⟩
  | isInMethod filters =>
    rw [Filter.IsWritable] at h
    rw [filterNode, Node.Printable]
    exact ⟨by decide, by simp, by simp, printable_groupNodes depth h.2⟩
  | not filters =>
    rw [Filter.IsWritable] at h
    rw [filterNode, Node.Printable]
    exact ⟨by decide, by simp, by simp, printable_groupNodes depth h.2⟩
  | and filters =>
    rw [Filter.IsWritable] at h
    rw [filterNode, Node.Printable]
    exact ⟨by decide, by simp, by simp, printable_groupNodes depth h.2⟩

theorem printable_groupNodes (depth : Nat) {filters : List Filter} (h : Filter.AllWritable filters) :
    Node.AllPrintable (groupNodes depth filters) := by
  cases filters with
  | nil => exact ⟨printable_breakNode depth, fun _ => rfl, trivial⟩
  | cons filter rest =>
    rw [Filter.AllWritable] at h
    refine ⟨printable_breakNode _, fun _ => ?_, printable_filterNode _ h.1, fun htext => ?_,
      printable_groupNodes depth h.2⟩
    · simpa using isText_filterNode (depth + 1) filter
    · exact absurd htext (by simp [isText_filterNode])

end

/-! ## Reading the tree -/

theorem readMatcher_matcherNode (depth : Nat) (tag : String) {matcher : NameMatcher}
    (h : matcher.IsWritable) : readMatcher (matcherNode depth tag matcher).children = .ok matcher := by
  cases matcher with
  | literal name =>
    simp [matcherNode, Node.children, readMatcher, Node.hasName, Node.name?, Node.content?,
      h.1, NameMatcher.ofLiteral, h.2.1]
  | regex pattern =>
    have hread : readMatcher (matcherNode depth tag (.regex pattern)).children =
        NameMatcher.ofRegex pattern.pattern := by
      simp [matcherNode, Node.children, readMatcher, Node.hasName, Node.name?, breakNode,
        Node.text?, Node.content?]
    rw [hread, NameMatcher.ofRegex_pattern h.1]

theorem ofText?_text {count : ParamCount} (h : count.count < Text.bound64) :
    ParamCount.ofText? count.text = some count := by
  have htrim : Text.trimBlanks count.text.toList = count.text.toList := by
    refine Text.trimBlanks_of_all_not (fun c hc => ?_)
    rcases mem_countText hc with rfl | rfl | rfl | hdigit
    · decide
    · decide
    · decide
    · exact Text.isBlank_of_isDigit hdigit
  have hop : ParamCount.readOp? count.text.toList =
      some (count.op, (Text.showNat count.count).toList) := by
    rw [ParamCount.text, String.toList_append]
    cases count.op <;> rfl
  rw [ParamCount.ofText?, htrim, ParamCount.ofChars?, hop]
  simp only [Text.readDigits?_showNat h, Option.map_some]

theorem someFilters_of_ne_nil {tag : String} {filters : List Filter} (h : filters ≠ []) :
    someFilters tag filters = .ok filters := by
  rw [someFilters, if_neg (by simpa using h)]

/-- An element that holds filters is read from what stands inside. -/
theorem readFilter_group {tag : String} {group : List Filter → Filter} {children : List Node}
    {filters : List Filter} (hgroup : groupFilter? tag = some group)
    (hread : readFilters children = .ok filters) (hne : filters ≠ []) :
    readFilter (.element tag [] children) = .ok (some (group filters)) := by
  unfold groupFilter? at hgroup
  split at hgroup <;> cases hgroup <;>
    simp [readFilter, groupFilter?, hread, someFilters_of_ne_nil hne, bind, Except.bind, pure,
      Except.pure]

mutual

theorem readFilter_filterNode (depth : Nat) {filter : Filter} (h : filter.IsWritable) :
    readFilter (filterNode depth filter) = .ok (some filter) := by
  cases filter with
  | name matcher =>
    rw [Filter.IsWritable] at h
    have hread := readMatcher_matcherNode depth "name" h
    cases matcher <;> simp_all [filterNode, matcherNode, readFilter, Node.children] <;> rfl
  | className matcher =>
    rw [Filter.IsWritable] at h
    have hread := readMatcher_matcherNode depth "classname" h
    cases matcher <;> simp_all [filterNode, matcherNode, readFilter, Node.children] <;> rfl
  | hasParam count =>
    rw [Filter.IsWritable] at h
    simp [filterNode, readFilter, readCount, ofText?_text h]
    rfl
  | isSupertype => simp [filterNode, readFilter]
  | hasSupertype filters =>
    rw [Filter.IsWritable] at h
    exact readFilter_group rfl (readFilters_groupNodes depth h.2) h.1
  | isInMethod filters =>
    rw [Filter.IsWritable] at h
    exact readFilter_group rfl (readFilters_groupNodes depth h.2) h.1
  | not filters =>
    rw [Filter.IsWritable] at h
    exact readFilter_group rfl (readFilters_groupNodes depth h.2) h.1
  | and filters =>
    rw [Filter.IsWritable] at h
    exact readFilter_group rfl (readFilters_groupNodes depth h.2) h.1

theorem readFilters_groupNodes (depth : Nat) {filters : List Filter} (h : Filter.AllWritable filters) :
    readFilters (groupNodes depth filters) = .ok filters := by
  cases filters with
  | nil => simp [groupNodes, breakNode, readFilters, readFilter, bind, Except.bind, pure, Except.pure]
  | cons filter rest =>
    rw [Filter.AllWritable] at h
    have hfilter := readFilter_filterNode (depth + 1) h.1
    have hrest := readFilters_groupNodes depth h.2
    simp [groupNodes, breakNode, readFilters, readFilter, hfilter, hrest, bind, Except.bind, pure,
      Except.pure]

end

/-- A query that can be written is read as it is written. -/
theorem ofXml_toXml {query : Query} (h : query.IsWritable) : ofXml query.toXml = .ok query := by
  have hprintable : query.node.Printable := by
    rw [node, Node.Printable]
    exact ⟨by cases query.kind <;> decide, by simp, by simp, printable_groupNodes 0 h.2⟩
  have hparse : Xml.parse query.toXml = some query.node := by
    rw [toXml_eq_print]
    exact Xml.parse_print hprintable
  have hread : readFilters query.node.children = .ok query.filters := readFilters_groupNodes 0 h.2
  have hkind : SearchKind.ofTag? (query.node.name?.getD "") = some query.kind :=
    SearchKind.ofTag?_tag query.kind
  rw [ofXml, hparse]
  simp only [hkind, hread]
  simp [make, someFilters_of_ne_nil h.1, bind, Except.bind, Except.map]

/-! ## Queries that were read -/

theorem isDocumentText_join {texts : List String} (h : ∀ text ∈ texts, IsDocumentText text) :
    IsDocumentText (String.join texts) := by
  intro c hc
  rw [String.toList_join, List.mem_flatMap] at hc
  obtain ⟨text, htext, hmem⟩ := hc
  exact h text htext c hmem

theorem isDocumentText_content {node : Node} {content : String} (h : node.IsClean)
    (hcontent : node.content? = some content) : IsDocumentText content := by
  cases node <;> simp_all [Node.content?, Node.IsClean, IsDocumentText]

/-- A literal name that was read is trimmed, not blank and made of characters of the document. -/
theorem isWritable_ofLiteral {text : String} (htext : IsDocumentText text) {matcher : NameMatcher}
    (h : NameMatcher.ofLiteral (Text.trim text) = .ok matcher) : matcher.IsWritable := by
  rw [NameMatcher.ofLiteral] at h
  split at h
  · cases h
  case isFalse hblank =>
    cases h
    refine ⟨?_, by simpa using hblank, fun c hc => htext c ?_⟩
    · simp [Text.trim, Text.trimBlanks_trimBlanks]
    · rw [Text.trim, String.toList_ofList] at hc
      exact Text.mem_of_mem_trimBlanks hc

theorem isWritable_ofRegex {text : String} (htext : IsDocumentText text) {matcher : NameMatcher}
    (h : NameMatcher.ofRegex text = .ok matcher) : matcher.IsWritable := by
  rw [NameMatcher.ofRegex] at h
  split at h
  · cases h
  case isFalse hne =>
    split at h
    · cases h
      exact ⟨by simpa using hne, htext⟩
    · cases h

theorem isDocumentText_text? {node : Node} (h : node.IsClean) :
    IsDocumentText (node.text?.getD "") := by
  cases htext : node.text? with
  | none => simp [IsDocumentText]
  | some content =>
    rw [Node.text?, Option.bind_eq_some_iff] at htext
    obtain ⟨child, hhead, hcontent⟩ := htext
    cases node with
    | element name attributes children =>
      rw [Node.IsClean, Node.allClean_iff] at h
      exact isDocumentText_content (h child (List.mem_of_head? hhead)) hcontent
    | _ => simp [Node.children] at hhead

/-- A name that was read can be written. -/
theorem isWritable_of_readMatcher {children : List Node} (hclean : Node.AllClean children)
    {matcher : NameMatcher} (h : readMatcher children = .ok matcher) : matcher.IsWritable := by
  rw [Node.allClean_iff] at hclean
  rw [readMatcher] at h
  split at h
  case h_1 regex hfind =>
    exact isWritable_ofRegex (isDocumentText_text? (hclean regex (List.mem_of_find?_eq_some hfind))) h
  case h_2 =>
    refine isWritable_ofLiteral (isDocumentText_join (fun text htext => ?_)) h
    obtain ⟨child, hchild, hcontent⟩ := List.mem_filterMap.1 htext
    exact isDocumentText_content (hclean child hchild) hcontent

/-- A count that was read is a 64-bit number. -/
theorem count_lt_of_ofText? {text : String} {count : ParamCount}
    (h : ParamCount.ofText? text = some count) : count.count < Text.bound64 := by
  rw [ParamCount.ofText?, ParamCount.ofChars?] at h
  split at h
  · cases h
  case h_2 op digits _ =>
    obtain ⟨n, hn, rfl⟩ := Option.map_eq_some_iff.1 h
    exact Text.readDigits?_lt hn

theorem count_lt_of_readCount {num : Option String} {count : ParamCount}
    (h : readCount num = .ok count) : count.count < Text.bound64 := by
  unfold readCount at h
  split at h
  · cases h
  · split at h
    case h_1 hcount =>
      cases h
      exact count_lt_of_ofText? hcount
    case h_2 => cases h

theorem ne_nil_of_someFilters {tag : String} {filters some : List Filter}
    (h : someFilters tag filters = .ok some) : some ≠ [] ∧ some = filters := by
  rw [someFilters] at h
  split at h
  · cases h
  case isFalse hne =>
    cases h
    exact ⟨by simpa using hne, rfl⟩

/-- A group of filters can be written when the filters in it can. -/
theorem isWritable_group {tag : String} {group : List Filter → Filter} {filters : List Filter}
    (hgroup : groupFilter? tag = some group) (hne : filters ≠ [])
    (h : Filter.AllWritable filters) : (group filters).IsWritable := by
  unfold groupFilter? at hgroup
  split at hgroup <;> cases hgroup <;> exact ⟨hne, h⟩

theorem allWritable_append {front back : List Filter} (hfront : Filter.AllWritable front)
    (hback : Filter.AllWritable back) : Filter.AllWritable (front ++ back) := by
  induction front with
  | nil => exact hback
  | cons filter rest ih => exact ⟨hfront.1, ih hfront.2⟩

theorem ok_of_map {α β : Type} {result : Except QueryError α} {f : α → β} {value : β}
    (h : result.map f = .ok value) : ∃ a, result = .ok a ∧ f a = value := by
  cases result with
  | error e => cases h
  | ok a => exact ⟨a, rfl, by simpa [Except.map] using h⟩

theorem ok_of_bind {α β : Type} {result : Except QueryError α} {f : α → Except QueryError β} {value : β}
    (h : (result >>= f) = .ok value) : ∃ a, result = .ok a ∧ f a = .ok value := by
  cases result with
  | error e => cases h
  | ok a => exact ⟨a, rfl, h⟩

mutual

/-- A filter that was read can be written. -/
theorem isWritable_of_readFilter {node : Node} (hclean : node.IsClean) {filter : Filter}
    (h : readFilter node = .ok (some filter)) : filter.IsWritable := by
  cases node with
  | text content => simp [readFilter] at h
  | comment => simp [readFilter] at h
  | instruction => simp [readFilter] at h
  | element tag attributes children =>
    rw [Node.IsClean] at hclean
    unfold readFilter at h
    split at h
    · obtain ⟨matcher, hmatcher, hfilter⟩ := ok_of_map h
      cases hfilter
      exact isWritable_of_readMatcher hclean hmatcher
    · obtain ⟨matcher, hmatcher, hfilter⟩ := ok_of_map h
      cases hfilter
      exact isWritable_of_readMatcher hclean hmatcher
    · obtain ⟨count, hcount, hfilter⟩ := ok_of_map h
      cases hfilter
      exact count_lt_of_readCount hcount
    · cases h
      trivial
    · split at h
      · cases h
      case h_2 group hgroup =>
        obtain ⟨filters, hfilters, hrest⟩ := ok_of_bind h
        obtain ⟨kept, hkept, hfilter⟩ := ok_of_bind hrest
        obtain ⟨hne, rfl⟩ := ne_nil_of_someFilters hkept
        cases hfilter
        exact isWritable_group hgroup hne (allWritable_of_readFilters hclean hfilters)

theorem allWritable_of_readFilters {nodes : List Node} (hclean : Node.AllClean nodes)
    {filters : List Filter} (h : readFilters nodes = .ok filters) : Filter.AllWritable filters := by
  cases nodes with
  | nil =>
    rw [readFilters] at h
    cases h
    trivial
  | cons node rest =>
    rw [readFilters] at h
    obtain ⟨front, hfront, hrest⟩ := ok_of_bind h
    obtain ⟨back, hback, hfilters⟩ := ok_of_bind hrest
    cases hfilters
    rw [Node.AllClean] at hclean
    refine allWritable_append ?_ (allWritable_of_readFilters hclean.2 hback)
    cases front with
    | none => trivial
    | some filter => exact ⟨isWritable_of_readFilter hclean.1 hfront, trivial⟩

end

/-- A query that was read from a document without carriage returns can be written. -/
theorem isWritable_of_ofXml {text : String} (hreturns : Xml.WithoutReturns text) {query : Query}
    (h : ofXml text = .ok query) : query.IsWritable := by
  unfold ofXml at h
  split at h
  · cases h
  case h_2 root hparse =>
    have hclean := Xml.isClean_of_parse hreturns hparse
    dsimp only at h
    split at h
    · cases h
    case h_2 kind hkind =>
      obtain ⟨filters, hfilters, hmake⟩ := ok_of_bind h
      obtain ⟨kept, hkept, rfl⟩ := ok_of_map hmake
      obtain ⟨hne, rfl⟩ := ne_nil_of_someFilters hkept
      refine ⟨hne, allWritable_of_readFilters ?_ hfilters⟩
      cases root with
      | element name attributes children => exact hclean
      | _ => trivial

/-- Writing a query that was read from a document without carriage returns, and reading it again,
gives the query. -/
theorem ofXml_toXml_of_ofXml {text : String} (hreturns : Xml.WithoutReturns text) {query : Query}
    (h : ofXml text = .ok query) : ofXml query.toXml = .ok query :=
  ofXml_toXml (isWritable_of_ofXml hreturns h)

/-- A document with a pattern and a count in nested groups. -/
def nestedDocument : String :=
  "<methodref><not><hasparam num=' &lt;=2'/><and><name> <regex>get(.+)</regex></name></and></not>" ++
    "</methodref>"

theorem ofXml_toXml_nestedDocument :
    ∃ query, ofXml nestedDocument = .ok query ∧ ofXml query.toXml = .ok query := by
  have hreturns : Xml.WithoutReturns nestedDocument := by decide +kernel
  have hok : (ofXml nestedDocument).isOk = true := by decide +kernel
  cases h : ofXml nestedDocument with
  | error e => simp [h, Except.isOk, Except.toBool] at hok
  | ok query => exact ⟨query, rfl, ofXml_toXml_of_ofXml hreturns h⟩

end Query

/-! ## Decimal numbers in counts -/

namespace Text

/-- The value of a run of digits is that of the number they write, the last one counting ones. -/
theorem digitsValue_eq_ofDigits (digits : List Char) :
    digitsValue digits = Nat.ofDigits 10 (digits.reverse.map digitValue) := by
  unfold digitsValue
  rw [Nat.ofDigits_eq_foldr, List.foldr_map, List.foldr_reverse]
  congr 1
  funext n c
  simp only [Nat.cast_id]
  omega

/-- The runs of digits that are read as a number. -/
theorem readDigits?_eq_some_iff {bound n : Nat} {digits : List Char} :
    readDigits? bound digits = some n ↔ digits ≠ [] ∧ (∀ c ∈ digits, c.isDigit = true) ∧
      digitsValue digits = n ∧ n < bound := by
  unfold readDigits?
  constructor
  · intro h
    split at h
    · simp at h
    case isFalse hdigits =>
      rw [Bool.or_eq_true, not_or] at hdigits
      obtain ⟨hne, hall⟩ := hdigits
      dsimp only at h
      split at h
      case isTrue hless =>
        obtain rfl := Option.some.inj h
        exact ⟨by simpa using hne, by simpa using hall, rfl, hless⟩
      case isFalse => simp at h
  · rintro ⟨hne, hall, rfl, hless⟩
    have hdigits : (digits.isEmpty || !digits.all Char.isDigit) = false := by
      simpa [hne] using hall
    simp [hdigits, hless]

end Text

/-! ## Operators of counts -/

namespace ParamCount

/-- What begins with an operator is cut behind it. -/
theorem readOp?_eq_some_iff {text digits : List Char} {op : CountOp} :
    readOp? text = some (op, digits) ↔ text = (opText op).toList ++ digits := by
  constructor
  · intro h
    unfold readOp? at h
    split at h <;> cases h <;> rfl
  · rintro rfl
    cases op <;> rfl

/-! ## The language of counts -/

/-- The texts without blanks around them that are read as a constraint. -/
theorem ofChars?_eq_some_iff {text : List Char} {count : ParamCount} :
    ofChars? text = some count ↔ ∃ digits : List Char, text = (opText count.op).toList ++ digits ∧
      digits ≠ [] ∧ (∀ c ∈ digits, c.isDigit = true) ∧ Text.digitsValue digits = count.count ∧
      count.count < Text.bound64 := by
  unfold ofChars?
  constructor
  · intro h
    split at h
    · simp at h
    case h_2 op digits hop =>
      obtain ⟨n, hread, rfl⟩ := Option.map_eq_some_iff.1 h
      exact ⟨digits, readOp?_eq_some_iff.1 hop, Text.readDigits?_eq_some_iff.1 hread⟩
  · rintro ⟨digits, htext, hdigits⟩
    rw [readOp?_eq_some_iff.2 htext]
    simp [Text.readDigits?_eq_some_iff.2 hdigits]

/-- A constraint that was read is shown as a text that is read as the same constraint. -/
theorem ofText?_text_of_ofText? {text : String} {count : ParamCount} (h : ofText? text = some count) :
    ofText? count.text = some count :=
  Query.ofText?_text (Query.count_lt_of_ofText? h)

/-- A text is read as a constraint exactly if, trimmed, it is an operator with one or more digits behind
it whose decimal value is a 64-bit number; the constraint is made of the two.  A constraint that is
shown is read back exactly if its number is a 64-bit one, and what was read, shown and read again is
what was read. -/
theorem texts_read_as_counts (text : String) (count : ParamCount) :
    (ofText? text = some count ↔ ∃ digits : List Char,
      (Text.trim text).toList = (opText count.op).toList ++ digits ∧
      digits ≠ [] ∧ (∀ c ∈ digits, c.isDigit = true) ∧
      Nat.ofDigits 10 (digits.reverse.map (fun c => c.toNat - '0'.toNat)) = count.count ∧
      count.count < 2 ^ 64) ∧
    (ofText? count.text = some count ↔ count.count < 2 ^ 64) ∧
    (ofText? text).bind (fun count => ofText? count.text) = ofText? text := by
  refine ⟨?_, ⟨Query.count_lt_of_ofText?, Query.ofText?_text⟩, ?_⟩
  · rw [ofText?, ofChars?_eq_some_iff, Text.trim, String.toList_ofList]
    simp only [Text.digitsValue_eq_ofDigits]
    rfl
  · cases h : ofText? text with
    | none => rfl
    | some read => exact ofText?_text_of_ofText? h

end ParamCount

end CodeAtlas
