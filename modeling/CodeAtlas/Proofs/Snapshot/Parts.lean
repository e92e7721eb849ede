/-
# Parts of a snapshot

The lines of a snapshot are read back as they were written, whatever the number of parts they are
spread over: item lines, relation lines, and the parts that hold them.
-/
import CodeAtlas.Proofs.Text.Cuts
import CodeAtlas.Snapshot.Basic

namespace CodeAtlas

open Text

/-! ## Lines that can be read -/

/-- A line of a part: it holds no line break and something that is not blank. -/
structure Snapshot.IsPartLine (line : String) : Prop extends IsLine line where
  not_blank : allBlank line = false

theorem mem_intercalate {sep : Char} {words : List (List Char)} {c : Char}
    (h : c ∈ [sep].intercalate words) : c = sep ∨ ∃ word ∈ words, c ∈ word := by
  induction words with
  | nil => simp [List.intercalate] at h
  | cons first rest ih =>
    cases rest with
    | nil => exact Or.inr ⟨first, List.mem_cons_self, by simpa [List.intercalate] using h⟩
    | cons second rest =>
      have hjoined : [sep].intercalate (first :: second :: rest) =
          first ++ sep :: [sep].intercalate (second :: rest) := by
        simp [List.intercalate]
      rw [hjoined, List.mem_append, List.mem_cons] at h
      rcases h with hfirst | rfl | hrest
      · exact Or.inr ⟨first, List.mem_cons_self, hfirst⟩
      · exact Or.inl rfl
      · exact (ih hrest).imp_right fun ⟨word, hword, hc⟩ =>
          ⟨word, List.mem_cons_of_mem _ hword, hc⟩

/-- Words with blanks between them hold no line break. -/
theorem notMem_intercalate_words {words : List (List Char)} (h : ∀ word ∈ words, IsWord word)
    {c : Char} (hblank : isBlank c = true) (hc : c ≠ ' ') : c ∉ [' '].intercalate words := by
  intro hmem
  rcases mem_intercalate hmem with heq | ⟨word, hword, hin⟩
  · exact hc heq
  · exact absurd hblank (by rw [(h word hword).2 c hin]; simp)

/-! ## Relation lines -/

namespace Relation

/-- The words of a relation line. -/
def fields (relation : Relation) : List (List Char) :=
  [['r'], ['s'], (showWord32 relation.source).toList, ['t'], (showWord32 relation.target).toList,
    ['r'], relation.kind.text.toList]

theorem toList_line (relation : Relation) :
    relation.line.toList = [' '].intercalate relation.fields := by
  simp [line, fields, String.toList_append, List.intercalate]

theorem isWord_fields (relation : Relation) : ∀ word ∈ relation.fields, IsWord word := by
  have hword : ∀ word ∈ [['r'], ['s'], ['t']], IsWord word := by
    intro word hmem
    simp only [List.mem_cons, List.not_mem_nil, or_false] at hmem
    rcases hmem with rfl | rfl | rfl <;> exact isWord_of_all (by decide) (by decide)
  have hkind : IsWord relation.kind.text.toList := by
    cases relation.kind <;> exact isWord_of_all (by decide) (by decide)
  intro word hmem
  simp only [fields, List.mem_cons, List.not_mem_nil, or_false] at hmem
  rcases hmem with rfl | rfl | rfl | rfl | rfl | rfl | rfl
  · exact hword _ (by simp)
  · exact hword _ (by simp)
  · exact isWord_showNat _
  · exact hword _ (by simp)
  · exact isWord_showNat _
  · exact hword _ (by simp)
  · exact hkind

/-- A relation line that was written is read back. -/
theorem ofLine_line (relation : Relation) : ofLine relation.line = .ok relation := by
  have hwords : words relation.line = relation.fields.map String.ofList := by
    rw [words, toList_line, wordsOf_intercalate relation.isWord_fields]
  rw [ofLine, hwords]
  simp [fields, ofWords?, readWord32?_showWord32]

theorem isPartLine_line (relation : Relation) : Snapshot.IsPartLine relation.line where
  no_feed := by
    rw [toList_line]
    exact notMem_intercalate_words relation.isWord_fields (by decide) (by decide)
  no_return := by
    intro hlast
    have hmem := List.mem_of_getLast? hlast
    rw [toList_line] at hmem
    exact notMem_intercalate_words relation.isWord_fields (by decide) (by decide) hmem
  not_blank := by
    rw [allBlank, toList_line]
    simp [fields, List.intercalate, isBlank]

end Relation

/-! ## Item lines -/

namespace QuotedName

theorem mem_of_mem_encode {name : List Char} {c : Char} (h : c ∈ encode name) :
    c = '\\' ∨ c ∈ name := by
  induction name with
  | nil => simp [encode] at h
  | cons first rest ih =>
    rw [encode] at h
    split at h
    · rcases List.mem_cons.1 h with rfl | h
      · exact Or.inl rfl
      · rcases List.mem_cons.1 h with rfl | h
        · exact Or.inr List.mem_cons_self
        · exact (ih h).imp_right (List.mem_cons_of_mem _)
    · rcases List.mem_cons.1 h with rfl | h
      · exact Or.inr List.mem_cons_self
      · exact (ih h).imp_right (List.mem_cons_of_mem _)

end QuotedName

namespace ItemLine

/-- The words that follow the name in an item line. -/
def fields (line : ItemLine) : List (List Char) :=
  [['i', 'd'], (showWord32 line.raw).toList, ['t'], line.kind.text.toList] ++
    match line.flags with
    | some flags => [['f'], flags.toList]
    | none => []

theorem toList_text (line : ItemLine) :
    line.text.toList = "i n \"".toList ++ (QuotedName.encode line.name.toList ++
      '"' :: ' ' :: [' '].intercalate line.fields) := by
  cases hflags : line.flags <;>
    simp [text, fields, hflags, String.toList_append, List.intercalate]

/-- A line whose flags, if there are any, are one word. -/
def HasFlagWord (line : ItemLine) : Prop :=
  ∀ flags, line.flags = some flags → IsWord flags.toList

theorem isWord_fields {line : ItemLine} (h : line.HasFlagWord) :
    ∀ word ∈ line.fields, IsWord word := by
  have hkind : IsWord line.kind.text.toList := by
    cases line.kind <;> exact isWord_of_all (by decide) (by decide)
  intro word hmem
  rw [fields, List.mem_append] at hmem
  rcases hmem with hmem | hmem
  · simp only [List.mem_cons, List.not_mem_nil, or_false] at hmem
    rcases hmem with rfl | rfl | rfl | rfl
    · exact isWord_of_all (by decide) (by decide)
    · exact isWord_showNat _
    · exact isWord_of_all (by decide) (by decide)
    · exact hkind
  · cases hflags : line.flags with
    | none => simp [hflags] at hmem
    | some flags =>
      simp only [hflags, List.mem_cons, List.not_mem_nil, or_false] at hmem
      rcases hmem with rfl | rfl
      · exact isWord_of_all (by decide) (by decide)
      · exact h flags hflags

/-- An item line that was written is read back. -/
theorem ofText?_text {line : ItemLine} (h : line.HasFlagWord) : ofText? line.text = some line := by
  have hwords : words (String.ofList (' ' :: [' '].intercalate line.fields)) =
      line.fields.map String.ofList := by
    rw [words, String.toList_ofList, wordsOf_cons_blank _ (by decide),
      wordsOf_intercalate (isWord_fields h)]
  rw [ofText?, toList_text, afterLead?_append]
  simp only [QuotedName.decode_encode, String.ofList_toList, hwords]
  obtain ⟨name, raw, kind, flags⟩ := line
  cases flags <;> simp [fields, ofWords?, ofFields?, readWord32?_showWord32]

theorem isPartLine_text {line : ItemLine} (h : line.HasFlagWord) (hname : '\n' ∉ line.name.toList) :
    Snapshot.IsPartLine line.text := by
  have hfields : ∀ c, isBlank c = true → c ≠ ' ' → c ∉ [' '].intercalate line.fields :=
    fun c hblank hc => notMem_intercalate_words (isWord_fields h) hblank hc
  refine ⟨⟨?_, ?_⟩, ?_⟩
  · rw [toList_text]
    intro hmem
    rcases List.mem_append.1 hmem with hlead | hmem
    · exact absurd hlead (by decide)
    · rcases List.mem_append.1 hmem with hquoted | hmem
      · rcases QuotedName.mem_of_mem_encode hquoted with heq | hin
        · exact absurd heq (by decide)
        · exact hname hin
      · simp only [List.mem_cons] at hmem
        rcases hmem with heq | heq | hmem
        · exact absurd heq (by decide)
        · exact absurd heq (by decide)
        · exact hfields '\n' (by decide) (by decide) hmem
  · -- the last character belongs to the words behind the name
    rw [toList_text, ← List.append_assoc, List.getLast?_append_of_ne_nil _ (by simp)]
    intro hlast
    have hmem := List.mem_of_getLast? hlast
    simp only [List.mem_cons] at hmem
    rcases hmem with heq | heq | hmem
    · exact absurd heq (by decide)
    · exact absurd heq (by decide)
    · exact hfields '\r' (by decide) (by decide) hmem
  · rw [allBlank, toList_text]
    simp [isBlank]

/-! ## Flags -/

/-- The flags of an item that a snapshot keeps. -/
def keptFlags (item : Item) : List (AttrKey × String) :=
  snapshotFlags.filter (fun entry => item.attributes.flag entry.1)

theorem flags_ofItem (item : Item) : (ofItem item).flags =
    if (keptFlags item).isEmpty then none
    else some (",".intercalate ((keptFlags item).map Prod.snd)) := rfl

/-- Every flag is written as a word without commas, which stands for it alone. -/
theorem flagOfText?_of_mem {entry : AttrKey × String} (h : entry ∈ snapshotFlags) :
    flagOfText? entry.2 = some entry.1 ∧ IsWord entry.2.toList ∧ ',' ∉ entry.2.toList := by
  simp only [snapshotFlags, List.mem_cons, List.not_mem_nil, or_false] at h
  rcases h with rfl | rfl | rfl | rfl <;>
    exact ⟨by decide, isWord_of_all (by decide) (by decide), by decide⟩

theorem mem_snapshotFlags_of_mem {item : Item} {entry : AttrKey × String}
    (h : entry ∈ keptFlags item) : entry ∈ snapshotFlags :=
  (List.mem_filter.1 h).1

theorem hasFlagWord_ofItem (item : Item) : (ofItem item).HasFlagWord := by
  intro flags hflags
  rw [flags_ofItem] at hflags
  split at hflags
  · exact absurd hflags (by simp)
  · rename_i hne
    obtain rfl := Option.some.inj hflags
    rw [String.toList_intercalate]
    constructor
    · cases hkept : keptFlags item with
      | nil => simp [hkept] at hne
      | cons first rest =>
        have hfirst := flagOfText?_of_mem
          (mem_snapshotFlags_of_mem (hkept ▸ List.mem_cons_self : first ∈ keptFlags item))
        cases rest <;> simp [List.intercalate, hfirst.2.1.1]
    · intro c hc
      rcases mem_intercalate hc with rfl | ⟨word, hword, hin⟩
      · decide
      · obtain ⟨string, hstring, rfl⟩ := List.mem_map.1 hword
        obtain ⟨entry, hentry, rfl⟩ := List.mem_map.1 hstring
        exact (flagOfText?_of_mem (mem_snapshotFlags_of_mem hentry)).2.1.2 c hin

/-- The flags of an item are read back. -/
theorem flagKeys?_ofItem (item : Item) :
    flagKeys? (ofItem item).flags = some ((keptFlags item).map Prod.fst) := by
  have hread : ∀ entries : List (AttrKey × String), (∀ entry ∈ entries, entry ∈ snapshotFlags) →
      (entries.map Prod.snd).mapM flagOfText? = some (entries.map Prod.fst) := by
    intro entries
    induction entries with
    | nil => exact fun _ => rfl
    | cons first rest ih =>
      intro hall
      rw [List.map_cons, List.mapM_cons, (flagOfText?_of_mem (hall first List.mem_cons_self)).1,
        ih (fun entry hentry => hall entry (List.mem_cons_of_mem _ hentry))]
      rfl
  rw [flags_ofItem]
  split
  · rename_i hempty
    rw [List.isEmpty_iff.1 hempty]
    rfl
  · rename_i hne
    have hcomma : "," = String.singleton ',' := rfl
    rw [flagKeys?, hcomma, splitOn_intercalate, hread _ (fun _ => mem_snapshotFlags_of_mem)]
    · simpa using hne
    · intro word hword
      obtain ⟨entry, hentry, rfl⟩ := List.mem_map.1 hword
      exact (flagOfText?_of_mem (mem_snapshotFlags_of_mem hentry)).2.2

end ItemLine

/-! ## Parts -/

namespace Snapshot

theorem flatten_chunks {α : Type} (n : Nat) (list : List α) : (chunks n list).flatten = list := by
  fun_induction chunks n list with
  | case1 => rfl
  | case2 a rest ih => rw [List.flatten_cons, ih, List.cons_append, List.take_append_drop]

/-- The archive entry of a part. -/
def entryOf (part : SnapshotPart) : ArchiveEntry :=
  ⟨part.name, .text part.text⟩

/-- The name of a part tells where it starts. -/
theorem partStart?_name {start : Nat} (hstart : start < bound64) (stem : String) (stop : Nat) :
    partStart? stem (stem ++ showNat start ++ "-" ++ showNat stop ++ ".txt") = some start := by
  have hname : (stem ++ showNat start ++ "-" ++ showNat stop ++ ".txt").toList =
      stem.toList ++ ((showNat start).toList ++ '-' :: (showNat stop).toList ++ ".txt".toList) := by
    simp [String.toList_append]
  have hlead : stripLead? stem (stem ++ showNat start ++ "-" ++ showNat stop ++ ".txt") =
      some (String.ofList
        ((showNat start).toList ++ '-' :: (showNat stop).toList ++ ".txt".toList)) := by
    rw [stripLead?, hname, afterLead?_append]
    rfl
  have hdigit : ∀ c ∈ (showNat start).toList, (c == '-') = false := by
    intro c hc
    rw [beq_eq_false_iff_ne]
    rintro rfl
    exact absurd (isDigit_of_mem_showNat hc) (by decide)
  have hcut : cutFirst (· == '-') ((showNat start).toList ++ '-' :: (showNat stop).toList) =
      some ((showNat start).toList, (showNat stop).toList) :=
    cutFirst_append_cons hdigit (by decide) _
  rw [partStart?, hlead, Option.bind_some, stripTail?_append]
  simp only [splitOnce, String.toList_ofList, hcut, Option.map_some, String.ofList_toList,
    readWord64?_showNat hstart]

/-- A part that begins otherwise belongs to another sort. -/
theorem partStart?_eq_none {stem name : String} (h : stripLead? stem name = none) :
    partStart? stem name = none := by
  rw [partStart?, h]
  rfl

/-- The entry of a part with the start that its name tells. -/
def withStart? (stem : String) (entry : ArchiveEntry) : Option (Nat × ArchiveEntry) :=
  (partStart? stem entry.name).map (fun start => (start, entry))

/-- The parts of a sort that an archive holds, with their starts, in the order of the archive. -/
def found (stem : String) (archive : Archive) : List (Nat × ArchiveEntry) :=
  archive.filterMap (withStart? stem)

theorem partsOf_eq_sorted (stem : String) (archive : Archive) :
    partsOf stem archive = ((found stem archive).mergeSort readsBefore).map Prod.snd := rfl

/-- Parts that an archive holds in reading order are read as they stand. -/
theorem partsOf_eq_found {stem : String} {archive : Archive}
    (h : (found stem archive).Pairwise (fun a b => readsBefore a b = true)) :
    partsOf stem archive = (found stem archive).map Prod.snd := by
  rw [partsOf_eq_sorted, List.mergeSort_of_pairwise h]

/-- Parts of a sort are found where they start, one after the other. -/
theorem found_partsFrom (stem : String) {start : Nat} {lines : List String}
    (h : lines ≠ [] → start + lines.length ≤ bound64) {archive : Archive}
    (harchive : archive = (partsFrom stem start (chunks (batchSize - 1) lines)).map entryOf) :
    (found stem archive).map Prod.snd = archive ∧
      (found stem archive).Pairwise (fun a b => a.1 < b.1) ∧
      ∀ entry ∈ found stem archive, start ≤ entry.1 := by
  subst harchive
  generalize hsize : batchSize - 1 = size at h ⊢
  fun_induction chunks size lines generalizing start with
  | case1 => exact ⟨rfl, .nil, by simp [partsFrom, found]⟩
  | case2 line rest ih =>
    have hpos : 0 < batchSize := by decide
    have hbound := h (by simp)
    rw [List.length_cons] at hbound
    obtain ⟨hentries, hsorted, hlater⟩ := @ih (start + batchSize) (by
      intro hne
      rw [ne_eq, List.drop_eq_nil_iff] at hne
      rw [List.length_drop]
      omega)
    have hfirst : ∀ stop text, withStart? stem
        (entryOf ⟨stem ++ showNat start ++ "-" ++ showNat stop ++ ".txt", text⟩) =
          some (start, entryOf ⟨stem ++ showNat start ++ "-" ++ showNat stop ++ ".txt", text⟩) := by
      intro stop text
      rw [withStart?, entryOf, partStart?_name (by omega)]
      rfl
    rw [partsFrom, List.map_cons, found, List.filterMap_cons_some (hfirst _ _), ← found]
    refine ⟨by rw [List.map_cons, hentries], List.pairwise_cons.2 ⟨?_, hsorted⟩, ?_⟩
    · intro entry hentry
      have hle := hlater entry hentry
      show start < entry.1
      omega
    · intro entry hentry
      rcases List.mem_cons.1 hentry with rfl | hentry
      · exact Nat.le_refl start
      · exact Nat.le_trans (Nat.le_add_right _ _) (hlater entry hentry)

/-- No part of another sort is found. -/
theorem found_partsFrom_eq_nil {stem other : String}
    (hstem : ∀ rest, stripLead? stem (other ++ rest) = none) (start : Nat)
    (batches : List (List String)) :
    found stem ((partsFrom other start batches).map entryOf) = [] := by
  induction batches generalizing start with
  | nil => rfl
  | cons batch rest ih =>
    have hname : ∀ a b c d : String, stripLead? stem (other ++ a ++ b ++ c ++ d) = none := by
      intro a b c d
      rw [String.append_assoc, String.append_assoc, String.append_assoc]
      exact hstem _
    have hfirst : ∀ a b c d text, withStart? stem (entryOf ⟨other ++ a ++ b ++ c ++ d, text⟩) =
        none := by
      intro a b c d text
      rw [withStart?, entryOf, partStart?_eq_none (hname a b c d)]
      rfl
    rw [partsFrom, List.map_cons, found, List.filterMap_cons_none (hfirst _ _ _ _ _), ← found, ih]

/-- Parts of a sort are read in the order in which they were written, whatever else is there. -/
theorem partsOf_eq {stem : String} {lines : List String} (h : lines.length ≤ bound64)
    {archive before after : Archive}
    (harchive : archive = before ++ ((parts stem lines).map entryOf ++ after))
    (hbefore : found stem before = []) (hafter : found stem after = []) :
    partsOf stem archive = (parts stem lines).map entryOf := by
  obtain ⟨hentries, hsorted, _⟩ := @found_partsFrom stem 0 lines (fun _ => by omega) _ rfl
  have hall : found stem archive = found stem ((parts stem lines).map entryOf) := by
    rw [found] at hbefore hafter
    rw [harchive, found, List.filterMap_append, List.filterMap_append, hbefore, hafter,
      List.append_nil, List.nil_append, found]
  have horder : (found stem archive).Pairwise (fun a b => readsBefore a b = true) := by
    rw [hall]
    refine hsorted.imp (fun {a b} hlt => ?_)
    simp [readsBefore, hlt]
  rw [partsOf_eq_found horder, hall]
  exact hentries

/-- The lines that some lines are read as.  A line feed in a line cuts it, and blank lines are
skipped. -/
def readable (lines : List String) : List String :=
  (lines.flatMap rows).filter (fun line => !allBlank line)

theorem readable_append (lines others : List String) :
    readable (lines ++ others) = readable lines ++ readable others := by
  unfold readable
  rw [List.flatMap_append, List.filter_append]

/-- Lines without breaks are read as they stand. -/
theorem readable_eq_self {lines : List String} (h : ∀ line ∈ lines, IsPartLine line) :
    readable lines = lines := by
  induction lines with
  | nil => rfl
  | cons line rest ih =>
    have hline := h line List.mem_cons_self
    have hfirst : readable [line] = [line] := by
      simp [readable, rows_eq_singleton hline.toIsLine, hline.not_blank]
    rw [← List.singleton_append, readable_append, hfirst,
      ih (fun other hother => h other (List.mem_cons_of_mem _ hother))]

/-- Reading the parts of some lines is reading, one by one, what the lines are read as. -/
theorem foldlM_readPart {stem : String} {step : Index → String → Except SnapshotError Index}
    {start : Nat} (batches : List (List String)) (index : Index) :
    ((partsFrom stem start batches).map entryOf).foldlM (readPart step) index =
      (readable batches.flatten).foldlM step index := by
  induction batches generalizing start index with
  | nil => rfl
  | cons batch rest ih =>
    have hread : ∀ name, readPart step index
        (entryOf ⟨name, String.join (batch.map (fun line => line ++ "\n"))⟩) =
          (readable batch).foldlM step index := by
      intro name
      show ((Text.lines (String.join _)).filter _).foldlM step index = _
      rw [lines_join_eq]
      rfl
    rw [partsFrom, List.map_cons, List.foldlM_cons, hread, List.flatten_cons, readable_append,
      List.foldlM_append]
    exact bind_congr (fun after => ih after)

theorem stripLead?_eq_none_of_ne {l c : Char} (h : (l == c) = false) (lead rest : List Char)
    (s : String) (hs : s.toList = c :: rest) : stripLead? (String.ofList (l :: lead)) s = none := by
  rw [stripLead?, String.toList_ofList, hs, afterLead?, h]
  rfl

/-- Reading the parts of item lines and relation lines is reading what the item lines are read as and
then what the relation lines are read as. -/
theorem read_parts {items rels : List String} (hfew : items.length ≤ bound64)
    (hfewRels : rels.length ≤ bound64) (generation : Nat) :
    read generation ((parts "items" items ++ parts "rels" rels).map entryOf) = (do
      let index ← (readable items).foldlM ItemLine.insert (.empty generation)
      let index ← (readable rels).foldlM readRelation index
      return index.rebuildRegistry) := by
  have harchive : (parts "items" items ++ parts "rels" rels).map entryOf =
      (parts "items" items).map entryOf ++ (parts "rels" rels).map entryOf := List.map_append
  have hfirst : partsOf "items" ((parts "items" items ++ parts "rels" rels).map entryOf) =
      (parts "items" items).map entryOf := by
    refine @partsOf_eq "items" items hfew _ [] _ harchive rfl (found_partsFrom_eq_nil ?_ 0 _)
    intro rest
    exact stripLead?_eq_none_of_ne (l := 'i') (c := 'r') rfl "tems".toList _ _
      (by rw [String.toList_append]; rfl)
  have hsecond : partsOf "rels" ((parts "items" items ++ parts "rels" rels).map entryOf) =
      (parts "rels" rels).map entryOf := by
    refine @partsOf_eq "rels" rels hfewRels _ ((parts "items" items).map entryOf) []
      (by rw [harchive, List.append_nil]) (found_partsFrom_eq_nil ?_ 0 _) rfl
    intro rest
    exact stripLead?_eq_none_of_ne (l := 'r') (c := 'i') rfl "els".toList _ _
      (by rw [String.toList_append]; rfl)
  rw [read, hfirst, hsecond, parts, parts, foldlM_readPart, flatten_chunks]
  refine bind_congr (fun index => ?_)
  rw [foldlM_readPart, flatten_chunks]

end Snapshot

end CodeAtlas
