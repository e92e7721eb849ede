/-
# Names with line feeds

A snapshot keeps an item to a line.  The writer puts a backslash in front of the quotes and the
backslashes of a name, but leaves a line feed as it is, so the line of an item with a line feed in
its name is cut inside the quotes.  The reader finds no quote at the end of the first part and
refuses the snapshot.  Thus a snapshot that was written is read as the same index, or it is refused
for such a name; it is never read as something else.
-/
import CodeAtlas.Proofs.Load.Loaded
import CodeAtlas.Proofs.Snapshot.RoundTrip

namespace CodeAtlas

open Text

/-! ## Lines that are cut in the name -/

theorem Text.dropReturn_concat (line : List Char) : dropReturn (line ++ ['\r']) = line := by
  unfold dropReturn
  simp

namespace QuotedName

theorem encode_append (front back : List Char) :
    encode (front ++ back) = encode front ++ encode back := by
  induction front with
  | nil => rfl
  | cons c rest ih =>
    rw [List.cons_append, encode, encode, ih]
    split <;> rfl

/-- Without a quote behind it, a written name does not end. -/
theorem decode_encode_eq_none (name : List Char) : decode (encode name) = none := by
  induction name with
  | nil => rfl
  | cons c rest ih =>
    rw [encode]
    split
    · rw [decode.eq_3, ih]
      rfl
    · rename_i hplain
      obtain ⟨hb, hq⟩ : c ≠ '\\' ∧ c ≠ '"' := by simpa using hplain
      rw [decode.eq_5 c _ (fun heq _ => hb heq) (fun _ _ heq _ => hb heq) (fun heq => hq heq), ih]
      rfl

/-- The carriage return at the end of a name is that of what is written for the name. -/
theorem dropReturn_append_encode {lead : List Char} (hlead : lead.getLast? ≠ some '\r')
    (name : List Char) : dropReturn (lead ++ encode name) = lead ++ encode (dropReturn name) := by
  rcases List.eq_nil_or_concat name with rfl | ⟨front, c, rfl⟩
  · show dropReturn (lead ++ []) = lead ++ []
    rw [List.append_nil]
    exact dropReturn_eq_self hlead
  · rw [List.concat_eq_append, encode_append]
    by_cases hc : c = '\r'
    · subst hc
      rw [dropReturn_concat, ← List.append_assoc]
      exact dropReturn_concat _
    · -- What is written for a character ends in the character.
      have hlast : (encode [c]).getLast? = some c := by
        unfold encode
        split <;> rfl
      have hne : encode [c] ≠ [] := by
        intro hnil
        rw [hnil] at hlast
        exact absurd hlast (by simp)
      have hname : dropReturn (front ++ [c]) = front ++ [c] := by
        apply dropReturn_eq_self
        rw [List.getLast?_concat]
        simpa using hc
      rw [hname, encode_append]
      apply dropReturn_eq_self
      rw [← List.append_assoc, List.getLast?_append_of_ne_nil _ hne, hlast]
      simpa using hc

end QuotedName

namespace ItemLine

/-- The line that is read for an item whose name starts with `front` and a line feed. -/
def cutLine (front : List Char) : String :=
  String.ofList ("i n \"".toList ++ QuotedName.encode (dropReturn front))

theorem toList_cutLine (front : List Char) : (cutLine front).toList =
    "i n \"".toList ++ QuotedName.encode (dropReturn front) :=
  String.toList_ofList

/-- A line that is cut inside its name is no item line. -/
theorem ofText?_cutLine (front : List Char) : ofText? (cutLine front) = none := by
  rw [ofText?, toList_cutLine, afterLead?_append]
  simp only [QuotedName.decode_encode_eq_none]

theorem insert_cutLine (index : Index) (front : List Char) :
    insert index (cutLine front) = .error (.badItemLine (cutLine front)) := by
  unfold insert
  rw [ofText?_cutLine]

theorem not_allBlank_cutLine (front : List Char) : allBlank (cutLine front) = false := by
  rw [allBlank, toList_cutLine]
  rfl

/-- An item line is cut at the first line feed in its name. -/
theorem exists_rows_text {line : ItemLine} {front back : List Char}
    (hname : line.name.toList = front ++ '\n' :: back) (hfront : '\n' ∉ front) :
    ∃ rest, rows line.text = cutLine front :: rest := by
  have hplain : ∀ c ∈ "i n \"".toList ++ QuotedName.encode front, (c == '\n') = false := by
    intro c hc
    rw [beq_eq_false_iff_ne]
    rintro rfl
    rcases List.mem_append.1 hc with hlead | hquoted
    · exact absurd hlead (by decide)
    · rcases QuotedName.mem_of_mem_encode hquoted with heq | hin
      · exact absurd heq (by decide)
      · exact hfront hin
  have hcut : ∃ rest, line.text.toList =
      ("i n \"".toList ++ QuotedName.encode front) ++ '\n' :: rest := by
    refine ⟨QuotedName.encode back ++ '"' :: ' ' :: [' '].intercalate line.fields, ?_⟩
    rw [toList_text, hname, QuotedName.encode_append]
    simp [QuotedName.encode]
  obtain ⟨rest, hcut⟩ := hcut
  unfold rows
  rw [hcut, pieces_append_cons hplain (by decide), List.map_cons,
    QuotedName.dropReturn_append_encode (by decide)]
  exact ⟨_, rfl⟩

end ItemLine

/-! ## Snapshots of items with such names -/

namespace Snapshot

open Index

/-- The snapshot of an index is refused at the first name with a line feed. -/
theorem read_eq_error_of_cut {index : Index} (h : index.IsStacked)
    (hfew : index.relations.length ≤ bound64) {before after : List Item} {item : Item}
    (hitems : index.items = before ++ item :: after)
    (hbefore : ∀ earlier ∈ before, '\n' ∉ earlier.name.toList) {front back : List Char}
    (hname : item.name.toList = front ++ '\n' :: back) (hfront : '\n' ∉ front) (generation : Nat) :
    read generation ((parts "items" (index.items.map (fun item => (ItemLine.ofItem item).text)) ++
      parts "rels" (index.relations.map Relation.line)).map entryOf) =
        .error (.badItemLine (ItemLine.cutLine front)) := by
  have hfewItems : (index.items.map (fun item => (ItemLine.ofItem item).text)).length ≤ bound64 := by
    rw [List.length_map]
    exact length_items_le h
  rw [read_parts hfewItems (by rwa [List.length_map]), hitems, List.map_append, readable_append,
    List.foldlM_append]
  -- The items in front of the name are read, as their numbers differ.
  have hlines : ∀ line ∈ before.map (fun item => (ItemLine.ofItem item).text), IsPartLine line := by
    intro line hline
    obtain ⟨earlier, hearlier, rfl⟩ := List.mem_map.1 hline
    exact ItemLine.isPartLine_text (ItemLine.hasFlagWord_ofItem earlier) (hbefore earlier hearlier)
  have hraws : (before.map (fun item => item.id.raw)).Nodup := by
    have hall := nodup_raws h
    rw [hitems, List.map_append] at hall
    exact (List.nodup_append.1 hall).1
  obtain ⟨reached, hreached, -⟩ := exists_restored_items hraws generation
  rw [readable_eq_self hlines, hreached]
  -- The line of the name is cut, and its first part is refused.
  have hcut : ∃ rest, readable ((item :: after).map (fun item => (ItemLine.ofItem item).text)) =
      ItemLine.cutLine front :: rest := by
    obtain ⟨rest, hrows⟩ := @ItemLine.exists_rows_text (.ofItem item) front back hname hfront
    unfold readable
    rw [List.map_cons, List.flatMap_cons, hrows, List.cons_append,
      List.filter_cons_of_pos (by rw [ItemLine.not_allBlank_cutLine]; rfl)]
    exact ⟨_, rfl⟩
  obtain ⟨rest, hcut⟩ := hcut
  rw [hcut]
  show (List.foldlM ItemLine.insert reached (ItemLine.cutLine front :: rest) >>= _) = _
  rw [List.foldlM_cons, ItemLine.insert_cutLine]
  rfl

/-- An index that a load produced, or that was built by operations that record items of it, is
written without error.  What was written is read without error exactly if no name holds a line feed.
Whatever is read is the same index, and whatever is refused is a line that was cut in a name. -/
theorem read_write_iff {index : Index}
    (h : index.Loaded ∨ (index.ClosedReachable ∧ index.size < 2 ^ 32))
    (hfew : index.relations.length ≤ bound64) (generation : Nat) :
    ∃ parts, write index = .ok parts ∧
      ((∃ back, read generation (parts.map entryOf) = .ok back) ↔
        ∀ item ∈ index.items, '\n' ∉ item.name.toList) ∧
      (∀ back, read generation (parts.map entryOf) = .ok back → index.SameAs generation back) ∧
      ∀ error, read generation (parts.map entryOf) = .error error →
        ∃ item ∈ index.items, ∃ front back, item.name.toList = front ++ '\n' :: back ∧
          error = .badItemLine (ItemLine.cutLine front) := by
  have hsealed : index.Sealed := by
    rcases h with hloaded | ⟨hreachable, hroom⟩
    · exact hloaded.isOrderly.toSealed
    · exact hreachable.isSealed hroom
  have hstacked := hsealed.coherent.stacked
  have hwrite := write_eq hstacked
  refine ⟨_, hwrite, ?_⟩
  by_cases hnames : ∀ item ∈ index.items, '\n' ∉ item.name.toList
  · obtain ⟨parts, hparts, back, hread, hrestored⟩ :=
      exists_read_restored hsealed hnames hfew generation
    obtain rfl := Except.ok.inj (hwrite.symm.trans hparts)
    rw [hread]
    refine ⟨⟨fun _ => hnames, fun _ => ⟨_, rfl⟩⟩, ?_, ?_⟩
    · intro copy hcopy
      obtain rfl := Except.ok.inj hcopy
      exact hsealed.sameAs_restored hrestored
    · intro error herror
      exact absurd herror (by simp)
  · -- The first of the items with a line feed in its name is the one whose line is refused.
    obtain ⟨item, hfind⟩ : ∃ item, index.items.find? (fun item => '\n' ∈ item.name.toList) =
        some item := by
      rw [← Option.isSome_iff_exists, List.find?_isSome]
      simpa using hnames
    obtain ⟨hfeed, before, after, hitems, hbefore⟩ := List.find?_eq_some_iff_append.1 hfind
    obtain ⟨front, back, hname, hfront⟩ :=
      List.eq_append_cons_of_mem (by simpa using hfeed : '\n' ∈ item.name.toList)
    rw [read_eq_error_of_cut hstacked hfew hitems
      (fun earlier hearlier => by simpa using hbefore earlier hearlier) hname hfront generation]
    refine ⟨⟨?_, fun hall => absurd hall hnames⟩, ?_, ?_⟩
    · rintro ⟨copy, hcopy⟩
      exact absurd hcopy (by simp)
    · intro copy hcopy
      exact absurd hcopy (by simp)
    · intro error herror
      refine ⟨item, List.mem_of_find?_eq_some hfind, front, back, hname, ?_⟩
      exact (Except.error.inj herror).symm

/-- A project with a line feed in its name. -/
def brokenName : Index :=
  ((Operation.project "a\nb").run (empty 1)).2

theorem closedReachable_brokenName : brokenName.ClosedReachable :=
  ⟨1, Relation.ReflTransGen.refl.tail (.operation (by decide +kernel))⟩

/-- The snapshot of the project is written and refused. -/
theorem read_write_brokenName :
    ∃ parts, write brokenName = .ok parts ∧ ∃ error, read 2 (parts.map entryOf) = .error error := by
  obtain ⟨parts, hwrite, hread, -, -⟩ := read_write_iff
    (.inr ⟨closedReachable_brokenName, by decide +kernel⟩) (by decide +kernel) 2
  refine ⟨parts, hwrite, ?_⟩
  cases hback : read 2 (parts.map entryOf) with
  | ok back => exact absurd (hread.1 ⟨back, hback⟩) (by decide +kernel)
  | error error => exact ⟨error, rfl⟩

end Snapshot

end CodeAtlas
