/-
# Reading what was put together

Texts that are put together from pieces are taken apart into the same pieces: decimal numbers, words
between blanks, pieces between separators, and lines.
-/
import CodeAtlas.Text.Blank
import CodeAtlas.Text.Decimal
import CodeAtlas.Text.Split
import Mathlib.Data.List.DropRight

namespace CodeAtlas.Text

/-! ## Decimal numbers -/

theorem digitsValue_toDigits (n : Nat) : digitsValue (Nat.toDigits 10 n) = n :=
  Nat.ofDigitChars_toDigits (by decide) (by decide)

theorem isDigit_of_mem_showNat {n : Nat} {c : Char} (h : c ∈ (showNat n).toList) :
    c.isDigit = true := by
  rw [showNat, String.toList_ofList] at h
  exact Nat.isDigit_of_mem_toDigits (by decide) (by decide) h

theorem toList_showNat_ne_nil (n : Nat) : (showNat n).toList ≠ [] := by
  rw [showNat, String.toList_ofList]
  exact Nat.toDigits_ne_nil

theorem readDigits?_showNat {bound n : Nat} (h : n < bound) :
    readDigits? bound (showNat n).toList = some n := by
  have hall : (showNat n).toList.all Char.isDigit = true :=
    List.all_eq_true.2 (fun _ => isDigit_of_mem_showNat)
  have hsome : (showNat n).toList.isEmpty = false := by
    rw [List.isEmpty_eq_false_iff]
    exact toList_showNat_ne_nil n
  rw [readDigits?, hall, hsome, showNat, String.toList_ofList, digitsValue_toDigits]
  simp [h]

/-- A number that was written is read back if it lies below the bound. -/
theorem readNatBelow?_showNat {bound n : Nat} (h : n < bound) :
    readNatBelow? bound (showNat n) = some n := by
  rw [readNatBelow?]
  split
  · rename_i digits hplus
    have hsign := isDigit_of_mem_showNat (hplus ▸ List.mem_cons_self : '+' ∈ (showNat n).toList)
    exact absurd hsign (by decide)
  · exact readDigits?_showNat h

theorem readDigits?_lt {bound n : Nat} {digits : List Char} (h : readDigits? bound digits = some n) :
    n < bound := by
  rw [readDigits?] at h
  split at h
  · simp at h
  · dsimp only at h
    split at h
    · rename_i hless
      exact Option.some.inj h ▸ hless
    · simp at h

theorem readWord32?_showWord32 (word : UInt32) : readWord32? (showWord32 word) = some word := by
  have hbound : word.toNat < bound32 := word.toNat_lt
  rw [readWord32?, showWord32, readNatBelow?_showNat hbound, Option.map_some]
  simp

theorem readWord64?_showNat {n : Nat} (h : n < bound64) : readWord64? (showNat n) = some n :=
  readNatBelow?_showNat h

/-- A digit is neither blank nor any sign. -/
theorem isBlank_of_isDigit {c : Char} (h : c.isDigit = true) : isBlank c = false := by
  simp only [Char.isDigit, Bool.and_eq_true, decide_eq_true_eq] at h
  have hle : 48 ≤ c.toNat := h.1
  have hge : c.toNat ≤ 57 := h.2
  simp only [isBlank, Bool.or_eq_false_iff, Bool.and_eq_false_iff, decide_eq_false_iff_not,
    beq_eq_false_iff_ne]
  omega

/-! ## Trimming -/

theorem dropWhile_of_all_not {p : Char → Bool} {s : List Char} (h : ∀ c ∈ s, p c = false) :
    s.dropWhile p = s := by
  cases s with
  | nil => rfl
  | cons c rest => rw [List.dropWhile_cons_of_neg (by simp [h c List.mem_cons_self])]

/-- A text without blanks is trimmed. -/
theorem trimBlanks_of_all_not {s : List Char} (h : ∀ c ∈ s, isBlank c = false) : trimBlanks s = s := by
  rw [trimBlanks, trimFront, dropWhile_of_all_not h, trimBack,
    dropWhile_of_all_not (fun c hc => h c (List.mem_reverse.1 hc)), List.reverse_reverse]

theorem trimBack_cons {c : Char} (rest : List Char) (hc : isBlank c = false) :
    trimBack (c :: rest) = c :: trimBack rest := by
  rw [trimBack, trimBack, List.reverse_cons, List.dropWhile_append]
  split
  · rename_i hempty
    rw [List.isEmpty_iff.1 hempty]
    simp [hc]
  · simp

theorem trimBack_trimBack (s : List Char) : trimBack (trimBack s) = trimBack s := by
  rw [trimBack, trimBack, List.reverse_reverse, List.dropWhile_idempotent]

/-- Trimming twice is trimming once. -/
theorem trimBlanks_trimBlanks (s : List Char) : trimBlanks (trimBlanks s) = trimBlanks s := by
  rw [trimBlanks, trimBlanks]
  cases hfront : trimFront s with
  | nil => rfl
  | cons c rest =>
    have hc : isBlank c = false := by
      have hhead := List.head?_dropWhile_not isBlank s
      rw [← trimFront, hfront] at hhead
      simpa using hhead
    rw [trimBack_cons rest hc, trimFront, List.dropWhile_cons_of_neg (by simp [hc]),
      trimBack_cons _ hc, trimBack_trimBack]

theorem mem_of_mem_trimBlanks {s : List Char} {c : Char} (h : c ∈ trimBlanks s) : c ∈ s := by
  rw [trimBlanks, trimBack, List.mem_reverse] at h
  have hfront := List.mem_reverse.1 ((List.dropWhile_sublist isBlank).mem h)
  exact (List.dropWhile_sublist isBlank).mem hfront

/-! ## Words -/

/-- A text that is one word. -/
def IsWord (word : List Char) : Prop :=
  word ≠ [] ∧ ∀ c ∈ word, isBlank c = false

theorem isWord_of_all {word : List Char} (hne : word ≠ [])
    (h : word.all (fun c => !isBlank c) = true) : IsWord word :=
  ⟨hne, fun c hc => by simpa using List.all_eq_true.1 h c hc⟩

theorem isWord_showNat (n : Nat) : IsWord (showNat n).toList :=
  ⟨toList_showNat_ne_nil n, fun _ hc => isBlank_of_isDigit (isDigit_of_mem_showNat hc)⟩

/-- Reading from the right, a run without blanks is put in front of what is being read. -/
theorem foldr_wordStep {word : List Char} (h : ∀ c ∈ word, isBlank c = false)
    (state : List Char × List (List Char)) :
    word.foldr wordStep state = (word ++ state.1, state.2) := by
  induction word with
  | nil => rfl
  | cons c rest ih =>
    rw [List.foldr_cons, ih (fun d hd => h d (List.mem_cons_of_mem _ hd)), wordStep,
      h c List.mem_cons_self]
    rfl

theorem wordsOf_word {word : List Char} (h : IsWord word) : wordsOf word = [word] := by
  rw [wordsOf, foldr_wordStep h.2, List.append_nil, consRun, if_neg]
  simpa using h.1

theorem wordsOf_append_blank {word : List Char} (h : IsWord word) {c : Char}
    (hc : isBlank c = true) (rest : List Char) :
    wordsOf (word ++ c :: rest) = word :: wordsOf rest := by
  rw [wordsOf, List.foldr_append, foldr_wordStep h.2, List.foldr_cons, wordStep, if_pos hc,
    List.append_nil, consRun, if_neg]
  · rfl
  · simpa using h.1

/-- Words with a blank between each two are read back. -/
theorem wordsOf_intercalate {words : List (List Char)} (h : ∀ word ∈ words, IsWord word) :
    wordsOf ([' '].intercalate words) = words := by
  induction words with
  | nil => rfl
  | cons first rest ih =>
    have hfirst := h first List.mem_cons_self
    have hrest := ih (fun word hword => h word (List.mem_cons_of_mem _ hword))
    cases rest with
    | nil =>
      rw [show [' '].intercalate [first] = first by simp [List.intercalate]]
      exact wordsOf_word hfirst
    | cons second rest =>
      have hjoined : [' '].intercalate (first :: second :: rest) =
          first ++ ' ' :: [' '].intercalate (second :: rest) := by
        simp [List.intercalate]
      rw [hjoined, wordsOf_append_blank hfirst (by decide), hrest]

/-! ## Pieces -/

theorem foldr_pieceStep {p : Char → Bool} {piece : List Char} (h : ∀ c ∈ piece, p c = false)
    (state : List Char × List (List Char)) :
    piece.foldr (pieceStep p) state = (piece ++ state.1, state.2) := by
  induction piece with
  | nil => rfl
  | cons c rest ih =>
    rw [List.foldr_cons, ih (fun d hd => h d (List.mem_cons_of_mem _ hd)), pieceStep,
      h c List.mem_cons_self]
    rfl

theorem pieces_eq_singleton {p : Char → Bool} {piece : List Char} (h : ∀ c ∈ piece, p c = false) :
    pieces p piece = [piece] := by
  rw [pieces, foldr_pieceStep h, List.append_nil]

theorem pieces_append_cons {p : Char → Bool} {piece : List Char} (h : ∀ c ∈ piece, p c = false)
    {c : Char} (hc : p c = true) (rest : List Char) :
    pieces p (piece ++ c :: rest) = piece :: pieces p rest := by
  rw [pieces, List.foldr_append, foldr_pieceStep h, List.foldr_cons, pieceStep, if_pos hc,
    List.append_nil]
  rfl

/-- A cut between two texts cuts them apart. -/
theorem pieces_append {p : Char → Bool} {c : Char} (hc : p c = true) (front back : List Char) :
    pieces p (front ++ c :: back) = pieces p front ++ pieces p back := by
  have hstate : ∀ (front : List Char) (closed : List (List Char)),
      front.foldr (pieceStep p) ([], closed) = ((front.foldr (pieceStep p) ([], [])).1,
        (front.foldr (pieceStep p) ([], [])).2 ++ closed) := by
    intro front closed
    induction front with
    | nil => rfl
    | cons first rest ih =>
      rw [List.foldr_cons, List.foldr_cons, ih, pieceStep, pieceStep]
      split <;> rfl
  rw [pieces, List.foldr_append, List.foldr_cons, pieceStep, if_pos hc, hstate]
  rfl

/-- A separator between two strings cuts them apart. -/
theorem splitOn_append (sep : Char) (front back : String) :
    splitOn sep (front ++ String.singleton sep ++ back) = splitOn sep front ++ splitOn sep back := by
  have hlist : (front ++ String.singleton sep ++ back).toList =
      front.toList ++ sep :: back.toList := by
    simp
  rw [splitOn, hlist, pieces_append (p := (· == sep)) (beq_self_eq_true sep), List.map_append]
  rfl

/-- No piece holds a character at which the text is cut. -/
theorem not_of_mem_pieces {p : Char → Bool} {s piece : List Char} (h : piece ∈ pieces p s) {c : Char}
    (hc : c ∈ piece) : p c = false := by
  have hstate : ∀ s : List Char, (∀ c ∈ (s.foldr (pieceStep p) ([], [])).1, p c = false) ∧
      ∀ piece ∈ (s.foldr (pieceStep p) ([], [])).2, ∀ c ∈ piece, p c = false := by
    intro s
    induction s with
    | nil => simp
    | cons first rest ih =>
      obtain ⟨hopen, hclosed⟩ := ih
      rw [List.foldr_cons, pieceStep]
      split
      · exact ⟨by simp, List.forall_mem_cons.2 ⟨hopen, hclosed⟩⟩
      · rename_i hfirst
        exact ⟨List.forall_mem_cons.2 ⟨by simpa using hfirst, hopen⟩, hclosed⟩
  rcases List.mem_cons.1 h with rfl | hin
  · exact (hstate s).1 c hc
  · exact (hstate s).2 piece hin c hc

/-- Pieces with a separator between each two are read back. -/
theorem splitOn_intercalate {sep : Char} {words : List String} (hne : words ≠ [])
    (h : ∀ word ∈ words, sep ∉ word.toList) :
    splitOn sep ((String.singleton sep).intercalate words) = words := by
  have hpieces : ∀ words : List (List Char), words ≠ [] → (∀ word ∈ words, sep ∉ word) →
      pieces (· == sep) ([sep].intercalate words) = words := by
    intro words
    induction words with
    | nil => exact fun hne _ => absurd rfl hne
    | cons first rest ih =>
      intro _ h
      have hfirst : ∀ c ∈ first, (c == sep) = false := fun c hc =>
        beq_eq_false_iff_ne.2 (fun heq => h first List.mem_cons_self (heq ▸ hc))
      cases rest with
      | nil =>
        rw [show [sep].intercalate [first] = first by simp [List.intercalate]]
        exact pieces_eq_singleton hfirst
      | cons second rest =>
        have hjoined : [sep].intercalate (first :: second :: rest) =
            first ++ sep :: [sep].intercalate (second :: rest) := by
          simp [List.intercalate]
        rw [hjoined, pieces_append_cons hfirst (by simp),
          ih (by simp) (fun word hword => h word (List.mem_cons_of_mem _ hword))]
  rw [splitOn, String.toList_intercalate, String.toList_singleton, hpieces]
  · rw [List.map_map]
    simp
  · simpa using hne
  · intro word hword
    obtain ⟨string, hstring, rfl⟩ := List.mem_map.1 hword
    exact h string hstring

/-- The pieces of a text with a dot in front of each but the first are the text. -/
theorem foldl_splitOn (s : String) :
    ∃ first rest, splitOn '.' s = first :: rest ∧
      rest.foldl (fun outer simple => outer ++ "." ++ simple) first = s := by
  have hpieces : ∀ text : List Char,
      (text.foldr (pieceStep (· == '.')) ([], [])).1 ++
        (text.foldr (pieceStep (· == '.')) ([], [])).2.flatMap ('.' :: ·) = text := by
    intro text
    -- The induction is on the text, as the scan runs: a dot closes the piece that is being read.
    induction text with
    | nil => rfl
    | cons c text ih =>
      rw [List.foldr_cons]
      unfold pieceStep
      split
      · rename_i hdot
        rw [List.flatMap_cons, List.nil_append, beq_iff_eq.1 hdot]
        exact congrArg ('.' :: ·) ih
      · exact congrArg (c :: ·) ih
  have hjoined : ∀ (rest : List (List Char)) (first : String),
      ((rest.map String.ofList).foldl (fun outer simple => outer ++ "." ++ simple) first).toList =
        first.toList ++ rest.flatMap ('.' :: ·) := by
    intro rest
    induction rest with
    | nil => intro first; simp
    | cons piece rest ih =>
      intro first
      rw [List.map_cons, List.foldl_cons, ih, List.flatMap_cons]
      simp [String.toList_append]
  refine ⟨_, _, rfl, String.toList_inj.1 ?_⟩
  rw [hjoined, String.toList_ofList]
  exact hpieces s.toList

/-- The part before the first separator. -/
theorem cutFirst_append_cons {p : Char → Bool} {piece : List Char} (h : ∀ c ∈ piece, p c = false)
    {c : Char} (hc : p c = true) (rest : List Char) :
    cutFirst p (piece ++ c :: rest) = some (piece, rest) := by
  induction piece with
  | nil => simp [cutFirst, hc]
  | cons first piece ih =>
    rw [List.cons_append, cutFirst, h first List.mem_cons_self,
      ih (fun d hd => h d (List.mem_cons_of_mem _ hd))]
    rfl

theorem exists_of_cutFirst {p : Char → Bool} {s piece rest : List Char}
    (h : cutFirst p s = some (piece, rest)) :
    ∃ c, p c = true ∧ s = piece ++ c :: rest ∧ ∀ d ∈ piece, p d = false := by
  induction s generalizing piece with
  | nil => simp [cutFirst] at h
  | cons first s ih =>
    rw [cutFirst] at h
    split at h
    · rename_i hfirst
      obtain ⟨rfl, rfl⟩ := Prod.mk.inj (Option.some.inj h)
      exact ⟨first, hfirst, rfl, by simp⟩
    · rename_i hfirst
      obtain ⟨cut, hcut, heq⟩ := Option.map_eq_some_iff.1 h
      obtain ⟨rfl, rfl⟩ := Prod.mk.inj heq
      obtain ⟨c, hc, rfl, hpiece⟩ := ih hcut
      exact ⟨c, hc, rfl, List.forall_mem_cons.2 ⟨by simpa using hfirst, hpiece⟩⟩

theorem not_of_cutFirst_eq_none {p : Char → Bool} {s : List Char} (h : cutFirst p s = none) :
    ∀ c ∈ s, p c = false := by
  induction s with
  | nil => simp
  | cons first s ih =>
    rw [cutFirst] at h
    split at h
    · simp at h
    · rename_i hfirst
      exact List.forall_mem_cons.2 ⟨by simpa using hfirst, ih (Option.map_eq_none_iff.1 h)⟩

/-- A cut at the first separator. -/
theorem exists_of_splitOnce {sep : Char} {s head rest : String}
    (h : splitOnce sep s = some (head, rest)) :
    s.toList = head.toList ++ sep :: rest.toList ∧ sep ∉ head.toList := by
  obtain ⟨cut, hcut, heq⟩ := Option.map_eq_some_iff.1 h
  obtain ⟨rfl, rfl⟩ := Prod.mk.inj heq
  obtain ⟨c, hc, hs, hhead⟩ := exists_of_cutFirst hcut
  obtain rfl := beq_iff_eq.1 hc
  rw [String.toList_ofList, String.toList_ofList]
  exact ⟨hs, fun hin => absurd (hhead _ hin) (by simp)⟩

theorem notMem_of_splitOnce_eq_none {sep : Char} {s : String} (h : splitOnce sep s = none) :
    sep ∉ s.toList :=
  fun hin => absurd (not_of_cutFirst_eq_none (Option.map_eq_none_iff.1 h) sep hin) (by simp)

/-- The last piece is the whole text, or it follows the last separator. -/
theorem lastPiece_cases (sep : Char) (s : String) :
    sep ∉ (lastPiece sep s).toList ∧
      (lastPiece sep s = s ∨ ∃ front, s.toList = front ++ sep :: (lastPiece sep s).toList) := by
  rw [lastPiece, splitLast, cutLast]
  cases hcut : cutFirst (· == sep) s.toList.reverse with
  | none =>
    refine ⟨fun hin => ?_, Or.inl rfl⟩
    exact absurd (not_of_cutFirst_eq_none hcut sep (List.mem_reverse.2 hin)) (by simp)
  | some cut =>
    obtain ⟨last, front⟩ := cut
    obtain ⟨c, hc, hs, hlast⟩ := exists_of_cutFirst hcut
    obtain rfl := beq_iff_eq.1 hc
    simp only [Option.map_some, String.toList_ofList]
    refine ⟨fun hin => absurd (hlast _ (List.mem_reverse.1 hin)) (by simp), Or.inr ⟨front.reverse, ?_⟩⟩
    rw [← List.reverse_reverse s.toList, hs]
    simp

theorem lastPiece_eq_self {sep : Char} {s : String} (h : sep ∉ s.toList) : lastPiece sep s = s := by
  rcases (lastPiece_cases sep s).2 with heq | ⟨front, hs⟩
  · exact heq
  · exact absurd (by rw [hs]; simp) h

/-- What precedes a separator does not matter. -/
theorem lastPiece_of_toList_eq {sep : Char} {s back : String} {front : List Char}
    (h : s.toList = front ++ sep :: back.toList) : lastPiece sep s = lastPiece sep back := by
  have hcompute : ∀ {front : List Char} {last : String}, s.toList = front ++ sep :: last.toList →
      sep ∉ last.toList → lastPiece sep s = last := by
    intro front last hs hlast
    have hcut : cutFirst (· == sep) s.toList.reverse = some (last.toList.reverse, front.reverse) := by
      rw [hs, List.reverse_append, List.reverse_cons, List.append_assoc, List.singleton_append]
      refine cutFirst_append_cons (p := (· == sep)) (fun c hc => beq_eq_false_iff_ne.2 ?_)
        (beq_self_eq_true sep) _
      rintro rfl
      exact hlast (List.mem_reverse.1 hc)
    simp [lastPiece, splitLast, cutLast, hcut]
  obtain ⟨hlast, heq | ⟨middle, hback⟩⟩ := lastPiece_cases sep back
  · rw [heq] at hlast ⊢
    exact hcompute h hlast
  · have hs : s.toList = (front ++ sep :: middle) ++ sep :: (lastPiece sep back).toList := by
      rw [h, hback]
      simp
    exact hcompute hs hlast

theorem splitOn_of_toList_eq {sep : Char} {s front back : String}
    (h : s.toList = front.toList ++ sep :: back.toList) :
    splitOn sep s = splitOn sep front ++ splitOn sep back := by
  rw [splitOn, h, pieces_append (p := (· == sep)) (beq_self_eq_true sep), List.map_append]
  rfl

theorem splitOn_eq_singleton {sep : Char} {s : String} (h : sep ∉ s.toList) : splitOn sep s = [s] := by
  have hno : ∀ c ∈ s.toList, (c == sep) = false := by
    intro c hc
    rw [beq_eq_false_iff_ne]
    rintro rfl
    exact h hc
  rw [splitOn, pieces_eq_singleton (p := (· == sep)) hno, List.map_singleton, String.ofList_toList]

theorem lastPiece_mem_splitOn (sep : Char) (s : String) : lastPiece sep s ∈ splitOn sep s := by
  obtain ⟨hlast, heq | ⟨front, hs⟩⟩ := lastPiece_cases sep s
  · rw [heq] at hlast ⊢
    rw [splitOn_eq_singleton hlast]
    exact List.mem_singleton_self s
  · rw [@splitOn_of_toList_eq sep s (String.ofList front) (lastPiece sep s) (by simpa using hs),
      splitOn_eq_singleton hlast]
    exact List.mem_append_right _ (List.mem_singleton_self _)

theorem head_mem_splitOn {sep : Char} {s head rest : String}
    (h : splitOnce sep s = some (head, rest)) : head ∈ splitOn sep s := by
  obtain ⟨hs, hhead⟩ := exists_of_splitOnce h
  rw [splitOn_of_toList_eq hs, splitOn_eq_singleton hhead]
  exact List.mem_append_left _ (List.mem_singleton_self head)

theorem splitLast_of_toList_eq {sep : Char} {s front back : String}
    (h : s.toList = front.toList ++ sep :: back.toList) (hback : sep ∉ back.toList) :
    splitLast sep s = some (front, back) := by
  have hpiece : ∀ c ∈ back.toList.reverse, (c == sep) = false := by
    intro c hc
    refine beq_eq_false_iff_ne.2 ?_
    rintro rfl
    exact hback (List.mem_reverse.1 hc)
  have hreverse : s.toList.reverse = back.toList.reverse ++ sep :: front.toList.reverse := by
    rw [h]
    simp
  rw [splitLast, cutLast, hreverse, cutFirst_append_cons hpiece (beq_self_eq_true sep)]
  simp

/-- A cut at the last separator. -/
theorem exists_of_splitLast {sep : Char} {s front back : String}
    (h : splitLast sep s = some (front, back)) :
    s.toList = front.toList ++ sep :: back.toList ∧ sep ∉ back.toList := by
  obtain ⟨cut, hcut, heq⟩ := Option.map_eq_some_iff.1 h
  obtain ⟨rfl, rfl⟩ := Prod.mk.inj heq
  obtain ⟨first, hfirst, hwhole⟩ := Option.map_eq_some_iff.1 hcut
  obtain ⟨c, hc, hs, hlast⟩ := exists_of_cutFirst hfirst
  obtain rfl := beq_iff_eq.1 hc
  subst hwhole
  rw [String.toList_ofList, String.toList_ofList, ← List.reverse_reverse s.toList, hs]
  refine ⟨by simp, fun hin => ?_⟩
  exact absurd (hlast _ (List.mem_reverse.1 hin)) (by simp)

theorem notMem_of_splitLast_eq_none {sep : Char} {s : String} (h : splitLast sep s = none) :
    sep ∉ s.toList := by
  intro hin
  have hcut := Option.map_eq_none_iff.1 (Option.map_eq_none_iff.1 h)
  exact absurd (not_of_cutFirst_eq_none hcut sep (List.mem_reverse.2 hin)) (by simp)

theorem lastPiece_dotted (outer name : String) :
    lastPiece '.' (outer ++ "." ++ name) = lastPiece '.' name :=
  @lastPiece_of_toList_eq '.' _ name outer.toList (by simp [String.toList_append])

/-! ## Replaced characters -/

theorem toList_replaceChar (old new : Char) (s : String) :
    (replaceChar old new s).toList = s.toList.map (fun c => if c == old then new else c) := by
  unfold replaceChar
  rw [String.toList_ofList]

/-- A character that does not occur is not replaced. -/
theorem map_replace_eq_self {old new : Char} {s : List Char} (h : old ∉ s) :
    s.map (fun c => if c == old then new else c) = s := by
  rw [List.map_congr_left (g := id), List.map_id]
  intro c hc
  rw [if_neg]
  · rfl
  · rw [beq_iff_eq]
    rintro rfl
    exact h hc

/-- What precedes an ending. -/
theorem stripTail?_append (tail : String) (s : List Char) :
    stripTail? tail (String.ofList (s ++ tail.toList)) = some (String.ofList s) := by
  rw [stripTail?, String.toList_ofList, beforeTail?, List.reverse_append, afterLead?_append]
  simp

theorem stripTail?_concat (tail front : String) : stripTail? tail (front ++ tail) = some front := by
  have h := stripTail?_append tail front.toList
  rwa [← String.toList_append, String.ofList_toList, String.ofList_toList] at h

theorem toList_of_stripTail? {tail s front : String} (h : stripTail? tail s = some front) :
    s.toList = front.toList ++ tail.toList := by
  obtain ⟨chars, hchars, rfl⟩ := Option.map_eq_some_iff.1 h
  obtain ⟨rest, hrest, rfl⟩ := Option.map_eq_some_iff.1 hchars
  rw [← List.reverse_reverse s.toList, eq_append_of_afterLead? hrest]
  simp

/-! ## Lines -/

/-- A text that is one line: it holds no line feed and no carriage return at its end. -/
structure IsLine (line : String) : Prop where
  no_feed : '\n' ∉ line.toList
  no_return : line.toList.getLast? ≠ some '\r'

theorem dropReturn_eq_self {line : List Char} (h : line.getLast? ≠ some '\r') :
    dropReturn line = line := by
  rw [dropReturn]
  split
  · rename_i rest hreverse
    rw [List.getLast?_eq_head?_reverse, hreverse] at h
    exact absurd rfl h
  · rfl

theorem mem_of_mem_dropReturn {line : List Char} {c : Char} (h : c ∈ dropReturn line) : c ∈ line := by
  rw [dropReturn] at h
  split at h
  · rename_i rest hreverse
    rw [List.mem_reverse] at h
    rw [← List.mem_reverse, hreverse]
    exact List.mem_cons_of_mem _ h
  · exact h

/-- No line holds a line feed. -/
theorem feed_notMem_of_mem_lines {text line : String} (h : line ∈ lines text) :
    '\n' ∉ line.toList := by
  have hpiece : ∀ piece ∈ pieces (· == '\n') text.toList, '\n' ∉ piece := fun piece hpiece hin =>
    absurd (not_of_mem_pieces hpiece hin) (by simp)
  obtain ⟨chars, hchars, rfl⟩ := List.mem_map.1 h
  rw [String.toList_ofList]
  rw [linesOf] at hchars
  split at hchars
  · rename_i last hlast
    rcases List.mem_append.1 hchars with hinit | hend
    · obtain ⟨piece, hin, rfl⟩ := List.mem_map.1 hinit
      exact fun hfeed => hpiece piece (List.dropLast_subset _ hin) (mem_of_mem_dropReturn hfeed)
    · split at hend
      · simp at hend
      · obtain rfl := List.mem_singleton.1 hend
        exact hpiece _ (List.mem_of_getLast? hlast)
  · simp at hchars

/-- The lines that a line is read as when it is written with a line feed behind it. -/
def rows (line : String) : List String :=
  (pieces (· == '\n') line.toList).map (fun piece => String.ofList (dropReturn piece))

theorem rows_eq_singleton {line : String} (h : IsLine line) : rows line = [line] := by
  have hline : ∀ c ∈ line.toList, (c == '\n') = false := fun c hc =>
    beq_eq_false_iff_ne.2 (fun heq => h.no_feed (heq ▸ hc))
  unfold rows
  rw [pieces_eq_singleton hline, List.map_singleton, dropReturn_eq_self h.no_return,
    String.ofList_toList]

/-- Lines that end in a line feed each are cut at the line feeds inside them as well. -/
theorem lines_join_eq (batch : List String) :
    lines (String.join (batch.map (fun line => line ++ "\n"))) = batch.flatMap rows := by
  have hpieces : ∀ batch : List String,
      pieces (· == '\n') ((batch.map (fun line => line ++ "\n")).flatMap String.toList) =
        batch.flatMap (fun line => pieces (· == '\n') line.toList) ++ [[]] := by
    intro batch
    induction batch with
    | nil => rfl
    | cons line rest ih =>
      have hjoined : ((line :: rest).map (fun line => line ++ "\n")).flatMap String.toList =
          line.toList ++ '\n' :: (rest.map (fun line => line ++ "\n")).flatMap String.toList := by
        rw [List.map_cons, List.flatMap_cons, String.toList_append]
        simp
      rw [hjoined, pieces_append (by decide), ih, List.flatMap_cons, List.append_assoc]
  rw [lines, linesOf, String.toList_join, hpieces batch]
  simp only [List.getLast?_concat, List.dropLast_concat, List.isEmpty_nil, if_true,
    List.append_nil, List.map_map, List.map_flatMap]
  rfl

end CodeAtlas.Text
