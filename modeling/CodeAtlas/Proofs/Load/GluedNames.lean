/-
# Glued archive names

A token of a class path may hold several archive names with nothing between them.  Cutting it loses
nothing: the pieces make up the token again, none is empty, and every cut stands between two characters
of its UTF-8 form.  Names that were glued together are taken apart again when each ends like an archive,
none begins with a slash, and inside a name what looks like an ending has a slash behind it.
-/
import CodeAtlas.Load.Manifest
import CodeAtlas.Proofs.Text.Slices

namespace CodeAtlas.Manifest

open String (utf8Len)
open Text (consRun sliceBytes?)

/-! ## Endings -/

/-- The ending of an archive name, in any case. -/
def IsEnding (chars : List Char) : Prop :=
  chars.map Char.toLower = ['.', 'j', 'a', 'r'] ∨ chars.map Char.toLower = ['.', 'r', 'a', 'r']

theorem isArchiveEnding_iff {c₀ c₁ c₂ c₃ : Char} :
    isArchiveEnding c₀ c₁ c₂ c₃ = true ↔ IsEnding [c₀, c₁, c₂, c₃] := by
  have hlist : ∀ (chars : List Char) (s : String),
      (String.ofList chars == s) = true ↔ chars = s.toList := by
    intro chars s
    rw [beq_iff_eq, ← String.toList_inj, String.toList_ofList]
  rw [isArchiveEnding, IsEnding, Bool.or_eq_true, hlist, hlist]
  exact Iff.rfl

/-- An ending has four characters, and only the first is a dot. -/
theorem IsEnding.exists_chars {ending : List Char} (h : IsEnding ending) :
    ∃ c₀ c₁ c₂ c₃, ending = [c₀, c₁, c₂, c₃] ∧
      c₀.toLower = '.' ∧ c₁.toLower ≠ '.' ∧ c₂.toLower ≠ '.' ∧ c₃.toLower ≠ '.' := by
  have hlength : ending.length = 4 := by
    rw [← List.length_map (f := Char.toLower)]
    rcases h with h | h <;> rw [h] <;> rfl
  obtain ⟨c₀, c₁, c₂, c₃, rfl⟩ := List.length_eq_four.1 hlength
  refine ⟨c₀, c₁, c₂, c₃, rfl, ?_⟩
  rcases h with h | h <;> simp only [List.map_cons, List.map_nil, List.cons.injEq, and_true] at h <;>
    obtain ⟨h₀, h₁, h₂, h₃⟩ := h <;> rw [h₀, h₁, h₂, h₃] <;> decide

theorem IsEnding.ne_nil {ending : List Char} (h : IsEnding ending) : ending ≠ [] := by
  obtain ⟨_, _, _, _, rfl, _⟩ := h.exists_chars
  simp

/-- Endings do not overlap: one at the front of a text that is longer than its last ending stands
before the last ending. -/
theorem IsEnding.prefix_stem {first last stem rest : List Char} (hfirst : IsEnding first)
    (hlast : IsEnding last) (hstem : stem ≠ []) (h : stem ++ last = first ++ rest) :
    first <+: stem := by
  obtain ⟨c₀, c₁, c₂, c₃, rfl, _, h₁, h₂, h₃⟩ := hfirst.exists_chars
  obtain ⟨d₀, d₁, d₂, d₃, rfl, hdot, _⟩ := hlast.exists_chars
  match stem with
  | [] => exact absurd rfl hstem
  | [_] =>
    obtain ⟨_, rfl, _⟩ : _ ∧ d₀ = c₁ ∧ _ := by simpa using h
    exact absurd hdot h₁
  | [_, _] =>
    obtain ⟨_, _, rfl, _⟩ : _ ∧ _ ∧ d₀ = c₂ ∧ _ := by simpa using h
    exact absurd hdot h₂
  | [_, _, _] =>
    obtain ⟨_, _, _, rfl, _⟩ : _ ∧ _ ∧ _ ∧ d₀ = c₃ ∧ _ := by simpa using h
    exact absurd hdot h₃
  | e₀ :: e₁ :: e₂ :: e₃ :: stem =>
    obtain ⟨rfl, rfl, rfl, rfl, _⟩ : e₀ = c₀ ∧ e₁ = c₁ ∧ e₂ = c₂ ∧ e₃ = c₃ ∧ _ := by simpa using h
    exact ⟨stem, rfl⟩

/-- What a text begins with does not depend on what follows it when it is long enough. -/
theorem IsEnding.prefix_of_append {first last stem rest : List Char} (hfirst : IsEnding first)
    (hlast : IsEnding last) (h : first <+: stem ++ last ++ rest) : first <+: stem ++ last := by
  obtain ⟨_, _, _, _, rfl, _⟩ := hfirst.exists_chars
  obtain ⟨_, _, _, _, rfl, _⟩ := hlast.exists_chars
  exact List.prefix_of_prefix_length_le h (List.prefix_append _ _) (by simp)

/-! ## Pieces -/

theorem flatten_consRun (run : List Char) (runs : List (List Char)) :
    (consRun run runs).flatten = run ++ runs.flatten := by
  rw [consRun]
  split
  · rename_i hempty
    rw [List.isEmpty_iff.1 hempty, List.nil_append]
  · rw [List.flatten_cons]

theorem ne_nil_of_mem_consRun {run : List Char} {runs : List (List Char)}
    (h : ∀ piece ∈ runs, piece ≠ []) : ∀ piece ∈ consRun run runs, piece ≠ [] := by
  rw [consRun]
  split
  · exact h
  · rename_i hrun
    exact List.forall_mem_cons.2 ⟨by simpa using hrun, h⟩

/-- The piece that a text begins with and the pieces after it make up the text. -/
theorem gluedPieces_append (token : List Char) :
    (gluedPieces token).1 ++ (gluedPieces token).2.flatten = token := by
  fun_induction gluedPieces token with
  | case1 => rfl
  | case2 c₀ c₁ c₂ c₃ rest hending piece others hrest hcut ih =>
    rw [hrest] at ih
    rw [flatten_consRun, ih]
    rfl
  | case3 c₀ c₁ c₂ c₃ rest hending piece others hrest hcut ih =>
    rw [hrest] at ih
    simpa using ih
  | case4 c₀ c₁ c₂ c₃ rest hending piece others hrest ih =>
    rw [hrest] at ih
    simpa using ih
  | case5 c₀ rest hshort piece others hrest ih =>
    rw [hrest] at ih
    simpa using ih

theorem ne_nil_of_mem_gluedPieces (token : List Char) :
    ∀ piece ∈ (gluedPieces token).2, piece ≠ [] := by
  fun_induction gluedPieces token with
  | case1 => simp
  | case2 c₀ c₁ c₂ c₃ rest hending piece others hrest hcut ih =>
    rw [hrest] at ih
    exact ne_nil_of_mem_consRun ih
  | case3 c₀ c₁ c₂ c₃ rest hending piece others hrest hcut ih =>
    rw [hrest] at ih
    exact ih
  | case4 c₀ c₁ c₂ c₃ rest hending piece others hrest ih =>
    rw [hrest] at ih
    exact ih
  | case5 c₀ rest hshort piece others hrest ih =>
    rw [hrest] at ih
    exact ih

theorem splitGlued_eq (token : List Char) :
    splitGlued token = consRun (gluedPieces token).1 (gluedPieces token).2 :=
  rfl

/-- The pieces of a token make up the token. -/
theorem flatten_splitGlued (token : List Char) : (splitGlued token).flatten = token :=
  (flatten_consRun _ _).trans (gluedPieces_append token)

/-- No piece of a token is empty. -/
theorem ne_nil_of_mem_splitGlued {token piece : List Char} (h : piece ∈ splitGlued token) :
    piece ≠ [] :=
  ne_nil_of_mem_consRun (ne_nil_of_mem_gluedPieces token) piece h

/-! ## One step of the scan -/

theorem gluedPieces_ending {ending rest : List Char} (h : IsEnding ending) :
    gluedPieces (ending ++ rest) =
      if cutsBefore rest then (ending, splitGlued rest)
      else (ending ++ (gluedPieces rest).1, (gluedPieces rest).2) := by
  obtain ⟨c₀, c₁, c₂, c₃, rfl, _⟩ := h.exists_chars
  rw [List.cons_append, List.cons_append, List.cons_append, List.cons_append, List.nil_append,
    gluedPieces, if_pos (isArchiveEnding_iff.2 h)]
  rfl

theorem gluedPieces_cons {c : Char} {rest : List Char}
    (h : ∀ ending, ending <+: c :: rest → ¬ IsEnding ending) :
    gluedPieces (c :: rest) = (c :: (gluedPieces rest).1, (gluedPieces rest).2) := by
  match rest with
  | c₁ :: c₂ :: c₃ :: rest =>
    rw [gluedPieces, if_neg]
    rw [isArchiveEnding_iff]
    exact h [c, c₁, c₂, c₃] ⟨rest, rfl⟩
  | [] => rfl
  | [_] => rfl
  | [_, _] => rfl

/-! ## Names -/

/-- Behind what looks like an ending inside a name there is a slash. -/
def IsSlashed (name : List Char) : Prop :=
  ∀ before ending after, name = before ++ ending ++ after → IsEnding ending → after ≠ [] →
    after.head? = some '/'

theorem IsSlashed.of_append {front name : List Char} (h : IsSlashed (front ++ name)) :
    IsSlashed name := by
  intro before ending after hname hending hafter
  exact h (front ++ before) ending after (by rw [hname]; simp) hending hafter

/-- A name of an archive that can be told from what follows it: it ends like an archive, does not begin
with a slash, and has a slash behind every other ending in it. -/
structure IsArchiveName (name : List Char) : Prop where
  ends : ∃ stem ending, name = stem ++ ending ∧ IsEnding ending
  no_slash : name.head? ≠ some '/'
  slashed : IsSlashed name

theorem IsArchiveName.ne_nil {name : List Char} (h : IsArchiveName name) : name ≠ [] := by
  obtain ⟨stem, ending, rfl, hending⟩ := h.ends
  simp [hending.ne_nil]

instance (chars : List Char) : Decidable (IsEnding chars) :=
  inferInstanceAs (Decidable (_ ∨ _))

/-- Names are recognised by what stands at each of their places. -/
theorem isArchiveName_iff {name : List Char} :
    IsArchiveName name ↔ IsEnding (name.drop (name.length - 4)) ∧ name.head? ≠ some '/' ∧
      ∀ i < name.length, IsEnding ((name.drop i).take 4) →
        name.drop (i + 4) = [] ∨ (name.drop (i + 4)).head? = some '/' := by
  constructor
  · rintro ⟨⟨stem, ending, rfl, hending⟩, hslash, hslashed⟩
    refine ⟨?_, hslash, fun i _ hinner => ?_⟩
    · obtain ⟨_, _, _, _, rfl, _⟩ := hending.exists_chars
      simpa using hending
    · rw [Decidable.or_iff_not_imp_left]
      refine hslashed ((stem ++ ending).take i) _ _ ?_ hinner
      rw [List.append_assoc, ← List.drop_drop, List.take_append_drop, List.take_append_drop]
  · rintro ⟨hending, hslash, hslashed⟩
    refine ⟨⟨_, _, (List.take_append_drop (name.length - 4) name).symm, hending⟩, hslash, ?_⟩
    rintro before ending after rfl hinner hafter
    obtain ⟨_, _, _, _, rfl, _⟩ := hinner.exists_chars
    have hplace := hslashed before.length (by simp) (by simpa using hinner)
    rw [List.append_assoc, ← List.drop_drop, List.drop_left] at hplace
    exact hplace.resolve_left (by simpa using hafter)

instance (name : List Char) : Decidable (IsArchiveName name) :=
  decidable_of_iff _ isArchiveName_iff.symm

/-- A name in front of what begins with no slash is the first piece. -/
theorem gluedPieces_name {last rest : List Char} (hlast : IsEnding last)
    (hrest : rest.head? ≠ some '/') (stem : List Char) (hslashed : IsSlashed (stem ++ last)) :
    gluedPieces (stem ++ last ++ rest) = (stem ++ last, splitGlued rest) := by
  -- The induction is on what stands in front of the last ending: an ending there is passed over as a
  -- whole, since a slash follows it.
  induction hlength : stem.length using Nat.strong_induction_on generalizing stem with
  | _ n ih =>
    subst hlength
    cases stem with
    | nil =>
      rw [List.nil_append, gluedPieces_ending hlast]
      cases rest with
      | nil => simp [cutsBefore, gluedPieces, splitGlued, consRun]
      | cons c after =>
        have hc : c ≠ '/' := fun hc => hrest (hc ▸ rfl)
        rw [if_pos (by simpa [cutsBefore] using hc)]
    | cons c front =>
      by_cases hinner : ∃ inner, inner <+: c :: front ++ last ∧ IsEnding inner
      · obtain ⟨inner, ⟨after, hafter⟩, hisEnding⟩ := hinner
        obtain ⟨stem', hstem⟩ :=
          hisEnding.prefix_stem hlast (List.cons_ne_nil c front) hafter.symm
        rw [← hstem] at hslashed ⊢
        rw [List.append_assoc] at hslashed
        have hslash : (stem' ++ last).head? = some '/' :=
          hslashed [] inner (stem' ++ last) rfl hisEnding (by simp [hlast.ne_nil])
        have hkept : cutsBefore (stem' ++ last ++ rest) = false := by
          obtain ⟨tail, htail⟩ := List.head?_eq_some_iff.1 hslash
          rw [htail]
          rfl
        have hless : stem'.length < (inner ++ stem').length := by
          rw [List.length_append]
          have := List.length_pos_iff.2 hisEnding.ne_nil
          omega
        rw [List.append_assoc, List.append_assoc, gluedPieces_ending hisEnding, ← List.append_assoc,
          hkept, if_neg (by simp), ih stem'.length (hstem ▸ hless) stem' hslashed.of_append rfl,
          List.append_assoc]
      · have hnone : ∀ inner, inner <+: c :: (front ++ last ++ rest) → ¬ IsEnding inner :=
          fun inner hbegins hisEnding =>
            hinner ⟨inner, hisEnding.prefix_of_append hlast hbegins, hisEnding⟩
        have htail : IsSlashed (front ++ last) := by
          have hwhole : IsSlashed ([c] ++ (front ++ last)) := by
            simpa using hslashed
          exact hwhole.of_append
        rw [List.cons_append, List.cons_append, gluedPieces_cons hnone,
          ih front.length (by simp) front htail rfl]

theorem IsArchiveName.splitGlued_append {name rest : List Char} (h : IsArchiveName name)
    (hrest : rest.head? ≠ some '/') : splitGlued (name ++ rest) = name :: splitGlued rest := by
  have hname : name.isEmpty = false := by simpa using h.ne_nil
  obtain ⟨stem, ending, rfl, hending⟩ := h.ends
  rw [splitGlued_eq, gluedPieces_name hending hrest stem h.slashed, consRun, hname]
  rfl

/-- Names that were glued together are taken apart again. -/
theorem splitGlued_flatten {names : List (List Char)} (h : ∀ name ∈ names, IsArchiveName name) :
    splitGlued names.flatten = names := by
  induction names with
  | nil => rfl
  | cons name names ih =>
    obtain ⟨hname, hnames⟩ := List.forall_mem_cons.1 h
    have hrest : names.flatten.head? ≠ some '/' := by
      cases names with
      | nil => simp
      | cons second names =>
        have hsecond := hnames second List.mem_cons_self
        rw [List.flatten_cons, List.head?_append_of_ne_nil _ hsecond.ne_nil]
        exact hsecond.no_slash
    rw [List.flatten_cons, hname.splitGlued_append hrest, ih hnames]

/-! ## Cutting at byte offsets -/

/-- Whether the ending of an archive name stands at a byte offset. -/
def isEndingAt (token : String) (place : Nat) : Bool :=
  match sliceBytes? token place (place + 4) with
  | some text => Text.lowerAscii text == ".jar" || Text.lowerAscii text == ".rar"
  | none => false

/-- The first byte offset from a place on at which an ending stands. -/
def nextEnding? (token : String) (place : Nat) : Option Nat :=
  (List.range' place (token.utf8ByteSize - place)).find? (isEndingAt token)

theorem nextEnding?_bounds {token : String} {place found : Nat}
    (h : nextEnding? token place = some found) : place ≤ found ∧ found < token.utf8ByteSize := by
  have hmem := List.mem_range'_1.1 (List.mem_of_find?_eq_some h)
  omega

/-- Cuts a token while two byte offsets go through it: the start of the piece that is open, and the
place from which on the next ending is looked for.  There is no result when a slice would begin or end
inside a character. -/
def cutBytes? (token : String) (start place : Nat) : Option (List String) :=
  (sliceBytes? token place token.utf8ByteSize).bind fun _ =>
    match h : nextEnding? token place with
    | some found =>
      (sliceBytes? token (found + 4) token.utf8ByteSize).bind fun rest =>
        if found + 4 < token.utf8ByteSize && !Text.startsWith "/" rest then
          (sliceBytes? token start (found + 4)).bind fun piece =>
            (cutBytes? token (found + 4) (found + 4)).map (piece :: ·)
        else cutBytes? token start (found + 4)
    | none =>
      if start < token.utf8ByteSize then
        (sliceBytes? token start token.utf8ByteSize).map ([·])
      else some []
termination_by token.utf8ByteSize - place
decreasing_by all_goals have := nextEnding?_bounds h; omega

section Places

variable {token : String} {before rest : List Char}

theorem IsEnding.utf8Len_eq {ending : List Char} (h : IsEnding ending) : utf8Len ending = 4 := by
  rw [← Text.utf8Len_map_toLower]
  rcases h with h | h <;> rw [h] <;> decide

/-- An ending stands where the rest of the token begins with one. -/
theorem isEndingAt_iff (h : token.toList = before ++ rest) :
    isEndingAt token (utf8Len before) = true ↔ ∃ ending, ending <+: rest ∧ IsEnding ending := by
  have hlower : ∀ text : String,
      (Text.lowerAscii text == ".jar" || Text.lowerAscii text == ".rar") = true ↔
        IsEnding text.toList := by
    intro text
    rw [Bool.or_eq_true, beq_iff_eq, beq_iff_eq, ← String.toList_inj, ← String.toList_inj,
      Text.lowerAscii, String.toList_ofList]
    exact Iff.rfl
  constructor
  · intro hending
    rw [isEndingAt] at hending
    split at hending
    · rename_i text htext
      obtain ⟨before', after, htoken, hlen, _⟩ := Text.sliceBytes?_eq_some_iff.1 htext
      have hbefore : before' = before :=
        Text.eq_of_prefix_of_utf8Len_eq ⟨text.toList ++ after, by rw [htoken, List.append_assoc]⟩
          ⟨rest, h.symm⟩ hlen
      rw [h, hbefore, List.append_assoc] at htoken
      exact ⟨text.toList, ⟨after, (List.append_cancel_left htoken).symm⟩, (hlower text).1 hending⟩
    · simp at hending
  · rintro ⟨ending, ⟨after, rfl⟩, hending⟩
    have hslice : sliceBytes? token (utf8Len before) (utf8Len before + 4) =
        some (String.ofList ending) := by
      refine Text.sliceBytes?_eq_some_iff.2 ⟨before, after, ?_, rfl, ?_⟩
      · rw [h, String.toList_ofList, List.append_assoc]
      · rw [String.toList_ofList, hending.utf8Len_eq]
    rw [isEndingAt, hslice]
    exact (hlower _).2 (by rwa [String.toList_ofList])

/-- No ending stands inside a character. -/
theorem isEndingAt_inside {c : Char} (h : token.toList = before ++ c :: rest) {place : Nat}
    (hstart : utf8Len before < place) (hstop : place < utf8Len before + c.utf8Size) :
    isEndingAt token place = false := by
  rw [isEndingAt]
  split
  · rename_i text htext
    exfalso
    obtain ⟨before', after, htoken, hlen, _⟩ := Text.sliceBytes?_eq_some_iff.1 htext
    have hbegins : before' <+: token.toList := ⟨text.toList ++ after, by rw [htoken, List.append_assoc]⟩
    rw [h] at hbegins
    rcases List.prefix_or_prefix_of_prefix hbegins
      (⟨rest, by simp⟩ : before ++ [c] <+: before ++ c :: rest) with hless | hmore
    · rcases List.prefix_concat_iff.1 hless with heq | hless
      · rw [heq, String.utf8Len_append] at hlen
        simp only [String.utf8Len_cons, String.utf8Len_nil] at hlen
        omega
      · have := String.utf8Len_le_of_prefix hless
        omega
    · have := String.utf8Len_le_of_prefix hmore
      rw [String.utf8Len_append] at this
      simp only [String.utf8Len_cons, String.utf8Len_nil] at this
      omega
  · rfl

/-- Where no ending stands, the next one is looked for behind the character. -/
theorem nextEnding?_cons {c : Char} (h : token.toList = before ++ c :: rest)
    (hnone : ∀ ending, ending <+: c :: rest → ¬ IsEnding ending) :
    nextEnding? token (utf8Len before) = nextEnding? token (utf8Len (before ++ [c])) := by
  have hsize : token.utf8ByteSize = utf8Len before + c.utf8Size + utf8Len rest := by
    rw [Text.utf8ByteSize_eq, h, String.utf8Len_append, String.utf8Len_cons]
    omega
  have hplace : utf8Len (before ++ [c]) = utf8Len before + c.utf8Size := by
    rw [String.utf8Len_append, String.utf8Len_cons, String.utf8Len_nil]
    omega
  have hfront : (List.range' (utf8Len before) c.utf8Size).find? (isEndingAt token) = none := by
    rw [List.find?_eq_none]
    intro place hmem hending
    obtain ⟨hle, hlt⟩ := List.mem_range'_1.1 hmem
    rcases Nat.eq_or_lt_of_le hle with rfl | hinside
    · obtain ⟨ending, hbegins, hisEnding⟩ := (isEndingAt_iff h).1 hending
      exact hnone ending hbegins hisEnding
    · rw [isEndingAt_inside h hinside hlt] at hending
      simp at hending
  have hlength : token.utf8ByteSize - utf8Len before =
      c.utf8Size + (token.utf8ByteSize - utf8Len (before ++ [c])) := by
    omega
  rw [nextEnding?, nextEnding?, hlength, ← List.range'_append_1, List.find?_append, hfront, hplace]
  rfl

theorem nextEnding?_ending (h : token.toList = before ++ rest) {ending : List Char}
    (hbegins : ending <+: rest) (hending : IsEnding ending) :
    nextEnding? token (utf8Len before) = some (utf8Len before) := by
  have hpos : 0 < token.utf8ByteSize - utf8Len before := by
    have := String.utf8Len_le_of_prefix hbegins
    rw [hending.utf8Len_eq] at this
    rw [Text.utf8ByteSize_eq, h, String.utf8Len_append]
    omega
  obtain ⟨n, hn⟩ := Nat.exists_eq_add_of_lt hpos
  rw [nextEnding?, hn, Nat.zero_add, List.range'_succ, List.find?_cons,
    (isEndingAt_iff h).2 ⟨ending, hbegins, hending⟩]

/-! ## The whole scan -/

theorem cutBytes?_none {start place : Nat} {text : String}
    (hslice : sliceBytes? token place token.utf8ByteSize = some text)
    (h : nextEnding? token place = none) :
    cutBytes? token start place =
      if start < token.utf8ByteSize then
        (sliceBytes? token start token.utf8ByteSize).map ([·])
      else some [] := by
  rw [cutBytes?, hslice, Option.bind_some]
  split
  · rename_i found hfound
    rw [h] at hfound
    simp at hfound
  · rfl

theorem cutBytes?_some {start place found : Nat} {text after : String}
    (hslice : sliceBytes? token place token.utf8ByteSize = some text)
    (h : nextEnding? token place = some found)
    (hafter : sliceBytes? token (found + 4) token.utf8ByteSize = some after) :
    cutBytes? token start place =
      if found + 4 < token.utf8ByteSize && !Text.startsWith "/" after then
        (sliceBytes? token start (found + 4)).bind fun piece =>
          (cutBytes? token (found + 4) (found + 4)).map (piece :: ·)
      else cutBytes? token start (found + 4) := by
  rw [cutBytes?, hslice, Option.bind_some]
  split
  · rename_i other hother
    obtain rfl := Option.some.inj (h.symm.trans hother)
    rw [hafter, Option.bind_some]
  · rename_i hnone
    rw [h] at hnone
    simp at hnone

/-- The second offset counts only for where the next ending is. -/
theorem cutBytes?_congr {start place other : Nat} {text text' : String}
    (hslice : sliceBytes? token place token.utf8ByteSize = some text)
    (hslice' : sliceBytes? token other token.utf8ByteSize = some text')
    (h : nextEnding? token place = nextEnding? token other) :
    cutBytes? token start place = cutBytes? token start other := by
  cases hother : nextEnding? token other with
  | none => rw [cutBytes?_none hslice (h.trans hother), cutBytes?_none hslice' hother]
  | some found =>
    rw [cutBytes?.eq_def token start place, cutBytes?.eq_def token start other, hslice, hslice',
      Option.bind_some, Option.bind_some]
    split
    · rename_i first hfirst
      split
      · rename_i second hsecond
        obtain rfl := Option.some.inj (hfirst.symm.trans (h.trans hsecond))
        rfl
      · simp_all
    · simp_all

/-- Behind an ending, the token is cut where the scan over characters cuts it. -/
theorem cutsBefore_eq (h : token.toList = before ++ rest) :
    (decide (utf8Len before < token.utf8ByteSize) && !Text.startsWith "/" (String.ofList rest)) =
      cutsBefore rest := by
  rw [Text.utf8ByteSize_eq, h, String.utf8Len_append, Text.startsWith]
  cases rest with
  | nil => simp [cutsBefore]
  | cons c rest =>
    have hpos := Char.utf8Size_pos c
    have hless : utf8Len before < utf8Len before + utf8Len (c :: rest) := by
      rw [String.utf8Len_cons]
      omega
    rw [decide_eq_true hless, Bool.true_and, @String.toList_ofList (c :: rest)]
    show (!(Text.afterLead? ['/'] (c :: rest)).isSome) = (c != '/')
    by_cases hc : c = '/'
    · simp [hc, Text.afterLead?]
    · simp [hc, Ne.symm hc, Text.afterLead?]

/-- At an ending the open piece is closed or goes on behind it. -/
theorem cutBytes?_ending {run ending after : List Char}
    (h : token.toList = before ++ run ++ (ending ++ after)) (hending : IsEnding ending) :
    cutBytes? token (utf8Len before) (utf8Len (before ++ run)) =
      if cutsBefore after then
        (cutBytes? token (utf8Len (before ++ (run ++ ending))) (utf8Len (before ++ (run ++ ending)))).map
          (String.ofList (run ++ ending) :: ·)
      else cutBytes? token (utf8Len before) (utf8Len (before ++ (run ++ ending))) := by
  have hbehind : token.toList = before ++ (run ++ ending) ++ after := by
    rw [h]
    simp
  have hplace : utf8Len (before ++ run) + 4 = utf8Len (before ++ (run ++ ending)) := by
    rw [← List.append_assoc, String.utf8Len_append (before ++ run), hending.utf8Len_eq]
  have hpiece : sliceBytes? token (utf8Len before) (utf8Len (before ++ (run ++ ending))) =
      some (String.ofList (run ++ ending)) :=
    Text.sliceBytes?_eq_some_iff.2 ⟨before, after, by rw [hbehind, String.toList_ofList], rfl,
      by rw [String.toList_ofList, ← String.utf8Len_append]⟩
  rw [cutBytes?_some (Text.sliceBytes?_rest h) (nextEnding?_ending h ⟨after, rfl⟩ hending)
    (hplace ▸ Text.sliceBytes?_rest hbehind), hplace, cutsBefore_eq hbehind, hpiece]
  rfl

/-- At the end of the token what is open is the last piece, if it is not empty. -/
theorem cutBytes?_end {run : List Char} (h : token.toList = before ++ run) :
    cutBytes? token (utf8Len before) (utf8Len (before ++ run)) =
      some ((consRun run []).map String.ofList) := by
  have hslice : sliceBytes? token (utf8Len (before ++ run)) token.utf8ByteSize = some (String.ofList []) :=
    Text.sliceBytes?_rest (by rw [h, List.append_nil])
  have hnext : nextEnding? token (utf8Len (before ++ run)) = none := by
    rw [nextEnding?, Text.utf8ByteSize_eq, h, Nat.sub_self]
    rfl
  rw [cutBytes?_none hslice hnext, Text.sliceBytes?_rest h, Text.utf8ByteSize_eq, h]
  cases run with
  | nil => simp [consRun]
  | cons c run =>
    have := Char.utf8Size_pos c
    rw [if_pos]
    · simp [consRun]
    · rw [String.utf8Len_append, String.utf8Len_cons]
      omega

/-- A character at which no ending stands goes to the open piece. -/
theorem cutBytes?_cons {run : List Char} {c : Char} (h : token.toList = before ++ run ++ c :: rest)
    (hnone : ∀ ending, ending <+: c :: rest → ¬ IsEnding ending) :
    cutBytes? token (utf8Len before) (utf8Len (before ++ run)) =
      cutBytes? token (utf8Len before) (utf8Len (before ++ (run ++ [c]))) := by
  have hbehind : token.toList = before ++ (run ++ [c]) ++ rest := by
    rw [h]
    simp
  have hnext := nextEnding?_cons h hnone
  rw [List.append_assoc] at hnext
  exact cutBytes?_congr (Text.sliceBytes?_rest h) (Text.sliceBytes?_rest hbehind) hnext

/-- The scan over byte offsets finds the pieces of the scan over characters; the piece that is open
lies between the two offsets. -/
theorem cutBytes?_eq (rest : List Char) {before run : List Char}
    (h : token.toList = before ++ run ++ rest) :
    cutBytes? token (utf8Len before) (utf8Len (before ++ run)) =
      some ((consRun (run ++ (gluedPieces rest).1) (gluedPieces rest).2).map String.ofList) := by
  -- The induction is on what the second offset has not passed; an ending is passed as a whole.
  induction hlength : rest.length using Nat.strong_induction_on generalizing rest before run with
  | _ n ih =>
    subst hlength
    by_cases hending : ∃ ending, ending <+: rest ∧ IsEnding ending
    · obtain ⟨ending, ⟨after, rfl⟩, hending⟩ := hending
      have hshort : after.length < (ending ++ after).length := by
        have := List.length_pos_iff.2 hending.ne_nil
        rw [List.length_append]
        omega
      rw [cutBytes?_ending h hending, gluedPieces_ending hending]
      split
      · have hclosed : token.toList = before ++ (run ++ ending) ++ [] ++ after := by
          rw [h]
          simp
        have hlater := ih after.length hshort after hclosed rfl
        rw [List.append_nil] at hlater
        rw [hlater]
        simp [consRun, hending.ne_nil, splitGlued_eq]
      · have hopen : token.toList = before ++ (run ++ ending) ++ after := by
          rw [h]
          simp
        rw [ih after.length hshort after hopen rfl]
        simp
    · have hnone : ∀ ending, ending <+: rest → ¬ IsEnding ending :=
        fun ending hbegins hisEnding => hending ⟨ending, hbegins, hisEnding⟩
      cases rest with
      | nil =>
        rw [List.append_nil] at h
        rw [cutBytes?_end h]
        simp [gluedPieces]
      | cons c rest =>
        have hopen : token.toList = before ++ (run ++ [c]) ++ rest := by
          rw [h]
          simp
        rw [cutBytes?_cons h hnone, ih rest.length (by simp) rest hopen rfl, gluedPieces_cons hnone]
        simp

end Places

/-! ## What cutting keeps -/

/-- Cutting a token loses nothing: at byte offsets it comes to its end without ever slicing inside a
character, and gives the same pieces, none of them empty, which make up the token.  Names that are glued
together are taken apart into the same names. -/
theorem glued_names_recovered :
    (∀ token : String,
      cutBytes? token 0 0 = some ((splitGlued token.toList).map String.ofList) ∧
        (splitGlued token.toList).flatten = token.toList ∧
        ∀ piece ∈ splitGlued token.toList, piece ≠ []) ∧
      ∀ names : List String, (∀ name ∈ names, IsArchiveName name.toList) →
        (splitGlued (String.join names).toList).map String.ofList = names := by
  refine ⟨fun token => ⟨?_, flatten_splitGlued _, fun _ => ne_nil_of_mem_splitGlued⟩, ?_⟩
  · have hwhole : token.toList = [] ++ [] ++ token.toList := rfl
    exact cutBytes?_eq token.toList hwhole
  · intro names hnames
    have hsplit : splitGlued (names.map String.toList).flatten = names.map String.toList := by
      apply splitGlued_flatten
      intro name hname
      obtain ⟨text, htext, rfl⟩ := List.mem_map.1 hname
      exact hnames text htext
    rw [String.toList_join, List.flatMap_def, hsplit]
    simp

/-- Names in several alphabets: with directories that look like archives, with nothing but an ending,
and with a dot in front of the ending. -/
def gluedNames : List String :=
  ["lib/é.jar/ß.JAR", ".rar", "日本..Jar", "a.jar/b.rar/c.RAR"]

theorem glued_names_recovered_alphabets :
    (∀ name ∈ gluedNames, IsArchiveName name.toList) ∧
      (splitGlued (String.join gluedNames).toList).map String.ofList = gluedNames := by
  have hnames : ∀ name ∈ gluedNames, IsArchiveName name.toList := by decide +kernel
  exact ⟨hnames, glued_names_recovered.2 gluedNames hnames⟩

end CodeAtlas.Manifest
