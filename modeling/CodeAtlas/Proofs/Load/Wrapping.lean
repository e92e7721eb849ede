/-
# Wrapped manifests

A manifest may be wrapped anywhere: a line break, written as LF, CR LF or CR, and one space after it
continue the line.  Unwrapping takes the break out together with its space, so the class path of a
manifest does not show where it was wrapped: not next to the end of a line, not next to a space, and not
where several breaks stand side by side.
-/
import CodeAtlas.Load.Manifest
import Mathlib.Data.List.Infix

namespace CodeAtlas.Manifest

open Text

/-! ## Wrapping -/

/-- The ways to write a line break. -/
def lineBreaks : List (List Char) :=
  [['\n'], ['\r', '\n'], ['\r']]

/-- The second text is the first one with continuation breaks put in, any number of them at every place
between its characters.  A continuation break is a line break and one space. -/
inductive Wraps : List Char → List Char → Prop
  | nil : Wraps [] []
  | char (c : Char) {text wrapped : List Char} (h : Wraps text wrapped) :
      Wraps (c :: text) (c :: wrapped)
  | continued {lineBreak text wrapped : List Char} (hbreak : lineBreak ∈ lineBreaks)
      (h : Wraps text wrapped) : Wraps text (lineBreak ++ ' ' :: wrapped)

/-- A text that holds no carriage return and no continuation break. -/
structure IsUnwrapped (text : List Char) : Prop where
  noReturn : '\r' ∉ text
  noContinuation : ¬ ['\n', ' '] <:+: text

theorem IsUnwrapped.tail {c : Char} {text : List Char} (h : IsUnwrapped (c :: text)) :
    IsUnwrapped text := by
  constructor
  · intro hmem
    exact h.noReturn (List.mem_cons_of_mem c hmem)
  · intro hinfix
    exact h.noContinuation (List.infix_cons hinfix)

/-- Nothing has to be put in. -/
theorem wraps_self (text : List Char) : Wraps text text := by
  induction text with
  | nil => exact .nil
  | cons c text ih => exact .char c ih

theorem Wraps.append {front front' back back' : List Char} (hfront : Wraps front front')
    (hback : Wraps back back') : Wraps (front ++ back) (front' ++ back') := by
  induction hfront with
  | nil => exact hback
  | char c _ ih => exact .char c ih
  | continued hbreak _ ih =>
    rw [List.append_assoc, List.cons_append]
    exact .continued hbreak ih

/-! ## Unwrapping -/

theorem plainBreaks_cons {c : Char} (hc : c ≠ '\r') (rest : List Char) :
    plainBreaks (c :: rest) = c :: plainBreaks rest := by
  apply plainBreaks.eq_4
  · rintro _ rfl
    exact absurd rfl hc
  · exact hc

/-- Every continuation break becomes a line feed and a space. -/
theorem plainBreaks_continued {lineBreak : List Char} (hbreak : lineBreak ∈ lineBreaks)
    (rest : List Char) :
    plainBreaks (lineBreak ++ ' ' :: rest) = '\n' :: ' ' :: plainBreaks rest := by
  simp only [lineBreaks, List.mem_cons, List.not_mem_nil, or_false] at hbreak
  rcases hbreak with rfl | rfl | rfl <;> rfl

theorem joinLines_cons {c : Char} (hc : c ≠ '\n') (rest : List Char) :
    joinLines (c :: rest) = c :: joinLines rest := by
  apply joinLines.eq_3
  intro _ hfeed
  exact absurd hfeed hc

/-- A line feed stays unless a space follows. -/
theorem joinLines_feed {rest : List Char} (h : rest.head? ≠ some ' ') :
    joinLines ('\n' :: rest) = '\n' :: joinLines rest := by
  apply joinLines.eq_3
  rintro _ _ rfl
  exact absurd rfl h

/-- What is put in begins with a line break, so it puts no space in front of a text. -/
theorem Wraps.head?_plainBreaks {text wrapped : List Char} (h : Wraps text wrapped)
    (hreturn : '\r' ∉ text) (hspace : text.head? ≠ some ' ') :
    (plainBreaks wrapped).head? ≠ some ' ' := by
  cases h with
  | nil => exact hspace
  | char c _ =>
    have hc : c ≠ '\r' := fun hc => hreturn (hc ▸ List.mem_cons_self)
    rw [plainBreaks_cons hc]
    exact hspace
  | continued hbreak _ =>
    rw [plainBreaks_continued hbreak]
    simp

/-- Unwrapping takes out what wrapping put in, and nothing else. -/
theorem Wraps.unwrap_eq {text wrapped : List Char} (h : Wraps text wrapped)
    (hplain : IsUnwrapped text) : unwrap wrapped = text := by
  unfold unwrap
  induction h with
  | nil => rfl
  | @char c text wrapped h ih =>
    have hc : c ≠ '\r' := fun hc => hplain.noReturn (hc ▸ List.mem_cons_self)
    rw [plainBreaks_cons hc]
    by_cases hfeed : c = '\n'
    · subst hfeed
      -- a space would follow the line feed only if one did in the text itself
      have hspace : text.head? ≠ some ' ' := by
        intro hhead
        obtain ⟨rest, rfl⟩ := List.head?_eq_some_iff.1 hhead
        exact hplain.noContinuation ⟨[], rest, rfl⟩
      rw [joinLines_feed (h.head?_plainBreaks hplain.tail.noReturn hspace), ih hplain.tail]
    · rw [joinLines_cons hfeed, ih hplain.tail]
  | continued hbreak _ ih =>
    rw [plainBreaks_continued hbreak]
    show joinLines (plainBreaks _) = _
    exact ih hplain

/-! ## The class path -/

theorem classPathTokens_congr {manifest other : String}
    (h : unwrap manifest.toList = unwrap other.toList) :
    classPathTokens manifest = classPathTokens other := by
  unfold classPathTokens
  rw [h]

/-- Where a manifest is wrapped does not show in its class path nor in what it depends on. -/
theorem class_path_of_wraps {manifest wrapped : String} (hplain : IsUnwrapped manifest.toList)
    (h : Wraps manifest.toList wrapped.toList) :
    classPathTokens wrapped = classPathTokens manifest ∧
      dependencies wrapped = dependencies manifest := by
  have htokens : classPathTokens wrapped = classPathTokens manifest := by
    apply classPathTokens_congr
    rw [h.unwrap_eq hplain, (wraps_self _).unwrap_eq hplain]
  refine ⟨htokens, ?_⟩
  unfold dependencies
  rw [htokens]

/-- A manifest whose header ends in a space. -/
def plainManifest : String :=
  "Class-Path: lib/a.jar conf/ \n\nName: x\n"

/-- The same manifest with breaks of each kind: in the name of the header, inside a token, in front of
spaces, two side by side, and around the ends of lines. -/
def wrappedManifest : String :=
  "Class\r -Path: lib/a.\r\n jar\n  conf/\n \r \r\n  \r \n\r\n \n\n Name: x\n\r "

theorem class_path_of_wraps_everywhere :
    IsUnwrapped plainManifest.toList ∧ Wraps plainManifest.toList wrappedManifest.toList ∧
      dependencies plainManifest = [.archive "a", .directory "conf"] ∧
      classPathTokens wrappedManifest = classPathTokens plainManifest ∧
      dependencies wrappedManifest = dependencies plainManifest := by
  have hplain : IsUnwrapped plainManifest.toList := ⟨by decide, by decide⟩
  have hfeed : ['\n'] ∈ lineBreaks := by decide
  have hreturnFeed : ['\r', '\n'] ∈ lineBreaks := by decide
  have hreturn : ['\r'] ∈ lineBreaks := by decide
  have hwraps : Wraps plainManifest.toList wrappedManifest.toList := by
    have hname := (wraps_self "Class".toList).append
      (.continued hreturn (wraps_self "-Path: lib/a.".toList))
    have harchive := hname.append (.continued hreturnFeed (wraps_self "jar".toList))
    have htokens := harchive.append (.continued hfeed (wraps_self " conf/".toList))
    have hend := htokens.append (.continued hfeed (.continued hreturn (.continued hreturnFeed
      (.char ' ' (.continued hreturn (wraps_self ['\n']))))))
    have hblank := hend.append (.continued hreturnFeed
      (.char '\n' (.continued hfeed (wraps_self "Name: x\n".toList))))
    exact hblank.append (.continued hreturn .nil)
  exact ⟨hplain, hwraps, by decide +kernel, class_path_of_wraps hplain hwraps⟩

end CodeAtlas.Manifest
