/-
# Stretches of a text

A place in a text is a byte offset, and a stretch lies between two places that are each at the start
of a character or at the end of the text.  What such a stretch holds is a run of characters of the
text, and two stretches that meet make up one.
-/
import CodeAtlas.Text.Split
import Mathlib.Data.String.Basic

namespace CodeAtlas.Text

open String (utf8Len)

/-! ## Places in a text -/

/-- Two beginnings of a text that have as many bytes are the same. -/
theorem eq_of_prefix_of_utf8Len_eq {first second whole : List Char} (hfirst : first <+: whole)
    (hsecond : second <+: whole) (hlen : utf8Len first = utf8Len second) : first = second := by
  have hext : ∀ (before more : List Char), utf8Len (before ++ more) = utf8Len before → more = [] := by
    intro before more hsame
    cases more with
    | nil => rfl
    | cons c rest =>
      rw [String.utf8Len_append, String.utf8Len_cons] at hsame
      have := Char.utf8Size_pos c
      omega
  rcases List.prefix_or_prefix_of_prefix hfirst hsecond with ⟨more, rfl⟩ | ⟨more, rfl⟩
  · rw [hext first more hlen.symm, List.append_nil]
  · rw [hext second more hlen, List.append_nil]

/-- The places of a text are the ends of its beginnings. -/
theorem isValid_iff_exists_prefix {s : String} {place : Nat} :
    String.Pos.Raw.isValid s ⟨place⟩ = true ↔
      ∃ before, before <+: s.toList ∧ utf8Len before = place := by
  rw [String.Pos.Raw.isValid_eq_true_iff, String.Pos.Raw.isValid_iff_exists_take_toList]
  constructor
  · rintro ⟨i, hi⟩
    rw [String.utf8ByteSize_ofList] at hi
    exact ⟨s.toList.take i, List.take_prefix i _, hi.symm⟩
  · rintro ⟨before, ⟨after, hs⟩, rfl⟩
    refine ⟨before.length, ?_⟩
    rw [← hs, List.take_left, String.utf8ByteSize_ofList]

/-- What a stretch of a text holds. -/
theorem sliceBytes?_eq_some_iff {s text : String} {start stop : Nat} :
    sliceBytes? s start stop = some text ↔
      ∃ before after, s.toList = before ++ text.toList ++ after ∧ utf8Len before = start ∧
        utf8Len before + utf8Len text.toList = stop := by
  rw [sliceBytes?]
  constructor
  · intro h
    split at h
    · rename_i hplaces
      simp only [Bool.and_eq_true, decide_eq_true_eq] at hplaces
      obtain ⟨⟨hle, hstart⟩, hstop⟩ := hplaces
      obtain ⟨before, hbefore, rfl⟩ := isValid_iff_exists_prefix.1 hstart
      obtain ⟨upTo, hupTo, rfl⟩ := isValid_iff_exists_prefix.1 hstop
      obtain ⟨middle, rfl⟩ : before <+: upTo := by
        rcases List.prefix_or_prefix_of_prefix hbefore hupTo with hprefix | hprefix
        · exact hprefix
        · obtain rfl := eq_of_prefix_of_utf8Len_eq hupTo hbefore
            (Nat.le_antisymm (String.utf8Len_le_of_prefix hprefix) hle)
          exact List.prefix_rfl
      obtain ⟨after, hs⟩ := hupTo
      rw [String.utf8Len_append, ← String.ofList_toList (s := s), ← hs, String.extract_of_valid] at h
      obtain rfl := Option.some.inj h
      rw [String.toList_ofList]
      exact ⟨before, after, hs.symm, rfl, (String.utf8Len_append _ _).symm⟩
    · simp at h
  · rintro ⟨before, after, hs, rfl, rfl⟩
    have hstart : String.Pos.Raw.isValid s ⟨utf8Len before⟩ = true :=
      isValid_iff_exists_prefix.2 ⟨before, ⟨text.toList ++ after, by rw [hs, List.append_assoc]⟩, rfl⟩
    have hstop : String.Pos.Raw.isValid s ⟨utf8Len before + utf8Len text.toList⟩ = true :=
      isValid_iff_exists_prefix.2
        ⟨before ++ text.toList, ⟨after, hs.symm⟩, String.utf8Len_append _ _⟩
    rw [hstart, hstop, if_pos (by simp)]
    rw [← String.ofList_toList (s := s), hs, String.extract_of_valid, String.ofList_toList]

theorem utf8ByteSize_eq (s : String) : s.utf8ByteSize = utf8Len s.toList := by
  rw [← String.utf8ByteSize_ofList, String.ofList_toList]

/-- The stretch from a place on up to the end. -/
theorem sliceBytes?_rest {s : String} {before rest : List Char} (h : s.toList = before ++ rest) :
    sliceBytes? s (utf8Len before) s.utf8ByteSize = some (String.ofList rest) := by
  refine sliceBytes?_eq_some_iff.2 ⟨before, [], ?_, rfl, ?_⟩
  · rw [h, String.toList_ofList, List.append_nil]
  · rw [utf8ByteSize_eq, h, String.toList_ofList, String.utf8Len_append]

/-- Two stretches that meet make up one. -/
theorem sliceBytes?_append {s first second : String} {start middle stop : Nat}
    (hfirst : sliceBytes? s start middle = some first)
    (hsecond : sliceBytes? s middle stop = some second) :
    sliceBytes? s start stop = some (first ++ second) := by
  obtain ⟨before, rest, hs, rfl, rfl⟩ := sliceBytes?_eq_some_iff.1 hfirst
  obtain ⟨upTo, after, hs', hlen, rfl⟩ := sliceBytes?_eq_some_iff.1 hsecond
  have hupTo : upTo = before ++ first.toList := by
    refine eq_of_prefix_of_utf8Len_eq ⟨second.toList ++ after, ?_⟩ ⟨rest, hs.symm⟩ ?_
    · rw [hs', List.append_assoc]
    · rw [hlen, String.utf8Len_append]
  subst hupTo
  refine sliceBytes?_eq_some_iff.2 ⟨before, after, ?_, rfl, ?_⟩
  · rw [hs', String.toList_append]
    simp only [List.append_assoc]
  · rw [String.toList_append, String.utf8Len_append, String.utf8Len_append, Nat.add_assoc]

/-! ## Small letters -/

theorem utf8Size_toLower (c : Char) : c.toLower.utf8Size = c.utf8Size := by
  delta Char.toLower
  split
  · rename_i hupper
    have hle : c.val.toNat ≤ 90 := hupper.2
    have hlower : (c.val + ('a'.val - 'A'.val)).toNat = c.val.toNat + 32 := by
      rw [UInt32.toNat_add, show ('a'.val - 'A'.val).toNat = 32 by decide,
        Nat.mod_eq_of_lt (by omega)]
    have hone : ∀ d : Char, d.val.toNat ≤ 127 → d.utf8Size = 1 :=
      fun _ hd => Char.utf8Size_eq_one_iff.2 hd
    rw [hone c (by omega), hone _ (by rw [hlower]; omega)]
  · rfl

/-- Making letters small keeps the number of bytes. -/
theorem utf8Len_map_toLower (chars : List Char) : utf8Len (chars.map Char.toLower) = utf8Len chars := by
  induction chars with
  | nil => rfl
  | cons c chars ih =>
    rw [List.map_cons, String.utf8Len_cons, String.utf8Len_cons, ih, utf8Size_toLower]

end CodeAtlas.Text
