/-
# Profiles

A finite collection of ranked things has a profile: how many things of each rank it holds.  A
profile descends when at some rank it gets smaller and above that rank nothing changes.  Removing a
thing and adding any number of things of lower rank is such a step, and there is no endless chain
of them.
-/

namespace CodeAtlas.Tasks

/-- How many things there are of each rank; from some rank on there are none. -/
structure Profile where
  count : Nat → Nat
  bounded : ∃ n, ∀ rank, n ≤ rank → count rank = 0

namespace Profile

/-- `f` is smaller than `g` at some rank and equal to it above. -/
def Descends (f g : Nat → Nat) : Prop :=
  ∃ rank, f rank < g rank ∧ ∀ above, rank < above → f above = g above

/-- The counts below a rank. -/
def cut (n : Nat) (f : Nat → Nat) (rank : Nat) : Nat :=
  if rank < n then f rank else 0

theorem cut_eq_zero (n : Nat) (f : Nat → Nat) (rank : Nat) (h : n ≤ rank) : cut n f rank = 0 := by
  simp [cut, Nat.not_lt.2 h]

/-- A descent from counts that vanish from `n + 1` on is at rank `n` or below it. -/
theorem descends_cases {n : Nat} {f g : Nat → Nat} (hg : ∀ rank, n + 1 ≤ rank → g rank = 0)
    (h : Descends f g) :
    (∀ rank, n + 1 ≤ rank → f rank = 0) ∧
      (f n < g n ∨ f n = g n ∧ Descends (cut n f) (cut n g)) := by
  obtain ⟨rank, hlt, heq⟩ := h
  have hrank : rank ≤ n := by
    by_cases hle : rank ≤ n
    · exact hle
    · have := hg rank (by omega)
      omega
  refine ⟨fun above habove => ?_, ?_⟩
  · rw [heq above (by omega), hg above habove]
  · by_cases hn : rank = n
    · exact .inl (hn ▸ hlt)
    · refine .inr ⟨heq n (by omega), rank, ?_, fun above habove => ?_⟩
      · simpa [cut, show rank < n by omega] using hlt
      · by_cases ha : above < n
        · simpa [cut, ha] using heq above habove
        · simp [cut, ha]

/-- No endless descent starts from counts that vanish from `n` on. -/
theorem acc_of_bounded (n : Nat) (f : Nat → Nat) (hf : ∀ rank, n ≤ rank → f rank = 0) :
    Acc Descends f := by
  induction n generalizing f with
  | zero =>
    refine ⟨f, fun g hg => ?_⟩
    obtain ⟨rank, hlt, _⟩ := hg
    have := hf rank (by omega)
    omega
  | succ n ih =>
    generalize htop : f n = top
    induction top using Nat.strongRecOn generalizing f with
    | ind top ihTop =>
      generalize hlow : cut n f = low
      have hacc : Acc Descends low := hlow ▸ ih (cut n f) (cut_eq_zero n f)
      induction hacc generalizing f with
      | intro low _ ihLow =>
        refine ⟨f, fun g hg => ?_⟩
        obtain ⟨hgBound, hcase⟩ := descends_cases hf hg
        rcases hcase with hlt | ⟨heq, hcut⟩
        · exact ihTop (g n) (htop ▸ hlt) g hgBound rfl
        · exact ihLow (cut n g) (hlow ▸ hcut) g hgBound (heq.trans htop) rfl

/-- Profiles are well-founded under descent. -/
instance : WellFoundedRelation Profile where
  rel p q := Descends p.count q.count
  wf := ⟨fun p => InvImage.accessible Profile.count
    (p.bounded.elim fun n hn => acc_of_bounded n p.count hn)⟩

end Profile

end CodeAtlas.Tasks
