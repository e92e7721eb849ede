/-
# Changes that go on in two indices

The same change made in an index and in its mirror image gives mirrored results and mirrored indices.
The rules below prove this along the structure of a change.  Each of them also tells that the first
index evolves by elementary changes.

Two conditions are asked for at the end only, and hold at every step because no item is ever lost:
there are numbers left, and the relabelling sends the handles that the first index made to handles
that the second index makes.
-/
import CodeAtlas.Proofs.Index.Edits
import CodeAtlas.Proofs.Index.Mirrors

namespace CodeAtlas

open Index

variable {α β γ δ : Type}

/-! ## Changes that lose nothing -/

/-- A change that never loses an item. -/
def Edit.Continuing (change : Edit α) : Prop :=
  ∀ index, Continues index (change.run.run index).2

namespace Edit.Continuing

theorem pure (value : α) : (Pure.pure value : Edit α).Continuing :=
  fun index => Continues.refl index

theorem throw (error : GraphError) : (MonadExcept.throw error : Edit α).Continuing :=
  fun index => Continues.refl index

theorem lift {change : StateM Index α} (h : ∀ index, Continues index (change.run index).2) :
    Edit.Continuing (ExceptT.lift change : Edit α) :=
  h

theorem get_bind {next : Index → Edit α} (h : ∀ index, (next index).Continuing) :
    (get >>= next : Edit α).Continuing :=
  fun index => h index index

/-- What follows a change loses nothing of what the change leaves. -/
theorem continues_bind {next : α → Edit β} (h : ∀ value, (next value).Continuing) (change : Edit α)
    (index : Index) :
    Continues (change.run.run index).2 ((change >>= next).run.run index).2 := by
  rcases hchange : change.run.run index with ⟨error | value, after⟩
  · rw [run_bind_of_error hchange]
    exact Continues.refl after
  · rw [run_bind_of_ok hchange]
    exact h value after

theorem bind {change : Edit α} {next : α → Edit β} (hchange : change.Continuing)
    (h : ∀ value, (next value).Continuing) : (change >>= next : Edit β).Continuing :=
  fun index => (hchange index).trans (continues_bind h change index)

end Edit.Continuing

/-! ## Paired changes -/

variable {ρ : Relabelling} {allowed : ItemId → Prop}

namespace Index

/-- There are numbers left, and the relabelling sends the handles of the upper layer to handles of
the given generation. -/
structure Covers (ρ : Relabelling) (generation : Nat) (index : Index) : Prop where
  room : index.size < 2 ^ 32
  sends : ∀ {id : ItemId}, index.contains id → id.generation = index.generation →
    ρ.map id = ⟨id.raw, generation⟩

theorem Covers.before {a b : Index} {generation : Nat} (h : Covers ρ generation b)
    (hcontinues : Continues a b) : Covers ρ generation a :=
  ⟨Nat.lt_of_le_of_lt hcontinues.size_le h.room, fun hid hgeneration =>
    h.sends (hcontinues.keeps hid) (hgeneration.trans hcontinues.generation_eq.symm)⟩

end Index

/-- The results of two changes agree: both succeed, with values that belong together, or both are
refused with the same message. -/
inductive Matches (image : α → β) (holds : α → Prop) :
    Except GraphError α → Except GraphError β → Prop
  | ok (value : α) (hholds : holds value) : Matches image holds (.ok value) (.ok (image value))
  | refused {error error' : GraphError} (hmessage : error'.message = error.message) :
      Matches image holds (.error error) (.error error')

theorem Matches.imp {image : α → β} {holds holds' : α → Prop} {left : Except GraphError α}
    {right : Except GraphError β} (h : Matches image holds left right)
    (himp : ∀ {value}, holds value → holds' value) : Matches image holds' left right := by
  cases h with
  | ok value hholds => exact .ok value (himp hholds)
  | refused hmessage => exact .refused hmessage

/-- What two changes, begun in `a` and its mirror image `b`, leave behind. -/
structure Agree (ρ : Relabelling) (allowed : ItemId → Prop) (a b : Index) (image : α → β)
    (post : α → Index → Prop) (left : Except GraphError α × Index)
    (right : Except GraphError β × Index) : Prop where
  evolves : Evolves allowed a left.2
  generation_eq : right.2.generation = b.generation
  mirrors : Mirrors ρ left.2 right.2
  results : Matches image (fun value => post value left.2) left.1 right.1

/-- Two changes that do the same to an index and to its mirror image. -/
structure Paired (ρ : Relabelling) (allowed : ItemId → Prop) (pre : Index → Prop) (change : Edit α)
    (twin : Edit β) (image : α → β) (post : α → Index → Prop) : Prop where
  continues : change.Continuing
  works : ∀ {a b : Index}, Mirrors ρ a b → pre a →
    Covers ρ b.generation (change.run.run a).2 →
    Agree ρ allowed a b image post (change.run.run a) (twin.run.run b)

namespace Paired

variable {pre : Index → Prop} {image : α → β} {image' : γ → δ} {post : α → Index → Prop}
  {final : γ → Index → Prop}

theorem pure {value : α} {value' : β} (hvalue : value' = image value)
    (hpost : ∀ {index : Index}, pre index → post value index) :
    Paired ρ allowed pre (Pure.pure value) (Pure.pure value') image post := by
  subst hvalue
  exact ⟨Edit.Continuing.pure value, fun {a _} hmirrors hpre _ =>
    ⟨Evolves.refl a, rfl, hmirrors, .ok value (hpost hpre)⟩⟩

theorem throw {error error' : GraphError} (hmessage : error'.message = error.message) :
    Paired ρ allowed pre (MonadExcept.throw error) (MonadExcept.throw error') image post :=
  ⟨Edit.Continuing.throw error, fun {a _} hmirrors _ _ =>
    ⟨Evolves.refl a, rfl, hmirrors, .refused hmessage⟩⟩

/-- Changes that cannot be refused. -/
theorem lift {change : StateM Index α} {twin : StateM Index β}
    (hcontinues : ∀ index, Continues index (change.run index).2)
    (h : ∀ {a b : Index}, Mirrors ρ a b → pre a → Covers ρ b.generation (change.run a).2 →
      Evolves allowed a (change.run a).2 ∧ (twin.run b).2.generation = b.generation ∧
        Mirrors ρ (change.run a).2 (twin.run b).2 ∧ (twin.run b).1 = image (change.run a).1 ∧
        post (change.run a).1 (change.run a).2) :
    Paired ρ allowed pre (ExceptT.lift change) (ExceptT.lift twin) image post := by
  refine ⟨Edit.Continuing.lift hcontinues, ?_⟩
  intro a b hmirrors hpre hcovers
  obtain ⟨hevolves, hgeneration, hafter, hvalue, hpost⟩ := h hmirrors hpre hcovers
  refine ⟨hevolves, hgeneration, hafter, ?_⟩
  have hmatch : Matches image (fun value => post value (change.run a).2)
      (.ok (change.run a).1) (.ok (image (change.run a).1)) := .ok _ hpost
  rw [← hvalue] at hmatch
  exact hmatch

/-- Reading the index. -/
theorem get_bind {next : Index → Edit α} {next' : Index → Edit β}
    (hcontinues : ∀ index, (next index).Continuing)
    (h : ∀ {a b : Index}, Mirrors ρ a b → pre a →
      Paired ρ allowed (fun index => index = a) (next a) (next' b) image post) :
    Paired ρ allowed pre (get >>= next) (get >>= next') image post :=
  ⟨Edit.Continuing.get_bind hcontinues, fun hmirrors hpre hcovers =>
    (h hmirrors hpre).works hmirrors rfl hcovers⟩

theorem weaken {pre' : Index → Prop} {change : Edit α} {twin : Edit β}
    (h : Paired ρ allowed pre change twin image post)
    (hpre : ∀ {index : Index}, pre' index → pre index) :
    Paired ρ allowed pre' change twin image post :=
  ⟨h.continues, fun hmirrors hindex => h.works hmirrors (hpre hindex)⟩

/-- What outlives the change holds afterwards as well. -/
theorem keeping {keep : Index → Prop} {change : Edit α} {twin : Edit β}
    (h : Paired ρ allowed pre change twin image post)
    (hkeep : ∀ {a b : Index}, Continues a b → pre a → keep b) :
    Paired ρ allowed pre change twin image (fun value index => keep index ∧ post value index) := by
  refine ⟨h.continues, ?_⟩
  intro a b hmirrors hindex hcovers
  obtain ⟨hevolves, hgeneration, hafter, hresults⟩ := h.works hmirrors hindex hcovers
  refine ⟨hevolves, hgeneration, hafter, hresults.imp (fun hpost => ?_)⟩
  exact ⟨hkeep hevolves.continues hindex, hpost⟩

/-- One change after the other. -/
theorem andThen {change : Edit α} {twin : Edit β} {next : α → Edit γ} {next' : β → Edit δ}
    (h : Paired ρ allowed pre change twin image post)
    (hnext : ∀ value, Paired ρ allowed (post value) (next value) (next' (image value)) image'
      final) :
    Paired ρ allowed pre (change >>= next) (twin >>= next') image' final := by
  have hcontinues : ∀ value, (next value).Continuing := fun value => (hnext value).continues
  refine ⟨h.continues.bind hcontinues, ?_⟩
  intro a b hmirrors hpre hcovers
  have hmiddle := h.works hmirrors hpre
    (hcovers.before (Edit.Continuing.continues_bind hcontinues change a))
  rcases hchange : change.run.run a with ⟨result, after⟩
  rcases htwin : twin.run.run b with ⟨result', after'⟩
  rw [hchange, htwin] at hmiddle
  obtain ⟨hevolves, hgeneration, hafter, hresults⟩ := hmiddle
  cases hresults with
  | refused hmessage =>
    rw [Edit.run_bind_of_error hchange, Edit.run_bind_of_error htwin]
    exact ⟨hevolves, hgeneration, hafter, .refused hmessage⟩
  | ok value hpost =>
    rw [Edit.run_bind_of_ok hchange] at hcovers ⊢
    rw [Edit.run_bind_of_ok htwin]
    rw [← hgeneration] at hcovers
    obtain ⟨hevolves', hgeneration', hend, hfinal⟩ := (hnext value).works hafter hpost hcovers
    exact ⟨hevolves.trans hevolves', hgeneration'.trans hgeneration, hend, hfinal⟩

end Paired

end CodeAtlas
