/-
# Changes that are not refused

A change of an index is safe under a condition when it is not refused there, keeps the index live,
extends it and establishes what is said about its result.  Conditions that outlive every extension
are carried along a sequence of changes.  The upper layer grows whatever happens, so that room at the
end means room at every step.
-/
import CodeAtlas.Proofs.Index.Growth

namespace CodeAtlas

open Index

variable {α β : Type}

/-! ## Running changes -/

namespace Edit

theorem run_lift (change : StateM Index α) (index : Index) :
    (ExceptT.lift change : Edit α).run.run index =
      (.ok (change.run index).1, (change.run index).2) := rfl

theorem run_get_bind (next : Index → Edit β) (index : Index) :
    ((get : Edit Index) >>= next).run.run index = (next index).run.run index := rfl

theorem run_bind_of_ok {change : Edit α} {next : α → Edit β} {index after : Index} {value : α}
    (h : change.run.run index = (.ok value, after)) :
    (change >>= next).run.run index = (next value).run.run after := by
  have hrun : (change >>= next).run.run index =
      (ExceptT.bindCont next (change.run.run index).1).run (change.run.run index).2 := rfl
  rw [hrun, h]
  rfl

theorem run_bind_of_error {change : Edit α} {next : α → Edit β} {index after : Index}
    {error : GraphError} (h : change.run.run index = (.error error, after)) :
    (change >>= next).run.run index = (.error error, after) := by
  have hrun : (change >>= next).run.run index =
      (ExceptT.bindCont next (change.run.run index).1).run (change.run.run index).2 := rfl
  rw [hrun, h]
  rfl

/-- A sequence that is not refused has its parts not refused. -/
theorem exists_of_run_bind_ok {change : Edit α} {next : α → Edit β} {index : Index} {result : β}
    (h : ((change >>= next).run.run index).1 = .ok result) :
    ∃ value after, change.run.run index = (.ok value, after) ∧
      (change >>= next).run.run index = (next value).run.run after := by
  rcases hchange : change.run.run index with ⟨error | value, after⟩
  · rw [run_bind_of_error hchange] at h
    simp at h
  · exact ⟨value, after, rfl, run_bind_of_ok hchange⟩

/-- What holds of every result of a change that is not refused. -/
def Yields (change : Edit α) (holds : α → Prop) : Prop :=
  ∀ index value, (change.run.run index).1 = .ok value → holds value

theorem yields_pure {holds : α → Prop} {value : α} (h : holds value) :
    (pure value : Edit α).Yields holds := by
  rintro index result hok
  obtain rfl : value = result := Except.ok.inj hok
  exact h

theorem yields_bind (change : Edit α) {next : α → Edit β} {holds : β → Prop}
    (h : ∀ value, (next value).Yields holds) : (change >>= next : Edit β).Yields holds := by
  intro index result hok
  obtain ⟨middle, _, _, hnext⟩ := exists_of_run_bind_ok hok
  rw [hnext] at hok
  exact h middle _ _ hok

end Edit

/-! ## Safe changes -/

/-- A condition that holds in every extension of an index where it holds. -/
def Stable (pre : Index → Prop) : Prop :=
  ∀ a b : Index, a.Extends b → pre a → pre b

theorem stable_true : Stable (fun _ => True) :=
  fun _ _ _ _ => trivial

theorem stable_const (fact : Prop) : Stable (fun _ => fact) :=
  fun _ _ _ hfact => hfact

theorem stable_isKind (id : ItemId) (kind : ItemKind) : Stable (fun index => index.IsKind id kind) :=
  fun _ _ hext hid => hext.isKind hid

theorem Stable.and {p q : Index → Prop} (hp : Stable p) (hq : Stable q) :
    Stable (fun index => p index ∧ q index) :=
  fun a b hext hboth => ⟨hp a b hext hboth.1, hq a b hext hboth.2⟩

theorem Stable.forall_mem {p : α → Index → Prop} (hp : ∀ value, Stable (p value)) (list : List α) :
    Stable (fun index => ∀ value ∈ list, p value index) :=
  fun a b hext hall value hvalue => hp value a b hext (hall value hvalue)

/-- A change that is not refused under a condition. -/
structure Safe (pre : Index → Prop) (change : Edit α) (post : α → Index → Prop) : Prop where
  grown : ∀ index, Grown index (change.run.run index).2
  works : ∀ {index : Index}, index.Live → pre index → (change.run.run index).2.HasRoom →
    (change.run.run index).2.Live ∧ index.Extends (change.run.run index).2 ∧
      ∃ value, (change.run.run index).1 = .ok value ∧ post value (change.run.run index).2

namespace Safe

variable {pre pre' : Index → Prop} {post post' : α → Index → Prop} {final : β → Index → Prop}

theorem weaken {change : Edit α} (h : Safe pre change post)
    (hpre : ∀ {index : Index}, index.Live → pre' index → pre index)
    (hpost : ∀ {value : α} {index : Index}, index.Live → post value index → post' value index) :
    Safe pre' change post' := by
  refine ⟨h.grown, ?_⟩
  intro index hlive hindex hroom
  obtain ⟨hafter, hext, value, hvalue, hholds⟩ := h.works hlive (hpre hlive hindex) hroom
  exact ⟨hafter, hext, value, hvalue, hpost hafter hholds⟩

theorem pure (value : α) (hpost : ∀ {index : Index}, index.Live → pre index → post value index) :
    Safe pre (Pure.pure value) post := by
  refine ⟨fun index => Grown.refl index, ?_⟩
  intro index hlive hindex _
  exact ⟨hlive, Extends.refl index, value, rfl, hpost hlive hindex⟩

theorem throw (error : GraphError) (hpre : ∀ {index : Index}, index.Live → ¬ pre index) :
    Safe pre (throw error : Edit α) post :=
  ⟨fun index => Grown.refl index, fun hlive hindex _ => absurd hindex (hpre hlive)⟩

/-- A change that cannot be refused. -/
theorem lift {change : StateM Index α} (hgrown : ∀ index, Grown index (change.run index).2)
    (hworks : ∀ {index : Index}, index.Live → pre index → (change.run index).2.HasRoom →
      (change.run index).2.Live ∧ index.Extends (change.run index).2 ∧
        post (change.run index).1 (change.run index).2) :
    Safe pre (ExceptT.lift change : Edit α) post := by
  refine ⟨hgrown, ?_⟩
  intro index hlive hindex hroom
  obtain ⟨hafter, hext, hpost⟩ := hworks hlive hindex hroom
  exact ⟨hafter, hext, _, rfl, hpost⟩

/-- Two changes one after the other.  Of the condition for the first, what outlives it is kept. -/
theorem seq {keep : Index → Prop} {change : Edit α} {next : α → Edit β} (h : Safe pre change post)
    (hkeep : ∀ a b : Index, a.Extends b → pre a → keep b)
    (hnext : ∀ value, Safe (fun index => keep index ∧ post value index) (next value) final) :
    Safe pre (change >>= next) final := by
  refine ⟨fun index => ?_, ?_⟩
  · have hgrown := h.grown index
    rcases hchange : change.run.run index with ⟨error | value, after⟩
    · rw [Edit.run_bind_of_error hchange]
      rwa [hchange] at hgrown
    · rw [Edit.run_bind_of_ok hchange]
      rw [hchange] at hgrown
      exact hgrown.trans ((hnext value).grown after)
  · intro index hlive hindex hroom
    rcases hchange : change.run.run index with ⟨error | value, after⟩
    · rw [Edit.run_bind_of_error hchange] at hroom
      have hworks := h.works hlive hindex (by rwa [hchange])
      rw [hchange] at hworks
      obtain ⟨_, _, _, hvalue, _⟩ := hworks
      exact absurd hvalue (by simp)
    · rw [Edit.run_bind_of_ok hchange] at hroom ⊢
      have hworks := h.works hlive hindex
        (by rw [hchange]; exact ((hnext value).grown after).hasRoom hroom)
      rw [hchange] at hworks
      obtain ⟨hafter, hext, found, hvalue, hholds⟩ := hworks
      obtain rfl : value = found := Except.ok.inj hvalue
      obtain ⟨hend, hext', result, hresult, hfinal⟩ :=
        (hnext value).works hafter ⟨hkeep _ _ hext hindex, hholds⟩ hroom
      exact ⟨hend, hext.trans hext', result, hresult, hfinal⟩

theorem bind {change : Edit α} {next : α → Edit β} (h : Safe pre change post) (hstable : Stable pre)
    (hnext : ∀ value, Safe (fun index => pre index ∧ post value index) (next value) final) :
    Safe pre (change >>= next) final :=
  h.seq hstable hnext

/-- Two changes one after the other, where the second needs only what the first gives. -/
theorem andThen {change : Edit α} {next : α → Edit β} (h : Safe pre change post)
    (hnext : ∀ value, Safe (post value) (next value) final) : Safe pre (change >>= next) final :=
  h.seq (fun _ _ _ _ => trivial)
    (fun value => (hnext value).weaken (fun _ hboth => hboth.2) (fun _ hfinal => hfinal))

/-- Reading the index. -/
theorem get_bind {next : Index → Edit β}
    (h : ∀ index, Safe (fun other => other = index ∧ pre other) (next index) final) :
    Safe pre (get >>= next) final :=
  ⟨fun index => (h index).grown index, fun {index} hlive hindex hroom =>
    (h index).works hlive ⟨rfl, hindex⟩ hroom⟩

/-- A loop keeps what each of its steps keeps. -/
theorem foldlM {σ : Type} {inv : σ → Index → Prop} {step : σ → α → Edit σ} (hstable : Stable pre)
    (list : List α)
    (h : ∀ state, ∀ value ∈ list, Safe (fun index => pre index ∧ inv state index) (step state value) inv)
    (state : σ) : Safe (fun index => pre index ∧ inv state index) (list.foldlM step state) inv := by
  induction list generalizing state with
  | nil => exact Safe.pure state (fun _ hboth => hboth.2)
  | cons first rest ih =>
    rw [List.foldlM_cons]
    refine (h state first List.mem_cons_self).seq (fun a b hext hboth => hstable a b hext hboth.1) ?_
    exact ih (fun state value hvalue => h state value (List.mem_cons_of_mem _ hvalue))

/-- A loop whose steps need only a condition that outlives them. -/
theorem foldlM_of_stable {σ : Type} {step : σ → α → Edit σ} (hstable : Stable pre) (list : List α)
    (h : ∀ state, ∀ value ∈ list, Safe pre (step state value) (fun _ _ => True)) (state : σ) :
    Safe pre (list.foldlM step state) (fun _ _ => True) := by
  have hloop : Safe (fun index => pre index ∧ True) (list.foldlM step state) (fun _ _ => True) :=
    Safe.foldlM hstable list (fun state value hvalue =>
      (h state value hvalue).weaken (fun _ hboth => hboth.1) (fun _ hpost => hpost)) state
  exact hloop.weaken (fun _ hpre => ⟨hpre, trivial⟩) (fun _ hpost => hpost)

/-- Changes made for each member of a list, with the results collected. -/
theorem mapM {each : α → Edit β} {holds : β → Index → Prop} (hstable : Stable pre)
    (hholds : ∀ result, Stable (holds result)) (list : List α)
    (h : ∀ value ∈ list, Safe pre (each value) holds) :
    Safe pre (list.mapM each) (fun results index => ∀ result ∈ results, holds result index) := by
  induction list with
  | nil => exact Safe.pure [] (by simp)
  | cons first rest ih =>
    rw [List.mapM_cons]
    refine (h first List.mem_cons_self).bind hstable (fun result => ?_)
    have hrest := ih (fun value hvalue => h value (List.mem_cons_of_mem _ hvalue))
    refine (hrest.weaken (fun _ hboth => hboth.1) (fun _ hall => hall)).bind
      (hstable.and (hholds result)) (fun results => Safe.pure _ ?_)
    intro index _ hall other hother
    rcases List.mem_cons.1 hother with rfl | hother
    · exact hall.1.2
    · exact hall.2 other hother

/-- Changes made for each member of a list. -/
theorem forM {each : α → Edit PUnit} (hstable : Stable pre) (list : List α)
    (h : ∀ value ∈ list, Safe pre (each value) (fun _ _ => True)) :
    Safe pre (list.forM each) (fun _ _ => True) := by
  induction list with
  | nil => exact Safe.pure _ (fun _ _ => trivial)
  | cons first rest ih =>
    show Safe pre (each first >>= fun _ => rest.forM each) _
    refine (h first List.mem_cons_self).bind hstable (fun _ => ?_)
    have hrest := ih (fun value hvalue => h value (List.mem_cons_of_mem _ hvalue))
    exact hrest.weaken (fun _ hboth => hboth.1) (fun _ hall => hall)

end Safe

end CodeAtlas
