/-
# Changes that keep an index in order

Finding, creating and changing items keeps an index sealed and its items told apart by their keys, as
long as only items of the index are recorded as attributes and there are numbers left.  The rules below prove this along the structure
of a change.  No item is ever lost, so that what is known to be in the index stays there, and room
at the end means room at every step.

Nothing is said about refusals: a change that is refused halfway leaves an orderly index, too.
-/
import CodeAtlas.Proofs.Index.Attributes
import CodeAtlas.Proofs.Resolve.Classes

namespace CodeAtlas

open Index

variable {α β : Type}

namespace Index

variable {a b index : Index}

/-! ## Items told apart by their keys -/

/-- No two items have the same owner, kind and name, methods apart. -/
def Distinct (index : Index) : Prop :=
  ∀ key : ItemKey, key.kind ≠ .method → ∀ id other : ItemId,
    index.bears key id → index.bears key other → id = other

theorem Distinct.of_bears (h : a.Distinct) (hbears : ∀ key, b.bears key = a.bears key) :
    b.Distinct := by
  intro key hkey id other hid hother
  rw [hbears] at hid hother
  exact h key hkey id other hid hother

theorem bears_relink (index : Index) (source target : ItemId) (f g : Array ItemId → Array ItemId)
    (key : ItemKey) : (index.relink source target f g).bears key = index.bears key := by
  rw [relink, bears_modify (keepsPlace_incoming g), bears_modify (keepsPlace_dependencies f)]

/-- An item is created only where none is found. -/
theorem Distinct.insertItem (h : index.Distinct) (hcoherent : index.Coherent)
    {parent : Option ItemId} {name : String} {kind : ItemKind} (htake : index.CanTake parent kind)
    (hnew : kind = .method ∨ index.findItem parent name kind = none) :
    (index.insertItem parent name kind).2.Distinct := by
  intro key hkey
  have hafter : ∀ id, (index.insertItem parent name kind).2.bears key id →
      (⟨parent, kind, name⟩ : ItemKey) = key ∧ id = index.nextId ∨ index.bears key id := by
    intro id hid
    rw [bears, any_get?_insertItem hcoherent.tallied (htake.ne_nextId hcoherent.tallied) name kind _
      (fun _ _ => rfl)] at hid
    split at hid
    · rename_i hnext
      exact Or.inl ⟨decide_eq_true_iff.1 hid, hnext⟩
    · exact Or.inr hid
  have hnone : (⟨parent, kind, name⟩ : ItemKey) = key → ∀ id, ¬ index.bears key id := by
    rintro rfl id hid
    have hempty := hnew.resolve_left hkey
    rw [hcoherent.registered.findItem_eq parent name kind hkey, List.head?_eq_none_iff,
      List.filter_eq_nil_iff] at hempty
    obtain ⟨item, hget, _⟩ := Option.any_eq_true _ _ |>.1 hid
    exact hempty id (mem_ids_of_get? hcoherent.stacked hget) hid
  intro id other hid hother
  rcases hafter id hid with ⟨hsame, rfl⟩ | hold
  · rcases hafter other hother with ⟨_, rfl⟩ | hother
    · rfl
    · exact absurd hother (hnone hsame other)
  · rcases hafter other hother with ⟨hsame, _⟩ | hother
    · exact absurd hold (hnone hsame id)
    · exact h key hkey id other hold hother

theorem Change.distinct {allowed : ItemId → Prop} (h : Change allowed a b) (ha : a.Coherent)
    (hdistinct : a.Distinct) : b.Distinct := by
  cases h with
  | set id settings _ =>
    exact hdistinct.of_bears (bears_modify (Setting.keepsPlace_applyAll settings) a id)
  | insert htake hnew => exact hdistinct.insertItem ha htake hnew
  | addDependency source target =>
    rw [Index.addDependency]
    split
    · exact hdistinct
    · exact hdistinct.of_bears
        (bears_relink a source target (insertNew · target) (insertNew · source))
  | removeDependency source target =>
    exact hdistinct.of_bears (bears_relink a source target (·.erase target) (·.erase source))

theorem Evolves.distinct {allowed : ItemId → Prop} (h : Evolves allowed a b) (ha : a.Coherent)
    (hdistinct : a.Distinct) (hroom : b.size < 2 ^ 32) : b.Distinct := by
  induction h with
  | refl => exact hdistinct
  | tail hbefore hchange ih =>
    have hless := Nat.lt_of_le_of_lt hchange.continues.size_le hroom
    exact hchange.distinct (Evolves.coherent hbefore ha hless) (ih hless)

/-! ## Orderly indices -/

/-- A sealed index whose items are told apart by their keys. -/
structure Orderly (index : Index) : Prop extends index.Sealed where
  distinct : index.Distinct

theorem Orderly.evolves (h : a.Orderly) (hevolves : Evolves (fun _ => False) a b)
    (hroom : b.size < 2 ^ 32) : b.Orderly :=
  ⟨⟨hevolves.coherent h.coherent hroom,
    hevolves.attributed h.coherent h.attributed (fun _ hfalse => hfalse.elim) hroom⟩,
    hevolves.distinct h.coherent h.distinct hroom⟩

theorem orderly_empty (generation : Nat) : (empty generation).Orderly := by
  refine ⟨⟨coherent_empty generation, attributed_empty generation⟩, fun _ _ id _ hid => ?_⟩
  simp [bears, get?_empty] at hid

/-- A new layer changes no item. -/
theorem Orderly.onBase (h : index.Orderly) {generation : Nat}
    (hnew : ∀ id ∈ index.ids, id.generation ≠ generation) : (onBase generation index).Orderly := by
  have hget := get?_onBase h.coherent.stacked hnew
  refine ⟨⟨coherent_onBase h.coherent hnew, h.attributed.of_attributes (fun id hid => ?_)
    (fun id item hitem => Or.inr ⟨item, (hget id).symm.trans hitem, rfl⟩)⟩,
    h.distinct.of_bears (fun key => ?_)⟩
  · rw [contains, hget]
    exact hid
  · funext id
    rw [bears, bears, hget]

/-- A step keeps items that are told apart by their keys. -/
theorem Step.distinct (h : Step a b) (ha : a.Coherent) (hdistinct : a.Distinct)
    (hroom : b.size < 2 ^ 32) : b.Distinct := by
  cases h with
  | operation operation => exact (ha.evolves_run operation hroom).distinct ha hdistinct hroom
  | layer hnew =>
    have hget := get?_onBase ha.stacked (generation_ne_of_mem_ids ha.stacked hnew)
    refine hdistinct.of_bears (fun key => ?_)
    funext id
    rw [bears, bears, hget]

theorem Reachable.distinct (h : index.Reachable) (hroom : index.size < 2 ^ 32) : index.Distinct := by
  obtain ⟨generation, hsteps⟩ := h
  induction hsteps with
  | refl => exact (orderly_empty generation).distinct
  | tail hbefore hstep ih =>
    have hless := Nat.lt_of_le_of_lt hstep.size_le hroom
    exact hstep.distinct (Reachable.coherent ⟨generation, hbefore⟩ hless) (ih hless) hroom

/-- What was built by recording items of the index only is orderly. -/
theorem ClosedReachable.isOrderly (h : index.ClosedReachable) (hroom : index.size < 2 ^ 32) :
    index.Orderly := by
  refine ⟨h.isSealed hroom, Reachable.distinct ?_ hroom⟩
  obtain ⟨generation, hsteps⟩ := h
  exact ⟨generation, Relation.ReflTransGen.mono (fun _ _ hstep => hstep.step) _ _ hsteps⟩

theorem Coherent.findsClasses (h : index.Coherent) : index.FindsClasses :=
  fun hfind => h.isKind_of_findItem (by decide) hfind

/-- The handles under an attribute name items. -/
theorem Sealed.contains_of_id? (h : index.Sealed) {id target : ItemId} {item : Item} {key : AttrKey}
    (hget : index.get? id = some item) (hkey : item.attributes.id? key = some target) :
    index.contains target := by
  refine (h.attributed id item hget).allows target (Item.mem_attributeIds_iff.2 ?_)
  rw [Attributes.id?] at hkey
  split at hkey
  · rename_i other hslot
    cases hkey
    exact ⟨key, .id target, hslot, List.mem_singleton.2 rfl⟩
  · simp at hkey

theorem Sealed.contains_of_ids? (h : index.Sealed) {id target : ItemId} {item : Item}
    {key : AttrKey} {targets : Array ItemId} (hget : index.get? id = some item)
    (hkey : item.attributes.ids? key = some targets) (htarget : target ∈ targets) :
    index.contains target := by
  refine (h.attributed id item hget).allows target (Item.mem_attributeIds_iff.2 ?_)
  rw [Attributes.ids?] at hkey
  split at hkey
  · rename_i other hslot
    cases hkey
    exact ⟨key, .ids targets, hslot, by simpa [AttrValue.targets] using htarget⟩
  · simp at hkey

end Index

/-! ## The rules -/

/-- A condition that holds on as long as no item is lost. -/
def Lasting (pre : Index → Prop) : Prop :=
  ∀ a b : Index, Continues a b → pre a → pre b

theorem lasting_true : Lasting (fun _ => True) :=
  fun _ _ _ _ => trivial

theorem lasting_contains (id : ItemId) : Lasting (fun index => index.contains id) :=
  fun _ _ hcontinues hid => hcontinues.keeps hid

theorem Lasting.and {p q : Index → Prop} (hp : Lasting p) (hq : Lasting q) :
    Lasting (fun index => p index ∧ q index) :=
  fun a b hcontinues hboth => ⟨hp a b hcontinues hboth.1, hq a b hcontinues hboth.2⟩

theorem Lasting.forall_mem {p : α → Index → Prop} (hp : ∀ value, Lasting (p value))
    (list : List α) : Lasting (fun index => ∀ value ∈ list, p value index) :=
  fun a b hcontinues hall value hvalue => hp value a b hcontinues (hall value hvalue)

/-- A change that keeps an orderly index orderly, and what is known when it is not refused. -/
structure Sealing (pre : Index → Prop) (change : Edit α) (post : α → Index → Prop) : Prop where
  continues : change.Continuing
  works : ∀ {index : Index}, index.Orderly → pre index → (change.run.run index).2.size < 2 ^ 32 →
    (change.run.run index).2.Orderly ∧
      ∀ value, (change.run.run index).1 = .ok value → post value (change.run.run index).2

namespace Sealing

variable {pre pre' : Index → Prop} {post post' : α → Index → Prop} {final : β → Index → Prop}

theorem weaken {change : Edit α} (h : Sealing pre change post)
    (hpre : ∀ {index : Index}, index.Orderly → pre' index → pre index)
    (hpost : ∀ {value : α} {index : Index}, post value index → post' value index) :
    Sealing pre' change post' := by
  refine ⟨h.continues, fun horderly hindex hroom => ?_⟩
  obtain ⟨hafter, hvalues⟩ := h.works horderly (hpre horderly hindex) hroom
  exact ⟨hafter, fun value hvalue => hpost (hvalues value hvalue)⟩

theorem forget {change : Edit α} (h : Sealing pre change post) :
    Sealing pre change (fun _ _ => True) :=
  h.weaken (fun _ hpre => hpre) (fun _ => trivial)

theorem pure (value : α) (hpost : ∀ {index : Index}, index.Orderly → pre index → post value index) :
    Sealing pre (Pure.pure value) post := by
  refine ⟨Edit.Continuing.pure value, fun horderly hindex _ => ⟨horderly, ?_⟩⟩
  rintro other hother
  obtain rfl : value = other := Except.ok.inj hother
  exact hpost horderly hindex

/-- A change that cannot be refused. -/
theorem lift {change : StateM Index α} (hcontinues : ∀ index, Continues index (change.run index).2)
    (h : ∀ {index : Index}, index.Orderly → pre index → (change.run index).2.size < 2 ^ 32 →
      (change.run index).2.Orderly ∧ post (change.run index).1 (change.run index).2) :
    Sealing pre (ExceptT.lift change : Edit α) post := by
  refine ⟨Edit.Continuing.lift hcontinues, fun horderly hindex hroom => ?_⟩
  obtain ⟨hafter, hpost⟩ := h horderly hindex hroom
  refine ⟨hafter, fun value hvalue => ?_⟩
  obtain rfl := Except.ok.inj hvalue
  exact hpost

/-- Reading the index. -/
theorem get_bind {next : Index → Edit α}
    (h : ∀ index, Sealing (fun other => other = index ∧ pre other) (next index) post) :
    Sealing pre (get >>= next) post :=
  ⟨Edit.Continuing.get_bind (fun index => (h index).continues), fun {index} horderly hindex hroom =>
    (h index).works horderly ⟨rfl, hindex⟩ hroom⟩

/-- One change after the other.  Of the condition for the first, what lasts is kept. -/
theorem seq {keep : Index → Prop} {change : Edit α} {next : α → Edit β} (h : Sealing pre change post)
    (hkeep : ∀ a b : Index, Continues a b → pre a → keep b)
    (hnext : ∀ value, Sealing (fun index => keep index ∧ post value index) (next value) final) :
    Sealing pre (change >>= next) final := by
  have hcontinues : ∀ value, (next value).Continuing := fun value => (hnext value).continues
  refine ⟨h.continues.bind hcontinues, fun {index} horderly hindex hroom => ?_⟩
  have hless := Nat.lt_of_le_of_lt
    (Edit.Continuing.continues_bind hcontinues change index).size_le hroom
  obtain ⟨hmiddle, hvalues⟩ := h.works horderly hindex hless
  have hkept := hkeep index _ (h.continues index) hindex
  rcases hchange : change.run.run index with ⟨error | value, after⟩
  · rw [Edit.run_bind_of_error hchange]
    rw [hchange] at hmiddle
    exact ⟨hmiddle, fun _ hvalue => absurd hvalue (by simp)⟩
  · rw [Edit.run_bind_of_ok hchange] at hroom ⊢
    rw [hchange] at hmiddle hvalues hkept
    exact (hnext value).works hmiddle ⟨hkept, hvalues value rfl⟩ hroom

theorem bind {change : Edit α} {next : α → Edit β} (h : Sealing pre change post)
    (hlasting : Lasting pre)
    (hnext : ∀ value, Sealing (fun index => pre index ∧ post value index) (next value) final) :
    Sealing pre (change >>= next) final :=
  h.seq hlasting hnext

/-- One change after the other, where the second needs only what the first gives. -/
theorem andThen {change : Edit α} {next : α → Edit β} (h : Sealing pre change post)
    (hnext : ∀ value, Sealing (post value) (next value) final) :
    Sealing pre (change >>= next) final :=
  h.seq (fun _ _ _ _ => trivial)
    (fun value => (hnext value).weaken (fun _ hboth => hboth.2) (fun hfinal => hfinal))

/-- A loop whose steps need only a condition that lasts. -/
theorem foldlM {σ : Type} {step : σ → α → Edit σ} (hlasting : Lasting pre) (list : List α)
    (h : ∀ state value, Sealing pre (step state value) (fun _ _ => True)) (state : σ) :
    Sealing pre (list.foldlM step state) (fun _ _ => True) := by
  induction list generalizing state with
  | nil => exact Sealing.pure state (fun _ _ => trivial)
  | cons first rest ih =>
    rw [List.foldlM_cons]
    exact (h state first).bind hlasting
      (fun next => (ih next).weaken (fun _ hboth => hboth.1) (fun hpost => hpost))

/-- Changes made for each member of a list, with the results collected. -/
theorem mapM {each : α → Edit β} {holds : β → Index → Prop} (hlasting : Lasting pre)
    (hholds : ∀ result, Lasting (holds result)) (list : List α)
    (h : ∀ value, Sealing pre (each value) holds) :
    Sealing pre (list.mapM each) (fun results index => ∀ result ∈ results, holds result index) := by
  induction list with
  | nil => exact Sealing.pure [] (by simp)
  | cons first rest ih =>
    rw [List.mapM_cons]
    refine (h first).bind hlasting (fun result => ?_)
    refine (ih.weaken (fun _ hboth => hboth.1) (fun hall => hall)).bind
      (hlasting.and (hholds result)) (fun results => Sealing.pure _ ?_)
    intro index _ hall other hother
    rcases List.mem_cons.1 hother with rfl | hother
    · exact hall.1.2
    · exact hall.2 other hother

/-- Changes made for each member of a list. -/
theorem forM {each : α → Edit PUnit} (hlasting : Lasting pre) (list : List α)
    (h : ∀ value, Sealing pre (each value) (fun _ _ => True)) :
    Sealing pre (list.forM each) (fun _ _ => True) := by
  induction list with
  | nil => exact Sealing.pure _ (fun _ _ => trivial)
  | cons first rest ih =>
    show Sealing pre (each first >>= fun _ => rest.forM each) _
    exact (h first).bind hlasting
      (fun _ => ih.weaken (fun _ hboth => hboth.1) (fun hall => hall))

/-- A change that is paired with some other change under the relabelling that changes nothing. -/
theorem of_paired {γ : Type} {change : Edit α} {twin : Edit γ} {image : α → γ}
    (h : Paired .identity (fun _ => False) pre change twin image post) :
    Sealing pre change post := by
  refine ⟨h.continues, fun {index} horderly hindex hroom => ?_⟩
  have hcovers : Covers .identity index.generation (change.run.run index).2 := by
    refine ⟨hroom, fun {id} _ hgeneration => ?_⟩
    rw [(h.continues index).generation_eq] at hgeneration
    rw [← hgeneration]
    rfl
  obtain ⟨hevolves, _, _, hresults⟩ := h.works horderly.coherent.mirrors hindex hcovers
  refine ⟨horderly.evolves hevolves hroom, fun value hvalue => ?_⟩
  rw [hvalue] at hresults
  generalize (twin.run.run index).1 = result at hresults
  cases hresults with
  | ok _ hpost => exact hpost

/-- Settings that record items of the index. -/
theorem update {id : ItemId} {f : Item → Item} (settings : List (Setting ItemId))
    (hf : ∀ item, f item = Setting.applyAll settings item)
    (hpre : ∀ {index : Index}, pre index → ∀ setting ∈ settings, ∀ target ∈ setting.targets,
      index.contains target) :
    Sealing pre (ExceptT.lift (Index.update id f)) (fun _ _ => True) := by
  obtain rfl : f = Setting.applyAll settings := funext hf
  exact of_paired (Paired.setAll settings
    (fun hindex setting hsetting target htarget => Or.inr (hpre hindex setting hsetting target htarget)))

/-- Flags record no items. -/
theorem updateFlags {id : ItemId} {f : Item → Item} (flags : List (AttrKey × Bool))
    (hf : ∀ item, f item =
      Setting.applyAll (flags.map (fun flag => .flag flag.1 flag.2)) item) :
    Sealing pre (ExceptT.lift (Index.update id f)) (fun _ _ => True) := by
  refine update _ hf (fun _ setting hsetting target htarget => ?_)
  obtain ⟨flag, _, rfl⟩ := List.mem_map.1 hsetting
  exact absurd htarget (by simp [Setting.targets])

end Sealing

/-! ## Finding or creating items -/

namespace Index

variable {index : Index} {pre : Index → Prop}

theorem sealing_createProject (name : String) :
    Sealing pre (ExceptT.lift (createProject name)) (fun id index => index.contains id) :=
  (Sealing.of_paired (paired_createProject name)).weaken (fun _ hpre => hpre)
    (fun hkind => hkind.contains)

/-- An item that its owner is checked for.  The owner turns out to be in the index. -/
theorem sealing_createOwned (owner : ItemId) (name : String) {kind : ItemKind}
    (hkind : kind ≠ .method) :
    Sealing pre
      (checkOwner owner kind name >>= fun _ => ExceptT.lift (intern (some owner) name kind))
      (fun id index => index.contains owner ∧ index.contains id) := by
  have hintern : Paired .identity (fun _ => False) (fun index => index.CanTake (some owner) kind)
      (ExceptT.lift (intern (some owner) name kind)) (ExceptT.lift (intern (some owner) name kind))
      Relabelling.identity.map (fun id index => index.IsKind id kind) :=
    Paired.intern hkind (fun htake => htake)
  have howner : ∀ {a b : Index}, Continues a b → a.CanTake (some owner) kind → b.contains owner := by
    rintro a b hcontinues ⟨item, hget, _⟩
    exact hcontinues.keeps (by rw [contains, hget]; rfl)
  have hcheck : Paired .identity (fun _ => False) pre (checkOwner owner kind name)
      (checkOwner owner kind name) (fun _ => ())
      (fun _ index => index.CanTake (some owner) kind) :=
    Paired.checkOwner owner kind name
  refine (Sealing.of_paired hcheck).andThen (fun _ => ?_)
  exact (Sealing.of_paired (hintern.keeping howner)).weaken (fun _ htake => htake)
    (fun hpost => ⟨hpost.1, hpost.2.contains⟩)

theorem sealing_createPackage (project : ItemId) (name : String) :
    Sealing pre (createPackage project name)
      (fun id index => index.contains project ∧ index.contains id) :=
  sealing_createOwned project name (by decide)

theorem sealing_createClass (package : ItemId) (name : String) :
    Sealing pre (createClass package name)
      (fun id index => index.contains package ∧ index.contains id) :=
  sealing_createOwned package name (by decide)

theorem sealing_createField (owner : ItemId) (name : String) :
    Sealing pre (createField owner name)
      (fun id index => index.contains owner ∧ index.contains id) :=
  sealing_createOwned owner name (by decide)

theorem sealing_createInnerClass (outer : ItemId) (simple : String) :
    Sealing pre (createInnerClass outer simple) (fun id index => index.contains id) :=
  Sealing.of_paired (paired_createInnerClass outer simple)

theorem sealing_createMethod (owner : ItemId) (name : String) (params : Option (List ItemId))
    (hpre : ∀ {index : Index}, pre index → ∀ target ∈ params.getD [], index.contains target) :
    Sealing pre (createMethod owner name params) (fun _ _ => True) :=
  Sealing.of_paired (paired_createMethod owner name params
    (fun hindex target htarget => Or.inr (hpre hindex target htarget)))

theorem sealing_createPrimitive (name : String) :
    Sealing pre (createPrimitive name) (fun id index => index.contains id) :=
  (Sealing.of_paired (paired_createPrimitive name)).weaken (fun _ hpre => hpre)
    (fun hkind => hkind.contains)

theorem sealing_createWildcard :
    Sealing pre (ExceptT.lift createWildcard) (fun id index => index.contains id) :=
  (Sealing.of_paired paired_createWildcard).weaken (fun _ hpre => hpre)
    (fun hkind => hkind.contains)

theorem Sealed.contains_arrayShape (h : index.Sealed) {base : ItemId} (hbase : index.contains base)
    (dims : Nat) : index.contains (index.arrayShape base dims).1 := by
  rw [arrayShape]
  split
  · rename_i item hget
    split
    · rename_i inner hinner
      exact h.contains_of_id? hget hinner
    · exact hbase
  · exact hbase

theorem sealing_createArrayClass (base : ItemId) (dims : Nat) :
    Sealing (fun index => index.contains base) (createArrayClass base dims)
      (fun id index => index.contains id) := by
  refine Sealing.get_bind (fun current => ?_)
  dsimp only
  split
  · refine Sealing.pure _ ?_
    rintro index horderly ⟨rfl, hbase⟩
    exact horderly.contains_arrayShape hbase dims
  · refine (Sealing.of_paired (paired_classPlace _ _ (.badArrayBase _) rfl)).andThen ?_
    rintro ⟨package, name⟩
    refine (sealing_createClass package _).bind (lasting_contains _) (fun array => ?_)
    refine (Sealing.update [.one ⟨.arrayBase, rfl⟩ _] (fun _ => rfl) ?_).bind
      ((lasting_contains _).and ((lasting_contains _).and (lasting_contains _)))
      (fun _ => Sealing.pure array (fun _ hall => hall.1.2.2))
    intro index hall setting hsetting target htarget
    obtain rfl := List.mem_singleton.1 hsetting
    obtain rfl := List.mem_singleton.1 htarget
    exact hall.1

theorem sealing_resolveOrCreate (site : CallSite) (create : Bool) :
    Sealing pre (resolveOrCreate site create) (fun _ _ => True) :=
  Sealing.of_paired (paired_resolveOrCreate site create)

/-! ## Dependencies and flags -/

theorem Sealed.size_lt (h : index.Sealed) : index.size < 2 ^ 32 := by
  rw [← h.coherent.counted.next_eq]
  exact index.nextRaw.toNat_lt

theorem Orderly.addDependency (h : index.Orderly) (source target : ItemId) :
    (index.addDependency source target).2.Orderly := by
  have hchange : Change (fun _ => False) index _ := .addDependency source target
  exact ⟨⟨h.coherent.addDependency source target,
    hchange.attributed h.coherent h.attributed (fun _ hfalse => hfalse.elim)⟩,
    hchange.distinct h.coherent h.distinct⟩

theorem Orderly.modify (h : index.Orderly) (id : ItemId) (settings : List (Setting ItemId))
    (htargets : ∀ setting ∈ settings, ∀ target ∈ setting.targets, index.contains target) :
    (index.modify id (Setting.applyAll settings)).Orderly := by
  have hchange : Change (fun _ => False) index _ := .set id settings
    (fun setting hsetting target htarget => Or.inr (htargets setting hsetting target htarget))
  exact ⟨⟨h.coherent.applyAll id settings,
    hchange.attributed h.coherent h.attributed (fun _ hfalse => hfalse.elim)⟩,
    hchange.distinct h.coherent h.distinct⟩

theorem Orderly.propagateThirdParty (h : index.Orderly) : index.propagateThirdParty.2.Orderly := by
  rw [Index.propagateThirdParty]
  generalize index.unflagged = ids
  induction ids generalizing index with
  | nil => exact h
  | cons first rest ih =>
    exact ih (h.modify first [.flag .thirdParty true] (by simp [Setting.targets]))

end Index

end CodeAtlas
