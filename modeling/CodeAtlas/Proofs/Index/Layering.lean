/-
# Layering is transparent

A sequence of operations can be carried out on one index, or it can be cut into segments that are
carried out on layers put on top of each other.  Nothing that is asked by number tells the two
apart: the operations give the same answers, and the indices at the end hold the same items.  The
bases show at the end what they showed when they were layered over.

Operations name items by number.  They may also be given stray handles, which no index of the two
runs makes.  All this holds as long as there are 32-bit numbers left.
-/
import CodeAtlas.Proofs.Index.Reachable

namespace CodeAtlas

open Index

variable {ι κ μ : Type}

/-! ## Operations that name items by number -/

/-- How an operation names an item in a run whose indices make handles of the generations `used`. -/
inductive Ref (used : List Nat) where
  | number (raw : UInt32)
  | stray (id : ItemId) (hstray : id.generation ∉ used)

/-- The handle that is meant. -/
def Ref.resolve {used : List Nat} (index : Index) : Ref used → Option ItemId
  | number raw => index.resolveRaw raw
  | stray id _ => some id

theorem mapM_option_map (f : ι → Option κ) (g : κ → μ) (list : List ι) :
    list.mapM (fun value => (f value).map g) = (list.mapM f).map (List.map g) := by
  induction list with
  | nil => rfl
  | cons first rest ih =>
    rw [List.mapM_cons, List.mapM_cons, ih]
    cases f first with
    | none => rfl
    | some value => cases rest.mapM f <;> rfl

theorem Setting.mapM_map (f : ι → Option κ) (g : κ → μ) (setting : Setting ι) :
    setting.mapM (fun value => (f value).map g) = (setting.mapM f).map (Setting.map g) := by
  cases setting with
  | one key target => simp only [mapM]; cases f target <;> rfl
  | member key target => simp only [mapM]; cases f target <;> rfl
  | params types => simp only [mapM, mapM_option_map]; cases types.mapM f <;> rfl
  | flag key value => rfl

namespace Operation

/-- Finding the items and sending them on, at once or one after the other. -/
theorem mapM_map (f : ι → Option κ) (g : κ → μ) (operation : Operation ι) :
    operation.mapM (fun value => (f value).map g) = (operation.mapM f).map (Operation.map g) := by
  cases operation with
  | project | builtinProject | primitive | wildcard | propagateThirdParty => rfl
  | package owner _ | «class» owner _ | innerClass owner _ | field owner _ | arrayClass owner _ =>
    simp only [mapM]
    cases f owner <;> rfl
  | method owner name params =>
    cases params with
    | none =>
      simp only [mapM]
      cases f owner <;> rfl
    | some types =>
      simp only [mapM, mapM_option_map]
      cases f owner with
      | none => rfl
      | some value => cases types.mapM f <;> rfl
  | set item setting =>
    simp only [mapM, Setting.mapM_map]
    cases f item with
    | none => rfl
    | some value => cases setting.mapM f <;> rfl
  | addDependency source target | removeDependency source target =>
    simp only [mapM]
    cases f source with
    | none => rfl
    | some value => cases f target <;> rfl
  | call site owners create =>
    simp only [mapM, mapM_option_map]
    cases owners.mapM f <;> rfl

variable {used : List Nat}

/-- Runs an operation that names items by number.  The answer is given by number, too; there is none
when a number has no item. -/
def perform (operation : Operation (Ref used)) (index : Index) :
    Option (Answer UInt32) × Index :=
  match operation.mapM (Ref.resolve index) with
  | some operation => (some ((operation.run index).1.map ItemId.raw), (operation.run index).2)
  | none => (none, index)

/-- Runs operations one after the other. -/
def performAll : List (Operation (Ref used)) → Index → List (Option (Answer UInt32)) × Index
  | [], index => ([], index)
  | operation :: rest, index =>
    let (answer, after) := operation.perform index
    let (answers, last) := performAll rest after
    (answer :: answers, last)

theorem continues_perform (operation : Operation (Ref used)) (index : Index) :
    Continues index (operation.perform index).2 := by
  rw [perform]
  split
  · exact continues_run _ index
  · exact Continues.refl index

theorem continues_performAll (operations : List (Operation (Ref used))) (index : Index) :
    Continues index (performAll operations index).2 := by
  induction operations generalizing index with
  | nil => exact Continues.refl index
  | cons operation rest ih => exact (operation.continues_perform index).trans (ih _)

theorem steps_performAll (operations : List (Operation (Ref used))) (index : Index) :
    Relation.ReflTransGen Step index (performAll operations index).2 := by
  induction operations generalizing index with
  | nil => exact Relation.ReflTransGen.refl
  | cons operation rest ih =>
    refine Relation.ReflTransGen.trans ?_ (ih (operation.perform index).2)
    rw [perform]
    split
    · exact Relation.ReflTransGen.single (.operation _ index)
    · exact Relation.ReflTransGen.refl

theorem performAll_append (first second : List (Operation (Ref used))) (index : Index) :
    performAll (first ++ second) index =
      ((performAll first index).1 ++ (performAll second (performAll first index).2).1,
        (performAll second (performAll first index).2).2) := by
  induction first generalizing index with
  | nil => rfl
  | cons operation rest ih =>
    simp only [List.cons_append, performAll, ih]

end Operation

/-! ## Mirrored runs -/

/-- A relabelling that leaves stray handles alone. -/
def Relabelling.FixesStray (ρ : Relabelling) (used : List Nat) : Prop :=
  ∀ id : ItemId, id.generation ∉ used → ρ.map id = id

namespace Index.Mirrors

variable {ρ : Relabelling} {used : List Nat} {a b : Index}

theorem resolve_map (h : Mirrors ρ a b) (hstray : ρ.FixesStray used) (ref : Ref used) :
    ref.resolve b = (ref.resolve a).map ρ.map := by
  cases ref with
  | number raw => exact h.resolveRaw_map raw
  | stray id hid => exact congrArg some (hstray id hid).symm

/-- The same operation gives the same answer in an index and in its mirror image. -/
theorem perform (h : Mirrors ρ a b) (hstray : ρ.FixesStray used)
    (operation : Operation (Ref used))
    (hcovers : Covers ρ b.generation (operation.perform a).2) :
    (operation.perform b).1 = (operation.perform a).1 ∧
      Mirrors ρ (operation.perform a).2 (operation.perform b).2 ∧
      (operation.perform b).2.generation = b.generation := by
  have hresolve : Ref.resolve b = fun ref : Ref used => (ref.resolve a).map ρ.map :=
    funext (h.resolve_map hstray)
  have hmapped := Operation.mapM_map (Ref.resolve a) ρ.map operation
  rw [← hresolve] at hmapped
  rw [Operation.perform] at hcovers ⊢
  rw [Operation.perform, hmapped]
  cases hfound : operation.mapM (Ref.resolve a) with
  | none => exact ⟨rfl, h, rfl⟩
  | some given =>
    rw [hfound] at hcovers
    obtain ⟨hanswer, hmirrors, hgeneration, _⟩ := Operation.run_mirrors h given hcovers
    refine ⟨congrArg some ?_, hmirrors, hgeneration⟩
    rw [hanswer]
    cases (given.run a).1 <;> rfl

theorem performAll (h : Mirrors ρ a b) (hstray : ρ.FixesStray used)
    (operations : List (Operation (Ref used)))
    (hcovers : Covers ρ b.generation (Operation.performAll operations a).2) :
    (Operation.performAll operations b).1 = (Operation.performAll operations a).1 ∧
      Mirrors ρ (Operation.performAll operations a).2 (Operation.performAll operations b).2 ∧
      (Operation.performAll operations b).2.generation = b.generation := by
  induction operations generalizing a b with
  | nil => exact ⟨rfl, h, rfl⟩
  | cons operation rest ih =>
    have hmiddle := hcovers.before (Operation.continues_performAll rest (operation.perform a).2)
    obtain ⟨hanswer, hafter, hgeneration⟩ := h.perform hstray operation hmiddle
    rw [← hgeneration] at hcovers
    obtain ⟨hanswers, hend, hgeneration'⟩ := ih hafter hcovers
    refine ⟨?_, hend, hgeneration'.trans hgeneration⟩
    simp only [Operation.performAll, hanswer, hanswers]

end Index.Mirrors

/-! ## Runs on layers -/

/-- What a run on layers leaves: the answers, the bases as they were when they were layered over,
uppermost first, and the last index. -/
structure LayeredRun where
  answers : List (Option (Answer UInt32))
  bases : List Index
  last : Index

/-- A segment of a run that is carried out on a layer of its own, with the generation of the layer. -/
structure Segment (used : List Nat) where
  generation : Nat
  operations : List (Operation (Ref used))
  hused : generation ∈ used

variable {used : List Nat}

/-- Carries out operations on an index, and each further segment on a new layer over what came
before. -/
def runLayers (index : Index) (operations : List (Operation (Ref used))) :
    List (Segment used) → LayeredRun
  | [] =>
    let (answers, last) := Operation.performAll operations index
    ⟨answers, [], last⟩
  | segment :: rest =>
    let (answers, base) := Operation.performAll operations index
    let above := runLayers (onBase segment.generation base) segment.operations rest
    ⟨answers ++ above.answers, above.bases ++ [base], above.last⟩

namespace Index

/-- The indices that a stack of layers consists of, uppermost first. -/
def stackOf : List Layer → List Index
  | [] => []
  | top :: below => ⟨top, below⟩ :: stackOf below

/-- The base of an index, its base and so on. -/
def bases (index : Index) : List Index :=
  stackOf index.below

theorem Continues.generations_eq {a b : Index} (h : Continues a b) :
    b.layers.map Layer.generation = a.layers.map Layer.generation := by
  have hgeneration : b.top.generation = a.top.generation := h.generation_eq
  rw [layers, layers, List.map_cons, List.map_cons, hgeneration, h.below_eq]

/-- A new layer hides only handles of its own generation. -/
theorem contains_onBase_of_ne (base : Index) {generation : Nat} {id : ItemId}
    (hid : id.generation ≠ generation) :
    (onBase generation base).contains id = base.contains id := by
  have hget := get?_startingAt generation base.top.source.next base.layers id
  rw [if_neg hid] at hget
  exact congrArg Option.isSome hget

end Index

section Runs

variable (operations : List (Operation (Ref used))) (segments : List (Segment used)) (index : Index)

theorem size_le_runLayers : index.size ≤ (runLayers index operations segments).last.size := by
  induction segments generalizing index operations with
  | nil => exact (Operation.continues_performAll operations index).size_le
  | cons segment rest ih =>
    have habove := ih segment.operations (onBase segment.generation
      (Operation.performAll operations index).2)
    rw [size_onBase] at habove
    exact Nat.le_trans (Operation.continues_performAll operations index).size_le habove

/-- An item stays in view as long as no layer has the generation of its handle. -/
theorem contains_runLayers {id : ItemId} (hid : index.contains id)
    (hnew : id.generation ∉ segments.map Segment.generation) :
    (runLayers index operations segments).last.contains id := by
  induction segments generalizing index operations with
  | nil => exact (Operation.continues_performAll operations index).keeps hid
  | cons segment rest ih =>
    rw [List.map_cons, List.mem_cons, not_or] at hnew
    refine ih segment.operations (onBase segment.generation
      (Operation.performAll operations index).2) ?_ hnew.2
    rw [contains_onBase_of_ne _ hnew.1]
    exact (Operation.continues_performAll operations index).keeps hid

theorem generations_runLayers :
    (runLayers index operations segments).last.layers.map Layer.generation =
      (segments.map Segment.generation).reverse ++ index.layers.map Layer.generation := by
  induction segments generalizing index operations with
  | nil => exact (Operation.continues_performAll operations index).generations_eq
  | cons segment rest ih =>
    have hbase := (Operation.continues_performAll operations index).generations_eq
    refine (ih segment.operations (onBase segment.generation
      (Operation.performAll operations index).2)).trans ?_
    rw [List.map_cons, List.reverse_cons, List.append_assoc, ← hbase]
    rfl

theorem bases_runLayers :
    (runLayers index operations segments).last.bases =
      (runLayers index operations segments).bases ++ index.bases := by
  induction segments generalizing index operations with
  | nil => exact congrArg stackOf (Operation.continues_performAll operations index).below_eq
  | cons segment rest ih =>
    have hbelow := (Operation.continues_performAll operations index).below_eq
    refine (ih segment.operations (onBase segment.generation
      (Operation.performAll operations index).2)).trans ?_
    have hstack : (onBase segment.generation (Operation.performAll operations index).2).bases =
        [(Operation.performAll operations index).2] ++ index.bases := by
      rw [bases, bases, ← hbelow]
      rfl
    rw [hstack, ← List.append_assoc]
    rfl

/-- A run on layers of new generations consists of steps. -/
theorem steps_runLayers
    (hnew : ((segments.map Segment.generation).reverse ++ index.layers.map Layer.generation).Nodup) :
    Relation.ReflTransGen Step index (runLayers index operations segments).last := by
  induction segments generalizing index operations with
  | nil => exact Operation.steps_performAll operations index
  | cons segment rest ih =>
    have hbase := (Operation.continues_performAll operations index).generations_eq
    rw [List.map_cons, List.reverse_cons, List.append_assoc, ← hbase] at hnew
    refine ((Operation.steps_performAll operations index).tail (.layer ?_)).trans
      (ih segment.operations (onBase segment.generation (Operation.performAll operations index).2)
        hnew)
    have hlast := (List.nodup_append.1 hnew).2.1
    rw [List.singleton_append, List.nodup_cons] at hlast
    intro layer hlayer heq
    exact hlast.1 (heq ▸ List.mem_map_of_mem hlayer)

end Runs

namespace Index.Mirrors

variable {ρ : Relabelling} {a b : Index}

/-- A run on layers and the same operations on one index that mirrors the first layer. -/
theorem runLayers (h : Mirrors ρ a b) (hstray : ρ.FixesStray used)
    (operations : List (Operation (Ref used))) (segments : List (Segment used))
    (hnew : ((segments.map Segment.generation).reverse ++ a.layers.map Layer.generation).Nodup)
    (hroom : (runLayers a operations segments).last.size < 2 ^ 32)
    (hsends : ∀ id, (CodeAtlas.runLayers a operations segments).last.contains id →
      ρ.map id = ⟨id.raw, b.generation⟩) :
    (Operation.performAll (operations ++ segments.flatMap Segment.operations) b).1 =
        (CodeAtlas.runLayers a operations segments).answers ∧
      Mirrors ρ (CodeAtlas.runLayers a operations segments).last
        (Operation.performAll (operations ++ segments.flatMap Segment.operations) b).2 := by
  induction segments generalizing a b operations with
  | nil =>
    rw [List.flatMap_nil, List.append_nil]
    obtain ⟨hanswers, hmirrors, _⟩ :=
      h.performAll hstray operations ⟨hroom, fun hid _ => hsends _ hid⟩
    exact ⟨hanswers, hmirrors⟩
  | cons segment rest ih =>
    have hcontinues := Operation.continues_performAll operations a
    rw [List.map_cons, List.reverse_cons, List.append_assoc, ← hcontinues.generations_eq] at hnew
    rcases hbase : Operation.performAll operations a with ⟨answers, base⟩
    rw [hbase] at hcontinues hnew
    have hrun : CodeAtlas.runLayers a operations (segment :: rest) =
        ⟨answers ++ (CodeAtlas.runLayers (Index.onBase segment.generation base)
            segment.operations rest).answers,
          (CodeAtlas.runLayers (Index.onBase segment.generation base)
            segment.operations rest).bases ++ [base],
          (CodeAtlas.runLayers (Index.onBase segment.generation base)
            segment.operations rest).last⟩ := by
      rw [CodeAtlas.runLayers, hbase]
    rw [hrun] at hroom hsends ⊢
    have hfree : ∀ generation ∈ base.layers.map Layer.generation,
        generation ≠ segment.generation := by
      rintro _ hmem rfl
      exact (List.nodup_cons.1 (List.nodup_append.1 hnew).2.1).1 hmem
    -- the handles of this segment bear a generation that no later layer has
    have hcovers : Covers ρ b.generation (Operation.performAll operations a).2 := by
      rw [hbase]
      refine ⟨Nat.lt_of_le_of_lt ?_ hroom, fun {id} hid hgeneration => hsends id ?_⟩
      · rw [← size_onBase segment.generation base]
        exact size_le_runLayers _ _ _
      · have hmem : id.generation ∈ base.layers.map Layer.generation :=
          hgeneration ▸ List.mem_map_of_mem List.mem_cons_self
        refine contains_runLayers _ _ _ ?_ (fun hlater => ?_)
        · rwa [contains_onBase_of_ne _ (hfree _ hmem)]
        · exact (List.nodup_append.1 hnew).2.2 _ (List.mem_reverse.2 hlater) _
            (List.mem_append_right _ hmem) rfl
    obtain ⟨hanswers, hmirrors, hgeneration⟩ := h.performAll hstray operations hcovers
    rw [hbase] at hanswers hmirrors
    have hlayer := hmirrors.onBase (generation_ne_of_mem_ids hmirrors.left.stacked
      (fun layer hlayer => hfree _ (List.mem_map_of_mem hlayer)))
    rw [← hgeneration] at hsends
    obtain ⟨hmore, hend⟩ := ih hlayer segment.operations hnew hroom hsends
    rw [List.flatMap_cons, Operation.performAll_append]
    exact ⟨by rw [hanswers, hmore], hend⟩

end Index.Mirrors

/-! ## Comparing by number -/

/-- A handle as far as its number goes. -/
def ItemId.byNumber (id : ItemId) : ItemId :=
  ⟨id.raw, 0⟩

/-- An item with every handle it holds given by number. -/
def Item.byNumber (item : Item) : Item :=
  item.map ItemId.byNumber

namespace Index

/-- Two indices that cannot be told apart by number: they hold the same items, find the same items
and go on with the same number. -/
structure SameByNumber (a b : Index) : Prop where
  items_eq : b.items.map Item.byNumber = a.items.map Item.byNumber
  findAll_root : ∀ name kind,
    (b.findAll none name kind).map ItemId.raw = (a.findAll none name kind).map ItemId.raw
  findAll_owned : ∀ owner ∈ a.ids, ∀ owner' ∈ b.ids, owner'.raw = owner.raw → ∀ name kind,
    (b.findAll (some owner') name kind).map ItemId.raw =
      (a.findAll (some owner) name kind).map ItemId.raw
  findByName_eq : ∀ kind name,
    (b.findByName kind name).map ItemId.raw = (a.findByName kind name).map ItemId.raw
  nextRaw_eq : b.nextRaw = a.nextRaw

theorem Mirrors.sameByNumber {ρ : Relabelling} {a b : Index} (h : Mirrors ρ a b) :
    SameByNumber a b := by
  have hraw : ∀ ids : List ItemId, (ids.map ρ.map).map ItemId.raw = ids.map ItemId.raw := by
    intro ids
    rw [List.map_map]
    rfl
  refine ⟨?_, ?_, ?_, ?_, h.next_eq⟩
  · rw [h.items_map, List.map_map]
    refine List.map_congr_left (fun item _ => ?_)
    exact Item.map_map ρ.map item ItemId.byNumber
  · intro name kind
    have hall := h.findAll_map none name kind
    rw [Option.map_none] at hall
    rw [hall, hraw]
  · intro owner howner owner' howner' heq name kind
    have hresolve := h.resolveRaw_map owner.raw
    rw [(resolveRaw_eq_some_iff h.left.stacked).2 ⟨howner, rfl⟩,
      (resolveRaw_eq_some_iff h.right.stacked).2 ⟨howner', heq⟩] at hresolve
    obtain rfl := Option.some.inj hresolve
    have hall := h.findAll_map (some owner) name kind
    rw [Option.map_some] at hall
    rw [hall, hraw]
  · intro kind name
    rw [h.findByName_map, hraw]

/-! ## Exchanging generations -/

/-- The relabelling that exchanges the generation under which an index holds a number with another
generation. -/
def exchange (index : Index) (generation : Nat) : Relabelling where
  generations raw :=
    match index.resolveRaw raw with
    | some id => Equiv.swap id.generation generation
    | none => Equiv.refl Nat

theorem exchange_map_of_contains {index : Index} (h : index.IsStacked) (generation : Nat)
    {id : ItemId} (hid : index.contains id) :
    (index.exchange generation).map id = ⟨id.raw, generation⟩ := by
  have hresolve := (resolveRaw_eq_some_iff h).2 ⟨(mem_ids_iff h).2 hid, rfl⟩
  simp only [Relabelling.map, exchange, hresolve, Equiv.swap_apply_left]

theorem exchange_fixesStray {index : Index} (h : index.IsStacked) {generation : Nat}
    (hgeneration : generation ∈ used) (hlayers : ∀ layer ∈ index.layers, layer.generation ∈ used) :
    (index.exchange generation).FixesStray used := by
  rintro ⟨raw, stray⟩ hstray
  cases hresolve : index.resolveRaw raw with
  | none => simp only [Relabelling.map, exchange, hresolve, Equiv.refl_apply]
  | some id =>
    obtain ⟨layer, hlayer, heq⟩ :=
      exists_layer_of_mem_ids h ((resolveRaw_eq_some_iff h).1 hresolve).1
    have hother : stray ≠ id.generation := fun hsame =>
      hstray (hsame.trans heq.symm ▸ hlayers layer hlayer)
    simp only [Relabelling.map, exchange, hresolve,
      Equiv.swap_apply_of_ne_of_ne hother (fun hsame => hstray (hsame ▸ hgeneration))]

end Index

/-! ## Layers and one index -/

/-- Carrying out operations on layers, however they are cut into segments, and carrying them out on
one index: the answers are the same, the indices at the end are the same by number, and the bases at
the end are those that were layered over. -/
theorem layering_transparent {flat first : Nat} (hflat : flat ∈ used) (hfirst : first ∈ used)
    (operations : List (Operation (Ref used))) (segments : List (Segment used))
    (hnew : (first :: segments.map Segment.generation).Nodup)
    (hroom : (runLayers (empty first) operations segments).last.size < 2 ^ 32) :
    let layered := runLayers (empty first) operations segments
    let single := Operation.performAll (operations ++ segments.flatMap Segment.operations)
      (empty flat)
    single.1 = layered.answers ∧ SameByNumber layered.last single.2 ∧
      layered.last.bases = layered.bases := by
  have hgenerations : ((segments.map Segment.generation).reverse ++
      (empty first).layers.map Layer.generation).Nodup := by
    have hperm : (first :: segments.map Segment.generation).Perm
        ((segments.map Segment.generation).reverse ++ [first]) :=
      ((List.reverse_perm _).symm.cons first).trans (List.perm_append_singleton _ _).symm
    exact hperm.nodup_iff.1 hnew
  have hstacked := (Reachable.coherent ⟨first, steps_runLayers operations segments _ hgenerations⟩
    hroom).stacked
  have hlayers : ∀ layer ∈ (runLayers (empty first) operations segments).last.layers,
      layer.generation ∈ used := by
    intro layer hlayer
    have hmem := List.mem_map_of_mem (f := Layer.generation) hlayer
    rw [generations_runLayers, List.mem_append, List.mem_reverse] at hmem
    rcases hmem with hsegment | htop
    · obtain ⟨segment, _, hsegment⟩ := List.mem_map.1 hsegment
      exact hsegment ▸ segment.hused
    · rw [List.mem_singleton.1 htop]
      exact hfirst
  obtain ⟨hanswers, hmirrors⟩ := (mirrors_empty _ first flat).runLayers
    (exchange_fixesStray hstacked hflat hlayers) operations segments hgenerations hroom
    (fun id hid => exchange_map_of_contains hstacked flat hid)
  exact ⟨hanswers, hmirrors.sameByNumber, (bases_runLayers operations segments _).trans
    (List.append_nil _)⟩

/-- A class is made first. -/
def classFirst : List (Operation (Ref [1, 2, 3, 9])) :=
  [.project "app", .package (.number 0) "p", .class (.number 1) "C"]

/-- Then it gets a method, in one layer, which it depends on and which is changed, in another.  Two
of the operations are refused: a project owns no class, and a stray handle owns nothing. -/
def methodLater : List (Segment [1, 2, 3, 9]) :=
  [⟨2, [.method (.number 2) "m" none, .class (.number 0) "D"], by decide⟩,
    ⟨3, [.addDependency (.number 2) (.number 3), .set (.number 3) (.flag .pseudo true),
      .package (.stray ⟨0, 7⟩ (by decide)) "q"], by decide⟩]

theorem layering_transparent_classFirst :
    let layered := runLayers (empty 1) classFirst methodLater
    let single := Operation.performAll (classFirst ++ methodLater.flatMap Segment.operations)
      (empty 9)
    single.1 = layered.answers ∧ SameByNumber layered.last single.2 ∧
      layered.last.bases = layered.bases :=
  layering_transparent (by decide) (by decide) classFirst methodLater (by decide)
    (by decide +kernel)

end CodeAtlas
