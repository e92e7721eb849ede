/-
# Snapshots that lead back

Reading a snapshot refuses a second owner, but it does not look where owners and element types lead.
So whether the ways up end in an index that was read, and whether its array classes come down to a
type that is no array, is decided by the lines of the snapshot alone: they do exactly when no lines
lead from a number back to it.
-/
import CodeAtlas.Proofs.Snapshot.Reading
import Mathlib.Data.Fintype.Card
import Mathlib.Data.Fintype.EquivFin
import Mathlib.Logic.Relation

namespace CodeAtlas

variable {generation : Nat}

/-! ## Links between numbers -/

/-- There are finitely many numbers. -/
theorem finite_numbers : Finite UInt32 :=
  Finite.of_injective UInt32.toFin (fun _ _ heq => UInt32.toFin_inj.1 heq)

/-- Links that follow lines between numbers are well-founded exactly when no lines lead back. -/
theorem wellFounded_iff_acyclic {link : ItemId → ItemId → Prop} {line : UInt32 → UInt32 → Prop}
    (h : ∀ {id other : ItemId}, link id other ↔
      id.generation = generation ∧ other.generation = generation ∧ line other.raw id.raw) :
    WellFounded (fun other id => link id other) ↔ ∀ raw, ¬ Relation.TransGen line raw raw := by
  constructor
  · intro hwell raw hback
    have hstep : ∀ other own, line other own →
        link ⟨own, generation⟩ ⟨other, generation⟩ := fun _ _ hline => h.2 ⟨rfl, rfl, hline⟩
    have hlift := Relation.TransGen.lift (p := fun other id => link id other)
      (fun raw => ItemId.mk raw generation) hstep raw raw hback
    exact hwell.transGen.asymmetric _ _ hlift hlift
  · intro hacyclic
    have := finite_numbers
    have : IsTrans UInt32 (Relation.TransGen line) := ⟨fun _ _ _ => Relation.TransGen.trans⟩
    have : Std.Irrefl (Relation.TransGen line) := ⟨hacyclic⟩
    have hlines : WellFounded (Relation.TransGen line) := Finite.wellFounded_of_trans_of_irrefl _
    exact Subrelation.wf (fun hlink => Relation.TransGen.single (h.1 hlink).2.2)
      (InvImage.wf ItemId.raw hlines)

/-! ## Ways that end -/

namespace Index

variable {index : Index}

/-- An array class and the element type it names. -/
def HasArrayBase (index : Index) (id base : ItemId) : Prop :=
  ∃ item, index.get? id = some item ∧ item.arrayBase = some base

/-- Every way up ends exactly when the links to owners are well-founded. -/
theorem forall_exists_endsAt_iff
    (howner : ∀ {id owner : ItemId}, index.HasParent id owner → index.contains owner) :
    (∀ id, index.contains id → ∃ top, index.EndsAt id top) ↔
      WellFounded (fun owner id => index.HasParent id owner) := by
  constructor
  · intro hends
    have hacc : ∀ {id : ItemId} {top : Item}, index.EndsAt id top →
        Acc (fun owner id => index.HasParent id owner) id := by
      intro id top htop
      induction htop with
      | here hget hroot =>
        refine ⟨_, fun owner hparent => ?_⟩
        obtain ⟨item, hitem, howner⟩ := hparent
        obtain rfl := Option.some.inj (hget.symm.trans hitem)
        simp [hroot] at howner
      | above hget hparent _ ih =>
        refine ⟨_, fun owner hother => ?_⟩
        obtain ⟨item, hitem, howner⟩ := hother
        obtain rfl := Option.some.inj (hget.symm.trans hitem)
        obtain rfl := Option.some.inj (hparent.symm.trans howner)
        exact ih
    refine ⟨fun id => ⟨id, fun owner hparent => ?_⟩⟩
    obtain ⟨top, htop⟩ := hends owner (howner hparent)
    exact hacc htop
  · intro hwell id
    induction id using hwell.induction with
    | _ id ih =>
      intro hid
      obtain ⟨item, hitem⟩ := Option.isSome_iff_exists.1 hid
      cases hparent : item.parent with
      | none => exact ⟨item, .here hitem hparent⟩
      | some owner =>
        have hlink : index.HasParent id owner := ⟨item, hitem, hparent⟩
        obtain ⟨top, htop⟩ := ih owner hlink (howner hlink)
        exact ⟨top, .above hitem hparent htop⟩

/-- The element type of an array class is that of the last line that gives one. -/
theorem Restored.hasArrayBase_iff {lines : List ItemLine} {relations : List Relation}
    (h : Restored generation lines relations index) {id base : ItemId} :
    index.HasArrayBase id base ↔ id.generation = generation ∧ base.generation = generation ∧
      (relations.filter (fun relation =>
        relation.source = id.raw ∧ relation.kind = .arrayBase)).getLast?.map Relation.target =
          some base.raw := by
  refine h.exists_get?_iff (fun item line hraw hread => ?_) (fun hlast => ?_)
  · have htargets : item.arrayBase.toList = _ := hread.targets_eq .arrayBase
    have hbase : item.arrayBase = (relations.filter (fun relation =>
        relation.source = id.raw ∧ relation.kind = .arrayBase)).getLast?.map
          (fun relation => ⟨relation.target, generation⟩) := by
      rw [RelKind.gather_of_isSingle rfl, List.getLast?_map, hraw] at htargets
      simpa using congrArg List.head? htargets
    rw [hbase, Option.map_eq_some_iff, Option.map_eq_some_iff, ← exists_and_left]
    refine exists_congr (fun relation => ?_)
    obtain ⟨raw, own⟩ := base
    rw [and_left_comm, ItemId.mk.injEq, @eq_comm _ own, @and_comm (_ = raw)]
  · obtain ⟨relation, hrelation, _⟩ := Option.map_eq_some_iff.1 hlast.2
    have hmem := List.mem_of_getLast? hrelation
    rw [List.mem_filter, decide_eq_true_iff] at hmem
    obtain ⟨line, hline, hraw⟩ := (h.ends relation hmem.1).1
    exact ⟨line, hline, hraw.trans hmem.2.1⟩

end Index

/-! ## The lines of a snapshot -/

namespace Snapshot

open Index

/-- A snapshot gives an item an owner. -/
def OwnerLine (archive : Archive) (owner owned : UInt32) : Prop :=
  ⟨owner, owned, .child⟩ ∈ relationLines archive

/-- A snapshot gives an array class an element type that it does not give another one later. -/
def BaseLine (archive : Archive) (base array : UInt32) : Prop :=
  ((relationLines archive).filter (fun relation =>
    relation.source = array ∧ relation.kind = .arrayBase)).getLast?.map Relation.target = some base

variable {archive : Archive} {index : Index}

theorem hasParent_iff_of_read (h : read generation archive = .ok index) {id owner : ItemId} :
    index.HasParent id owner ↔ id.generation = generation ∧ owner.generation = generation ∧
      OwnerLine archive owner.raw id.raw := by
  rw [(restored_of_read h).1.hasParent_iff, keptRelations, List.mem_filter]
  simp [Relation.isLoop, OwnerLine]

theorem hasArrayBase_iff_of_read (h : read generation archive = .ok index) {id base : ItemId} :
    index.HasArrayBase id base ↔ id.generation = generation ∧ base.generation = generation ∧
      BaseLine archive base.raw id.raw := by
  have hfilter : (keptRelations archive).filter (fun relation =>
      relation.source = id.raw ∧ relation.kind = .arrayBase) =
        (relationLines archive).filter (fun relation =>
          relation.source = id.raw ∧ relation.kind = .arrayBase) := by
    rw [keptRelations, List.filter_filter]
    refine List.filter_congr (fun relation _ => ?_)
    rw [Bool.and_eq_left_iff_imp]
    intro hboth
    simp [Relation.isLoop, (of_decide_eq_true hboth).2]
  rw [(restored_of_read h).1.hasArrayBase_iff, hfilter]
  rfl

/-- In an index that was read, every way up ends at an item without an owner exactly when no lines of
owners lead from a number back to it, and every way down to element types ends exactly when no lines
of element types do. -/
theorem read_ways_end_iff (h : read generation archive = .ok index) :
    ((∀ id, index.contains id → ∃ top, index.EndsAt id top) ↔
      ∀ raw, ¬ Relation.TransGen (OwnerLine archive) raw raw) ∧
    (WellFounded (fun base id => index.HasArrayBase id base) ↔
      ∀ raw, ¬ Relation.TransGen (BaseLine archive) raw raw) := by
  have hrestored := (restored_of_read h).1
  have howner : ∀ {id owner : ItemId}, index.HasParent id owner → index.contains owner := by
    intro id owner hparent
    obtain ⟨item, hitem, _⟩ := hrestored.tied.parent_iff.1 hparent
    rw [Index.contains, hitem]
    rfl
  exact ⟨(forall_exists_endsAt_iff howner).trans (wellFounded_iff_acyclic (hasParent_iff_of_read h)),
    wellFounded_iff_acyclic (hasArrayBase_iff_of_read h)⟩

/-- Two classes that own each other and are each other's element type. -/
def circularArchive : Archive :=
  [⟨"items0-1.txt", .text "i n \"A\" id 0 t CLASS\ni n \"B\" id 1 t CLASS\n"⟩,
    ⟨"rels0-3.txt", .text
      ("r s 0 t 1 r CHILD\nr s 1 t 0 r CHILD\n" ++
        "r s 0 t 1 r ARRAY_BASE\nr s 1 t 0 r ARRAY_BASE\n")⟩]

/-- A snapshot that leads back is read, and none of its ways ends. -/
theorem read_circularArchive : ∃ index, read 1 circularArchive = .ok index ∧
    (¬ ∀ id, index.contains id → ∃ top, index.EndsAt id top) ∧
      ¬ WellFounded (fun base id => index.HasArrayBase id base) := by
  have hrels : partsOf "rels" circularArchive = (found "rels" circularArchive).map Prod.snd :=
    partsOf_eq_found (by decide +kernel)
  have hok : (read 1 circularArchive).isOk = true := by
    rw [read, partsOf_eq_found (by decide +kernel), hrels]
    decide +kernel
  have hlines : relationLines circularArchive =
      [⟨0, 1, .child⟩, ⟨1, 0, .child⟩, ⟨0, 1, .arrayBase⟩, ⟨1, 0, .arrayBase⟩] := by
    rw [relationLines, linesOf, hrels]
    decide +kernel
  have howners : Relation.TransGen (OwnerLine circularArchive) 0 0 :=
    .tail (.single (show OwnerLine _ 0 1 by simp [OwnerLine, hlines]))
      (show OwnerLine _ 1 0 by simp [OwnerLine, hlines])
  have hbases : Relation.TransGen (BaseLine circularArchive) 0 0 :=
    .tail (.single (show BaseLine _ 0 1 by rw [BaseLine, hlines]; decide))
      (show BaseLine _ 1 0 by rw [BaseLine, hlines]; decide)
  obtain ⟨index, hread⟩ := exists_of_isOk hok
  obtain ⟨hup, hdown⟩ := read_ways_end_iff hread
  exact ⟨index, hread, fun hends => hup.1 hends 0 howners, fun hwell => hdown.1 hwell 0 hbases⟩

end Snapshot

end CodeAtlas
