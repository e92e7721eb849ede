/-
# Links that are read back

What reading one relation does to the items at its two ends.  A link takes the place of the one before
it where a kind holds one item only; elsewhere it is the last of its kind at its source, unless the
source is linked so already and the kind is not that of parameter lists.
-/
import CodeAtlas.Proofs.Index.Attributes
import CodeAtlas.Snapshot.Basic

namespace CodeAtlas

namespace RelKind

variable {kind : RelKind} {target : ItemId} {item : Item}

/-! ## Kinds that are kept as attributes -/

/-- The kinds by which an item is related to at most one other. -/
def isSingle : RelKind → Bool
  | superclass | returnType | fieldType | outerClass | arrayBase => true
  | _ => false

/-- The attribute as which a kind is kept. -/
def key? : RelKind → Option AttrKey
  | child | dependency => none
  | superclass => some .superclass
  | superinterface => some .superinterfaces
  | returnType => some .returnType
  | paramType => some .paramTypes
  | fieldType => some .fieldType
  | throws => some .thrownTypes
  | innerClass => some .innerClasses
  | outerClass => some .outerClass
  | arrayBase => some .arrayBase

theorem key?_inj {other : RelKind} {key : AttrKey} (h : kind.key? = some key)
    (hother : other.key? = some key) : other = kind := by
  have heq : kind.key? = other.key? := h.trans hother.symm
  have hsome : kind.key? ≠ none := by simp [h]
  revert heq hsome
  cases kind <;> cases other <;> decide

theorem eq_of_key?_eq_none (h : kind.key? = none) : kind = child ∨ kind = dependency := by
  cases kind <;> simp [key?] at h ⊢

/-- The items that a value holds for a kind. -/
def held (kind : RelKind) (slot : Option AttrValue) : List ItemId :=
  match kind.isSingle, slot with
  | true, some (.id target) => [target]
  | false, some (.ids targets) => targets.toList
  | _, _ => []

/-- The value that holds one more item for a kind. -/
def extend (kind : RelKind) (target : ItemId) (slot : Option AttrValue) : Option AttrValue :=
  match kind.isSingle, slot with
  | true, _ => some (.id target)
  | false, some (.ids targets) =>
    some (.ids (if kind ≠ .paramType ∧ targets.contains target then targets
      else targets.push target))
  | false, _ => some (.ids #[target])

theorem mem_targets_of_mem_held {value : AttrValue} (h : target ∈ kind.held (some value)) :
    target ∈ value.targets := by
  cases hkind : kind.isSingle <;> rcases value with _ | _ | _ <;>
    simp_all [held, AttrValue.targets]

theorem targets_eq_held {key : AttrKey} (h : kind.key? = some key) (item : Item) :
    kind.targets item = kind.held (item.attributes.get? key) := by
  cases kind <;> simp only [key?, Option.some.injEq, reduceCtorEq] at h <;> subst h
  all_goals
    simp only [targets, held, isSingle, Item.superclass, Item.superinterfaces, Item.returnType,
      Item.paramTypes, Item.paramTypes?, Item.fieldType, Item.thrownTypes, Item.innerClasses,
      Item.outerClass, Item.arrayBase, Attributes.id?, Attributes.ids?]
    rcases item.attributes.get? _ with _ | _ | _ | _ <;> rfl

theorem record_eq_extend {key : AttrKey} (h : kind.key? = some key) (target : ItemId)
    (item : Item) : kind.record target item =
      { item with attributes := item.attributes.alter key (kind.extend target) } := by
  have hattributes : (kind.record target item).attributes =
      item.attributes.alter key (kind.extend target) := by
    cases kind <;> simp only [key?, Option.some.injEq, reduceCtorEq] at h <;> subst h
    all_goals
      simp only [record, Item.setId, Item.set, Item.push, Item.pushNew, Attributes.set,
        Attributes.push, Attributes.pushNew]
      refine congrArg (Attributes.alter item.attributes _) (funext (fun slot => ?_))
      rcases slot with _ | _ | _ | _ <;> simp [extend, isSingle]
  rw [← hattributes]
  cases kind <;> rfl

/-! ## Linking one item after the other -/

/-- The items of a kind after one more was linked. -/
def taking (kind : RelKind) (held : List ItemId) (target : ItemId) : List ItemId :=
  if kind.isSingle = true then [target]
  else if kind ≠ .paramType ∧ target ∈ held then held
  else held ++ [target]

/-- The items of a kind after some were linked one after the other. -/
def gather (kind : RelKind) (targets : List ItemId) : List ItemId :=
  targets.foldl kind.taking []

theorem gather_concat (kind : RelKind) (targets : List ItemId) (target : ItemId) :
    kind.gather (targets ++ [target]) = kind.taking (kind.gather targets) target := by
  rw [gather, List.foldl_append]
  rfl

theorem mem_taking_iff (h : kind.isSingle = false) {held : List ItemId} {other : ItemId} :
    other ∈ kind.taking held target ↔ other ∈ held ∨ other = target := by
  rw [taking, if_neg (by simp [h])]
  split
  · rename_i hin
    exact ⟨Or.inl, fun hother => hother.elim id (fun heq => heq ▸ hin.2)⟩
  · rw [List.mem_append, List.mem_singleton]

theorem mem_gather_iff (h : kind.isSingle = false) {targets : List ItemId} {other : ItemId} :
    other ∈ kind.gather targets ↔ other ∈ targets := by
  induction targets using List.reverseRecOn with
  | nil => rfl
  | append_singleton targets target ih =>
    rw [gather_concat, mem_taking_iff h, ih, List.mem_append, List.mem_singleton]

/-- A kind that holds one item holds the last one. -/
theorem gather_of_isSingle (h : kind.isSingle = true) (targets : List ItemId) :
    kind.gather targets = targets.getLast?.toList := by
  induction targets using List.reverseRecOn with
  | nil => rfl
  | append_singleton targets target _ =>
    rw [gather_concat, taking, if_pos h, List.getLast?_concat]
    rfl

theorem mem_of_mem_gather {targets : List ItemId} {other : ItemId}
    (h : other ∈ kind.gather targets) : other ∈ targets := by
  cases hkind : kind.isSingle with
  | true =>
    rw [gather_of_isSingle hkind, Option.mem_toList] at h
    exact List.mem_of_getLast? h
  | false => exact (mem_gather_iff hkind).1 h

/-- Only parameter lists hold an item twice. -/
theorem nodup_gather (h : kind ≠ .paramType) (targets : List ItemId) :
    (kind.gather targets).Nodup := by
  induction targets using List.reverseRecOn with
  | nil => exact List.nodup_nil
  | append_singleton targets target ih =>
    rw [gather_concat, taking]
    split
    · exact List.pairwise_singleton _ target
    · split
      · exact ih
      · rename_i hnew
        rw [List.nodup_append]
        refine ⟨ih, List.pairwise_singleton _ target, ?_⟩
        rintro other hother _ hlast rfl
        exact hnew ⟨h, List.mem_singleton.1 hlast ▸ hother⟩

/-- Items that an item can hold at once are all held, in order. -/
theorem gather_eq_self {targets : List ItemId} (hsingle : kind.isSingle = true → targets.length ≤ 1)
    (hnodup : kind ≠ .paramType → targets.Nodup) : kind.gather targets = targets := by
  induction targets using List.reverseRecOn with
  | nil => rfl
  | append_singleton targets target ih =>
    have hbefore : kind.gather targets = targets := by
      refine ih (fun hone => Nat.le_trans ?_ (hsingle hone)) (fun hne => ?_)
      · rw [List.length_append]
        exact Nat.le_add_right _ _
      · exact (List.nodup_append.1 (hnodup hne)).1
    rw [gather_concat, hbefore, taking]
    split
    · rename_i hone
      have hnil : targets = [] := by
        have hlength := hsingle hone
        rw [List.length_append, List.length_singleton] at hlength
        exact List.eq_nil_of_length_eq_zero (by omega)
      rw [hnil, List.nil_append]
    · refine if_neg ?_
      rintro ⟨hne, hin⟩
      exact (List.nodup_append.1 (hnodup hne)).2.2 target hin target (List.mem_singleton_self _) rfl

/-- The value that holds the given items for a kind. -/
def slot (kind : RelKind) : List ItemId → Option AttrValue
  | [] => none
  | first :: rest => some (if kind.isSingle = true then .id first else .ids (first :: rest).toArray)

theorem held_extend (kind : RelKind) (target : ItemId) (slot : Option AttrValue) :
    kind.held (kind.extend target slot) = kind.taking (kind.held slot) target := by
  cases hkind : kind.isSingle with
  | true => simp [held, extend, taking, hkind]
  | false =>
    rcases slot with _ | _ | targets | _
    · simp [held, extend, taking, hkind]
    · simp [held, extend, taking, hkind]
    · simp only [held, extend, taking, hkind, Bool.false_eq_true, if_false, Array.contains_iff_mem,
        Array.mem_toList_iff]
      split
      · rfl
      · exact Array.toList_push
    · simp [held, extend, taking, hkind]

theorem extend_slot (kind : RelKind) (target : ItemId) (held : List ItemId) :
    kind.extend target (kind.slot held) = kind.slot (kind.taking held target) := by
  cases hkind : kind.isSingle with
  | true => simp [slot, extend, taking, hkind]
  | false =>
    cases held with
    | nil => simp [slot, extend, taking, hkind]
    | cons first rest =>
      simp only [slot, extend, taking, hkind, Bool.false_eq_true, if_false, Array.contains_iff_mem,
        List.mem_toArray]
      split
      · rfl
      · simp [List.push_toArray]

/-! ## The source of a link -/

/-- What a link does to its source. -/
def atSource (target : ItemId) (item : Item) : RelKind → Item
  | child => { item with children := item.children.push target }
  | dependency => { item with dependencies := insertNew item.dependencies target }
  | kind => kind.record target item

theorem atSource_of_key? {key : AttrKey} (h : kind.key? = some key) (target : ItemId)
    (item : Item) : kind.atSource target item =
      { item with attributes := item.attributes.alter key (kind.extend target) } := by
  rw [← record_eq_extend h]
  cases kind <;> first | rfl | simp [key?] at h

section Source

variable (kind : RelKind) (target : ItemId) (item : Item)

@[simp] theorem id_atSource : (kind.atSource target item).id = item.id := by
  cases kind <;> rfl

@[simp] theorem name_atSource : (kind.atSource target item).name = item.name := by
  cases kind <;> rfl

@[simp] theorem kind_atSource : (kind.atSource target item).kind = item.kind := by
  cases kind <;> rfl

@[simp] theorem parent_atSource : (kind.atSource target item).parent = item.parent := by
  cases kind <;> rfl

@[simp] theorem incoming_atSource : (kind.atSource target item).incoming = item.incoming := by
  cases kind <;> rfl

end Source

theorem targets_eq_of_attributes {other : RelKind} {key : AttrKey} (h : other.key? = some key)
    {changed : Item} (hattributes : changed.attributes = item.attributes) :
    other.targets changed = other.targets item := by
  rw [targets_eq_held h, targets_eq_held h, hattributes]

/-- A link changes what its source holds of its kind and no other kind. -/
theorem targets_atSource (h : kind = .child → target ∉ item.children.toList) (other : RelKind) :
    other.targets (kind.atSource target item) =
      if other = kind then kind.taking (kind.targets item) target else other.targets item := by
  cases hkey : kind.key? with
  | some key =>
    rw [atSource_of_key? hkey]
    cases hother : other.key? with
    | some otherKey =>
      rw [targets_eq_held hother, Attributes.get?_alter]
      by_cases hsame : other = kind
      · subst hsame
        obtain rfl : key = otherKey := Option.some.inj (hkey.symm.trans hother)
        rw [if_pos rfl, if_pos rfl, held_extend, targets_eq_held hkey]
      · have hne : key ≠ otherKey := fun heq => hsame (key?_inj hkey (heq ▸ hother))
        rw [if_neg hne, if_neg hsame, targets_eq_held hother]
    | none =>
      have hne : other ≠ kind := fun heq => by simp [← heq, hother] at hkey
      rw [if_neg hne]
      obtain rfl | rfl := eq_of_key?_eq_none hother <;> rfl
  | none =>
    cases hother : other.key? with
    | some otherKey =>
      have hne : other ≠ kind := fun heq => by simp [heq, hkey] at hother
      rw [if_neg hne]
      refine targets_eq_of_attributes hother ?_
      obtain rfl | rfl := eq_of_key?_eq_none hkey <;> rfl
    | none =>
      obtain rfl | rfl := eq_of_key?_eq_none hkey <;>
        obtain rfl | rfl := eq_of_key?_eq_none hother
      · simp [atSource, targets, taking, isSingle, h rfl]
      · simp [atSource, targets]
      · simp [atSource, targets]
      · simp only [atSource, targets, taking, isSingle, if_true]
        by_cases hin : target ∈ item.dependencies.toList
        · simp [insertNew, hin, Array.mem_toList_iff.1 hin]
        · rw [toList_insertNew_of_notMem hin]
          simp [hin]

/-- No kind is kept as a flag. -/
theorem key?_ne_flag {key : AttrKey} (h : kind.key? = some key) {entry : AttrKey × String}
    (hentry : entry ∈ snapshotFlags) : key ≠ entry.1 := by
  simp only [snapshotFlags, List.mem_cons, List.not_mem_nil, or_false] at hentry
  rcases hentry with rfl | rfl | rfl | rfl <;> rintro rfl <;> cases kind <;> simp [key?] at h

/-- A link changes no flag that a snapshot keeps. -/
theorem get?_atSource (kind : RelKind) (target : ItemId) (item : Item) {entry : AttrKey × String}
    (h : entry ∈ snapshotFlags) :
    (kind.atSource target item).attributes.get? entry.1 = item.attributes.get? entry.1 := by
  cases hkey : kind.key? with
  | some key => rw [atSource_of_key? hkey, Attributes.get?_alter, if_neg (key?_ne_flag hkey h)]
  | none => obtain rfl | rfl := eq_of_key?_eq_none hkey <;> rfl

/-! ## The target of a link -/

/-- What a link does to its target. -/
def atTarget (source : ItemId) (item : Item) : RelKind → Item
  | child => { item with parent := some source }
  | dependency => { item with incoming := insertNew item.incoming source }
  | _ => item

/-- A link changes the owner and the incoming dependencies of its target only. -/
theorem atTarget_eq (kind : RelKind) (source : ItemId) (item : Item) :
    kind.atTarget source item =
      { item with
        parent := if kind = child then some source else item.parent
        incoming := if kind = dependency then insertNew item.incoming source
          else item.incoming } := by
  cases kind <;> rfl

/-! ## Both ends -/

/-- What a link does to the item under a handle, if that is its target. -/
def reached (kind : RelKind) (source target id : ItemId) (item : Item) : Item :=
  if id = target then kind.atTarget source item else item

/-- What a link does to the item under a handle. -/
def linked (kind : RelKind) (source target id : ItemId) (item : Item) : Item :=
  if id = source then kind.atSource target (kind.reached source target id item)
  else kind.reached source target id item

section Linked

variable (kind : RelKind) (source target id : ItemId) (item : Item)

theorem reached_eq : kind.reached source target id item =
    { item with
      parent := if id = target ∧ kind = .child then some source else item.parent
      incoming := if id = target ∧ kind = .dependency then insertNew item.incoming source
        else item.incoming } := by
  rw [reached]
  by_cases hid : id = target <;> simp [hid, atTarget_eq]

@[simp] theorem name_linked : (kind.linked source target id item).name = item.name := by
  rw [linked]
  split <;> simp [reached_eq]

@[simp] theorem kind_linked : (kind.linked source target id item).kind = item.kind := by
  rw [linked]
  split <;> simp [reached_eq]

theorem parent_linked : (kind.linked source target id item).parent =
    if id = target ∧ kind = .child then some source else item.parent := by
  rw [linked, reached_eq]
  split <;> simp

theorem incoming_linked : (kind.linked source target id item).incoming =
    if id = target ∧ kind = .dependency then insertNew item.incoming source
    else item.incoming := by
  rw [linked, reached_eq]
  split <;> simp

theorem get?_linked {entry : AttrKey × String} (h : entry ∈ snapshotFlags) :
    (kind.linked source target id item).attributes.get? entry.1 =
      item.attributes.get? entry.1 := by
  rw [linked, reached_eq]
  split <;> simp [get?_atSource _ _ _ h]

/-- A link changes what its source holds of its kind and nothing else of any kind. -/
theorem targets_linked (h : id = source → kind = .child → target ∉ item.children.toList)
    (other : RelKind) : other.targets (kind.linked source target id item) =
      if id = source ∧ other = kind then kind.taking (kind.targets item) target
      else other.targets item := by
  have htargets : ∀ any : RelKind,
      any.targets (kind.reached source target id item) = any.targets item := by
    intro any
    rw [reached_eq]
    cases any <;> rfl
  rw [linked]
  by_cases hid : id = source
  · have hchildren : kind = .child →
        target ∉ (kind.reached source target id item).children.toList := by
      rw [reached_eq]
      exact h hid
    rw [if_pos hid, targets_atSource hchildren, htargets, htargets]
    simp [hid]
  · rw [if_neg hid, htargets, if_neg (fun hboth => hid hboth.1)]

/-- A link keeps the attributes of an item in the form in which they are read. -/
theorem slot_linked {other : RelKind} {key : AttrKey} (hkey : other.key? = some key)
    (h : item.attributes.get? key = other.slot (other.targets item)) :
    (kind.linked source target id item).attributes.get? key =
      other.slot (other.targets (kind.linked source target id item)) := by
  have hreached : (kind.reached source target id item).attributes = item.attributes := by
    rw [reached_eq]
  have htargets : other.targets (kind.reached source target id item) = other.targets item :=
    targets_eq_of_attributes hkey hreached
  rw [linked]
  split
  · cases hown : kind.key? with
    | some own =>
      rw [targets_eq_held hkey, atSource_of_key? hown, Attributes.get?_alter, hreached]
      split
      · rename_i hsame
        subst hsame
        obtain rfl := key?_inj hown hkey
        rw [held_extend, ← targets_eq_held hkey, h, extend_slot]
      · rw [← targets_eq_held hkey]
        exact h
    | none =>
      have hattributes : (kind.atSource target (kind.reached source target id item)).attributes =
          item.attributes := by
        obtain rfl | rfl := eq_of_key?_eq_none hown <;> exact hreached
      rw [targets_eq_of_attributes hkey hattributes, hattributes, h]
  · rw [htargets, hreached, h]

end Linked

end RelKind

namespace Index

variable {a b c index : Index}

/-- The index `b` differs from `a` at most in its registry and in what its items hold. -/
structure SameShape (a b : Index) : Prop where
  stacked : a.IsStacked → b.IsStacked
  below_eq : b.below = a.below
  generation_eq : b.generation = a.generation
  first_eq : b.top.firstRaw = a.top.firstRaw
  next_eq : b.nextRaw = a.nextRaw

theorem SameShape.trans (hab : SameShape a b) (hbc : SameShape b c) : SameShape a c :=
  ⟨fun h => hbc.stacked (hab.stacked h), hbc.below_eq.trans hab.below_eq,
    hbc.generation_eq.trans hab.generation_eq, hbc.first_eq.trans hab.first_eq,
    hbc.next_eq.trans hab.next_eq⟩

theorem sameShape_modify (index : Index) (id : ItemId) {f : Item → Item}
    (hf : ∀ item, (f item).id = item.id) : SameShape index (index.modify id f) :=
  ⟨fun h => isStacked_modify h id hf, below_modify index id f, generation_modify index id f,
    (books_modify index id f).2.1, nextRaw_modify index id f⟩

theorem get?_modify_eq_map (index : Index) (id other : ItemId) (f : Item → Item) :
    (index.modify id f).get? other =
      (index.get? other).map (fun item => if other = id then f item else item) := by
  rw [get?_modify]
  split
  · rename_i hid
    rw [hid]
  · rw [Option.map_id']

end Index

namespace Relation

open RelKind

variable {index : Index} {source target : ItemId}

/-- A link can be made between items if it gives no item a second owner and makes none depend on
itself; it changes the items at its ends only. -/
theorem exists_link {kind : RelKind} (hsource : index.contains source)
    (htarget : index.contains target)
    (hparent : kind = .child → ∀ item, index.get? target = some item → item.parent = none)
    (hne : kind = .dependency → source ≠ target) :
    ∃ after, link index source target kind = .ok after ∧ index.SameShape after ∧
      ∀ id, after.get? id = (index.get? id).map (kind.linked source target id) := by
  cases hkey : kind.key? with
  | some key =>
    have hreached : ∀ item, kind.atTarget source item = item := by
      intro item
      cases kind <;> first | rfl | simp [key?] at hkey
    refine ⟨index.modify source (kind.atSource target), ?_, ?_, fun id => ?_⟩
    · cases kind <;> first | rfl | simp [key?] at hkey
    · exact index.sameShape_modify source (fun item => id_atSource _ target item)
    · rw [Index.get?_modify_eq_map]
      refine Option.map_congr (fun item _ => ?_)
      simp only [linked, reached, hreached, ite_self]
  | none =>
    obtain rfl | rfl := eq_of_key?_eq_none hkey
    · obtain ⟨item, hitem⟩ := Option.isSome_iff_exists.1 htarget
      refine ⟨(index.modify target (child.atTarget source)).modify source (child.atSource target),
        ?_, ?_, fun id => ?_⟩
      · simp only [link, Index.setParent, Index.linkParent, hsource, Bool.not_true,
          Bool.false_eq_true, if_false, hitem, hparent rfl item hitem]
        rfl
      · exact (index.sameShape_modify target (fun item => by rw [atTarget_eq])).trans
          (Index.sameShape_modify _ source (fun item => id_atSource _ target item))
      · rw [Index.get?_modify_eq_map, Index.get?_modify_eq_map, Option.map_map]
        rfl
    · refine ⟨(index.modify source (dependency.atSource target)).modify target
        (dependency.atTarget source), ?_, ?_, fun id => ?_⟩
      · simp only [link, Index.addDependency, hsource, htarget, hne rfl, decide_false,
          Bool.not_true, Bool.or_self, Bool.false_eq_true, if_false]
        rfl
      · exact (index.sameShape_modify source (fun item => id_atSource _ target item)).trans
          (Index.sameShape_modify _ target (fun item => by rw [atTarget_eq]))
      · rw [Index.get?_modify_eq_map, Index.get?_modify_eq_map, Option.map_map]
        refine Option.map_congr (fun item _ => ?_)
        by_cases hid : id = source
        · simp [linked, reached, hid, hne rfl]
        · simp [linked, reached, hid]

/-- A child that has an owner already is linked to that owner only, and then it is at most copied
up. -/
theorem eq_of_link_child {item : Item} {owner : ItemId} {after : Index}
    (h : link index source target .child = .ok after) (hitem : index.get? target = some item)
    (howner : item.parent = some owner) : owner = source ∧ after = index.copyUp target := by
  simp only [link, Index.setParent, Index.linkParent, hitem, howner] at h
  by_cases hsource : index.contains source
  · simp only [hsource, Bool.not_true, Bool.false_eq_true, if_false] at h
    by_cases heq : owner = source
    · rw [if_pos heq] at h
      exact ⟨heq, (Except.ok.inj h).symm⟩
    · rw [if_neg heq] at h
      simp [Except.mapError] at h
  · simp [hsource, Except.mapError] at h

end Relation

end CodeAtlas
