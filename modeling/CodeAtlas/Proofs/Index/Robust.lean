/-
# What orderly changes keep

Operations add items in their places, set attributes, and change members and dependencies.  A property
of indices with arrays in their places is robust when it survives each of these: a new item whose
attributes name items, settings other than that of an element type, new members and dependencies.  Every
operation keeps what is robust while there are numbers left, as long as no class is given the name of
an array.
-/
import CodeAtlas.Proofs.Index.Durable
import CodeAtlas.Proofs.Index.Identity

namespace CodeAtlas

variable {α : Type}

namespace Setting

/-- The key that a setting is about. -/
def key : Setting ItemId → AttrKey
  | one key _ => key.1
  | member key _ => key.1
  | params _ => .paramTypes
  | flag key _ => key

theorem get?_apply_of_ne (setting : Setting ItemId) (item : Item) {other : AttrKey}
    (h : setting.key ≠ other) :
    (setting.apply item).attributes.get? other = item.attributes.get? other := by
  cases setting with
  | one key target => exact (Item.get?_setId item key.1 other target).trans (if_neg h)
  | member key target => exact Item.get?_pushNew item target h
  | params types => exact (Attributes.get?_set item.attributes .paramTypes other _).trans (if_neg h)
  | flag key value => exact (Attributes.get?_set item.attributes key other _).trans (if_neg h)

theorem get?_applyAll_of_ne (settings : List (Setting ItemId)) (item : Item) {other : AttrKey}
    (h : ∀ setting ∈ settings, setting.key ≠ other) :
    (applyAll settings item).attributes.get? other = item.attributes.get? other := by
  induction settings generalizing item with
  | nil => rfl
  | cons setting rest ih =>
    have hrest := ih (setting.apply item) (fun later hlater => h later (List.mem_cons_of_mem _ hlater))
    exact hrest.trans (setting.get?_apply_of_ne item (h setting List.mem_cons_self))

end Setting

/-! ## What is recorded under a key -/

namespace Item

/-- A handle is recorded under a key. -/
def Records (item : Item) (key : AttrKey) (target : ItemId) : Prop :=
  ∃ value, item.attributes.get? key = some value ∧ target ∈ value.targets

theorem not_records_fresh (id : ItemId) (name : String) (kind : ItemKind) (parent : Option ItemId)
    (key : AttrKey) (target : ItemId) : ¬ (fresh id name kind parent).Records key target := by
  rintro ⟨value, hslot, _⟩
  simp [fresh, Attributes.get?, Attributes.empty] at hslot

end Item

/-- A setting records no other handles than its own. -/
theorem Setting.mem_targets_of_records (setting : Setting ItemId) (item : Item) {key : AttrKey}
    {target : ItemId} (h : (setting.apply item).Records key target) :
    (key = setting.key ∧ target ∈ setting.targets) ∨ item.Records key target := by
  obtain ⟨value, hslot, htarget⟩ := h
  by_cases hkey : setting.key = key
  · subst hkey
    cases setting with
    | one key new =>
      have hset := (Item.get?_setId item key.1 key.1 new).trans (if_pos rfl)
      obtain rfl := Option.some.inj (hslot.symm.trans hset)
      exact Or.inl ⟨rfl, htarget⟩
    | member key new =>
      have hpush : (item.attributes.pushNew key.1 new).get? key.1 = some value := hslot
      rw [Attributes.pushNew, Attributes.get?_alter, if_pos rfl] at hpush
      cases hold : item.attributes.get? key.1 with
      | none =>
        rw [hold] at hpush
        obtain rfl := Option.some.inj hpush
        exact Or.inl ⟨rfl, by simpa [AttrValue.targets, targets] using htarget⟩
      | some old =>
        rw [hold] at hpush
        cases old with
        | ids before =>
          obtain rfl := Option.some.inj hpush
          by_cases hin : target ∈ before
          · exact Or.inr ⟨.ids before, hold, by simpa [AttrValue.targets] using hin⟩
          · refine Or.inl ⟨rfl, List.mem_singleton.2 ?_⟩
            rw [AttrValue.targets] at htarget
            split at htarget
            · exact absurd (by simpa using htarget) hin
            · simpa [hin] using htarget
        | id _ | flag _ =>
          obtain rfl := Option.some.inj hpush
          exact Or.inl ⟨rfl, by simpa [AttrValue.targets, targets] using htarget⟩
    | params types =>
      have hset : (item.attributes.set .paramTypes (.ids types.toArray)).get? .paramTypes =
        some value := hslot
      rw [Attributes.get?_set, if_pos rfl] at hset
      obtain rfl := Option.some.inj hset
      exact Or.inl ⟨rfl, by simpa [AttrValue.targets, targets] using htarget⟩
    | flag key new =>
      have hset : (item.attributes.set key (.flag new)).get? key = some value := hslot
      rw [Attributes.get?_set, if_pos rfl] at hset
      obtain rfl := Option.some.inj hset
      simp [AttrValue.targets] at htarget
  · rw [get?_apply_of_ne setting item hkey] at hslot
    exact Or.inr ⟨value, hslot, htarget⟩

namespace Index

variable {a b index : Index}

/-- The handles of an item under any key but that of parameter lists are those of items. -/
def Joined (index : Index) (item : Item) : Prop :=
  ∀ (key : AttrKey) (target : ItemId), key ≠ .paramTypes → item.Records key target →
    index.contains target

theorem joined_fresh (index : Index) (id : ItemId) (name : String) (kind : ItemKind)
    (parent : Option ItemId) : index.Joined (.fresh id name kind parent) :=
  fun key target _ hrecords => absurd hrecords (Item.not_records_fresh id name kind parent key target)

theorem Joined.apply {item : Item} (h : index.Joined item) {setting : Setting ItemId}
    (htargets : setting.key ≠ .paramTypes → ∀ target ∈ setting.targets, index.contains target) :
    index.Joined (setting.apply item) := by
  intro key target hkey hrecords
  rcases setting.mem_targets_of_records item hrecords with ⟨rfl, hnew⟩ | hold
  · exact htargets hkey target hnew
  · exact h key target hkey hold

theorem Joined.applyAll {item : Item} (h : index.Joined item) {settings : List (Setting ItemId)}
    (htargets : ∀ setting ∈ settings, setting.key ≠ .paramTypes →
      ∀ target ∈ setting.targets, index.contains target) :
    index.Joined (Setting.applyAll settings item) := by
  induction settings generalizing item with
  | nil => exact h
  | cons first rest ih =>
    exact ih (h.apply (htargets first List.mem_cons_self))
      (fun later hlater => htargets later (List.mem_cons_of_mem _ hlater))

theorem Joined.later {item later : Item} (h : a.Joined item)
    (hkeeps : ∀ {id : ItemId}, a.contains id → b.contains id)
    (hattributes : later.attributes = item.attributes) : b.Joined later := by
  intro key target hkey hrecords
  rw [Item.Records, hattributes] at hrecords
  exact hkeeps (h key target hkey hrecords)

end Index

/-! ## Items that stay -/

namespace Item

/-- An item that was left as it was but for its members. -/
structure Stays (before after : Item) : Prop where
  name_eq : after.name = before.name
  kind_eq : after.kind = before.kind
  parent_eq : after.parent = before.parent
  attributes_eq : after.attributes = before.attributes

theorem Stays.refl (item : Item) : item.Stays item :=
  ⟨rfl, rfl, rfl, rfl⟩

theorem Stays.trans {first second third : Item} (h : first.Stays second) (h' : second.Stays third) :
    first.Stays third :=
  ⟨h'.name_eq.trans h.name_eq, h'.kind_eq.trans h.kind_eq, h'.parent_eq.trans h.parent_eq,
    h'.attributes_eq.trans h.attributes_eq⟩

end Item

namespace Index

variable {a b index : Index}

/-- The same items, but for their members and dependencies. -/
def AllStay (a b : Index) : Prop :=
  ∀ id : ItemId, Option.Rel Item.Stays (a.get? id) (b.get? id)

theorem allStay_of_get? (hget : ∀ id, b.get? id = a.get? id) : AllStay a b := by
  intro id
  rw [hget]
  cases a.get? id with
  | none => exact .none
  | some item => exact .some (Item.Stays.refl item)

theorem AllStay.exists_later (h : AllStay a b) {id : ItemId} {item : Item}
    (hget : a.get? id = some item) : ∃ later, b.get? id = some later ∧ item.Stays later := by
  have hid := h id
  rw [hget] at hid
  generalize b.get? id = found at hid ⊢
  cases hid with
  | some hstays => exact ⟨_, rfl, hstays⟩

theorem AllStay.exists_before (h : AllStay a b) {id : ItemId} {later : Item}
    (hget : b.get? id = some later) : ∃ item, a.get? id = some item ∧ item.Stays later := by
  have hid := h id
  rw [hget] at hid
  generalize a.get? id = found at hid ⊢
  cases hid with
  | some hstays => exact ⟨_, rfl, hstays⟩

theorem get?_relink (index : Index) (source target : ItemId) (f g : Array ItemId → Array ItemId)
    (id : ItemId) :
    (index.relink source target f g).get? id = (index.get? id).map (fun item => { item with
      dependencies := if id = source then f item.dependencies else item.dependencies
      incoming := if id = target then g item.incoming else item.incoming }) := by
  rw [Index.relink, get?_modify, get?_modify, get?_modify]
  by_cases htarget : id = target
  · subst htarget
    rw [if_pos rfl]
    by_cases hsource : id = source
    · subst hsource
      simp [Function.comp_def]
    · simp [hsource]
  · rw [if_neg htarget]
    by_cases hsource : id = source
    · subst hsource
      simp [htarget]
    · simp [hsource, htarget]

/-- Dependencies are no attributes. -/
theorem allStay_relink (index : Index) (source target : ItemId) (f g : Array ItemId → Array ItemId) :
    AllStay index (index.relink source target f g) := by
  intro id
  rw [get?_relink]
  cases index.get? id with
  | none => exact .none
  | some item => exact .some ⟨rfl, rfl, rfl, rfl⟩

/-! ## Robust properties -/

/-- A property that new items, settings, members and dependencies leave intact. -/
structure Robust (holds : Index → Prop) : Prop where
  patterned : ∀ {index : Index}, holds index → index.Patterned
  adds : ∀ {a b : Index} {new : Item}, Adds a b new → holds a → b.Shaped new → b.Joined new → holds b
  setAll : ∀ {index : Index} (id : ItemId) (settings : List (Setting ItemId)), holds index →
    (∀ setting ∈ settings, setting.key ≠ .arrayBase) →
    (∀ setting ∈ settings, setting.key ≠ .paramTypes →
      ∀ target ∈ setting.targets, index.contains target) →
    holds (index.modify id (Setting.applyAll settings))
  stays : ∀ {a b : Index}, holds a → b.Coherent → b.Distinct → AllStay a b → holds b

/-- A property holds unless the numbers have run out. -/
def InRoom (holds : Index → Prop) (index : Index) : Prop :=
  index.size < 2 ^ 32 → holds index

/-- No item is lost by what every operation is made of. -/
theorem durable_continues (start : Index) : Durable (Continues start) where
  modify id _ h := h.trans (continues_modify _ id _)
  insertItem parent _ h := h.trans (continues_insertItem _ parent _ _)

/-- Room at the end of a change that loses no item is room at its start. -/
theorem keeps_inRoom {holds : Index → Prop} {change : Edit α}
    (hcontinues : ∀ start, Edit.Keeps (Continues start) change)
    (hkeeps : ∀ index, holds index → (change.run.run index).2.size < 2 ^ 32 →
      holds (change.run.run index).2) : Edit.Keeps (InRoom holds) change := by
  intro index hindex hroom
  have hsize := (hcontinues index index (Continues.refl index)).size_le
  exact hkeeps index (hindex (Nat.lt_of_le_of_lt hsize hroom)) hroom

namespace Robust

variable {holds : Index → Prop} (h : Robust holds)

include h

theorem set (id : ItemId) (setting : Setting ItemId) (hindex : holds index)
    (hkey : setting.key ≠ .arrayBase)
    (htargets : setting.key ≠ .paramTypes → ∀ target ∈ setting.targets, index.contains target) :
    holds (index.modify id setting.apply) :=
  h.setAll id [setting] hindex (fun _ hother => List.mem_singleton.1 hother ▸ hkey)
    (fun _ hother => List.mem_singleton.1 hother ▸ htargets)

/-- An index with the same items. -/
theorem of_get? (ha : holds a) (hcoherent : b.Coherent) (hget : ∀ id, b.get? id = a.get? id) :
    holds b := by
  refine h.stays ha hcoherent ((h.patterned ha).distinct.of_bears (fun key => ?_)) (allStay_of_get? hget)
  funext id
  rw [bears, bears, hget]

theorem relink (hindex : holds index) (source target : ItemId) (f g : Array ItemId → Array ItemId)
    (hcoherent : (index.relink source target f g).Coherent) :
    holds (index.relink source target f g) :=
  h.stays hindex hcoherent
    ((h.patterned hindex).distinct.of_bears (bears_relink index source target f g))
    (allStay_relink index source target f g)

theorem addDependency (hindex : holds index) (source target : ItemId) :
    holds (index.addDependency source target).2 := by
  have hcoherent := (h.patterned hindex).coherent.addDependency source target
  rw [Index.addDependency] at hcoherent ⊢
  split at hcoherent
  · rename_i hunknown
    rw [if_pos hunknown]
    exact hindex
  · rename_i hknown
    rw [if_neg hknown]
    exact h.relink hindex source target (insertNew · target) (insertNew · source) hcoherent

theorem removeDependency (hindex : holds index) (source target : ItemId) :
    holds (index.removeDependency source target).2 :=
  h.relink hindex source target (·.erase target) (·.erase source)
    ((h.patterned hindex).coherent.removeDependency source target)

theorem propagateThirdParty (hindex : holds index) : holds index.propagateThirdParty.2 := by
  rw [Index.propagateThirdParty]
  generalize index.unflagged = pending
  induction pending generalizing index with
  | nil => exact hindex
  | cons first rest ih =>
    have hfirst := h.set first (.flag .thirdParty true) hindex
      (show AttrKey.thirdParty ≠ _ by decide)
      (fun _ _ htarget => absurd htarget (by simp [Setting.targets]))
    exact ih hfirst

/-! ### Finding or creating -/

theorem intern (hindex : holds index) {parent : Option ItemId} {name : String} {kind : ItemKind}
    (hkind : kind ≠ .method) (htake : index.CanTake parent kind)
    (hname : kind = .class → ¬ Item.NamesArray name)
    (hroom : (Index.intern parent name kind index).2.size < 2 ^ 32) :
    holds (Index.intern parent name kind index).2 := by
  obtain ⟨_, hsame | hadds⟩ := (h.patterned hindex).interned hkind htake hroom
  · rw [hsame]
    exact hindex
  · exact h.adds hadds hindex hname (joined_fresh _ _ _ _ _)

theorem builtin (hindex : holds index) {name : String} (hname : ¬ Item.NamesArray name)
    (hroom : (createBuiltin name index).2.size < 2 ^ 32) : holds (createBuiltin name index).2 := by
  rw [createBuiltin_eq] at hroom ⊢
  have hroomPackage := Nat.lt_of_le_of_lt (continues_intern _ _ _ _).size_le hroom
  rw [createBuiltinPackage_eq] at hroom hroomPackage ⊢
  have hroomProject := Nat.lt_of_le_of_lt (continues_intern _ _ _ _).size_le hroomPackage
  -- each of the three is an owner for the next
  have hroot : index.CanTake none .project := rfl
  have hproject := h.intern hindex (by decide) hroot (fun hclass => by cases hclass) hroomProject
  obtain ⟨hprojectHas, _⟩ := (h.patterned hindex).interned (by decide) hroot hroomProject
  have hpackage := h.intern hproject (by decide) (hprojectHas.isKind.canTake rfl)
    (fun hclass => by cases hclass) hroomPackage
  obtain ⟨hpackageHas, _⟩ :=
    (h.patterned hproject).interned (by decide) (hprojectHas.isKind.canTake rfl) hroomPackage
  exact h.intern hpackage (by decide) (hpackageHas.isKind.canTake rfl) (fun _ => hname) hroom

theorem insertMethod (hindex : holds index) {owner : ItemId} {name : String}
    {params : Option (List ItemId)} (htake : index.CanTake (some owner) .method)
    (hroom : (index.insertMethod owner name params).size < 2 ^ 32) :
    holds (index.insertMethod owner name params) := by
  -- methods are not interned: the item is new even where one of its name is found
  have hplain : (index.insertItem (some owner) name .method).2.size < 2 ^ 32 →
      holds (index.insertItem (some owner) name .method).2 := by
    intro hless
    have hadds := adds_insertItem (h.patterned hindex).coherent (h.patterned hindex).distinct htake
      (Or.inl rfl) hless
    exact h.adds hadds hindex (fun hclass => by cases hclass) (joined_fresh _ _ _ _ _)
  cases params with
  | none => exact hplain hroom
  | some params =>
    exact h.set index.nextId (.params params)
      (hplain (Nat.lt_of_le_of_lt (continues_modify _ _ _).size_le hroom))
      (show AttrKey.paramTypes ≠ .arrayBase by decide) (fun hkey => absurd rfl hkey)

theorem createArray (hindex : holds index) {root package : ItemId} {name : String}
    {total : Nat} {rootItem : Item} (hroot : index.Has root (some package) .class name)
    (hrootGet : index.get? root = some rootItem) (hplain : rootItem.arrayBase = none)
    (htotal : total ≠ 0) {array : ItemId} {after : Index}
    (hintern : Index.intern (some package) (Item.arrayName name total) .class index = (array, after))
    (hroom : after.size < 2 ^ 32) :
    holds (after.modify array (fun item => item.setId .arrayBase root)) := by
  obtain ⟨_, ⟨hcoherent, _, hget⟩ | ⟨hadds, hshaped⟩⟩ :=
    (h.patterned hindex).arrayed hroot hrootGet hplain htotal hintern hroom
  · -- an array that is found has its element type set again, to what it was
    exact h.of_get? hindex hcoherent hget
  · refine h.adds hadds hindex hshaped ?_
    refine @Joined.apply _ _ (joined_fresh _ index.nextId _ .class (some package))
      (.one ⟨.arrayBase, rfl⟩ root) (fun _ target htarget => ?_)
    rw [List.mem_singleton.1 htarget]
    exact hadds.retains.contains hroot.isKind.contains

theorem nest (hindex : holds index) {outer inner : ItemId} (houter : index.contains outer)
    (hinner : index.contains inner) : holds (index.nest outer inner) := by
  have hfirst := h.set inner (.one ⟨.outerClass, rfl⟩ outer) hindex
    (show AttrKey.outerClass ≠ _ by decide)
    (fun _ target htarget => List.mem_singleton.1 htarget ▸ houter)
  refine h.set outer (.member ⟨.innerClasses, rfl⟩ inner) hfirst
    (show AttrKey.innerClasses ≠ _ by decide) (fun _ target htarget => ?_)
  rw [List.mem_singleton.1 htarget, contains_modify]
  exact hinner

/-! ### Changes -/

theorem keeps_createOwned (owner : ItemId) {name : String} {kind : ItemKind} (hkind : kind ≠ .method)
    (hname : kind = .class → ¬ Item.NamesArray name) :
    Edit.Keeps (InRoom holds) (checkOwner owner kind name >>= fun _ =>
      ExceptT.lift (Index.intern (some owner) name kind)) := by
  refine keeps_inRoom (fun start => (durable_continues start).sturdy.createOwned owner name kind)
    (fun index hindex hroom => ?_)
  rw [run_createOwned] at hroom ⊢
  cases hrefusal : index.refusal? owner kind name with
  | some error => exact hindex
  | none =>
    rw [hrefusal] at hroom
    exact h.intern hindex hkind (refusal?_eq_none_iff.1 hrefusal).1 hname hroom

theorem keeps_createProject (name : String) :
    Edit.Keeps (InRoom holds) (ExceptT.lift (createProject name)) :=
  keeps_inRoom (fun start => (durable_continues start).sturdy.intern none (fun _ => Or.inl rfl))
    (fun index hindex hroom => h.intern hindex (by decide) (show index.CanTake none .project from rfl)
      (fun hclass => by cases hclass) hroom)

theorem keeps_createBuiltin {name : String} (hempty : name ≠ "") (hname : ¬ Item.NamesArray name) :
    Edit.Keeps (InRoom holds) (ExceptT.lift (createBuiltin name)) :=
  keeps_inRoom (fun start => (durable_continues start).sturdy.createBuiltinClass hempty)
    (fun _ hindex hroom => h.builtin hindex hname hroom)

theorem keeps_createInnerClass (outer : ItemId) {simple : String}
    (hsimple : ¬ Item.NamesArray simple) :
    Edit.Keeps (InRoom holds) (createInnerClass outer simple) := by
  refine keeps_inRoom (fun start => (durable_continues start).sturdy.createInnerClass outer simple)
    (fun index hindex hroom => ?_)
  rcases run_classPlace outer (.notClass outer) index with
    ⟨_, refusal, hrefused⟩ | ⟨package, name, houter, _⟩
  · have hrun : (createInnerClass outer simple).run.run index = (.error refusal, index) :=
      Edit.run_bind_of_error hrefused
    rw [hrun]
    exact hindex
  · have htake := (h.patterned hindex).coherent.exists_owner houter
    rw [run_createInnerClass_of_has houter htake simple] at hroom ⊢
    have hless := Nat.lt_of_le_of_lt
      ((continues_modify _ _ _).trans (continues_modify _ _ _)).size_le hroom
    obtain ⟨hinner, _⟩ := (h.patterned hindex).interned (by decide) htake hless
    have hinterned := h.intern hindex (by decide) htake
      (fun _ => Item.not_namesArray_dotted name hsimple) hless
    exact h.nest hinterned ((continues_intern _ _ _ index).keeps houter.isKind.contains)
      hinner.isKind.contains

theorem keeps_createMethod (owner : ItemId) (name : String) (params : Option (List ItemId)) :
    Edit.Keeps (InRoom holds) (createMethod owner name params) := by
  refine keeps_inRoom (fun start => (durable_continues start).sturdy.createMethod owner name params)
    (fun index hindex hroom => ?_)
  rw [run_createMethod] at hroom ⊢
  cases hrefusal : index.refusal? owner .method name with
  | some error => exact hindex
  | none =>
    rw [hrefusal] at hroom
    cases hfound : index.overload? owner name (params.getD []) with
    | some id => exact hindex
    | none =>
      rw [hfound] at hroom
      exact h.insertMethod hindex (refusal?_eq_none_iff.1 hrefusal).1 hroom

theorem keeps_createArrayClass (base : ItemId) (dims : Nat) :
    Edit.Keeps (InRoom holds) (createArrayClass base dims) := by
  refine keeps_inRoom (fun start => (durable_continues start).sturdy.createArrayClass base dims)
    (fun index hindex hroom => ?_)
  rw [run_createArrayClass] at hroom ⊢
  rcases hshape : index.arrayShape base dims with ⟨root, total⟩
  rw [hshape] at hroom
  dsimp only at hroom ⊢
  by_cases htotal : total = 0
  · rw [createArrayOver, if_pos htotal]
    exact hindex
  · rcases run_classPlace root (.badArrayBase root) index with
      ⟨_, refusal, hrefused⟩ | ⟨package, name, hroot, _⟩
    · have hrun : (createArrayOver root total).run.run index = (.error refusal, index) := by
        rw [createArrayOver, if_neg htotal]
        exact Edit.run_bind_of_error hrefused
      rw [hrun]
      exact hindex
    · have htake := (h.patterned hindex).coherent.exists_owner hroot
      rw [run_createArrayOver_of_has hroot htake htotal] at hroom ⊢
      obtain ⟨rootItem, hrootGet, _⟩ := hroot.isKind
      exact h.createArray hindex hroot hrootGet
        ((h.patterned hindex).arrayBase_arrayShape hshape hrootGet) htotal rfl
        (Nat.lt_of_le_of_lt (continues_modify _ _ _).size_le hroom)

theorem keeps_setFlags (id : ItemId) (flags : List (AttrKey × Bool))
    (hflags : ∀ flag ∈ flags, flag.1 ≠ .arrayBase) :
    Edit.Keeps (InRoom holds) (ExceptT.lift
      (update id (Setting.applyAll (flags.map (fun flag => .flag flag.1 flag.2))))) := by
  refine keeps_inRoom
    (fun start => (durable_continues start).sturdy.setAll id _)
    (fun index hindex _ => h.setAll id _ hindex (fun setting hsetting => ?_)
      (fun setting hsetting _ target htarget => ?_))
  · obtain ⟨flag, hflag, rfl⟩ := List.mem_map.1 hsetting
    exact hflags flag hflag
  · obtain ⟨flag, _, rfl⟩ := List.mem_map.1 hsetting
    simp [Setting.targets] at htarget

theorem keeps_createPseudo (owner : ItemId) (site : CallSite) :
    Edit.Keeps (InRoom holds) (createPseudo owner site) := by
  refine Edit.Keeps.bind (h.keeps_createBuiltin (by decide) (by decide)) (fun wildcard => ?_)
  refine (h.keeps_createMethod owner site.name _).bind
    (fun method => Edit.Keeps.get_bind (fun index => ?_))
  cases index.inThirdParty owner with
  | false =>
    exact Edit.Keeps.bind (h.keeps_setFlags method [(.pseudo, true)] (by simp))
      (fun _ => Edit.Keeps.pure method)
  | true =>
    exact Edit.Keeps.bind (h.keeps_setFlags method [(.pseudo, true), (.thirdParty, true)] (by simp))
      (fun _ => Edit.Keeps.pure method)

theorem keeps_resolveOrCreate (site : CallSite) (create : Bool) :
    Edit.Keeps (InRoom holds) (resolveOrCreate site create) := by
  refine Edit.Keeps.get_bind (fun index => ?_)
  cases index.resolveCall site with
  | some method => exact Edit.Keeps.pure _
  | none =>
    dsimp only
    split
    · refine Edit.Keeps.get_bind (fun index => ?_)
      cases index.pseudoOwner? site with
      | none => exact Edit.Keeps.pure _
      | some owner => exact (h.keeps_createPseudo owner site).bind (fun _ => Edit.Keeps.pure _)
    · exact Edit.Keeps.pure _

/-- A new layer changes no item. -/
theorem onBase (hindex : holds index) {generation : Nat}
    (hnew : ∀ layer ∈ index.layers, layer.generation ≠ generation) :
    holds (Index.onBase generation index) := by
  have hcoherent := (h.patterned hindex).coherent
  have hfree := generation_ne_of_mem_ids hcoherent.stacked hnew
  exact h.of_get? hindex (coherent_onBase hcoherent hfree) (get?_onBase hcoherent.stacked hfree)

end Robust

end Index

/-! ## Operations -/

namespace Operation

open Index

/-- An operation that gives no class the name of an array and sets no element type. -/
def KeepsArrays : Operation ItemId → Prop
  | .class _ name => ¬ Item.NamesArray name
  | innerClass _ simple => ¬ Item.NamesArray simple
  | set _ setting => setting.key ≠ .arrayBase
  | project _ | package _ _ | method _ _ _ | field _ _ | arrayClass _ _ | builtinProject
  | primitive _ | wildcard | addDependency _ _ | removeDependency _ _ | call _ _ _
  | propagateThirdParty => True

instance : (operation : Operation ItemId) → Decidable operation.KeepsArrays
  | .class _ name => inferInstanceAs (Decidable (¬ Item.NamesArray name))
  | innerClass _ simple => inferInstanceAs (Decidable (¬ Item.NamesArray simple))
  | set _ setting => inferInstanceAs (Decidable (setting.key ≠ .arrayBase))
  | project _ | package _ _ | method _ _ _ | field _ _ | arrayClass _ _ | builtinProject
  | primitive _ | wildcard | addDependency _ _ | removeDependency _ _ | call _ _ _
  | propagateThirdParty => inferInstanceAs (Decidable True)

/-- Every operation keeps what is robust; of a setting it has to be known what it does. -/
theorem KeepsArrays.run_robust {holds : Index → Prop} (hrobust : Robust holds)
    {operation : Operation ItemId} (h : operation.KeepsArrays) {index : Index} (hindex : holds index)
    (hset : ∀ item setting, operation = .set item setting → holds (index.modify item setting.apply))
    (hroom : (operation.run index).2.size < 2 ^ 32) : holds (operation.run index).2 := by
  -- most operations are a change that answers with an item
  have hkeeps : ∀ {change : Edit ItemId}, Edit.Keeps (InRoom holds) change →
      operation.edit = (change >>= fun id => pure (.item id)) → holds (operation.run index).2 := by
    intro change hchange hedit
    have hall : Edit.Keeps (InRoom holds) operation.edit :=
      hedit ▸ hchange.bind (fun _ => Edit.Keeps.pure _)
    exact hall.run (fun _ => hindex) hroom
  cases operation with
  | project name => exact hkeeps (hrobust.keeps_createProject name) rfl
  | package owner name =>
    exact hkeeps (hrobust.keeps_createOwned owner (by decide) (fun hclass => by cases hclass)) rfl
  | «class» owner name => exact hkeeps (hrobust.keeps_createOwned owner (by decide) (fun _ => h)) rfl
  | innerClass outer simple => exact hkeeps (hrobust.keeps_createInnerClass outer h) rfl
  | method owner name params => exact hkeeps (hrobust.keeps_createMethod owner name params) rfl
  | field owner name =>
    exact hkeeps (hrobust.keeps_createOwned owner (by decide) (fun hclass => by cases hclass)) rfl
  | arrayClass base dims => exact hkeeps (hrobust.keeps_createArrayClass base dims) rfl
  | builtinProject => exact hkeeps (hrobust.keeps_createProject CodeAtlas.builtinProject) rfl
  | primitive name =>
    by_cases hname : primitives.contains name = true
    · exact hkeeps (hrobust.keeps_createBuiltin (primitive_ne_empty hname)
        (not_namesArray_primitive hname)) (edit_primitive hname)
    · have hrun : (createPrimitive name).run.run index = (.error (.notPrimitive name), index) := by
        rw [createPrimitive, if_neg hname]
        rfl
      rw [run_of_error rfl hrun]
      exact hindex
  | wildcard => exact hkeeps (hrobust.keeps_createBuiltin (by decide) (by decide)) rfl
  | set item setting => exact hset item setting rfl
  | addDependency source target => exact hrobust.addDependency hindex source target
  | removeDependency source target => exact hrobust.removeDependency hindex source target
  | call site owners create =>
    have hall : Edit.Keeps (InRoom holds) (call site owners create : Operation ItemId).edit :=
      (hrobust.keeps_resolveOrCreate { site with owners := owners } create).bind
        (fun _ => Edit.Keeps.pure _)
    exact hall.run (fun _ => hindex) hroom
  | propagateThirdParty => exact hrobust.propagateThirdParty hindex

end Operation

end CodeAtlas
