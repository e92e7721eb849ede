/-
# Relabelled items

Two indices that hold the same items may mark their handles by different generations.  A relabelling
sends the handles of one to those of the other: numbers stay, and for every number the generations
are permuted.  Everything an item is asked for or set to goes along with it.
-/
import CodeAtlas.Proofs.Index.Evolution
import Mathlib.Logic.Equiv.Basic

namespace CodeAtlas

/-! ## Relabelling handles -/

/-- For every number a permutation of generations. -/
structure Relabelling where
  generations : UInt32 → Equiv.Perm Nat

namespace Relabelling

/-- The handle that takes the place of a handle. -/
def map (ρ : Relabelling) (id : ItemId) : ItemId :=
  ⟨id.raw, ρ.generations id.raw id.generation⟩

/-- The relabelling that changes nothing. -/
def identity : Relabelling :=
  ⟨fun _ => Equiv.refl Nat⟩

variable (ρ : Relabelling)

@[simp] theorem raw_map (id : ItemId) : (ρ.map id).raw = id.raw := rfl

theorem map_injective : Function.Injective ρ.map := by
  rintro ⟨raw, generation⟩ ⟨raw', generation'⟩ h
  simp only [map, ItemId.mk.injEq] at h
  obtain ⟨rfl, h⟩ := h
  rw [(ρ.generations raw).injective h]

@[simp] theorem map_inj {a b : ItemId} : ρ.map a = ρ.map b ↔ a = b :=
  ρ.map_injective.eq_iff

theorem exists_map_eq (id : ItemId) : ∃ before, ρ.map before = id :=
  ⟨⟨id.raw, (ρ.generations id.raw).symm id.generation⟩, by simp [map]⟩

end Relabelling

/-! ## Attributes -/

variable (f : ItemId → ItemId)

/-- A value with its handles sent through `f`. -/
def AttrValue.map : AttrValue → AttrValue
  | id target => id (f target)
  | ids targets => ids (targets.map f)
  | flag value => flag value

namespace Attributes

/-- The attributes with every handle sent through `f`. -/
def map (attrs : Attributes) : Attributes :=
  ⟨attrs.slots.map (Option.map (AttrValue.map f))⟩

@[simp] theorem get?_map (attrs : Attributes) (key : AttrKey) :
    (attrs.map f).get? key = (attrs.get? key).map (AttrValue.map f) := by
  simp [map, get?]

/-- Attributes are equal when they agree on every key. -/
theorem eq_of_get? {attrs others : Attributes} (h : ∀ key, attrs.get? key = others.get? key) :
    attrs = others := by
  obtain ⟨slots⟩ := attrs
  obtain ⟨slots'⟩ := others
  congr 1
  refine Vector.ext (fun i hi => ?_)
  obtain ⟨key, hkey⟩ : ∃ key : AttrKey, key.index = ⟨i, hi⟩ :=
    have hplaces : ∀ place : Fin 13, (AttrKey.all.get place).index = place := by decide
    ⟨_, hplaces ⟨i, hi⟩⟩
  simpa [get?, hkey] using h key

theorem map_alter (attrs : Attributes) (key : AttrKey)
    (change image : Option AttrValue → Option AttrValue)
    (h : (change (attrs.get? key)).map (AttrValue.map f) =
      image ((attrs.get? key).map (AttrValue.map f))) :
    (attrs.alter key change).map f = (attrs.map f).alter key image := by
  refine eq_of_get? (fun other => ?_)
  rw [get?_map, get?_alter, get?_alter, get?_map, get?_map]
  split
  · exact h
  · rfl

theorem map_set (attrs : Attributes) (key : AttrKey) (value : AttrValue) :
    (attrs.set key value).map f = (attrs.map f).set key (value.map f) :=
  map_alter f attrs key _ _ rfl

theorem contains_map {f : ItemId → ItemId} (hf : Function.Injective f) (ids : Array ItemId)
    (id : ItemId) : (ids.map f).contains (f id) = ids.contains id := by
  rw [Bool.eq_iff_iff, Array.contains_iff_mem, Array.contains_iff_mem, Array.mem_map]
  exact ⟨fun ⟨_, hmem, heq⟩ => hf heq ▸ hmem, fun hmem => ⟨id, hmem, rfl⟩⟩

theorem map_pushNew {f : ItemId → ItemId} (hf : Function.Injective f) (attrs : Attributes)
    (key : AttrKey) (target : ItemId) :
    (attrs.pushNew key target).map f = (attrs.map f).pushNew key (f target) := by
  refine map_alter f attrs key _ _ ?_
  rcases attrs.get? key with _ | ⟨old⟩ | ⟨targets⟩ | ⟨value⟩
  · simp [AttrValue.map]
  · simp [AttrValue.map]
  · simp only [Option.map_some, AttrValue.map, contains_map hf]
    split <;> simp
  · simp [AttrValue.map]

theorem id?_map (attrs : Attributes) (key : AttrKey) :
    (attrs.map f).id? key = (attrs.id? key).map f := by
  rw [id?, id?, get?_map]
  rcases attrs.get? key with _ | ⟨target⟩ | ⟨targets⟩ | ⟨value⟩ <;> rfl

theorem ids?_map (attrs : Attributes) (key : AttrKey) :
    (attrs.map f).ids? key = (attrs.ids? key).map (Array.map f) := by
  rw [ids?, ids?, get?_map]
  rcases attrs.get? key with _ | ⟨target⟩ | ⟨targets⟩ | ⟨value⟩ <;> rfl

theorem flag_map (attrs : Attributes) (key : AttrKey) : (attrs.map f).flag key = attrs.flag key := by
  rw [flag, flag, get?_map]
  rcases attrs.get? key with _ | ⟨target⟩ | ⟨targets⟩ | ⟨value⟩ <;> rfl

theorem map_empty : empty.map f = empty := by
  refine eq_of_get? (fun key => ?_)
  have hnone : empty.get? key = none := by simp [empty, get?]
  rw [get?_map, hnone]
  rfl

end Attributes

/-! ## Items -/

namespace Item

/-- The item with every handle it holds sent through `f`. -/
def map (item : Item) : Item where
  id := f item.id
  name := item.name
  kind := item.kind
  parent := item.parent.map f
  children := item.children.map f
  dependencies := item.dependencies.map f
  incoming := item.incoming.map f
  attributes := item.attributes.map f

variable (item : Item)

@[simp] theorem id_map : (item.map f).id = f item.id := rfl

@[simp] theorem name_map : (item.map f).name = item.name := rfl

@[simp] theorem kind_map : (item.map f).kind = item.kind := rfl

@[simp] theorem parent_map : (item.map f).parent = item.parent.map f := rfl

@[simp] theorem arrayDims_map : (item.map f).arrayDims = item.arrayDims := rfl

@[simp] theorem superclass_map : (item.map f).superclass = item.superclass.map f :=
  Attributes.id?_map f item.attributes .superclass

@[simp] theorem arrayBase_map : (item.map f).arrayBase = item.arrayBase.map f :=
  Attributes.id?_map f item.attributes .arrayBase

@[simp] theorem superinterfaces_map :
    (item.map f).superinterfaces = item.superinterfaces.map f := by
  have hids : (item.map f).attributes.ids? .superinterfaces = _ :=
    Attributes.ids?_map f item.attributes .superinterfaces
  rw [superinterfaces, superinterfaces, hids]
  cases item.attributes.ids? .superinterfaces <;> simp

@[simp] theorem paramTypes_map : (item.map f).paramTypes = item.paramTypes.map f := by
  have hids : (item.map f).attributes.ids? .paramTypes = _ :=
    Attributes.ids?_map f item.attributes .paramTypes
  rw [paramTypes, paramTypes, paramTypes?, paramTypes?, hids]
  cases item.attributes.ids? .paramTypes <;> simp

@[simp] theorem isThirdParty_map : (item.map f).isThirdParty = item.isThirdParty :=
  Attributes.flag_map f item.attributes .thirdParty

@[simp] theorem map_fresh (id : ItemId) (name : String) (kind : ItemKind)
    (parent : Option ItemId) : (fresh id name kind parent).map f =
      fresh (f id) name kind (parent.map f) := by
  simp [map, fresh, Attributes.map_empty]

theorem map_map (g : ItemId → ItemId) : (item.map f).map g = item.map (g ∘ f) := by
  have hattributes : (item.attributes.map f).map g = item.attributes.map (g ∘ f) := by
    refine Attributes.eq_of_get? (fun key => ?_)
    rw [Attributes.get?_map, Attributes.get?_map, Attributes.get?_map]
    rcases item.attributes.get? key with _ | ⟨target⟩ | ⟨targets⟩ | ⟨value⟩ <;>
      simp [AttrValue.map]
  simp [map, hattributes]

theorem map_self : item.map (fun id => id) = item := by
  have hattributes : item.attributes.map (fun id => id) = item.attributes := by
    refine Attributes.eq_of_get? (fun key => ?_)
    rw [Attributes.get?_map]
    rcases item.attributes.get? key with _ | ⟨target⟩ | ⟨targets⟩ | ⟨value⟩ <;>
      simp [AttrValue.map]
  simp [map, hattributes]

end Item

/-! ## Changes of items -/

theorem Setting.map_apply {f : ItemId → ItemId} (hf : Function.Injective f)
    (setting : Setting ItemId) (item : Item) :
    (setting.apply item).map f = (setting.map f).apply (item.map f) := by
  cases setting with
  | one key target =>
    exact congrArg (fun attrs => { item.map f with attributes := attrs })
      (Attributes.map_set f item.attributes key.1 (.id target))
  | member key target =>
    exact congrArg (fun attrs => { item.map f with attributes := attrs })
      (Attributes.map_pushNew hf item.attributes key.1 target)
  | params types =>
    have hset := Attributes.map_set f item.attributes .paramTypes (.ids types.toArray)
    rw [AttrValue.map, List.map_toArray] at hset
    exact congrArg (fun attrs => { item.map f with attributes := attrs }) hset
  | flag key value =>
    exact congrArg (fun attrs => { item.map f with attributes := attrs })
      (Attributes.map_set f item.attributes key (.flag value))

theorem Setting.map_applyAll {f : ItemId → ItemId} (hf : Function.Injective f)
    (settings : List (Setting ItemId)) (item : Item) :
    (applyAll settings item).map f = applyAll (settings.map (Setting.map f)) (item.map f) := by
  induction settings generalizing item with
  | nil => rfl
  | cons setting rest ih =>
    have hrest := ih (setting.apply item)
    rw [map_apply hf] at hrest
    exact hrest

theorem map_insertNew {f : ItemId → ItemId} (hf : Function.Injective f) (ids : Array ItemId)
    (id : ItemId) : (insertNew ids id).map f = insertNew (ids.map f) (f id) := by
  rw [insertNew, insertNew, Attributes.contains_map hf]
  split
  · rfl
  · rw [Array.map_push]

theorem map_distinct {f : ItemId → ItemId} (hf : Function.Injective f) (ids : List ItemId) :
    (distinct ids).map f = distinct (ids.map f) := by
  have hfold : ∀ (rest : List ItemId) (found : Array ItemId),
      (rest.foldl insertNew found).map f = (rest.map f).foldl insertNew (found.map f) := by
    intro rest
    induction rest with
    | nil => exact fun _ => rfl
    | cons first rest ih =>
      intro found
      rw [List.foldl_cons, ih, map_insertNew hf]
      rfl
  rw [distinct, distinct, hfold]
  simp

theorem map_erase {f : ItemId → ItemId} (hf : Function.Injective f) (ids : Array ItemId)
    (id : ItemId) : (ids.erase id).map f = (ids.map f).erase (f id) := by
  apply Array.toList_inj.1
  rw [Array.toList_map, Index.toList_erase, Index.toList_erase, Array.toList_map,
    List.map_erase hf]

end CodeAtlas
