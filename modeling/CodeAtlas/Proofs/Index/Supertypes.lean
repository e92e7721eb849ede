/-
# Supertypes in breadth-first order

The supertypes of a class are walked level by level, with a queue of the classes whose links are still
to be followed.  Whatever the links look like, the walk ends with an empty queue.  It has then found
the classes that links lead to, each once: the nearest first, and of two at the same distance the one
that was found first, by a superclass before the interfaces beside it.  No other list has this order.
Searches for members take the first class of it that has one.
-/
import CodeAtlas.Proofs.Index.Origins
import Mathlib.Logic.Function.Iterate

namespace CodeAtlas

namespace Index

variable {index : Index} {id : ItemId} {seen level above : List ItemId}

theorem nextLevel_eq_newIn (index : Index) (seen level : List ItemId) :
    index.nextLevel seen level = newIn seen (level.flatMap index.directSupertypes) := by
  rw [nextLevel, toList_distinct, ← newIn_filter, List.append_nil]

/-! ## The queue -/

/-- A class that was not seen is seen now and waits at the end of the queue. -/
def discover (walk : List ItemId × List ItemId) (target : ItemId) : List ItemId × List ItemId :=
  if target ∈ walk.1 then walk else (walk.1 ++ [target], walk.2 ++ [target])

/-- One round of a walk with a queue: the links of the first class that waits are followed. -/
def visit (index : Index) : List ItemId × List ItemId → List ItemId × List ItemId
  | (seen, []) => (seen, [])
  | (seen, id :: waiting) => (index.directSupertypes id).foldl discover (seen, waiting)

theorem foldl_discover (seen waiting targets : List ItemId) :
    targets.foldl discover (seen, waiting) =
      (seen ++ newIn seen targets, waiting ++ newIn seen targets) := by
  induction targets generalizing seen waiting with
  | nil => simp [newIn]
  | cons target rest ih =>
    rw [List.foldl_cons, discover]
    by_cases htarget : target ∈ seen
    · rw [if_pos htarget, ih, newIn_cons_of_mem htarget]
    · rw [if_neg htarget, ih, newIn_cons_of_notMem htarget]
      simp only [List.append_assoc, List.singleton_append]

/-- When a level of classes has been visited, the next one waits. -/
theorem visit_level (index : Index) (level seen waiting : List ItemId) :
    index.visit^[level.length] (seen, level ++ waiting) =
      (seen ++ index.nextLevel seen level, waiting ++ index.nextLevel seen level) := by
  induction level generalizing seen waiting with
  | nil => simp [nextLevel_eq_newIn, newIn]
  | cons first rest ih =>
    have hsplit : index.nextLevel seen (first :: rest) =
        newIn seen (index.directSupertypes first) ++
          index.nextLevel (seen ++ newIn seen (index.directSupertypes first)) rest := by
      rw [nextLevel_eq_newIn, nextLevel_eq_newIn, List.flatMap_cons, newIn_append]
    rw [List.length_cons, Function.iterate_succ_apply, List.cons_append, visit, foldl_discover,
      List.append_assoc, ih, hsplit]
    simp only [List.append_assoc]

/-- The walk empties the queue after as many rounds as there are classes. -/
theorem Climbs.visit_eq (h : index.Climbs seen level above) :
    index.visit^[level.length + above.length] (seen, level) = (seen ++ above, []) := by
  -- level by level: after its rounds the queue holds the next level and nothing else
  induction h with
  | @stop seen level hnext =>
    have hlevel := index.visit_level level seen []
    rw [hnext] at hlevel
    simpa using hlevel
  | @climb seen level above hnext _ ih =>
    have hlevel := index.visit_level level seen []
    rw [List.append_nil, List.nil_append] at hlevel
    rw [List.length_append, Nat.add_comm level.length, Function.iterate_add_apply, hlevel, ih,
      List.append_assoc]

/-- Rounds after the last one change nothing. -/
theorem visit_supertypes (h : index.IsListed) (id : ItemId) {rounds : Nat}
    (hrounds : (index.withSupertypes id).length ≤ rounds) :
    index.visit^[rounds] ([id], [id]) = (index.withSupertypes id, []) := by
  obtain ⟨more, rfl⟩ := Nat.exists_eq_add_of_le' hrounds
  have hend : index.visit^[(index.withSupertypes id).length] ([id], [id]) =
      (index.withSupertypes id, []) := by
    have hvisit := (climbs_supertypes h id).visit_eq
    rwa [Nat.add_comm] at hvisit
  rw [Function.iterate_add_apply, hend]
  exact Function.iterate_fixed rfl more

/-! ## Discoverers -/

/-- The first class in a walk that links to one of two classes links to `a`, and its link to `a` comes
before any to `b`. -/
def FoundBefore (index : Index) (walk : List ItemId) (a b : ItemId) : Prop :=
  ∃ earlier finder later before after, walk = earlier ++ finder :: later ∧
    (∀ id ∈ earlier, a ∉ index.directSupertypes id ∧ b ∉ index.directSupertypes id) ∧
    index.directSupertypes finder = before ++ a :: after ∧ a ∉ before ∧ b ∉ before

/-- What comes first among all links has a first discoverer. -/
theorem foundBefore_of_flatMap {walk before after : List ItemId} {a b : ItemId}
    (h : walk.flatMap index.directSupertypes = before ++ a :: after) (ha : a ∉ before)
    (hb : b ∉ before) : index.FoundBefore walk a b := by
  induction walk generalizing before with
  | nil => simp at h
  | cons first rest ih =>
    rw [List.flatMap_cons] at h
    -- either `first` links to `a`, or all its links are among those before `a`
    have hcases : (∃ tail, index.directSupertypes first = before ++ a :: tail) ∨
        ∃ front, before = index.directSupertypes first ++ front ∧
          rest.flatMap index.directSupertypes = front ++ a :: after := by
      rcases List.append_eq_append_iff.1 h with hrest | ⟨middle, hfirst, hrest⟩
      · exact Or.inr hrest
      · cases middle with
        | nil => exact Or.inr ⟨[], by rw [hfirst, List.append_nil, List.append_nil], hrest.symm⟩
        | cons head tail =>
          obtain ⟨rfl, _⟩ := List.cons.inj hrest
          exact Or.inl ⟨tail, hfirst⟩
    rcases hcases with ⟨tail, hfirst⟩ | ⟨front, rfl, hrest⟩
    · exact ⟨[], first, rest, before, tail, rfl, by simp, hfirst, ha, hb⟩
    · rw [List.mem_append, not_or] at ha hb
      obtain ⟨earlier, finder, later, inner, tail, rfl, hnone, hfinder⟩ := ih hrest ha.2 hb.2
      exact ⟨first :: earlier, finder, later, inner, tail, rfl,
        List.forall_mem_cons.2 ⟨⟨ha.1, hb.1⟩, hnone⟩, hfinder⟩

/-- Two classes are told apart by their first discoverer and its first link to one of them. -/
theorem FoundBefore.exists_find? {walk : List ItemId} {a b : ItemId}
    (h : index.FoundBefore walk a b) : ∃ finder,
      walk.find? (fun id => a ∈ index.directSupertypes id ∨ b ∈ index.directSupertypes id) =
        some finder ∧
      (index.directSupertypes finder).find? (fun target => target = a ∨ target = b) = some a := by
  obtain ⟨earlier, finder, later, before, after, rfl, hnone, hlinks, ha, hb⟩ := h
  refine ⟨finder, List.find?_eq_some_iff_append.2 ⟨?_, earlier, later, rfl, fun id hid => ?_⟩,
    List.find?_eq_some_iff_append.2 ⟨by simp, before, after, hlinks, fun target htarget => ?_⟩⟩
  · simp [hlinks]
  · simp [hnone id hid]
  · have hne : target ≠ a := fun heq => ha (heq ▸ htarget)
    have hneOther : target ≠ b := fun heq => hb (heq ▸ htarget)
    simp [hne, hneOther]

/-- Walks that agree until a first discoverer agree on what it finds first. -/
theorem FoundBefore.eq_of_swap {front rest back : List ItemId} {a b : ItemId}
    (h : index.FoundBefore (front ++ rest) a b) (hswap : index.FoundBefore (front ++ back) b a)
    (hfront : ∃ id ∈ front, a ∈ index.directSupertypes id) : a = b := by
  obtain ⟨finder, hfinder, hfirst⟩ := h.exists_find?
  obtain ⟨other, hother, hfirstOther⟩ := hswap.exists_find?
  simp only [or_comm (a := b ∈ _)] at hother
  simp only [or_comm (a := _ = b)] at hfirstOther
  obtain ⟨id, hid, hlink⟩ := hfront
  obtain ⟨found, hfound⟩ : ∃ found, front.find? (fun id => a ∈ index.directSupertypes id ∨
      b ∈ index.directSupertypes id) = some found := by
    refine Option.isSome_iff_exists.1 (List.find?_isSome.2 ⟨id, hid, ?_⟩)
    simp [hlink]
  rw [List.find?_append, hfound, Option.some_or, Option.some.injEq] at hfinder hother
  rw [← hfinder] at hfirst
  rw [← hother] at hfirstOther
  exact Option.some.inj (hfirst.symm.trans hfirstOther)

theorem Climbs.eq_newIn (h : index.Climbs seen level above) :
    above = newIn seen ((level ++ above).flatMap index.directSupertypes) := by
  induction h with
  | @stop seen level hnext =>
    rw [List.append_nil, ← nextLevel_eq_newIn, hnext]
  | @climb seen level above hnext _ ih =>
    rw [List.flatMap_append, newIn_append, ← nextLevel_eq_newIn, ← ih]

theorem supertypes_eq_newIn (h : index.IsListed) (id : ItemId) : index.supertypes id =
    newIn [id] ((index.withSupertypes id).flatMap index.directSupertypes) :=
  (climbs_supertypes h id).eq_newIn

theorem nodup_withSupertypes (h : index.IsListed) (id : ItemId) :
    (index.withSupertypes id).Nodup := by
  rw [withSupertypes, supertypes_eq_newIn h, ← List.singleton_append]
  exact nodup_append_newIn (List.nodup_singleton id) _

theorem foundBefore_supertypes (h : index.IsListed) (id : ItemId) :
    (index.supertypes id).Pairwise (index.FoundBefore (index.withSupertypes id)) := by
  rw [supertypes_eq_newIn h]
  refine (pairwise_newIn _ _).imp ?_
  rintro a b ⟨before, after, hlinks, ha, hb⟩
  exact foundBefore_of_flatMap hlinks ha hb

/-! ## Distances -/

/-- A way up of so many links. -/
def Ascends (index : Index) : Nat → ItemId → ItemId → Prop
  | 0, lower, upper => lower = upper
  | steps + 1, lower, upper =>
    ∃ middle, Ascends index steps lower middle ∧ upper ∈ index.directSupertypes middle

theorem Ascends.inherits {steps : Nat} {lower upper : ItemId} (h : index.Ascends steps lower upper) :
    index.Inherits lower upper := by
  induction steps generalizing upper with
  | zero => exact h ▸ .refl
  | succ steps ih =>
    obtain ⟨middle, hway, hlink⟩ := h
    exact (ih hway).tail hlink

/-- No way up has fewer links than the distance. -/
structure IsAway (index : Index) (id : ItemId) (distance : Nat) (target : ItemId) : Prop where
  ascends : index.Ascends distance id target
  least : ∀ {steps : Nat}, index.Ascends steps id target → distance ≤ steps

/-- A level of the walk: it holds the classes at one distance, and those no farther away were seen. -/
structure IsLevel (index : Index) (id : ItemId) (distance : Nat) (seen level : List ItemId) :
    Prop where
  mem_level : ∀ {target}, target ∈ level ↔ index.IsAway id distance target
  mem_seen : ∀ {target}, target ∈ seen ↔ ∃ steps ≤ distance, index.Ascends steps id target

theorem isLevel_start (index : Index) (id : ItemId) : index.IsLevel id 0 [id] [id] where
  mem_level := by
    intro target
    rw [List.mem_singleton]
    exact ⟨fun heq => ⟨heq.symm, fun _ => Nat.zero_le _⟩, fun haway => haway.ascends.symm⟩
  mem_seen := by
    intro target
    rw [List.mem_singleton]
    constructor
    · exact fun heq => ⟨0, Nat.le_refl 0, heq.symm⟩
    · rintro ⟨steps, hsteps, hascends⟩
      obtain rfl := Nat.le_zero.1 hsteps
      exact hascends.symm

/-- One level up, the classes are one link farther away. -/
theorem IsLevel.mem_nextLevel_iff {distance : Nat} (h : index.IsLevel id distance seen level)
    {target : ItemId} :
    target ∈ index.nextLevel seen level ↔ index.IsAway id (distance + 1) target := by
  rw [Index.mem_nextLevel_iff]
  constructor
  · -- what was not seen is farther away than this level
    rintro ⟨⟨middle, hmiddle, hlink⟩, hnew⟩
    refine ⟨⟨middle, (h.mem_level.1 hmiddle).ascends, hlink⟩, fun hascends => ?_⟩
    by_contra hless
    exact hnew (h.mem_seen.2 ⟨_, by omega, hascends⟩)
  · -- the last class on a shortest way stands in this level
    rintro ⟨⟨middle, hascends, hlink⟩, hleast⟩
    refine ⟨⟨middle, h.mem_level.2 ⟨hascends, fun {steps} hother => ?_⟩, hlink⟩, fun hseen => ?_⟩
    · have hlonger : index.Ascends (steps + 1) id target := ⟨middle, hother, hlink⟩
      have hle := hleast hlonger
      omega
    · obtain ⟨steps, hsteps, hshort⟩ := h.mem_seen.1 hseen
      have hle := hleast hshort
      omega

theorem IsLevel.next {distance : Nat} (h : index.IsLevel id distance seen level) :
    index.IsLevel id (distance + 1) (seen ++ index.nextLevel seen level)
      (index.nextLevel seen level) where
  mem_level := h.mem_nextLevel_iff
  mem_seen := by
    intro target
    rw [List.mem_append, h.mem_nextLevel_iff]
    constructor
    · rintro (hseen | haway)
      · obtain ⟨steps, hsteps, hascends⟩ := h.mem_seen.1 hseen
        exact ⟨steps, by omega, hascends⟩
      · exact ⟨distance + 1, Nat.le_refl _, haway.ascends⟩
    · rintro ⟨steps, hsteps, hascends⟩
      by_cases hseen : target ∈ seen
      · exact Or.inl hseen
      · refine Or.inr ⟨?_, fun {other} hother => ?_⟩
        · have hlast : steps = distance + 1 := by
            by_contra hne
            exact hseen (h.mem_seen.2 ⟨steps, by omega, hascends⟩)
          exact hlast ▸ hascends
        · by_contra hless
          exact hseen (h.mem_seen.2 ⟨other, by omega, hother⟩)

/-- `a` is no farther away than `b`. -/
def IsNearer (index : Index) (id a b : ItemId) : Prop :=
  ∃ m n, index.IsAway id m a ∧ index.IsAway id n b ∧ m ≤ n

theorem Climbs.exists_isAway (h : index.Climbs seen level above) {distance : Nat}
    (hlevel : index.IsLevel id distance seen level) {target : ItemId} (htarget : target ∈ above) :
    ∃ n, distance < n ∧ index.IsAway id n target := by
  induction h generalizing distance with
  | stop _ => exact absurd htarget List.not_mem_nil
  | climb _ _ ih =>
    rcases List.mem_append.1 htarget with hnext | habove
    · exact ⟨distance + 1, Nat.lt_succ_self _, hlevel.mem_nextLevel_iff.1 hnext⟩
    · obtain ⟨n, hless, haway⟩ := ih hlevel.next habove
      exact ⟨n, by omega, haway⟩

/-- The walk goes from level to level, so nearer classes come first. -/
theorem Climbs.pairwise_isNearer (h : index.Climbs seen level above) {distance : Nat}
    (hlevel : index.IsLevel id distance seen level) : above.Pairwise (index.IsNearer id) := by
  induction h generalizing distance with
  | stop _ => exact .nil
  | climb _ habove ih =>
    refine List.pairwise_append.2 ⟨?_, ih hlevel.next, fun a ha b hb => ?_⟩
    · refine List.pairwise_of_forall_mem_list (fun a ha b hb => ?_)
      exact ⟨_, _, hlevel.mem_nextLevel_iff.1 ha, hlevel.mem_nextLevel_iff.1 hb, Nat.le_refl _⟩
    · obtain ⟨n, hless, haway⟩ := habove.exists_isAway hlevel.next hb
      exact ⟨_, n, hlevel.mem_nextLevel_iff.1 ha, haway, Nat.le_of_lt hless⟩

/-! ## The order of the walk -/

/-- The supertypes of a class in breadth-first order. -/
structure IsBreadthFirst (index : Index) (id : ItemId) (chain : List ItemId) : Prop where
  nodup : chain.Nodup
  /-- They are the classes that one or more links lead to, without the class itself. -/
  mem_iff : ∀ {target}, target ∈ chain ↔ target ≠ id ∧
    Relation.TransGen (fun lower upper => upper ∈ index.directSupertypes lower) id target
  nearest_first : chain.Pairwise (index.IsNearer id)
  found_first : chain.Pairwise (index.FoundBefore (id :: chain))

theorem isBreadthFirst_supertypes (h : index.IsListed) (id : ItemId) :
    index.IsBreadthFirst id (index.supertypes id) where
  nodup := (List.nodup_cons.1 (nodup_withSupertypes h id)).2
  mem_iff := by
    intro target
    have hnew := (List.nodup_cons.1 (nodup_withSupertypes h id)).1
    have hmem : target ∈ index.withSupertypes id ↔ index.Inherits id target :=
      mem_withSupertypes_iff h
    rw [withSupertypes, List.mem_cons, Inherits, Relation.reflTransGen_iff_eq_or_transGen] at hmem
    constructor
    · intro htarget
      have hne : target ≠ id := fun heq => hnew (heq ▸ htarget)
      exact ⟨hne, (hmem.1 (Or.inr htarget)).resolve_left hne⟩
    · rintro ⟨hne, hway⟩
      exact (hmem.2 (Or.inr hway)).resolve_left hne
  nearest_first := (climbs_supertypes h id).pairwise_isNearer (isLevel_start index id)
  found_first := foundBefore_supertypes h id

/-- Different lists of the same length part at some place. -/
theorem exists_fork {list other : List ItemId} (hlength : list.length = other.length)
    (hne : list ≠ other) : ∃ front a rest b back,
      list = front ++ a :: rest ∧ other = front ++ b :: back ∧ a ≠ b := by
  induction list generalizing other with
  | nil => exact absurd (List.length_eq_zero_iff.1 hlength.symm).symm hne
  | cons first rest ih =>
    cases other with
    | nil => simp at hlength
    | cons head tail =>
      by_cases hhead : first = head
      · subst hhead
        have hrest : rest ≠ tail := fun heq => hne (heq ▸ rfl)
        obtain ⟨front, a, before, b, after, rfl, rfl, hab⟩ := ih (Nat.succ.inj hlength) hrest
        exact ⟨first :: front, a, before, b, after, rfl, rfl, hab⟩
      · exact ⟨[], first, rest, head, tail, rfl, rfl, hhead⟩

/-- Some class before another one links to it. -/
theorem IsBreadthFirst.exists_discoverer {front rest : List ItemId} {a : ItemId} {distance : Nat}
    (h : index.IsBreadthFirst id (front ++ a :: rest)) (haway : index.IsAway id distance a) :
    ∃ lower ∈ id :: front, a ∈ index.directSupertypes lower := by
  have hne : a ≠ id := (h.mem_iff.1 (by simp)).1
  cases distance with
  | zero => exact absurd haway.ascends.symm hne
  | succ distance =>
    obtain ⟨lower, hway, hlink⟩ := haway.ascends
    refine ⟨lower, ?_, hlink⟩
    by_contra hnot
    rw [List.mem_cons, not_or] at hnot
    have hlinks := Relation.reflTransGen_iff_eq_or_transGen.1 hway.inherits
    have hmem : lower ∈ front ++ a :: rest := h.mem_iff.2 ⟨hnot.1, hlinks.resolve_left hnot.1⟩
    rcases List.mem_cons.1 ((List.mem_append.1 hmem).resolve_left hnot.2) with rfl | hrest
    · have hle := haway.least hway
      omega
    · -- what comes later is no nearer
      obtain ⟨m, n, ha, hlower, hle⟩ :=
        (List.pairwise_cons.1 (List.pairwise_append.1 h.nearest_first).2.1).1 lower hrest
      have hfar := haway.least ha.ascends
      have hnear := hlower.least hway
      omega

/-- The classes stand in breadth-first order in one way only. -/
theorem IsBreadthFirst.unique {chain other : List ItemId} (h : index.IsBreadthFirst id chain)
    (hother : index.IsBreadthFirst id other) : chain = other := by
  by_contra hne
  have hmem : ∀ target, target ∈ chain ↔ target ∈ other :=
    fun _ => h.mem_iff.trans hother.mem_iff.symm
  have hperm : chain.Perm other := (List.perm_ext_iff_of_nodup h.nodup hother.nodup).2 hmem
  obtain ⟨front, a, rest, b, back, rfl, rfl, hab⟩ := exists_fork hperm.length_eq hne
  -- where the two part, each has the other's class further on
  have hlater : ∀ {a b : ItemId} {rest back : List ItemId}, (front ++ b :: back).Nodup →
      b ∈ front ++ a :: rest → b ≠ a → b ∈ rest := by
    intro a b rest back hnodup hb hba
    have hfront : b ∉ front := fun hin =>
      (List.nodup_append.1 hnodup).2.2 b hin b List.mem_cons_self rfl
    exact (List.mem_cons.1 ((List.mem_append.1 hb).resolve_left hfront)).resolve_left hba
  have hb : b ∈ rest := hlater hother.nodup ((hmem b).2 (by simp)) (Ne.symm hab)
  have ha : a ∈ back := hlater h.nodup ((hmem a).1 (by simp)) hab
  have hpair : ∀ {r : ItemId → ItemId → Prop} {a b : ItemId} {rest : List ItemId},
      (front ++ a :: rest).Pairwise r → b ∈ rest → r a b :=
    fun hpairwise hin => (List.pairwise_cons.1 (List.pairwise_append.1 hpairwise).2.1).1 _ hin
  obtain ⟨m, _, haway, _⟩ := hpair h.nearest_first hb
  -- so the first discoverer stands before they part
  exact hab ((hpair h.found_first hb).eq_of_swap (hpair hother.found_first ha)
    (h.exists_discoverer haway))

theorem isBreadthFirst_iff (h : index.IsListed) {id : ItemId} {chain : List ItemId} :
    index.IsBreadthFirst id chain ↔ index.supertypes id = chain := by
  have hwalk := isBreadthFirst_supertypes h id
  constructor
  · exact hwalk.unique
  · rintro rfl
    exact hwalk

/-! ## Subtypes -/

theorem isSubtype_iff (h : index.IsListed) {id ancestor : ItemId} :
    index.isSubtype id ancestor = true ↔ index.Inherits id ancestor := by
  rw [← mem_withSupertypes_iff h, withSupertypes, List.mem_cons, isSubtype, Bool.or_eq_true,
    decide_eq_true_eq, List.contains_iff_mem]
  exact or_congr_left eq_comm

theorem isSubtype_trans (h : index.IsListed) {a b c : ItemId} (hab : index.isSubtype a b = true)
    (hbc : index.isSubtype b c = true) : index.isSubtype a c = true :=
  (isSubtype_iff h).2 (((isSubtype_iff h).1 hab).trans ((isSubtype_iff h).1 hbc))

/-! ## Members -/

/-- What a search for a member through the supertypes of a class finds: a member of the first class
that has one. -/
structure FindsFirst (index : Index) (id : ItemId) (has : ItemId → ItemId → Prop)
    (found : Option ItemId) : Prop where
  isSome_iff : found.isSome ↔ ∃ owner ∈ index.withSupertypes id, ∃ member, has owner member
  first : ∀ {member}, found = some member → ∃ nearer owner farther,
    index.withSupertypes id = nearer ++ owner :: farther ∧ has owner member ∧
      ∀ other ∈ nearer, ∀ member, ¬ has other member

theorem findsFirst_findSome? (index : Index) (id : ItemId) {find : ItemId → Option ItemId}
    {has : ItemId → ItemId → Prop} (hsome : ∀ {owner member}, find owner = some member →
      has owner member) (hnone : ∀ {owner}, find owner = none → ∀ member, ¬ has owner member) :
    index.FindsFirst id has ((index.withSupertypes id).findSome? find) where
  isSome_iff := by
    rw [List.findSome?_isSome_iff]
    refine exists_congr (fun owner => and_congr_right (fun _ => ?_))
    cases hfind : find owner with
    | none => simpa using hnone hfind
    | some member => simpa using ⟨member, hsome hfind⟩
  first := by
    intro member hfound
    obtain ⟨nearer, owner, farther, hwalk, hfind, hbefore⟩ := List.findSome?_eq_some_iff.1 hfound
    exact ⟨nearer, owner, farther, hwalk, hsome hfind, fun other hother => hnone (hbefore other hother)⟩

/-- A method of the class under the name of the query that the query describes. -/
def HasMethod (index : Index) (query : MethodQuery) (owner method : ItemId) : Prop :=
  method ∈ index.findAll (some owner) query.name .method ∧ query.matchesItem index method = true

/-- A field of the class under the name. -/
def HasField (index : Index) (name : String) (owner field : ItemId) : Prop :=
  field ∈ index.findAll (some owner) name .field

theorem findsFirst_findMethod (index : Index) (id : ItemId) (query : MethodQuery) :
    index.FindsFirst id (index.HasMethod query) (index.findMethod id query) := by
  refine index.findsFirst_findSome? id (fun hfind => ?_) (fun hfind method hhas => ?_)
  · exact ⟨List.mem_of_find?_eq_some hfind, List.find?_some hfind⟩
  · exact List.find?_eq_none.1 hfind method hhas.1 hhas.2

theorem findsFirst_findField (index : Index) (id : ItemId) (name : String) :
    index.FindsFirst id (index.HasField name) (index.findField id name) := by
  refine index.findsFirst_findSome? id (fun hfind => ?_) (fun hfind field hhas => ?_)
  · exact Layers.mem_findAll_of_findItem hfind
  · rw [HasField, findAll, Layers.findItem_eq_none_iff.1 hfind] at hhas
    exact List.not_mem_nil hhas

/-! ## Every index -/

/-- Walks through supertypes go breadth first. -/
structure WalksBreadthFirst (index : Index) : Prop where
  /-- The walk from a class gives the one list of its supertypes in breadth-first order. -/
  order : ∀ id chain, index.IsBreadthFirst id chain ↔ index.supertypes id = chain
  /-- The queue is empty after one round for every class, and then the classes seen are the walk. -/
  ends : ∀ id rounds, (index.withSupertypes id).length ≤ rounds →
    index.visit^[rounds] ([id], [id]) = (index.withSupertypes id, [])
  isSubtype_refl : ∀ id, index.isSubtype id id = true
  isSubtype_trans : ∀ a b c, index.isSubtype a b = true → index.isSubtype b c = true →
    index.isSubtype a c = true
  findMethod : ∀ id query, index.FindsFirst id (index.HasMethod query) (index.findMethod id query)
  findField : ∀ id name, index.FindsFirst id (index.HasField name) (index.findField id name)

/-- In every index, whether its links go round in circles, lead nowhere or are repeated, walks through
supertypes end and go breadth first. -/
theorem supertypes_breadth_first (h : index.Arises) : index.WalksBreadthFirst where
  order := fun _ _ => isBreadthFirst_iff h.isListed
  ends := fun id _ hrounds => visit_supertypes h.isListed id hrounds
  isSubtype_refl := fun _ => (isSubtype_iff h.isListed).2 .refl
  isSubtype_trans := fun _ _ _ => Index.isSubtype_trans h.isListed
  findMethod := index.findsFirst_findMethod
  findField := index.findsFirst_findField

/-- A class and its superclass that extend each other; the one implements the other again and an
interface with a method, the other a handle without an item. -/
def tangledApp : Index :=
  [Operation.project "app", .package ⟨0, 1⟩ "p", .class ⟨1, 1⟩ "Base", .class ⟨1, 1⟩ "Api",
    .class ⟨1, 1⟩ "Child", .method ⟨3, 1⟩ "size" (some []),
    .set ⟨4, 1⟩ (.one ⟨.superclass, AttrKey.holdsOne_superclass⟩ ⟨2, 1⟩),
    .set ⟨4, 1⟩ (.member ⟨.superinterfaces, rfl⟩ ⟨2, 1⟩),
    .set ⟨4, 1⟩ (.member ⟨.superinterfaces, rfl⟩ ⟨3, 1⟩),
    .set ⟨2, 1⟩ (.one ⟨.superclass, AttrKey.holdsOne_superclass⟩ ⟨4, 1⟩),
    .set ⟨2, 1⟩ (.member ⟨.superinterfaces, rfl⟩ ⟨9, 1⟩)].foldl
    (fun index operation => (operation.run index).2) (empty 1)

theorem arises_tangledApp : tangledApp.Arises :=
  (Arises.empty 1).foldl_run _

/-- The walk from the class ends after three more, and the method is found on the interface. -/
theorem supertypes_breadth_first_tangledApp :
    tangledApp.supertypes ⟨4, 1⟩ = [⟨2, 1⟩, ⟨3, 1⟩, ⟨9, 1⟩] ∧
      tangledApp.findMethod ⟨4, 1⟩ ⟨"size", []⟩ = some ⟨5, 1⟩ ∧ tangledApp.WalksBreadthFirst :=
  ⟨by decide +kernel, by decide +kernel, supertypes_breadth_first arises_tangledApp⟩

end Index

end CodeAtlas
