/-
# Paths and the places they lead to

A path leads where its segments lead: empty segments and single dots on the way change nothing.  A
path that is built by appending relative paths has the segments of its parts, and among the paths
above it stands one for every beginning of its segments, the longer ones first.

Putting a node on a disk touches no other place, and the nodes stay in order.
-/
import CodeAtlas.Disk.Basic
import CodeAtlas.Proofs.Text.Cuts

namespace CodeAtlas

namespace Path

/-! ## Relative paths -/

/-- A path that begins at the working directory. -/
structure IsRelative (path : String) : Prop where
  ne_empty : path ≠ ""
  not_absolute : isAbsolute path = false

/-- Whether a segment leads to another place. -/
def isStep (segment : String) : Bool :=
  !segment.isEmpty && segment != "."

/-- The segments of a path that lead to another place. -/
def steps (path : String) : List String :=
  (Text.splitOn '/' path).filter isStep

theorem isAbsolute_eq (path : String) : isAbsolute path = decide (path.toList.head? = some '/') := by
  rw [isAbsolute, Text.startsWith]
  cases path.toList with
  | nil => rfl
  | cons c rest =>
    show (Text.afterLead? ['/'] (c :: rest)).isSome = _
    by_cases hc : c = '/'
    · subst hc
      simp [Text.afterLead?]
    · simp [Text.afterLead?, hc, Ne.symm hc]

theorem toList_ne_nil {path : String} (h : path ≠ "") : path.toList ≠ [] := by
  simpa using h

/-- What follows a relative path does not matter for where it begins. -/
theorem IsRelative.append {path : String} (h : IsRelative path) (tail : String) :
    IsRelative (path ++ tail) := by
  obtain ⟨hne, hrelative⟩ := h
  refine ⟨by simp [hne], ?_⟩
  rw [isAbsolute_eq] at hrelative ⊢
  rw [String.toList_append, List.head?_append_of_ne_nil _ (toList_ne_nil hne)]
  exact hrelative

theorem IsRelative.join {path tail : String} (h : IsRelative path) (htail : isAbsolute tail = false) :
    IsRelative (join path tail) := by
  have hempty : path.isEmpty = false := by simpa using h.ne_empty
  rw [Path.join, htail, hempty]
  simp only [Bool.or_self, Bool.false_eq_true, if_false]
  split
  · exact h.append tail
  · rw [String.append_assoc]
    exact h.append _

/-! ## Segments -/

/-- A path with a tail is cut into the pieces of both; a slash at the end of the path makes no piece
of its own. -/
theorem splitOn_join {path tail : String} (h : IsRelative path) (htail : isAbsolute tail = false) :
    ∃ front, Text.splitOn '/' (join path tail) = front ++ Text.splitOn '/' tail ∧
      (Text.splitOn '/' path = front ∨ Text.splitOn '/' path = front ++ [""]) := by
  have hempty : path.isEmpty = false := by simpa using h.ne_empty
  rw [join, htail, hempty]
  simp only [Bool.or_self, Bool.false_eq_true, if_false]
  split
  · rename_i hends
    obtain ⟨before, hbefore⟩ := Option.isSome_iff_exists.1 hends
    obtain ⟨rest, hrest, rfl⟩ := Option.map_eq_some_iff.1 hbefore
    have hpath : path = String.ofList rest.reverse ++ String.singleton '/' := by
      rw [← String.toList_inj]
      have := congrArg List.reverse (Text.eq_append_of_afterLead? hrest)
      simpa using this
    refine ⟨Text.splitOn '/' (String.ofList rest.reverse), ?_, Or.inr ?_⟩
    · rw [hpath, Text.splitOn_append]
    · have := Text.splitOn_append '/' (String.ofList rest.reverse) ""
      rw [String.append_empty, ← hpath] at this
      exact this
  · exact ⟨Text.splitOn '/' path, Text.splitOn_append '/' path tail, Or.inl rfl⟩

theorem IsRelative.exists_splitOn {path : String} (h : IsRelative path) :
    ∃ first rest, Text.splitOn '/' path = first :: rest ∧ first ≠ "" := by
  obtain ⟨hne, hrelative⟩ := h
  rw [isAbsolute_eq] at hrelative
  cases hlist : path.toList with
  | nil => exact absurd hlist (toList_ne_nil hne)
  | cons c rest =>
    have hc : (c == '/') = false := by simpa [hlist] using hrelative
    refine ⟨_, _, by rw [Text.splitOn, hlist, Text.pieces]; rfl, ?_⟩
    rw [List.foldr_cons, Text.pieceStep, hc]
    simp

theorem segments_of_splitOn {path first : String} {rest : List String}
    (h : Text.splitOn '/' path = first :: rest) (hfirst : first ≠ "") :
    segments path = first :: rest.filter isStep := by
  have hempty : first.isEmpty = false := by simpa using hfirst
  rw [segments, h]
  simp only [hempty, Bool.false_eq_true, if_false]
  rfl

/-- A relative tail brings the segments that lead somewhere. -/
theorem segments_join {path tail : String} (h : IsRelative path) (htail : isAbsolute tail = false) :
    segments (join path tail) = segments path ++ steps tail := by
  obtain ⟨front, hjoin, hpath⟩ := splitOn_join h htail
  obtain ⟨first, rest, hcut, hfirst⟩ := h.exists_splitOn
  obtain ⟨others, rfl, hsame⟩ : ∃ others, front = first :: others ∧
      rest.filter isStep = others.filter isStep := by
    rcases hpath with hpath | hpath
    · exact ⟨rest, hpath.symm.trans hcut, rfl⟩
    · cases front with
      | nil => exact absurd (List.cons.inj (hpath.symm.trans hcut)).1.symm hfirst
      | cons head others =>
        obtain ⟨rfl, rfl⟩ := List.cons.inj (hpath.symm.trans hcut)
        exact ⟨others, rfl, by simp [isStep]⟩
  rw [List.cons_append] at hjoin
  rw [segments_of_splitOn hjoin hfirst, segments_of_splitOn hcut hfirst, hsame, List.filter_append]
  rfl

/-- A relative path with several relative tails. -/
theorem segments_foldl_join {path : String} (h : IsRelative path) {tails : List String}
    (htails : ∀ tail ∈ tails, isAbsolute tail = false) :
    IsRelative (tails.foldl join path) ∧
      segments (tails.foldl join path) = segments path ++ tails.flatMap steps := by
  induction tails generalizing path with
  | nil => exact ⟨h, by simp⟩
  | cons first rest ih =>
    obtain ⟨hfirst, hrest⟩ := List.forall_mem_cons.1 htails
    obtain ⟨hrelative, hsegments⟩ := ih (h.join hfirst) hrest
    refine ⟨hrelative, ?_⟩
    rw [List.foldl_cons, hsegments, segments_join h hfirst, List.flatMap_cons, List.append_assoc]

/-- The steps of a relative path are those among its segments. -/
theorem IsRelative.steps_eq {path : String} (h : IsRelative path) :
    steps path = (segments path).filter isStep := by
  obtain ⟨first, rest, hcut, hfirst⟩ := h.exists_splitOn
  rw [steps, hcut, segments_of_splitOn hcut hfirst, List.filter_cons, List.filter_cons,
    List.filter_filter]
  simp

/-! ## The path of segments -/

/-- Segments as a relative path has them: they are without slashes, the first is not empty and the
others lead somewhere. -/
structure AreSegments (first : String) (rest : List String) : Prop where
  first_ne : first ≠ ""
  no_slash : ∀ segment ∈ first :: rest, '/' ∉ segment.toList
  areSteps : ∀ segment ∈ rest, isStep segment = true

theorem IsRelative.exists_segments {path : String} (h : IsRelative path) :
    ∃ first rest, segments path = first :: rest ∧ AreSegments first rest := by
  obtain ⟨first, rest, hcut, hfirst⟩ := h.exists_splitOn
  refine ⟨first, rest.filter isStep, segments_of_splitOn hcut hfirst, hfirst, ?_,
    fun segment hsegment => (List.mem_filter.1 hsegment).2⟩
  intro segment hsegment hslash
  have hmem : segment ∈ Text.splitOn '/' path := by
    rw [hcut]
    exact List.cons_subset_cons first (List.filter_subset_self rest) hsegment
  obtain ⟨piece, hpiece, rfl⟩ := List.mem_map.1 hmem
  rw [String.toList_ofList] at hslash
  have hno := Text.not_of_mem_pieces hpiece hslash
  simp at hno

/-- A path of segments is relative and has these segments. -/
theorem AreSegments.segments_ofSegments {first : String} {rest : List String}
    (h : AreSegments first rest) :
    IsRelative (ofSegments false (first :: rest)) ∧
      segments (ofSegments false (first :: rest)) = first :: rest := by
  have htext : ofSegments false (first :: rest) =
      (String.singleton '/').intercalate (first :: rest) := by
    rw [ofSegments]
    simp
  have hcut := Text.splitOn_intercalate (List.cons_ne_nil first rest) h.no_slash
  rw [htext]
  refine ⟨?_, ?_⟩
  · have hrelative : IsRelative first := by
      refine ⟨h.first_ne, ?_⟩
      rw [isAbsolute_eq, decide_eq_false_iff_not]
      intro hhead
      exact h.no_slash first List.mem_cons_self (List.mem_of_mem_head? hhead)
    obtain ⟨tail, htail⟩ : ∃ tail,
        (String.singleton '/').intercalate (first :: rest) = first ++ tail := by
      cases rest with
      | nil => exact ⟨"", by simp⟩
      | cons second rest =>
        exact ⟨String.singleton '/' ++ (String.singleton '/').intercalate (second :: rest),
          by rw [String.intercalate_cons_cons, String.append_assoc]⟩
    rw [htail]
    exact hrelative.append tail
  · rw [segments_of_splitOn hcut h.first_ne, List.filter_eq_self.2 h.areSteps]

theorem AreSegments.take {first : String} {rest : List String} (h : AreSegments first rest) (n : Nat) :
    AreSegments first (rest.take n) := by
  refine ⟨h.first_ne, fun segment hsegment => ?_, fun segment hsegment =>
    h.areSteps segment (List.mem_of_mem_take hsegment)⟩
  refine h.no_slash segment ?_
  exact List.cons_subset_cons first (List.take_subset n rest) hsegment

/-! ## The paths above a path -/

/-- For every beginning of its segments, a path or a path above it has them. -/
theorem IsRelative.exists_mem_withAncestors {path : String} (h : IsRelative path)
    {front back : List String} (hsegments : segments path = front ++ back) (hfront : front ≠ []) :
    ∃ above ∈ withAncestors path, IsRelative above ∧ segments above = front ∧
      (back ≠ [] → above = ofSegments false front) := by
  cases back with
  | nil => exact ⟨path, List.mem_cons_self, h, by simpa using hsegments, by simp⟩
  | cons next back =>
    obtain ⟨first, rest, hpath, hare⟩ := h.exists_segments
    obtain ⟨others, rfl⟩ : ∃ others, front = first :: others := by
      cases front with
      | nil => exact absurd rfl hfront
      | cons head others =>
        obtain ⟨rfl, _⟩ := List.cons.inj (hpath.symm.trans hsegments)
        exact ⟨others, rfl⟩
    have htake : rest.take others.length = others := by
      obtain ⟨_, hrest⟩ := List.cons.inj (hpath.symm.trans hsegments)
      rw [hrest]
      simp
    obtain ⟨hrelative, habove⟩ := (hare.take others.length).segments_ofSegments
    rw [htake] at hrelative habove
    refine ⟨ofSegments false (first :: others), ?_, hrelative, habove, fun _ => rfl⟩
    refine List.mem_cons_of_mem _ (List.mem_map.2 ⟨others.length + 1, ?_, ?_⟩)
    · rw [List.mem_reverse, List.mem_range, hsegments]
      simp
    · rw [h.not_absolute, hsegments]
      simp

/-- The paths above a path come with fewer and fewer segments. -/
theorem IsRelative.pairwise_withAncestors {path : String} (h : IsRelative path) :
    (withAncestors path).Pairwise (fun a b => (segments b).length < (segments a).length) := by
  obtain ⟨first, rest, hpath, hare⟩ := h.exists_segments
  have hlength : ∀ n ≤ (segments path).length,
      (segments (ofSegments false ((segments path).take n))).length = n := by
    intro n hn
    cases n with
    | zero => rfl
    | succ n =>
      rw [hpath, List.take_succ_cons, (hare.take n).segments_ofSegments.2]
      rw [hpath, List.length_cons] at hn
      simp
      omega
  rw [withAncestors, h.not_absolute]
  refine List.pairwise_cons.2 ⟨?_, ?_⟩
  · intro above habove
    obtain ⟨n, hn, rfl⟩ := List.mem_map.1 habove
    rw [List.mem_reverse, List.mem_range] at hn
    rw [hlength n hn.le]
    exact hn
  · rw [List.pairwise_map, List.pairwise_reverse]
    refine List.Pairwise.imp_of_mem (fun ha hb hlt => ?_) List.pairwise_lt_range
    rw [List.mem_range] at ha hb
    rw [hlength _ ha.le, hlength _ hb.le]
    exact hlt

end Path

namespace Disk

open CodeAtlas.Path

variable (disk : Disk)

/-! ## Following segments -/

/-- From what is no directory, no path leads on. -/
theorem foldlM_enter_of_not_directory {place : Place}
    (h : (disk.node? place).any DiskNode.isDirectory = false) (first : String)
    (rest : List String) :
    (first :: rest).foldlM disk.enter place = .error .notDirectory := by
  rw [List.foldlM_cons, enter, h]
  rfl

/-- Segments that lead nowhere can be left out on the way to others. -/
theorem foldlM_enter_filter (front : List String) (place : Place) (first : String)
    (rest : List String) :
    (front ++ first :: rest).foldlM disk.enter place =
      (front.filter isStep ++ first :: rest).foldlM disk.enter place := by
  induction front generalizing place with
  | nil => rfl
  | cons segment front ih =>
    by_cases hstep : isStep segment = true
    · rw [List.filter_cons_of_pos hstep, List.cons_append, List.cons_append, List.foldlM_cons,
        List.foldlM_cons]
      exact congrArg _ (funext ih)
    · rw [List.filter_cons_of_neg hstep, ← ih, List.cons_append]
      cases hnode : (disk.node? place).any DiskNode.isDirectory with
      | true =>
        have hstay : disk.enter place segment = .ok place := by
          have hnowhere : (segment.isEmpty || segment == ".") = true := by
            simpa [isStep, Decidable.or_iff_not_imp_left] using hstep
          rw [enter, hnode, hnowhere]
          rfl
        rw [List.foldlM_cons, hstay]
        rfl
      | false =>
        obtain ⟨head, others, hcons⟩ : ∃ head others, front ++ first :: rest = head :: others := by
          cases front with
          | nil => exact ⟨first, rest, rfl⟩
          | cons head front => exact ⟨head, _, rfl⟩
        rw [hcons, foldlM_enter_of_not_directory disk hnode,
          foldlM_enter_of_not_directory disk hnode]

/-- A tail leads to the same place from paths with the same segments. -/
theorem locate_join_congr {a b : String} (ha : IsRelative a) (hb : IsRelative b)
    (h : segments a = segments b) (tail : String) :
    disk.locate (join a tail) = disk.locate (join b tail) := by
  by_cases htail : isAbsolute tail = true
  · rw [join, join, htail]
    rfl
  · rw [Bool.not_eq_true] at htail
    have hlocate : ∀ {path : String}, IsRelative path → disk.locate (join path tail) =
        ((segments path).filter isStep ++ Text.splitOn '/' tail).foldlM disk.enter [] := by
      intro path hpath
      obtain ⟨front, hjoin, hcut⟩ := splitOn_join hpath htail
      have hsteps : front.filter isStep = (segments path).filter isStep := by
        rw [← hpath.steps_eq, steps]
        rcases hcut with hcut | hcut
        · rw [hcut]
        · rw [hcut, List.filter_append]
          simp [isStep]
      have hrelative := hpath.join htail
      have hempty : (join path tail).isEmpty = false := by simpa using hrelative.ne_empty
      rw [locate, hempty, hrelative.not_absolute, hjoin, ← hsteps]
      obtain ⟨first, rest, hsplit⟩ := List.exists_cons_of_ne_nil
        (show Text.splitOn '/' tail ≠ [] by simp [Text.splitOn, Text.pieces])
      rw [hsplit]
      exact foldlM_enter_filter disk front [] first rest
    rw [hlocate ha, hlocate hb, h]

theorem open?_join_congr {a b : String} (ha : IsRelative a) (hb : IsRelative b)
    (h : segments a = segments b) (tail : String) :
    disk.open? (join a tail) = disk.open? (join b tail) := by
  rw [open?, open?, disk.locate_join_congr ha hb h]

/-! ## Traversals -/

/-- Only relative paths lead anywhere. -/
theorem isRelative_of_locate {path : String} {place : Place} (h : disk.locate path = .ok place) :
    IsRelative path := by
  unfold locate at h
  split at h
  · simp at h
  · rename_i hrelative
    rw [Bool.not_eq_true, Bool.or_eq_false_iff] at hrelative
    exact ⟨by simpa using hrelative.1, hrelative.2⟩

/-- No name on a disk holds a slash. -/
def IsPlain : Prop :=
  ∀ entry ∈ disk.nodes, ∀ name ∈ entry.1, '/' ∉ name.toList

/-- What a traversal meets has a path with more segments than its start. -/
theorem IsPlain.segments_visit {disk : Disk} (h : disk.IsPlain) {root : String} {visit : Visit}
    (hvisit : visit ∈ disk.walk root) :
    IsRelative root ∧ IsRelative visit.path ∧
      ∃ tail, segments visit.path = segments root ++ tail := by
  unfold walk at hvisit
  split at hvisit
  · simp at hvisit
  · rename_i place hlocate _
    have hroot := disk.isRelative_of_locate hlocate
    refine ⟨hroot, ?_⟩
    rcases List.mem_cons.1 hvisit with rfl | hbelow
    · exact ⟨hroot, [], by simp⟩
    · obtain ⟨entry, hentry, hsome⟩ := List.mem_filterMap.1 hbelow
      unfold visit? at hsome
      split at hsome
      · obtain rfl := Option.some.inj hsome
        have hnames : ∀ name ∈ entry.1.drop place.length, isAbsolute name = false := by
          intro name hname
          rw [isAbsolute_eq, decide_eq_false_iff_not]
          intro hhead
          exact h entry hentry name (List.mem_of_mem_drop hname) (List.mem_of_mem_head? hhead)
        obtain ⟨hrelative, hsegments⟩ := segments_foldl_join hroot hnames
        exact ⟨hrelative, _, hsegments⟩
      · simp at hsome
  · rename_i hlocate _
    have hroot := disk.isRelative_of_locate hlocate
    obtain rfl := List.mem_singleton.1 hvisit
    exact ⟨hroot, hroot, [], by simp⟩

end Disk

namespace Disk

variable {disk : Disk} {place other : Place} {node : DiskNode} {nodes : List (Place × DiskNode)}

/-! ## Inserting among ordered nodes -/

theorem lookup_insertNode_of_ne (h : other ≠ place) :
    (insertNode place node nodes).lookup other = nodes.lookup other := by
  induction nodes with
  | nil => rw [insertNode, List.lookup_cons, beq_false_of_ne h]
  | cons first rest ih =>
    obtain ⟨known, there⟩ := first
    rw [insertNode]
    split
    · rw [List.lookup_cons, List.lookup_cons, ih]
    · split
      · rw [List.lookup_cons, beq_false_of_ne h]
      · rename_i hafter hbefore
        -- what is replaced stood at the place itself
        obtain rfl := List.le_antisymm (List.not_lt.1 hafter) (List.not_lt.1 hbefore)
        rw [List.lookup_cons, List.lookup_cons, beq_false_of_ne h]

theorem mem_insertNode {entry : Place × DiskNode} (h : entry ∈ insertNode place node nodes) :
    entry = (place, node) ∨ entry ∈ nodes := by
  induction nodes with
  | nil => exact .inl (List.mem_singleton.1 h)
  | cons first rest ih =>
    obtain ⟨known, there⟩ := first
    rw [insertNode] at h
    split at h
    · rcases List.mem_cons.1 h with rfl | hrest
      · exact .inr List.mem_cons_self
      · exact (ih hrest).imp_right (List.mem_cons_of_mem _)
    · split at h
      · exact List.mem_cons.1 h
      · exact (List.mem_cons.1 h).imp_right (List.mem_cons_of_mem _)

/-- Nodes that are in order stay in order. -/
theorem pairwise_insertNode (h : nodes.Pairwise (fun a b => a.1 < b.1)) :
    (insertNode place node nodes).Pairwise (fun a b => a.1 < b.1) := by
  induction nodes with
  | nil => exact List.pairwise_singleton _ _
  | cons first rest ih =>
    obtain ⟨known, there⟩ := first
    obtain ⟨hfirst, hrest⟩ := List.pairwise_cons.1 h
    rw [insertNode]
    split
    · rename_i hbefore
      refine List.pairwise_cons.2 ⟨fun entry hentry => ?_, ih hrest⟩
      rcases mem_insertNode hentry with rfl | hentry
      · exact hbefore
      · exact hfirst entry hentry
    · split
      · rename_i hbefore
        refine List.pairwise_cons.2 ⟨fun entry hentry => ?_, h⟩
        rcases List.mem_cons.1 hentry with rfl | hentry
        · exact hbefore
        · exact List.lt_trans hbefore (hfirst entry hentry)
      · rename_i hafter hbefore
        obtain rfl := List.le_antisymm (List.not_lt.1 hafter) (List.not_lt.1 hbefore)
        exact List.pairwise_cons.2 ⟨hfirst, hrest⟩

/-- Putting a node changes nothing elsewhere. -/
theorem node?_put_of_ne (h : other ≠ place) : (disk.put place node).node? other = disk.node? other := by
  rw [node?, node?, put, lookup_insertNode_of_ne h]

/-! ## Disks in order -/

/-- The nodes of a disk are in order, and their names are proper: none is empty or a dot, and none holds
a slash. -/
structure IsOrdered (disk : Disk) : Prop where
  sorted : disk.nodes.Pairwise (fun a b => a.1 < b.1)
  plain : disk.IsPlain
  steps : ∀ entry ∈ disk.nodes, ∀ name ∈ entry.1, Path.isStep name = true

theorem IsOrdered.put (h : disk.IsOrdered)
    (hplace : ∀ name ∈ place, '/' ∉ name.toList ∧ Path.isStep name = true) :
    (disk.put place node).IsOrdered := by
  refine ⟨pairwise_insertNode h.sorted, fun entry hentry => ?_, fun entry hentry => ?_⟩
  all_goals rcases mem_insertNode hentry with rfl | hold
  · exact fun name hname => (hplace name hname).1
  · exact h.plain entry hold
  · exact fun name hname => (hplace name hname).2
  · exact h.steps entry hold

/-- A disk stays in order whatever is written to it. -/
theorem IsOrdered.write (h : disk.IsOrdered)
    (hplace : ∀ name ∈ place, '/' ∉ name.toList ∧ Path.isStep name = true) :
    (disk.write place node).IsOrdered := by
  refine IsOrdered.put ?_ hplace
  rw [makeDirectory]
  refine List.foldlRecOn _ _ h fun disk hdisk above habove => ?_
  obtain ⟨n, _, rfl⟩ := List.mem_map.1 habove
  split
  · exact hdisk
  · exact hdisk.put fun name hname =>
      hplace name (List.dropLast_subset place (List.mem_of_mem_take hname))

/-- Disks that were filled by writes are in order. -/
theorem isOrdered_writes (writes : List (Place × DiskNode))
    (hplaces : ∀ write ∈ writes, ∀ name ∈ write.1, '/' ∉ name.toList ∧ Path.isStep name = true) :
    (writes.foldl (fun disk write => disk.write write.1 write.2) empty).IsOrdered := by
  refine List.foldlRecOn writes _ ?_ fun disk hdisk write hwrite => hdisk.write (hplaces write hwrite)
  exact ⟨List.Pairwise.nil, by simp [IsPlain, empty], by simp [empty]⟩

end Disk

end CodeAtlas
