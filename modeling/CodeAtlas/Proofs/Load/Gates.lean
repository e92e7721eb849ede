/-
# Dependencies of the roster

After all projects were entered, each is linked to its dependencies.  An archive whose dependencies are
all known then has its gate open.  What is known when a project is linked depends on those linked before
it, since a directory among the dependencies of one makes its name known to the next.  With one worker,
and when each band is executed in its own order, the projects are linked in the order of the roster;
otherwise in any order.
-/
import CodeAtlas.Proofs.Load.Roster

namespace CodeAtlas.Load

open Tasks Index

variable {setting : LoadSetting}

/-! ## Gates -/

/-- Whether all dependencies of an entrant are known in a table of standings. -/
def Entrant.isMet (setting : LoadSetting) (standings : String → Option Standing)
    (entrant : Entrant) : Bool :=
  allFound (fun name => (standings name).isSome) (entrant.dependencies setting)

/-- The entrants in order, each with whether its dependencies are known when it is linked. -/
def gates (setting : LoadSetting) :
    (String → Option Standing) → List Entrant → List (Entrant × Bool)
  | _, [] => []
  | standings, entrant :: rest =>
    (entrant, entrant.isMet setting standings) ::
      gates setting (follow standings (entrant.dependencies setting)) rest

/-- The table of standings after all entrants were linked. -/
def followAll (setting : LoadSetting) (standings : String → Option Standing)
    (entrants : List Entrant) : String → Option Standing :=
  entrants.foldl (fun standings entrant => follow standings (entrant.dependencies setting)) standings

theorem gates_append (standings : String → Option Standing) (entrants others : List Entrant) :
    gates setting standings (entrants ++ others) = gates setting standings entrants ++
      gates setting (followAll setting standings entrants) others := by
  induction entrants generalizing standings with
  | nil => rfl
  | cons first rest ih =>
    rw [List.cons_append, gates, ih]
    rfl

theorem map_fst_gates (standings : String → Option Standing) (entrants : List Entrant) :
    (gates setting standings entrants).map Prod.fst = entrants := by
  induction entrants generalizing standings with
  | nil => rfl
  | cons first rest ih => rw [gates, List.map_cons, ih]

/-- The deed of a link. -/
def linkDeed (missing : Nat) : Deed where
  change context := if missing = 0 then { context with dependenciesLoaded := true } else context

theorem run_deed_link (entrant : Entrant) (project : ItemId) (index : Index) :
    (deed setting (entrant.context setting project false) .projectDependencies).run.run index =
      (.ok (linkDeed ((linkFrom project 0 (entrant.dependencies setting)).run index).1),
        ((linkFrom project 0 (entrant.dependencies setting)).run index).2) := by
  cases entrant <;> rfl

theorem change_linkDeed (missing : Nat) (entrant : Entrant) (project : ItemId) :
    (linkDeed missing).change (entrant.context setting project false) =
      entrant.context setting project (decide (missing = 0)) := by
  by_cases hmissing : missing = 0
  · simp only [linkDeed, hmissing, if_true, decide_true]
    rfl
  · simp only [linkDeed, hmissing, if_false, decide_false]

/-! ## Linking the roster -/

/-- The entries of a roster, each with whether its gate is open. -/
abbrev Ledger := List (Nat × Entrant × Bool)

/-- The roster of a ledger. -/
def Ledger.roster (ledger : Ledger) : List (Nat × Entrant) :=
  ledger.map fun entry => (entry.1, entry.2.1)

theorem Ledger.roster_append (ledger others : Ledger) :
    Ledger.roster (ledger ++ others) = ledger.roster ++ others.roster :=
  List.map_append

/-- A ledger that says how the gates of its groups stand. -/
structure Ledger.Stands (setting : LoadSetting) (standings : String → Option Standing)
    (ledger : Ledger) (groups : Array LoadContext) : Prop where
  gates : ledger.map Prod.snd = gates setting standings (ledger.roster.map Prod.snd)
  group : ∀ entry ∈ ledger, ∃ project,
    groups[entry.1]? = some (entry.2.1.context setting project entry.2.2)

/-- What linking a roster does to the board.  What is said about the index holds if it has room in the
end and the contexts fitted it in the beginning. -/
structure Linked (setting : LoadSetting) (roster : List (Nat × Entrant))
    (board board' : Board LoadContext LoadState) : Prop where
  grown : Grown board.world.index board'.world.index
  others : ∀ {group : Nat} {context : LoadContext}, (∀ entry ∈ roster, entry.1 ≠ group) →
    board.groups[group]? = some context → board'.groups[group]? = some context
  bare : (∀ {group : Nat} {context : LoadContext}, board.groups[group]? = some context →
      IsBare context) →
    ∀ {group : Nat} {context : LoadContext}, board'.groups[group]? = some context → IsBare context
  fits : board'.world.index.HasRoom → Fits board →
    Fits board' ∧ board.world.index.Widens board'.world.index
  standing : board'.world.index.HasRoom → Fits board → board'.world.index.standing? =
    followAll setting board.world.index.standing? (roster.map Prod.snd)
  ledger : board'.world.index.HasRoom → Fits board → ∃ ledger : Ledger,
    ledger.roster = roster ∧ ledger.Stands setting board.world.index.standing? board'.groups

theorem linked_nil (board : Board LoadContext LoadState) : Linked setting [] board board where
  grown := Grown.refl _
  others _ hcontext := hcontext
  bare hbare _ _ hcontext := hbare hcontext
  fits _ hfits := ⟨hfits, (Extends.refl _).widens⟩
  standing _ _ := rfl
  ledger _ _ := ⟨[], rfl, rfl, by simp⟩

/-- Every gate belongs to a group. -/
theorem Linked.group {roster : List (Nat × Entrant)} {board board' : Board LoadContext LoadState}
    (h : Linked setting roster board board') (hroom : board'.world.index.HasRoom)
    (hfits : Fits board) :
    ∀ entry ∈ gates setting board.world.index.standing? (roster.map Prod.snd), ∃ group project,
      (group, entry.1) ∈ roster ∧
        board'.groups[group]? = some (entry.1.context setting project entry.2) := by
  obtain ⟨ledger, rfl, hstands⟩ := h.ledger hroom hfits
  intro entry hentry
  rw [← hstands.gates] at hentry
  obtain ⟨⟨group, entry⟩, hmem, rfl⟩ := List.mem_map.1 hentry
  obtain ⟨project, hcontext⟩ := hstands.group _ hmem
  exact ⟨group, project, List.mem_map.2 ⟨_, hmem, rfl⟩, hcontext⟩

/-- Every group has its gate. -/
theorem Linked.gate {roster : List (Nat × Entrant)} {board board' : Board LoadContext LoadState}
    (h : Linked setting roster board board') (hroom : board'.world.index.HasRoom)
    (hfits : Fits board) :
    ∀ entry ∈ roster, ∃ project loaded,
      (entry.2, loaded) ∈ gates setting board.world.index.standing? (roster.map Prod.snd) ∧
        board'.groups[entry.1]? = some (entry.2.context setting project loaded) := by
  obtain ⟨ledger, rfl, hstands⟩ := h.ledger hroom hfits
  intro entry hentry
  obtain ⟨⟨group, entrant, loaded⟩, hmem, rfl⟩ := List.mem_map.1 hentry
  obtain ⟨project, hcontext⟩ := hstands.group _ hmem
  refine ⟨project, loaded, ?_, hcontext⟩
  rw [← hstands.gates]
  exact List.mem_map.2 ⟨_, hmem, rfl⟩

/-- The board after a link. -/
def linkBoard (setting : LoadSetting) (group : Nat) (entrant : Entrant) (project : ItemId)
    (stats : LoadStats) (board : Board LoadContext LoadState) : Board LoadContext LoadState :=
  let linked := (linkFrom project 0 (entrant.dependencies setting)).run board.world.index
  ⟨(linkDeed linked.1).groups group board.groups, ⟨linked.2, stats⟩⟩

section Link

variable {group : Nat} {entrant : Entrant} {board : Board LoadContext LoadState}
  {project : ItemId} {stats : LoadStats}

theorem grown_linkBoard : Grown board.world.index
    (linkBoard setting group entrant project stats board).world.index :=
  grown_linkFrom project 0 (entrant.dependencies setting) board.world.index

theorem getElem?_linkBoard_of_ne {other : Nat} {context : LoadContext} (hne : other ≠ group)
    (hother : board.groups[other]? = some context) :
    (linkBoard setting group entrant project stats board).groups[other]? = some context :=
  getElem?_groups_of_ne hne hother

/-- A group after a link is one of those before, or the own one, whose gate is open or not. -/
theorem getElem?_linkBoard_cases {other : Nat} {context : LoadContext}
    (hcontext : board.groups[group]? = some (entrant.context setting project false))
    (hother : (linkBoard setting group entrant project stats board).groups[other]? = some context) :
    board.groups[other]? = some context ∨
      ∃ loaded, context = entrant.context setting project loaded := by
  rcases getElem?_groups_cases hother with ⟨_, hold⟩ | ⟨_, before, hbefore, rfl⟩ | ⟨k, task, _, hk⟩
  · exact Or.inl hold
  · obtain rfl := Option.some.inj (hcontext.symm.trans hbefore)
    exact Or.inr ⟨_, change_linkDeed _ entrant project⟩
  · simp [linkDeed] at hk

/-- A link keeps the contexts fitting, gives directories their pseudo projects and opens the gate if
all dependencies are known. -/
theorem fits_linkBoard (h : Fits board)
    (hcontext : board.groups[group]? = some (entrant.context setting project false))
    (hroom : (linkBoard setting group entrant project stats board).world.index.HasRoom) :
    Fits (linkBoard setting group entrant project stats board) ∧
      board.world.index.Widens (linkBoard setting group entrant project stats board).world.index ∧
      (linkBoard setting group entrant project stats board).world.index.standing? =
        follow board.world.index.standing? (entrant.dependencies setting) ∧
      (linkBoard setting group entrant project stats board).groups[group]? =
        some (entrant.context setting project (entrant.isMet setting board.world.index.standing?)) := by
  obtain ⟨hlive, hwidens, htable, _, hmissing⟩ := live_linkFrom h.live project 0 hroom
  have hloaded : decide (((linkFrom project 0 (entrant.dependencies setting)).run
      board.world.index).1 = 0) = entrant.isMet setting board.world.index.standing? := by
    rw [Bool.eq_iff_iff, decide_eq_true_iff]
    exact hmissing
  have hown : (linkBoard setting group entrant project stats board).groups[group]? =
      some (entrant.context setting project
        (entrant.isMet setting board.world.index.standing?)) := by
    rw [← hloaded, ← change_linkDeed]
    exact getElem?_groups_self hcontext
  refine ⟨⟨hlive, ?_⟩, hwidens, htable, hown⟩
  intro other context hother
  rcases getElem?_linkBoard_cases hcontext hother with hold | ⟨loaded, rfl⟩
  · exact (h.contexts hold).widen hwidens
  · refine (entrant.isBare_context project loaded).fitsIndex (fun id hid => ?_)
    exact hwidens.isKind ((h.contexts hcontext).project id hid)

/-- One link. -/
theorem linked_single
    (hcontext : board.groups[group]? = some (entrant.context setting project false)) :
    Linked setting [(group, entrant)] board (linkBoard setting group entrant project stats board) where
  grown := grown_linkBoard
  others hother hold := getElem?_linkBoard_of_ne (hother _ List.mem_cons_self).symm hold
  bare hbare {_ _} hother := by
    rcases getElem?_linkBoard_cases hcontext hother with hold | ⟨loaded, rfl⟩
    · exact hbare hold
    · exact entrant.isBare_context project loaded
  fits hroom hfits := by
    obtain ⟨hafter, hwidens, _⟩ := fits_linkBoard hfits hcontext hroom
    exact ⟨hafter, hwidens⟩
  standing hroom hfits := (fits_linkBoard hfits hcontext hroom).2.2.1
  ledger hroom hfits := by
    obtain ⟨_, _, _, hown⟩ := fits_linkBoard hfits hcontext hroom
    refine ⟨[(group, entrant, entrant.isMet setting board.world.index.standing?)], rfl, rfl, ?_⟩
    intro entry hentry
    obtain rfl := List.mem_singleton.1 hentry
    exact ⟨project, hown⟩

end Link

/-- Some links, and then others. -/
theorem Linked.trans {roster others : List (Nat × Entrant)} {a b c : Board LoadContext LoadState}
    (h : Linked setting roster a b) (hothers : Linked setting others b c)
    (hapart : ∀ entry ∈ roster, ∀ other ∈ others, entry.1 ≠ other.1) :
    Linked setting (roster ++ others) a c where
  grown := h.grown.trans hothers.grown
  others hgroup hold := by
    refine hothers.others (fun entry hentry => hgroup entry (List.mem_append_right _ hentry)) ?_
    exact h.others (fun entry hentry => hgroup entry (List.mem_append_left _ hentry)) hold
  bare hbare := hothers.bare (h.bare hbare)
  fits hroom hfits := by
    obtain ⟨hmiddle, hwidens⟩ := h.fits (hothers.grown.hasRoom hroom) hfits
    obtain ⟨hend, hwidens'⟩ := hothers.fits hroom hmiddle
    exact ⟨hend, hwidens.trans hwidens'⟩
  standing hroom hfits := by
    have hroom' := hothers.grown.hasRoom hroom
    rw [hothers.standing hroom (h.fits hroom' hfits).1, h.standing hroom' hfits, List.map_append]
    exact List.foldl_append.symm
  ledger hroom hfits := by
    have hroom' := hothers.grown.hasRoom hroom
    obtain ⟨ledger, rfl, hgates, hgroups⟩ := h.ledger hroom' hfits
    obtain ⟨ledger', rfl, hgates', hgroups'⟩ := hothers.ledger hroom (h.fits hroom' hfits).1
    refine ⟨ledger ++ ledger', Ledger.roster_append _ _, ?_, ?_⟩
    · rw [List.map_append, hgates, hgates', h.standing hroom' hfits, ← gates_append,
        Ledger.roster_append, List.map_append]
    · intro entry hentry
      rcases List.mem_append.1 hentry with hold | hnew
      · obtain ⟨project, hcontext⟩ := hgroups entry hold
        refine ⟨project, hothers.others (fun other hother => ?_) hcontext⟩
        exact (hapart _ (List.mem_map.2 ⟨entry, hold, rfl⟩) other hother).symm
      · exact hgroups' entry hnew

/-- A project that was entered can be linked, and nothing is spawned. -/
theorem exists_execute_link {group : Nat} {entrant : Entrant} {project : ItemId}
    {board : Board LoadContext LoadState}
    (hcontext : board.groups[group]? = some (entrant.context setting project false)) :
    setting.workflow.isEligible board ⟨800, .projectDependencies, group⟩ = true ∧
      ∃ outcome stats, setting.workflow.execute ⟨800, .projectDependencies, group⟩ board =
        (.ok outcome, linkBoard setting group entrant project stats board) ∧
          outcome.spawned = [] := by
  have heligible : setting.workflow.isEligible board ⟨800, .projectDependencies, group⟩ = true :=
    (@isEligible_iff setting ⟨800, .projectDependencies, group⟩ board _ hcontext).2
      (fun key hkey => by
        obtain rfl := List.mem_singleton.1 hkey
        rfl)
  obtain ⟨complete, stats, hexecute⟩ := @execute_of_deed_ok setting
    ⟨800, .projectDependencies, group⟩ board _ hcontext heligible _ _
    (run_deed_link entrant project board.world.index)
  exact ⟨heligible, _, stats, hexecute, rfl⟩

/-- The projects of a roster are linked one after the other. -/
theorem exists_drains_links (roster : List (Nat × Entrant)) (lower : List (Pending LoadTask))
    (board : Board LoadContext LoadState) (report : Report)
    (hfresh : roster.Pairwise (fun a b => a.1 ≠ b.1))
    (hentered : ∀ entry ∈ roster, ∃ project,
      board.groups[entry.1]? = some (entry.2.context setting project false)) :
    ∃ board' report', setting.workflow.Drains 800 (linkTasks roster) lower board report
      lower board' report' ∧ Linked setting roster board board' := by
  induction roster generalizing board report with
  | nil => exact ⟨board, report, .nil, linked_nil board⟩
  | cons first rest ih =>
    obtain ⟨group, entrant⟩ := first
    obtain ⟨hfirst, hrest⟩ := List.pairwise_cons.1 hfresh
    obtain ⟨project, hcontext⟩ := hentered _ List.mem_cons_self
    obtain ⟨_, outcome, stats, hexecute, hspawned⟩ := exists_execute_link hcontext
    obtain ⟨board', report', hdrains, hlinked⟩ := ih
      (linkBoard setting group entrant project stats board) (report.add outcome) hrest
      (fun entry hentry => by
        obtain ⟨known, hknown⟩ := hentered entry (List.mem_cons_of_mem _ hentry)
        exact ⟨known, getElem?_linkBoard_of_ne (hfirst entry hentry).symm hknown⟩)
    refine ⟨board', report', .cons hexecute (by simp [hspawned]) ?_, ?_⟩
    · rw [hspawned]
      exact hdrains
    · refine (linked_single hcontext).trans hlinked (fun entry hentry => ?_)
      rw [List.mem_singleton.1 hentry]
      exact hfirst

/-! ## The beginning of a run -/

/-- The table of standings after the projects below a root were entered. -/
def enrolAll (setting : LoadSetting) (standings : String → Option Standing)
    (entrants : List Entrant) : String → Option Standing :=
  entrants.foldl (Entrant.enrol setting) standings

/-! ## Names that are known -/

section Known

variable {standings : String → Option Standing} {name : String}

theorem isSome_enrol_iff {other : String} {isThirdParty isPseudo : Bool} :
    (Index.enrol standings other isThirdParty isPseudo name).isSome ↔
      (standings name).isSome ∨ other = name := by
  have hknown := congrFun (isSome_enrol standings other isThirdParty isPseudo) name
  rw [hknown, Bool.or_eq_true, beq_iff_eq, or_comm, eq_comm (a := name)]

/-- A directory among dependencies makes its name known. -/
theorem isSome_follow_iff {dependencies : List Manifest.Dependency} :
    (follow standings dependencies name).isSome ↔
      (standings name).isSome ∨ .directory name ∈ dependencies := by
  induction dependencies generalizing standings with
  | nil => simp [follow]
  | cons first rest ih =>
    cases first with
    | archive other =>
      rw [follow, ih]
      simp
    | directory other =>
      rw [follow, ih, isSome_enrol_iff, or_assoc, List.mem_cons, Manifest.Dependency.directory.injEq,
        eq_comm (a := name)]

theorem isSome_followAll_iff {entrants : List Entrant} :
    (followAll setting standings entrants name).isSome ↔ (standings name).isSome ∨
      ∃ entrant ∈ entrants, .directory name ∈ entrant.dependencies setting := by
  induction entrants generalizing standings with
  | nil => simp [followAll]
  | cons first rest ih =>
    have hcons : followAll setting standings (first :: rest) =
        followAll setting (follow standings (first.dependencies setting)) rest := rfl
    rw [hcons, ih, isSome_follow_iff, or_assoc, List.exists_mem_cons_iff]

/-- Every entrant makes its name known. -/
theorem isSome_enrolAll_iff {entrants : List Entrant} :
    (enrolAll setting standings entrants name).isSome ↔ (standings name).isSome ∨
      ∃ entrant ∈ entrants, entrant.name setting = name := by
  induction entrants generalizing standings with
  | nil => simp [enrolAll]
  | cons first rest ih =>
    have hcons : enrolAll setting standings (first :: rest) =
        enrolAll setting (first.enrol setting standings) rest := rfl
    rw [hcons, ih, Entrant.enrol, isSome_enrol_iff, or_assoc, List.exists_mem_cons_iff]

/-- The names that are known do not depend on the order in which entrants were entered. -/
theorem isSome_enrolAll_perm {entrants others : List Entrant} (h : entrants.Perm others) :
    (enrolAll setting standings entrants name).isSome =
      (enrolAll setting standings others name).isSome := by
  rw [Bool.eq_iff_iff, isSome_enrolAll_iff, isSome_enrolAll_iff]
  simp only [h.mem_iff]

/-- Gates depend only on the names that are known. -/
theorem gates_congr {table other : String → Option Standing}
    (h : ∀ name, (table name).isSome = (other name).isSome) (entrants : List Entrant) :
    gates setting table entrants = gates setting other entrants := by
  induction entrants generalizing table other with
  | nil => rfl
  | cons first rest ih =>
    rw [gates, gates, Entrant.isMet, Entrant.isMet, funext h, ih]
    intro name
    rw [Bool.eq_iff_iff, isSome_follow_iff, isSome_follow_iff, h]

end Known

/-! ## Everything enrolled -/

/-- What holds once all entrants were entered, which left a table of standings, and linked in a given
order.  The tasks that wait go through the entries of archives or load source files. -/
structure Enrolled (setting : LoadSetting) (table : String → Option Standing) (order : List Entrant)
    (waiting : List (Pending LoadTask)) (board : Board LoadContext LoadState) : Prop where
  fits : Fits board
  bare : ∀ {group : Nat} {context : LoadContext}, board.groups[group]? = some context →
    IsBare context
  standing : board.world.index.standing? = followAll setting table order
  origin : ∀ pending ∈ waiting, pending.priority = pending.task.priority ∧
    ((∃ entry ∈ gates setting table order, ∃ project,
        pending.task ∈ entry.1.entryTasks setting ∧
          board.groups[pending.group]? = some (entry.1.context setting project entry.2)) ∨
      (pending.task = .sourceFile ∧ ∃ project path, board.groups[pending.group]? =
        some { project := some project, source := some path }))
  entries : ∀ entry ∈ gates setting table order,
    ∃ group project, board.groups[group]? = some (entry.1.context setting project entry.2) ∧
      ∀ task ∈ entry.1.entryTasks setting, ⟨task.priority, task, group⟩ ∈ waiting
  /-- The tasks of archives wait once each, and no two tasks that wait share a group. -/
  ledger : ∃ ledger : Ledger, ledger.roster.map Prod.snd = order ∧
    ledger.Stands setting table board.groups ∧
    (waiting.filter (fun pending => pending.task.isArchiveEntries)).Perm
      (archiveTasks setting ledger.roster)
  apart : waiting.Pairwise (fun a b => a.group ≠ b.group)
  sources : ∀ entrant ∈ order, ∀ path ∈ entrant.sources setting, ∃ project group,
    ⟨LoadTask.sourceFile.priority, .sourceFile, group⟩ ∈ waiting ∧
      board.groups[group]? = some { project := some project, source := some path } ∧
      board.world.index.findItem none (entrant.name setting) .project = some project

/-- The tasks that wait then have priority 700. -/
theorem Enrolled.priority_eq {table : String → Option Standing} {order : List Entrant}
    {waiting : List (Pending LoadTask)} {board : Board LoadContext LoadState}
    (h : Enrolled setting table order waiting board) :
    ∀ pending ∈ waiting, pending.task.priority = 700 := by
  intro pending hpending
  rcases (h.origin pending hpending).2 with ⟨_, _, _, htask, _⟩ | ⟨htask, _⟩
  · exact Entrant.priority_of_mem_entryTasks htask
  · rw [htask]
    rfl

/-- Linking the whole roster, in whatever order, leaves everything enrolled. -/
theorem Enlisted.enrolled {standings : String → Option Standing} {found : List (Nat × Find)}
    {roster : List (Nat × Entrant)} {low waiting : List (Pending LoadTask)}
    {board board' : Board LoadContext LoadState} (h : Enlisted setting standings found [] low board)
    (hlinked : Linked setting roster board board') (hroster : roster.Perm (enlist setting found))
    (hwaiting : waiting.Perm low) (hroom : board'.world.index.HasRoom) :
    Enrolled setting (enrolAll setting standings ((enlist setting found).map Prod.snd))
      (roster.map Prod.snd) waiting board' := by
  have hroom₀ := hlinked.grown.hasRoom hroom
  have hfits₀ := h.fits hroom₀
  obtain ⟨hfits, hwidens⟩ := hlinked.fits hroom hfits₀
  have hstanding := hlinked.standing hroom hfits₀
  have hgroup := hlinked.group hroom hfits₀
  have hgate := hlinked.gate hroom hfits₀
  obtain ⟨ledger, hledger, hstands⟩ := hlinked.ledger hroom hfits₀
  have htable : board.world.index.standing? =
      enrolAll setting standings ((enlist setting found).map Prod.snd) := h.standing hroom₀
  rw [htable] at hstanding hgroup hgate hstands
  -- the groups of source files are none of the roster
  have hsource : ∀ {group : Nat} {project : ItemId} {path : String},
      IsSourceGroup (found ++ []) board.groups group project path →
      board'.groups[group]? = some { project := some project, source := some path } := by
    intro group project path hsource
    refine hlinked.others (fun entry hentry => ?_) hsource.2
    obtain ⟨find, hfind, _⟩ := mem_enlist_iff.1 (hroster.mem_iff.1 hentry)
    exact hsource.1 _ (List.mem_append_left _ hfind)
  refine ⟨hfits, hlinked.bare h.bare, hstanding, ?_, ?_, ⟨ledger, ?_, hstands, ?_⟩, ?_, ?_⟩
  · intro pending hpending
    obtain ⟨hpriority, ⟨entrant, hentrant, htask⟩ | ⟨htask, project, path, hgroup⟩⟩ :=
      h.low pending (hwaiting.mem_iff.1 hpending)
    · obtain ⟨project, loaded, hmem, hcontext⟩ := hgate _ (hroster.mem_iff.2 hentrant)
      exact ⟨hpriority, Or.inl ⟨_, hmem, project, htask, hcontext⟩⟩
    · exact ⟨hpriority, Or.inr ⟨htask, project, path, hsource hgroup⟩⟩
  · intro entry hentry
    obtain ⟨group, project, hmem, hcontext⟩ := hgroup entry hentry
    exact ⟨group, project, hcontext, fun task htask =>
      hwaiting.mem_iff.2 (h.entries _ (hroster.mem_iff.1 hmem) task htask)⟩
  · rw [hledger]
  · rw [hledger]
    refine (hwaiting.filter _).trans ?_
    rw [h.archives]
    exact (hroster.flatMap_right _).symm
  · exact hwaiting.symm.pairwise h.apart (fun hne => hne.symm)
  · intro entrant hentrant path hpath
    obtain ⟨entry, hentry, rfl⟩ := List.mem_map.1 hentrant
    obtain ⟨project, group, hmem, hgroup, hnamed⟩ :=
      h.sources entry (hroster.mem_iff.1 hentry) path hpath
    exact ⟨project, group, hwaiting.mem_iff.2 hmem, hsource hgroup,
      hwidens.finds (by decide) (hnamed hroom₀)⟩

theorem run_deed_discovery (root : String) (index : Index) :
    (deed setting { workspace := some root } .discovery).run.run index =
      (.ok { opened := (finds setting root).map fun find => (find.context, find.task) }, index) := by
  rw [finds, List.map_append, List.map_map, List.map_map]
  rfl

/-- Before any find is entered. -/
theorem enlisted_start {index : Index} (hlive : index.Live) (root : String) (found : List Find)
    (stats : LoadStats) :
    Enlisted setting index.standing? [] (numbered 1 found) []
      ⟨({ opened := found.map fun find => (find.context, find.task) } : Deed).groups 0
        #[{ workspace := some root }], ⟨index, stats⟩⟩ := by
  have hcontexts : ∀ {group : Nat} {context : LoadContext},
      (({ opened := found.map fun find => (find.context, find.task) } : Deed).groups 0
        #[{ workspace := some root }])[group]? = some context →
      IsBare context ∧ context.project = none := by
    intro group context hcontext
    rcases getElem?_groups_cases hcontext with ⟨hne, hold⟩ | ⟨_, before, hbefore, heq⟩ | ⟨k, _, _, hk⟩
    · have hlt := (Array.getElem?_eq_some_iff.1 hold).1
      simp at hlt
      omega
    · obtain rfl : ({ workspace := some root } : LoadContext) = before := by simpa using hbefore
      rw [heq]
      exact ⟨⟨rfl, rfl, rfl, rfl, rfl⟩, rfl⟩
    · rw [List.getElem?_map] at hk
      obtain ⟨find, _, heq⟩ := Option.map_eq_some_iff.1 hk
      obtain ⟨rfl, -⟩ := Prod.mk.inj heq
      refine ⟨find.isBare_context, ?_⟩
      cases find <;> rfl
  have hfind : ∀ entry ∈ numbered 1 found,
      (({ opened := found.map fun find => (find.context, find.task) } : Deed).groups 0
        #[{ workspace := some root }])[entry.1]? = some entry.2.context := by
    intro entry hentry
    obtain ⟨k, find, hfind, rfl⟩ := mem_numbered_iff.1 hentry
    refine @getElem?_groups_opened _ _ _ _ k find.task ?_
    rw [List.getElem?_map, hfind]
    rfl
  refine ⟨pairwise_numbered 1 found, fun entry hentry => ?_, hfind, by simp [enlist],
    by simp [enlist], by simp [enlist], List.Pairwise.nil, rfl, by simp,
    fun hcontext => (hcontexts hcontext).1, fun _ => ⟨hlive, ?_⟩, fun _ => rfl⟩
  · exact (Array.getElem?_eq_some_iff.1 (hfind entry hentry)).1
  · intro group context hcontext
    obtain ⟨hbare, hnone⟩ := hcontexts hcontext
    refine hbare.fitsIndex (fun id hid => ?_)
    rw [hnone] at hid
    simp at hid

theorem mem_findTasks_iff {found : List (Nat × Find)} {pending : Pending LoadTask} :
    pending ∈ findTasks found ↔ ∃ entry ∈ found, pending = ⟨900, entry.2.task, entry.1⟩ := by
  rw [findTasks, List.mem_map]
  exact exists_congr fun entry => and_congr_right fun _ => eq_comm

/-- Discovery finds what is below the root, and nothing is entered by then. -/
theorem exists_execute_discovery {index : Index} (hlive : index.Live) (root : String) :
    setting.workflow.isEligible ⟨#[{ workspace := some root }], ⟨index, {}⟩⟩
        ⟨1000, .discovery, 0⟩ = true ∧
      ∃ outcome after, setting.workflow.execute ⟨1000, .discovery, 0⟩
          ⟨#[{ workspace := some root }], ⟨index, {}⟩⟩ = (.ok outcome, after) ∧
        outcome.spawned = findTasks (numbered 1 (finds setting root)) ∧
        Enlisted setting index.standing? [] (numbered 1 (finds setting root)) [] after := by
  have heligible : setting.workflow.isEligible ⟨#[{ workspace := some root }], ⟨index, {}⟩⟩
      ⟨1000, .discovery, 0⟩ = true :=
    (@isEligible_iff setting ⟨1000, .discovery, 0⟩ ⟨#[{ workspace := some root }], ⟨index, {}⟩⟩
      { workspace := some root } rfl).2 (fun key hkey => by
        obtain rfl := List.mem_singleton.1 hkey
        rfl)
  obtain ⟨complete, stats, hexecute⟩ := @execute_of_deed_ok setting ⟨1000, .discovery, 0⟩
    ⟨#[{ workspace := some root }], ⟨index, {}⟩⟩ _ rfl heligible _ _ (run_deed_discovery root index)
  exact ⟨heligible, _, _, hexecute, openedTasks_finds 1 (finds setting root),
    enlisted_start hlive root (finds setting root) stats⟩

/-! ## Settings that enter the same projects -/

/-- Another setting under which the tasks that find, enter and link projects do the same. -/
def LoadSetting.EntersAlike (setting other : LoadSetting) : Prop :=
  ∀ task : LoadTask, 700 < task.priority → other.job task = setting.job task

/-- A level of such tasks is drained in the same way under both settings. -/
theorem LoadSetting.EntersAlike.run_level {other : LoadSetting} (h : setting.EntersAlike other)
    (workers : Nat) {priority : Int} (hpriority : 700 < priority)
    {level lower lower' : List (Pending LoadTask)} {board board' : Board LoadContext LoadState}
    {report report' : Report}
    (hdrains : setting.workflow.Drains priority level lower board report lower' board' report')
    (hlevel : ∀ pending ∈ level, pending.priority = priority ∧ pending.task.priority = priority)
    (hlower : ∀ pending ∈ lower, pending.priority < priority)
    (heligible : ∀ pending ∈ level, setting.workflow.isEligible board pending) :
    TaskList.run other.workflow ⟨workers, level ++ lower, board, report⟩ =
      TaskList.run other.workflow ⟨workers, lower', board', report'⟩ := by
  have hdrains' : other.workflow.Drains priority level lower board report lower' board' report' := by
    refine hdrains.congr (fun pending hpending board => execute_congr ?_)
    rw [h pending.task (by rw [(hlevel pending hpending).2]; exact hpriority)]
  refine TaskList.run_level workers hdrains' (fun pending hpending => (hlevel pending hpending).1)
    hlower (fun pending hpending => ?_)
  rw [isEligible_congr setting other]
  exact heligible pending hpending

/-- A run first finds projects and archives, then enters them and then links them, and it does so under
every setting that enters the same. -/
theorem exists_enrolled_alike {index : Index} (hlive : index.Live) (workers : Nat) (root : String)
    (hroom : ((initialTasks workers index root).run setting.workflow).2.board.world.index.HasRoom) :
    ∃ waiting board report, report.stalled = [] ∧
      (∀ other : LoadSetting, setting.EntersAlike other →
        (initialTasks workers index root).run other.workflow =
          TaskList.run other.workflow ⟨max workers 1, waiting, board, report⟩) ∧
      Enrolled setting (enrolAll setting index.standing? (entrants setting root))
        (entrants setting root) waiting board := by
  let found := numbered 1 (finds setting root)
  -- discovery
  obtain ⟨heligible, outcome, started, hexecute, hspawned, hstart⟩ :=
    @exists_execute_discovery setting index hlive root
  have hpriority : ∀ pending ∈ findTasks found, pending.priority = 900 := by
    intro pending hpending
    obtain ⟨entry, _, rfl⟩ := mem_findTasks_iff.1 hpending
    rfl
  have hinsert : insertAll outcome.spawned [] =
      findTasks found ++ (linkTasks (enlist setting []) ++ []) := by
    rw [hspawned, insertAll_eq_append (fun pending hpending other hother => ?_)]
    · exact (List.append_nil _).symm
    · rw [hpriority pending hpending, hpriority other hother]
  have hdiscover : setting.workflow.Drains 1000 [⟨1000, .discovery, 0⟩] []
      ⟨#[{ workspace := some root }], ⟨index, {}⟩⟩ .empty (insertAll outcome.spawned []) started
      (Report.empty.add outcome) :=
    .cons hexecute (fun pending hpending => by
      rw [hpriority pending (hspawned ▸ hpending)]
      decide) .nil
  have hfirst := fun {other} (halike : setting.EntersAlike other) =>
    halike.run_level (max workers 1) (by decide) hdiscover
      (fun pending hpending => by
        obtain rfl := List.mem_singleton.1 hpending
        exact ⟨rfl, rfl⟩)
      (by simp)
      (fun pending hpending => by
        obtain rfl := List.mem_singleton.1 hpending
        exact heligible)
  -- entering
  obtain ⟨low, entered, report, hdrains, henlisted⟩ :=
    hstart.exists_drains (Report.empty.add outcome)
  have hsecond := fun {other} (halike : setting.EntersAlike other) =>
    halike.run_level (max workers 1) (by decide) hdrains
      (fun pending hpending => by
        obtain ⟨entry, _, rfl⟩ := mem_findTasks_iff.1 hpending
        exact ⟨rfl, entry.2.priority_task⟩)
      (by simp [linkTasks, enlist])
      (fun pending hpending => by
        obtain ⟨entry, hentry, rfl⟩ := mem_findTasks_iff.1 hpending
        exact hstart.isEligible_find hentry)
  -- linking
  obtain ⟨linked, report', hdrains', hlinked⟩ := exists_drains_links (enlist setting found) low
    entered report (pairwise_enlist (pairwise_numbered 1 _)) henlisted.entered
  have hthird := fun {other} (halike : setting.EntersAlike other) =>
    halike.run_level (max workers 1) (by decide) hdrains'
      (fun pending hpending => by
        obtain ⟨entry, _, rfl⟩ := List.mem_map.1 hpending
        exact ⟨rfl, rfl⟩)
      (fun pending hpending => by
        rw [henlisted.priority_eq hpending]
        decide)
      (fun pending hpending => by
        obtain ⟨entry, hentry, rfl⟩ := List.mem_map.1 hpending
        obtain ⟨project, hcontext⟩ := henlisted.entered entry hentry
        exact (exists_execute_link hcontext).1)
  have hrun : ∀ other : LoadSetting, setting.EntersAlike other →
      (initialTasks workers index root).run other.workflow =
        TaskList.run other.workflow ⟨max workers 1, low, linked, report'⟩ := by
    intro other halike
    refine Eq.trans ?_ (hthird halike)
    refine Eq.trans ?_ (hsecond halike)
    rw [← hinsert]
    exact hfirst halike
  refine ⟨low, linked, report', ?_, hrun, ?_⟩
  · rw [hdrains'.stalled_eq, hdrains.stalled_eq]
    rfl
  · rw [hrun setting (fun _ _ => rfl)] at hroom
    have henrolled := henlisted.enrolled hlinked (List.Perm.refl _) (List.Perm.refl _)
      ((TaskList.later_run (isProgress_grown setting) _).hasRoom hroom)
    rwa [List.nil_append, map_snd_enlist_numbered] at henrolled

/-- A run first finds projects and archives, then enters them and then links them. -/
theorem exists_enrolled {index : Index} (hlive : index.Live) (workers : Nat) (root : String)
    (hroom : ((initialTasks workers index root).run setting.workflow).2.board.world.index.HasRoom) :
    ∃ waiting board report,
      (initialTasks workers index root).run setting.workflow =
        TaskList.run setting.workflow ⟨max workers 1, waiting, board, report⟩ ∧
      Enrolled setting (enrolAll setting index.standing? (entrants setting root))
        (entrants setting root) waiting board := by
  obtain ⟨waiting, board, report, _, hrun, henrolled⟩ :=
    exists_enrolled_alike hlive workers root hroom
  exact ⟨waiting, board, report, hrun setting (fun _ _ => rfl), henrolled⟩

end CodeAtlas.Load
