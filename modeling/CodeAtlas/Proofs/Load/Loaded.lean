/-
# The indices that loads produce

A load starts from an empty index or from one that an earlier load produced, and ends with an index
whose links and attributes are in order.
-/
import CodeAtlas.Proofs.Load.Sealed
import CodeAtlas.Proofs.Load.Verdict
import CodeAtlas.Proofs.Prune.Sealed

namespace CodeAtlas

open Load Index

namespace Load

/-- The index that the tasks of a load leave. -/
abbrev endIndex (setting : LoadSetting) (base : Option Index) (generation : Nat) (root : String) :
    Index :=
  (loadRun setting base generation root).2.board.world.index

/-- What the tasks of a load leave is in order when they start in order and have numbers enough. -/
theorem orderly_endIndex {setting : LoadSetting} {base : Option Index} {generation : Nat}
    {root : String} (hstart : (startIndex base generation).Orderly)
    (hroom : (endIndex setting base generation root).size < 2 ^ 32) :
    (endIndex setting base generation root).Orderly :=
  (Tasks.TaskList.later_run (isProgress_orderly setting)
    (initialTasks setting.config.workers (startIndex base generation) root)).2 hstart hroom

end Load

namespace Index

/-- The indices of successful loads, each without a base or over a base that a load produced.  The
handles of a load bear a generation of its own, and its tasks did not run out of numbers. -/
inductive Loaded : Index → Prop
  | load {disk : Disk} {grammar : Source.Grammar} {config : LoadConfig} {base : Option Index}
      {generation : Nat} {root : String} {thirdParty : List Regex.Matcher} {outcome : LoadOutcome}
      (hbase : ∀ lower ∈ base, Loaded lower)
      (hnew : ∀ lower ∈ base, ∀ id ∈ lower.ids, id.generation ≠ generation)
      (hpatterns : config.thirdPartyMatchers? = some thirdParty)
      (hload : loadWorkspace disk grammar config base generation root = .ok outcome)
      (hroom : (endIndex ⟨disk, grammar, config, thirdParty⟩ base generation root).size < 2 ^ 32) :
      Loaded outcome.index

theorem orderly_startIndex {base : Option Index} {generation : Nat}
    (hbase : ∀ lower ∈ base, lower.Orderly)
    (hnew : ∀ lower ∈ base, ∀ id ∈ lower.ids, id.generation ≠ generation) :
    (startIndex base generation).Orderly := by
  cases base with
  | none => exact orderly_empty generation
  | some lower => exact (hbase lower rfl).onBase (hnew lower rfl)

theorem Orderly.pruned {index : Index} (h : index.Orderly) (config : LoadConfig) (generation : Nat) :
    (config.pruned index generation).1.Orderly := by
  rw [LoadConfig.pruned]
  split
  · exact h.prune generation
  · exact h

/-- Loaded indices have their links and attributes in order. -/
theorem Loaded.isOrderly {index : Index} (h : index.Loaded) : index.Orderly := by
  induction h with
  | load _ hnew hpatterns hload hroom ih =>
    obtain ⟨_, _, hindex⟩ := run_of_loadWorkspace_ok hpatterns hload
    rw [hindex]
    exact ((orderly_endIndex (orderly_startIndex ih hnew) hroom).pruned _ _).propagateThirdParty

end Index

/-! ## Loads that can be followed -/

/-- A load whose tasks end well within a bound succeeds, and what can be seen of the index that they
leave holds of it. -/
theorem exists_loadWorkspace_of_runWithin {disk : Disk} {grammar : Source.Grammar}
    {config : LoadConfig} {base : Option Index} {generation bound : Nat} {root : String}
    {thirdParty : List Regex.Matcher} {seen : Index → Bool}
    (hroot : disk.isDirectory root = true)
    (hpatterns : config.thirdPartyMatchers? = some thirdParty)
    (h : ((initialTasks config.workers (startIndex base generation) root).runWithin
      (LoadSetting.workflow ⟨disk, grammar, config, thirdParty⟩) bound).any
        (fun result => result.1.isOk && seen result.2.board.world.index) = true) :
    seen (endIndex ⟨disk, grammar, config, thirdParty⟩ base generation root) = true ∧
      ∃ outcome, loadWorkspace disk grammar config base generation root = .ok outcome := by
  obtain ⟨⟨result, tasks⟩, hwithin, hseen⟩ := Option.any_eq_true _ _ |>.1 h
  have hrun : loadRun ⟨disk, grammar, config, thirdParty⟩ base generation root = (result, tasks) :=
    Tasks.TaskList.run_eq_of_runWithin hwithin
  obtain ⟨hok, hindex⟩ : result.isOk = true ∧ seen tasks.board.world.index = true := by
    simpa using hseen
  refine ⟨by rw [endIndex, hrun]; exact hindex, (exists_loadWorkspace_ok_iff hroot hpatterns).2 ?_⟩
  rw [hrun]
  cases result with
  | error error => simp [Except.isOk, Except.toBool] at hok
  | ok report => exact ⟨report, rfl⟩

/-- A source file whose class calls into a library, and the source file of the library. -/
def callingTexts : Source.Grammar := .ofTexts
  [("class A \x7b L f; void m() \x7b f.run(); \x7d \x7d",
    .node "program" none 0 38 [.node "class_declaration" none 0 38
      [.node "identifier" (some "name") 6 7 [], .node "class_body" (some "body") 8 38
        [.node "field_declaration" none 10 14 [.node "type_identifier" (some "type") 10 11 [],
          .node "variable_declarator" (some "declarator") 12 13
            [.node "identifier" (some "name") 12 13 []]],
        .node "method_declaration" none 15 36 [.node "void_type" (some "type") 15 19 [],
          .node "identifier" (some "name") 20 21 [],
          .node "formal_parameters" (some "parameters") 21 23 [],
          .node "block" (some "body") 24 36 [.node "expression_statement" none 26 34
            [.node "method_invocation" none 26 33 [.node "identifier" (some "object") 26 27 [],
              .node "identifier" (some "name") 28 31 [],
              .node "argument_list" (some "arguments") 31 33 []]]]]]]]),
    ("class L \x7b void run() \x7b\x7d void rest() \x7b\x7d \x7d",
      .node "program" none 0 40 [.node "class_declaration" none 0 40
        [.node "identifier" (some "name") 6 7 [], .node "class_body" (some "body") 8 40
          [.node "method_declaration" none 10 23 [.node "void_type" (some "type") 10 14 [],
            .node "identifier" (some "name") 15 18 [],
            .node "formal_parameters" (some "parameters") 18 20 [],
            .node "block" (some "body") 21 23 []],
          .node "method_declaration" none 24 38 [.node "void_type" (some "type") 24 28 [],
            .node "identifier" (some "name") 29 33 [],
            .node "formal_parameters" (some "parameters") 33 35 [],
            .node "block" (some "body") 36 38 []]]]])]

theorem spellsNodes_callingTexts : callingTexts.SpellsNodes :=
  Source.Grammar.spellsNodes_ofTexts (by decide +kernel)

/-- A workspace with a project that calls into an archive. -/
def callingDisk : Disk :=
  ⟨[(["ws"], .directory), (["ws", "app"], .directory), (["ws", "app", ".project"], .file (.text "")),
    (["ws", "app", "src"], .directory),
    (["ws", "app", "src", "A.java"], .file (.text "class A \x7b L f; void m() \x7b f.run(); \x7d \x7d")),
    (["ws", "lib.jar"], .archive
      [⟨"L.java", .text "class L \x7b void run() \x7b\x7d void rest() \x7b\x7d \x7d"⟩])]⟩

end CodeAtlas
