import TestForge.RunnerPersistence
import TestForge.RunnerExitCode

/-! The run as the database gives it back, against the run that was returned. -/
namespace TestForge.Runner

open Json Strings SqliteResultRepository

variable {plan : Plan}

/-- `loadRun` finds a run with the exit code and the counts of the given one. -/
def StoredAlike (tables : Tables) (run : TestRun) : Prop :=
  ∃ loaded, loadRun tables run.runId = some loaded ∧ TestRun.SameStory run loaded

theorem ending_named (before : Tables) (labels : List StoreAction) (s : Persisted)
    (path : Transition.run (storeStep plan) labels (opened before) = some s) (run : TestRun)
    (ending : s.runner.main.Ending run) : run.runId = plan.opened.runId := by
  have kept : ∀ action s next, (∀ run, s.runner.main.Ending run → run.runId = plan.opened.runId) →
      storeStep plan action s = some next → ∀ run, next.runner.main.Ending run → run.runId = plan.opened.runId := by
    intro action s next named taken run ending
    have calm : ∀ escape, next.runner.main ≠ .threw escape := by
      intro escape threw
      rw [threw] at ending
      rcases ending with impossible | impossible <;> cases impossible
    have moved : ∀ {action : Action} {runner : State}, step plan action s.runner = some runner →
        (∀ escape, runner.main ≠ .threw escape) → runner.main.Ending run → run.runId = plan.opened.runId := by
      intro action runner moved calm ending
      obtain ⟨-,⟨finishedAt,duration,-,-,closing⟩ | ⟨-,same⟩⟩ := main_ending moved calm
      · rw [closing] at ending
        rcases ending with same | impossible
        · cases same
          rfl
        · cases impossible
      · exact named run ((same run).mp ending)
    cases storeStep_move taken with
    | task i action runner free step => exact moved step calm ending
    | other action runner apart step => exact moved step calm ending
    | save i entry tables found saved => exact named run ending
  refine Transition.run_invariant (storeStep plan) _ kept labels (opened before) s path ?_ run ending
  rintro run (impossible | impossible) <;> cases impossible

theorem returned_saved {s : Persisted} (control : Control plan s.runner) (pending : Pending plan s) (run : TestRun)
    (returned : s.runner.main = .returned run) : s.unsaved = [] := by
  apply List.eq_nil_iff_forall_not_mem.mpr
  intro entry listed
  have active := pending.waiting entry listed
  have inside : entry.1 < plan.size := control.selected _ fun waits => by simp [waits,Phase.active] at active
  have stage := control.stage
  rw [returned] at stage
  rw [Phase.not_active_of_over _ (stage.2 _ inside)] at active
  cases active

theorem verdict_loaded (result : TestResult) : (readResultRow (resultRow result)).verdict = result.verdict := by
  simp [TestResult.verdict,readResultRow,resultRow,TestStatus.fromString_toString,
    FailureCategory.fromString_toString]

theorem loadRun_returned {before : Tables} {labels : List StoreAction} {s : Persisted} {retries : List TestResult}
    (history : History plan before labels s retries) (run : TestRun) (returned : s.runner.main = .returned run) :
    ∃ loaded, loadRun s.tables plan.opened.runId = some loaded ∧ loaded.cancellationReason = [] ∧
      (loaded.results.map TestResult.verdict).Perm ((run.results ++ retries).map TestResult.verdict) := by
  have begun : s.runner.main ≠ .created := by simp [returned]
  obtain ⟨saved,listed,counted⟩ := history.rows.rows begun
  rw [returned_saved history.sound.control history.pending run returned,List.map_nil,List.append_nil] at counted
  obtain ⟨row,found⟩ : ∃ row, s.tables.testRuns.find? (·.runId = plan.opened.runId) = some row := by
    obtain ⟨row,member,same⟩ := List.mem_map.mp (history.rows.row begun)
    exact Option.isSome_iff_exists.mp (List.find?_isSome.mpr ⟨row,member,by simpa using same⟩)
  refine ⟨_,by rw [loadRun,found]; rfl,rfl,?_⟩
  have loaded := (loadResults_perm s.tables plan.opened.runId).map TestResult.verdict
  rw [listed,List.map_map,List.map_map] at loaded
  refine loaded.trans (List.Perm.trans (List.Perm.of_eq ?_) ((counted.trans ?_).map TestResult.verdict))
  · exact List.map_congr_left fun result _ => verdict_loaded result
  · exact (history.sound.closed run (.inr returned)).symm.append_right retries

theorem sameStory_iff (run loaded : TestRun) (retries : List TestResult) (unmarked : loaded.cancellationReason = [])
    (perm : (loaded.results.map TestResult.verdict).Perm ((run.results ++ retries).map TestResult.verdict)) :
    TestRun.SameStory run loaded ↔
      retries = [] ∧ (run.cancellationReason = [] ∨ ∃ result ∈ run.results, TestRun.Spoiling result) := by
  have none_retried (same : TestRun.SameStory run loaded) : retries = [] := by
    have total := same.counts.total
    have length := perm.length_eq
    rw [TestRun.statistics,TestRun.statistics,RunStatistics.compute_total,RunStatistics.compute_total] at total
    simp only [List.length_map,List.length_append] at length
    exact List.eq_nil_of_length_eq_zero (by omega)
  constructor
  · intro same
    have empty := none_retried same
    rw [empty,List.append_nil] at perm
    exact ⟨empty,(TestRun.sameStory_unmarked_iff run loaded unmarked perm).mp same⟩
  · rintro ⟨rfl,quiet⟩
    rw [List.append_nil] at perm
    exact (TestRun.sameStory_unmarked_iff run loaded unmarked perm).mpr quiet

/-- The database tells the story of the returned run exactly when no attempt was
retried, and the run was not cancelled or something went wrong in it. -/
theorem storedAlike_iff (plan : Plan) (before : Tables) (labels : List StoreAction) (s : Persisted)
    (path : Transition.run (storeStep plan) labels (opened before) = some s) (run : TestRun)
    (returned : s.runner.main = .returned run) :
    StoredAlike s.tables run ↔ Transition.Along (storeStep plan) (Tells plan) labels (opened before) := by
  obtain ⟨retries,history⟩ := history_run before labels s path
  obtain ⟨loaded,found,unmarked,perm⟩ := loadRun_returned history run returned
  have quiet : Quiet s.runner.main ↔
      run.cancellationReason = [] ∨ ∃ result ∈ run.results, TestRun.Spoiling result := by
    rw [returned]
    constructor
    · intro quiet
      exact quiet run (.inr rfl)
    · rintro either other (impossible | same)
      · cases impossible
      · cases same
        exact either
  rw [history.telling (by simp [returned]),quiet,← sameStory_iff run loaded retries unmarked perm,StoredAlike,
    ending_named before labels s path run (.inr returned),found]
  simp

/-- The one test passes at its first attempt. -/
def passedRun : List StoreAction :=
  ([.start none,.call,.task 0 .begin,.task 0 (.observerStarted none),.task 0 (.enter {}),
    .task 0 (.create .made {}),.task 0 .register,.task 0 (.check {}),.task 0 .startBody,
    .task 0 (.bodyEnds { outcome := .returned }),.task 0 (.verdict {}),.task 0 .leave,.task 0 .conclude,
    .task 0 (.record .null)] : List Action).map .runner ++ .save 0 ::
  ([.task 0 (.observerFinished none),.advance,.collect 0 0,.close none] : List Action).map .runner

/-- The exit code of the returned run, its results, and what there is of it in the tables. -/
def ledger (plan : Plan) (labels : List StoreAction) : Option (Nat × Nat × List (TestStatus × FailureCategory)) :=
  (Transition.run (storeStep plan) labels (opened {})).bind fun s => (returnedRun s.runner).map fun run =>
    (run.exitCode,run.results.length,
      (s.tables.testResults.filter (·.runId = run.runId)).map fun row => (readResultRow row).verdict)

theorem ledger_some {labels : List StoreAction} {code total : Nat} {verdicts : List (TestStatus × FailureCategory)}
    (found : ledger plan labels = some (code,total,verdicts)) :
    ∃ s run, Transition.run (storeStep plan) labels (opened {}) = some s ∧ s.runner.main = .returned run ∧
      run.exitCode = code ∧ run.results.length = total ∧
      (s.tables.testResults.filter (·.runId = run.runId)).map (fun row => (readResultRow row).verdict) = verdicts := by
  obtain ⟨s,path,found⟩ := Option.bind_eq_some_iff.mp found
  obtain ⟨run,returned,same⟩ := Option.map_eq_some_iff.mp found
  simp only [Prod.mk.injEq] at same
  exact ⟨s,run,path,returnedRun_some returned,same⟩

theorem storedAlike_passedRun : ∃ s run, Transition.run (storeStep oneTest) passedRun (opened {}) = some s ∧
    s.runner.main = .returned run ∧
      (StoredAlike s.tables run ↔ Transition.Along (storeStep oneTest) (Tells oneTest) passedRun (opened {})) := by
  have ends : ledger oneTest passedRun = some (0,1,[(.passed,.none)]) := by decide +kernel
  obtain ⟨s,run,path,returned,-⟩ := ledger_some ends
  exact ⟨s,run,path,returned,storedAlike_iff oneTest {} passedRun s path run returned⟩

/-- The one test with a second attempt. -/
def retriedTest : Plan := { oneTest with options := { retryFailed := 1 } }

/-- The first attempt ends with a network failure, the second passes. -/
def retriedRun : List StoreAction :=
  ([.start none,.call,.task 0 .begin,.task 0 (.observerStarted none),.task 0 (.enter {}),
    .task 0 (.create .made {}),.task 0 .register,.task 0 (.check {}),.task 0 .startBody,
    .task 0 (.bodyEnds { outcome := .threw false (.testForgeError (ascii "connection refused") .networkFailure) }),
    .task 0 (.verdict {}),.task 0 .leave,.task 0 .conclude] : List Action).map .runner ++ .save 0 ::
  ([.task 0 (.enter {}),.task 0 (.create .made {}),.task 0 .register,.task 0 (.check {}),.task 0 .startBody,
    .task 0 (.bodyEnds { outcome := .returned }),.task 0 (.verdict {}),.task 0 .leave,.task 0 .conclude,
    .task 0 (.record .null)] : List Action).map .runner ++ .save 0 ::
  ([.task 0 (.observerFinished none),.advance,.collect 0 0,.close none] : List Action).map .runner

/-- The run is cancelled before its test is checked, and nothing fails. -/
def stoppedRun : List StoreAction :=
  ([.start none,.request (ascii "stop"),.call,.task 0 .begin,.task 0 (.observerStarted none),.task 0 (.enter {}),
    .task 0 (.create .made {}),.task 0 .register,.task 0 (.check {}),.task 0 .leave,.task 0 .conclude,
    .task 0 (.record .null)] : List Action).map .runner ++ .save 0 ::
  ([.task 0 (.observerFinished none),.advance,.collect 0 0,.close none] : List Action).map .runner

theorem StoredAlike.rows {tables : Tables} {run : TestRun} (alike : StoredAlike tables run)
    (verdicts : List (TestStatus × FailureCategory))
    (rows : (tables.testResults.filter (·.runId = run.runId)).map (fun row => (readResultRow row).verdict) = verdicts) :
    run.results.length = verdicts.length ∧ ((∀ verdict ∈ verdicts, verdict.1 = .skipped) → run.exitCode ∈ [0,2]) := by
  obtain ⟨loaded,found,same⟩ := alike
  obtain ⟨row,-,rfl⟩ := Option.map_eq_some_iff.mp found
  have perm := (loadResults_perm tables run.runId).map TestResult.verdict
  rw [List.map_map,Function.comp_def,rows] at perm
  constructor
  · have total := same.counts.total
    rw [TestRun.statistics,TestRun.statistics,RunStatistics.compute_total,RunStatistics.compute_total] at total
    rw [total]
    simpa using perm.length_eq
  · intro skipped
    have calm : (loadResults tables run.runId).any (·.status.isFailure) = false := by
      rw [List.any_eq_false]
      intro result listed
      have status := skipped _ (perm.mem_iff.mp (List.mem_map_of_mem listed))
      rw [show result.status = .skipped from status]
      decide
    rw [same.exitCode,TestRun.exitCode]
    split
    · simp
    · simp [calm,TestRun.wasCancelled,readRunRow]

/-- A flaky test is stored as two results, and an interrupted run as a clean one. -/
theorem storedRuns_differ :
    (∃ s run, Transition.run (storeStep retriedTest) retriedRun (opened {}) = some s ∧ s.runner.main = .returned run ∧
      run.exitCode = 0 ∧ ¬StoredAlike s.tables run) ∧
    ∃ s run, Transition.run (storeStep oneTest) stoppedRun (opened {}) = some s ∧ s.runner.main = .returned run ∧
      run.exitCode = 4 ∧ ¬StoredAlike s.tables run := by
  constructor
  · have ends : ledger retriedTest retriedRun = some (0,1,[(.error,.networkFailure),(.passed,.none)]) := by
      decide +kernel
    obtain ⟨s,run,path,returned,live,total,rows⟩ := ledger_some ends
    refine ⟨s,run,path,returned,live,fun alike => ?_⟩
    have both := (alike.rows _ rows).1
    rw [total] at both
    cases both
  · have ends : ledger oneTest stoppedRun = some (4,1,[(.skipped,.none)]) := by decide +kernel
    obtain ⟨s,run,path,returned,live,total,rows⟩ := ledger_some ends
    refine ⟨s,run,path,returned,live,fun alike => ?_⟩
    have code := (alike.rows _ rows).2 (by decide)
    rw [live] at code
    revert code
    decide

end TestForge.Runner
