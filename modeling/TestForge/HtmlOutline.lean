import TestForge.HtmlPage
import TestForge.Percentiles

/-! The tags of the HTML report are those of an outline of the run: no text decides any of them. -/
namespace TestForge.HtmlReporter

open Markup (Dialect Token)
open Strings
open Piece (field markup)

/-! ### What two runs agree on -/

def resultTexts (result : TestResult) : List Bytes :=
  [result.testId,result.testName,result.suiteName,result.runId,result.errorMessage,result.errorDetail,result.worker]

def runTexts (run : TestRun) : List Bytes :=
  [run.runId,run.label,run.filterDescription,run.gitCommit,run.hostname,run.cancellationReason]

structure SameResult (a b : TestResult) : Prop where
  status : a.status = b.status
  failureCategory : a.failureCategory = b.failureCategory
  duration : a.duration = b.duration
  attempt : a.attempt = b.attempt
  texts : (resultTexts a).map List.isEmpty = (resultTexts b).map List.isEmpty
  logs : a.logs.isEmpty = b.logs.isEmpty
  metadata : a.metadata.isEmpty = b.metadata.isEmpty
  diagnostics : a.diagnostics.isEmpty = b.diagnostics.isEmpty

structure SameOutline (a b : TestRun) : Prop where
  duration : a.duration = b.duration
  texts : (runTexts a).map List.isEmpty = (runTexts b).map List.isEmpty
  results : List.Forall₂ SameResult a.results b.results

/-- The other two facts about a run that its page tells by a tag: that several workers gained something, and which
diagnostics are mock data. -/
def gains (run : TestRun) : Prop := run.workers > 1 ∧ run.duration > 0

instance (run : TestRun) : Decidable (gains run) := inferInstanceAs (Decidable (_ ∧ _))

namespace SameResult

variable {a b : TestResult}

theorem nil_iff {x y : Bytes} (same : x.isEmpty = y.isEmpty) : x = [] ↔ y = [] := by
  rw [← List.isEmpty_iff,same,List.isEmpty_iff]

theorem names (same : SameResult a b) : a.qualifiedName = [] ↔ b.qualifiedName = [] := by
  have texts := same.texts
  simp only [resultTexts,List.map_cons,List.map_nil,List.cons.injEq] at texts
  have name := nil_iff texts.2.1
  have suite := nil_iff texts.2.2.1
  rw [TestResult.qualifiedName,TestResult.qualifiedName,TestForge.qualifiedName,TestForge.qualifiedName]
  by_cases none : a.suiteName = []
  · rw [if_pos none,if_pos (suite.mp none)]
    exact name
  · rw [if_neg none,if_neg (mt suite.mpr none)]
    simp

theorem message (same : SameResult a b) :
    (a.errorMessage = [] ↔ b.errorMessage = []) ∧ (a.errorDetail = [] ↔ b.errorDetail = []) := by
  have texts := same.texts
  simp only [resultTexts,List.map_cons,List.map_nil,List.cons.injEq] at texts
  exact ⟨nil_iff texts.2.2.2.2.1,nil_iff texts.2.2.2.2.2.1⟩

end SameResult

/-! ### The statistics -/

theorem slowest_same {a b : List TestResult} (same : List.Forall₂ SameResult a b) : ∀ s t : RunStatistics,
    s.maxDuration = t.maxDuration → (s.slowestTest = [] ↔ t.slowestTest = []) →
    ((a.foldl RunStatistics.add s).slowestTest = [] ↔ (b.foldl RunStatistics.add t).slowestTest = []) := by
  have shape : ∀ (stats : RunStatistics) (result : TestResult), (stats.add result).maxDuration =
        (if result.duration > stats.maxDuration then result.duration else stats.maxDuration) ∧
      (stats.add result).slowestTest =
        if result.duration > stats.maxDuration then result.qualifiedName else stats.slowestTest := by
    intro stats result
    have kept : ((stats.countStatus result.status).countCategory result.failureCategory).maxDuration = stats.maxDuration ∧
        ((stats.countStatus result.status).countCategory result.failureCategory).slowestTest = stats.slowestTest := by
      rw [RunStatistics.countCategory]
      split <;> cases result.status <;> exact ⟨rfl,rfl⟩
    rw [RunStatistics.add]
    dsimp only
    rw [kept.1]
    split
    · exact ⟨rfl,rfl⟩
    · exact ⟨rfl,kept.2⟩
  induction same with
  | nil => exact fun _ _ _ slowest => slowest
  | @cons one other rest others head _ ih =>
    intro s t longest slowest
    refine ih _ _ ?_ ?_
    · rw [(shape s one).1,(shape t other).1,head.duration,longest]
    · rw [(shape s one).2,(shape t other).2,head.duration,longest]
      split
      · exact head.names
      · exact slowest

theorem statistics_slowest {a b : TestRun} (same : SameOutline a b) :
    a.statistics.slowestTest = [] ↔ b.statistics.slowestTest = [] := by
  have computed : ∀ run : TestRun, run.statistics.slowestTest = (run.results.foldl RunStatistics.add
      { wallDuration := run.duration, total := run.results.length }).slowestTest := by
    intro run
    rw [TestRun.statistics,RunStatistics.compute]
    split <;> rfl
  rw [computed,computed]
  exact slowest_same same.results _ _ rfl Iff.rfl

theorem verdicts_same {a b : List TestResult} (same : List.Forall₂ SameResult a b) :
    a.map TestResult.verdict = b.map TestResult.verdict := by
  induction same with
  | nil => rfl
  | cons head _ ih => rw [List.map_cons,List.map_cons,ih,TestResult.verdict,TestResult.verdict,head.status,head.failureCategory]

theorem statistics_counts {a b : TestRun} (same : SameOutline a b) :
    RunStatistics.SameCounts a.statistics b.statistics :=
  RunStatistics.compute_sameCounts _ _ _ _ (verdicts_same same.results ▸ List.Perm.refl _)

/-! ### The sections -/

theorem head_same (options : HtmlReporterOptions) {a b : TestRun} (label : a.label = [] ↔ b.label = []) :
    marks (head options a) = marks (head options b) := by
  have plural : ∀ run : TestRun, literalMarks (if run.workers = 1 then [] else ascii "s") = [] := by
    intro run
    split
    · rfl
    · exact (plain_literal (Dialect.plain_of_all rfl)).2
  have labelled : ∀ run : TestRun, marks (if run.label = [] then [] else [markup (ascii " &middot; "),field run.label]) =
      if run.label = [] then [] else literalMarks (ascii " &middot; ") := by
    intro run
    split
    · rfl
    · rw [marks_markup,marks_field,marks_nil,List.append_nil]
  simp only [head,marks_append,marks_markup,marks_field,labelled,plural,marks_decimalInt]
  simp only [label]

theorem summary_same {a b : RunStatistics} (same : RunStatistics.SameCounts a b) : summary a = summary b := by
  have rate : a.successRate = b.successRate := by
    rw [RunStatistics.successRate,RunStatistics.successRate,same.total,same.skipped,same.passed]
  have slices : ∀ count color, slice a count color = slice b count color := by
    intro count color
    rw [slice,slice,same.total]
  have bar : writeStatusBar a = writeStatusBar b := by
    simp only [writeStatusBar,slices,same.total,same.passed,same.failed,same.timeouts,same.errors,same.skipped]
  rw [summary,summary,bar,rate,same.total,same.passed,same.failed,same.timeouts,same.errors,same.skipped]

theorem categories_same {a b : RunStatistics} (same : RunStatistics.SameCounts a b) : categories a = categories b := by
  have order : ranked a = ranked b := by rw [ranked,ranked,same.failureCategoryCounts]
  rw [categories,categories,order]

theorem marks_gain (run : TestRun) : marks (parallelGain run run.statistics) = if gains run then
    literalMarks (ascii "<dt>Parallel gain</dt><dd>") ++
      literalMarks (ascii " <span class=\"note\">sum of test durations divided by wall clock</span></dd>") else [] := by
  have wall : run.statistics.wallDuration = run.duration := by
    have folded := (RunStatistics.foldl_add_durations run.results
      { wallDuration := run.duration, total := run.results.length }).2.2
    rw [TestRun.statistics,RunStatistics.compute]
    split <;> exact folded
  rw [parallelGain,wall]
  by_cases gain : run.workers > 1 ∧ run.duration > 0
  · have told : gains run := gain
    rw [if_pos gain,if_pos told]
    have ratio := (plain_fixed 2 run.statistics.parallelEfficiency 120 ⟨by decide,by decide,rfl⟩).2
    have written : ascii "x" = [120] := rfl
    rw [marks_markup,marks_markup,marks_markup,written,ratio,marks_nil,List.nil_append,List.append_nil]
  · have told : ¬gains run := gain
    rw [if_neg gain,if_neg told]
    rfl

theorem marks_commit (run : TestRun) : marks (if run.gitCommit = [] then []
      else [markup (ascii "<dt>Commit</dt><dd><code>"),field run.gitCommit,markup (ascii "</code></dd>")]) =
    if run.gitCommit = [] then []
    else literalMarks (ascii "<dt>Commit</dt><dd><code>") ++ literalMarks (ascii "</code></dd>") := by
  split
  · rfl
  · rw [marks_markup,marks_field,marks_markup,marks_nil,List.append_nil]

theorem marks_slowest (stats : RunStatistics) : marks (if stats.slowestTest = [] then []
      else [markup (ascii "<dt>Slowest</dt><dd>"),field stats.slowestTest,markup (ascii " ("),
        field (formatDuration stats.maxDuration),markup (ascii ")</dd>")]) =
    if stats.slowestTest = [] then []
    else literalMarks (ascii "<dt>Slowest</dt><dd>") ++ (literalMarks (ascii " (") ++ literalMarks (ascii ")</dd>")) := by
  split
  · rfl
  · rw [marks_markup,marks_field,marks_markup,marks_field,marks_markup,marks_nil,List.append_nil]

/-- The context of a run has its gain between tags that the outline decides. -/
theorem context_tags {a b : TestRun} (same : SameOutline a b) : ∃ front back, 
    marks (context a a.statistics) = front ++ marks (parallelGain a a.statistics) ++ back ∧
    marks (context b b.statistics) = front ++ marks (parallelGain b b.statistics) ++ back := by
  have texts := same.texts
  simp only [runTexts,List.map_cons,List.map_nil,List.cons.injEq] at texts
  have commit := SameResult.nil_iff texts.2.2.2.1
  have slowest := statistics_slowest same
  refine ⟨?front,?back,?first,?second⟩
  case first => rw [context,marks_append,marks_append]
  rw [context,marks_append,marks_append]
  simp only [marks_append,marks_markup,marks_field,marks_commit,marks_slowest]
  simp only [commit,slowest]

/-! ### The results -/

theorem message_same {a b : TestResult} (same : SameResult a b) : marks (message a) = marks (message b) := by
  have shown : ∀ result : TestResult, marks (message result) = if result.errorMessage = [] then []
      else literalMarks (ascii "<pre>") ++ literalMarks (ascii "</pre>") := by
    intro result
    have newline : literalMarks [10] = [] := rfl
    rw [message]
    split
    · rfl
    · split <;> simp only [marks_append,marks_markup,marks_field,marks_nil,newline,List.append_nil]
  rw [shown,shown]
  simp only [same.message.1]

theorem recordedFacts_same {a b : TestResult} (same : SameResult a b) :
    marks (recordedFacts a) = marks (recordedFacts b) := by
  rw [recordedFacts,recordedFacts,same.metadata]
  split
  · rfl
  · simp only [marks_markup,marks_field]

theorem logTail_same (options : HtmlReporterOptions) {a b : TestResult} (same : SameResult a b) :
    marks (logTail options a) = marks (logTail options b) := by
  have lines : ∀ texts : List Bytes, marks (texts.flatMap fun line => [field line,markup [10]]) = [] := by
    intro texts
    induction texts with
    | nil => rfl
    | cons line rest ih =>
      rw [List.flatMap_cons,marks_append,ih,marks_field,marks_markup]
      rfl
  have logs : a.logs ≠ [] ↔ b.logs ≠ [] := by
    rw [ne_eq,ne_eq,← List.isEmpty_iff,same.logs,List.isEmpty_iff]
  have shown : ∀ result : TestResult, marks (logTail options result) = if options.includeLogs ∧ result.logs ≠ [] then
      literalMarks (ascii "<details><summary>Log tail (") ++ (literalMarks (ascii " lines)</summary><pre>") ++
        literalMarks (ascii "</pre></details>")) else [] := by
    intro result
    rw [logTail]
    split
    · simp only [marks_append,marks_markup,marks_decimal,lines,marks_nil,List.append_nil,List.nil_append,List.append_assoc]
    · rfl
  rw [shown,shown]
  simp only [logs]

theorem diagnostics_same (options : HtmlReporterOptions) {a b : TestResult} (same : SameResult a b)
    (mock : isMockData a = isMockData b) : marks (diagnostics options a) = marks (diagnostics options b) := by
  rw [diagnostics,diagnostics,same.diagnostics,mock]
  split
  · simp only [marks_append,marks_markup,marks_field]
  · rfl

/-- A failure has its diagnostics between tags that the outline decides. -/
theorem failure_tags (options : HtmlReporterOptions) {a b : TestResult} (same : SameResult a b) : ∃ front back,
    marks (failure options a) = front ++ marks (diagnostics options a) ++ back ∧
    marks (failure options b) = front ++ marks (diagnostics options b) ++ back := by
  refine ⟨?front,?back,?first,?second⟩
  case first => rw [failure,marks_append,marks_append]
  rw [failure,marks_append,marks_append]
  simp only [marks_append,marks_markup,marks_field,same.status,same.attempt,message_same same,recordedFacts_same same,
    logTail_same options same]

theorem failure_same (options : HtmlReporterOptions) {a b : TestResult} (same : SameResult a b)
    (mock : isMockData a = isMockData b) : marks (failure options a) = marks (failure options b) := by
  obtain ⟨front,back,first,second⟩ := failure_tags options same
  rw [first,second,diagnostics_same options same mock]

theorem resultRow_same {a b : TestResult} (same : SameResult a b) : marks (resultRow a) = marks (resultRow b) := by
  by_cases none : b.failureCategory = .none <;>
    simp only [resultRow,marks_markup,marks_field,same.status,same.failureCategory,none,if_true,if_false]

theorem failures_same (options : HtmlReporterOptions) {a b : List TestResult} (same : List.Forall₂ SameResult a b)
    (mock : List.Forall₂ (fun one other => isMockData one = isMockData other) a b) :
    marks (failures options a) = marks (failures options b) := by
  have failing : List.Forall₂ (fun one other => marks (failure options one) = marks (failure options other))
      (a.filter (·.status.isFailure)) (b.filter (·.status.isFailure)) := by
    induction same with
    | nil => exact .nil
    | @cons one other rest others head _ ih =>
      obtain ⟨first,behind⟩ := List.forall₂_cons.mp mock
      rw [List.filter_cons,List.filter_cons,head.status]
      split
      · exact .cons (failure_same options head first) (ih behind)
      · exact ih behind
  have count := failing.length_eq
  have none : a.filter (·.status.isFailure) = [] ↔ b.filter (·.status.isFailure) = [] := by
    rw [← List.length_eq_zero_iff,count,List.length_eq_zero_iff]
  rw [failures,failures]
  simp only [none,count]
  split
  · rfl
  · rw [marks_append,marks_append,marks_flatMap failing]

theorem allResults_same {a b : List TestResult} (same : List.Forall₂ SameResult a b) :
    marks (allResults a) = marks (allResults b) := by
  have rows := marks_flatMap (same.imp fun _ _ head => resultRow_same head)
  rw [allResults,allResults,marks_append,marks_append,marks_append,marks_append,rows]

def labelled (label : Bytes) : TestRun where
  label

theorem gains_labelled (label : Bytes) : ¬gains (labelled label) := fun gain => absurd gain.1 (show ¬(1 : Int) > 1 by decide)

theorem labelled_outline {one other : Bytes} (same : one.isEmpty = other.isEmpty) :
    SameOutline (labelled one) (labelled other) :=
  ⟨rfl,by simp [runTexts,labelled,same],.nil⟩

def withWorkers (workers : Int) : TestRun where
  duration := 1
  workers

def mockResult (mock : Bool) : TestResult where
  status := .failed
  diagnostics := .object [(ascii "gpu",.object [(ascii "is_mock_data",.bool mock)])]

def withMockData (mock : Bool) : TestRun where
  results := [mockResult mock]

theorem withWorkers_outline (one other : Int) : SameOutline (withWorkers one) (withWorkers other) := ⟨rfl,rfl,.nil⟩

theorem mockResult_same (one other : Bool) : SameResult (mockResult one) (mockResult other) := ⟨rfl,rfl,rfl,rfl,rfl,rfl,rfl,rfl⟩

theorem withMockData_outline (one other : Bool) : SameOutline (withMockData one) (withMockData other) :=
  ⟨rfl,rfl,.cons (mockResult_same one other) .nil⟩

/-- The page of a run with a gain has more tags than one of the same outline without it. -/
theorem length_gain {a b : TestRun} (same : SameOutline a b) (gain : gains b) (none : ¬gains a) :
    (marks (context a a.statistics)).length < (marks (context b b.statistics)).length := by
  obtain ⟨front,back,first,second⟩ := context_tags same
  have row : 0 < (literalMarks (ascii "<dt>Parallel gain</dt><dd>")).length := by
    rw [ascii_eq_literalBytes]
    decide +kernel
  rw [first,second,marks_gain,marks_gain,if_neg none,if_pos gain]
  simp only [List.length_append,List.length_nil]
  omega

theorem length_mock : (marks (failure {} (mockResult false))).length < (marks (failure {} (mockResult true))).length := by
  obtain ⟨front,back,first,second⟩ := failure_tags {} (mockResult_same false true)
  have note : 0 < (literalMarks (ascii "<p class=\"note\"><strong>Note:</strong> the GPU section below is " ++
      ascii "MOCK TEST DATA, not a reading from real hardware.</p>")).length := by
    simp only [ascii_eq_literalBytes]
    decide +kernel
  have shown : isMockData (mockResult true) = true ∧ isMockData (mockResult false) = false :=
    ⟨by decide +kernel,by decide +kernel⟩
  have filled : ∀ mock, ({} : HtmlReporterOptions).includeDiagnostics = true ∧ (mockResult mock).diagnostics.isEmpty = false :=
    fun _ => ⟨rfl,rfl⟩
  rw [first,second,diagnostics,diagnostics,if_pos (filled _),if_pos (filled _),if_pos shown.1,if_neg (by rw [shown.2]; decide)]
  simp only [marks_append,marks_markup,marks_field,marks_nil,List.length_append,List.length_nil]
  omega

end TestForge.HtmlReporter
