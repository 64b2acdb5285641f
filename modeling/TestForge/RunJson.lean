import TestForge.ClockRoundTrip
import TestForge.JsonRoundTrip
import TestForge.TestResult

/-! A run written as JSON text and read back. -/
namespace TestForge

open Json Strings

/-- An instant whose text has a year of four digits. -/
def Clock.Dated (instant : TimePoint) : Prop := 0 ≤ instant ∧ instant < 253402300800000000000

instance (instant : TimePoint) : Decidable (Clock.Dated instant) :=
  inferInstanceAs (Decidable (_ ∧ _))

theorem Json.Value.reread_object (members : List (Bytes × Value)) (distinct : (members.map (·.1)).Nodup) :
    (object members).reread = .object (members.map fun member => (member.1,member.2.reread)) := by
  rw [reread,rereadMembers_eq,lastWins_distinct]
  rwa [List.map_map]

/-! ### One result -/

namespace TestResult

/-- A result whose times are rounded down to the millisecond. -/
def toMillis (result : TestResult) : TestResult :=
  { result with
    startTime := Clock.toMillis result.startTime
    endTime := Clock.toMillis result.endTime }

/-- What a result must be like for its JSON form to tell it apart. `attempt` is an
`int` in the source, and the two values are free-form. -/
structure Writable (result : TestResult) : Prop where
  named : result.testId ≠ []
  started : Clock.Dated result.startTime
  ended : Clock.Dated result.endTime
  attempt : -2^31 ≤ result.attempt ∧ result.attempt < 2^31
  metadata : ∀ u ∈ result.metadata.subvalues, u.Faithful
  diagnostics : ∀ u ∈ result.diagnostics.subvalues, u.Faithful

theorem members_distinct (result : TestResult) : (result.members.map (·.1)).Nodup := by
  simp only [members,List.map_cons,List.map_nil]
  decide

theorem reread_strings (items : List Bytes) : (stringsToJson items).reread = stringsToJson items := by
  simp [stringsToJson,Value.reread,Value.rereadItems_eq,Function.comp_def]

theorem reread_toJson (result : TestResult) (writable : result.Writable) :
    result.toJson.reread = result.toJson := by
  rw [toJson_eq,Value.reread_object _ result.members_distinct]
  congr 1
  simp only [members,List.map_cons,List.map_nil,reread_strings,Value.reread_eq _ writable.metadata,
    Value.reread_eq _ writable.diagnostics,Value.reread]

theorem fromJson_toJson (result : TestResult) (writable : result.Writable) :
    fromJson result.toJson = result.toMillis := by
  have status : TestStatus.fromString (readString result.toJson (ascii "status")) = some result.status := by
    rw [toJson_eq]
    exact TestStatus.fromString_toString _
  have category : FailureCategory.fromString (readString result.toJson (ascii "failure_category")) =
      some result.failureCategory := by
    rw [toJson_eq]
    exact FailureCategory.fromString_toString _
  have started : Clock.fromIso8601 (readString result.toJson (ascii "start_time")) =
      Clock.toMillis result.startTime := by
    rw [toJson_eq]
    exact Clock.fromIso8601_toIso8601 _ writable.started.1 writable.started.2
  have ended : Clock.fromIso8601 (readString result.toJson (ascii "end_time")) = Clock.toMillis result.endTime := by
    rw [toJson_eq]
    exact Clock.fromIso8601_toIso8601 _ writable.ended.1 writable.ended.2
  have logs : stringsFromJson (result.toJson.find (ascii "logs")) = result.logs := by
    rw [toJson_eq]
    exact stringsFromJson_stringsToJson _
  have tags : stringsFromJson (result.toJson.find (ascii "tags")) = result.tags := by
    rw [toJson_eq]
    exact stringsFromJson_stringsToJson _
  have attempt : (readNumber result.toJson (ascii "attempt")).map toInt32 = some result.attempt := by
    rw [toJson_eq]
    exact congrArg some ((toInt32_eq_iff _).mpr writable.attempt)
  have testId : readString result.toJson (ascii "test_id") = result.testId := by
    rw [toJson_eq]
    rfl
  simp only [fromJson,status,category,started,ended,logs,tags,attempt,testId,if_neg writable.named,Option.getD_some]
  rw [toJson_eq]
  rfl

end TestResult

/-! ### The run -/

namespace TestRun

def toMillis (run : TestRun) : TestRun :=
  { run with
    startedAt := Clock.toMillis run.startedAt
    finishedAt := Clock.toMillis run.finishedAt
    results := run.results.map TestResult.toMillis }

structure Writable (run : TestRun) : Prop where
  started : Clock.Dated run.startedAt
  finished : Clock.Dated run.finishedAt
  workers : -2^31 ≤ run.workers ∧ run.workers < 2^31
  environment : ∀ u ∈ run.environment.subvalues, u.Faithful
  results : ∀ result ∈ run.results, result.Writable

/-- The text of a run tells all of it but the statistics, which no reader looks at. -/
theorem fromJson_reread (run : TestRun) (writable : run.Writable) :
    fromJson run.toJson.reread = run.toMillis := by
  have distinct : ((run.summaryMembers ++ [(ascii "environment",run.environment),
      (ascii "results",Value.array (run.results.map TestResult.toJson))]).map (·.1)).Nodup := by
    simp only [summaryMembers,List.map_append,List.map_cons,List.map_nil]
    decide
  have items : (run.results.map TestResult.toJson).map Value.reread = run.results.map TestResult.toJson := by
    rw [List.map_map]
    exact List.map_congr_left fun result listed => result.reread_toJson (writable.results result listed)
  have form := run.toJson_eq
  have read := Value.reread_object _ distinct
  rw [← form] at read
  simp only [summaryMembers,List.cons_append,List.nil_append,List.map_cons,List.map_nil,
    Value.reread_eq _ writable.environment] at read
  have found : run.toJson.reread.find (ascii "results") = some (.array (run.results.map TestResult.toJson)) := by
    rw [read]
    exact congrArg some (by rw [Value.reread,Value.rereadItems_eq,items])
  have results : (run.results.map TestResult.toJson).map TestResult.fromJson = run.results.map TestResult.toMillis := by
    rw [List.map_map]
    exact List.map_congr_left fun result listed => result.fromJson_toJson (writable.results result listed)
  have started : Clock.fromIso8601 (readString run.toJson.reread (ascii "started_at")) =
      Clock.toMillis run.startedAt := by
    rw [read]
    exact Clock.fromIso8601_toIso8601 _ writable.started.1 writable.started.2
  have finished : Clock.fromIso8601 (readString run.toJson.reread (ascii "finished_at")) =
      Clock.toMillis run.finishedAt := by
    rw [read]
    exact Clock.fromIso8601_toIso8601 _ writable.finished.1 writable.finished.2
  have workers : (readNumber run.toJson.reread (ascii "workers")).map toInt32 = some run.workers := by
    rw [read]
    exact congrArg some ((toInt32_eq_iff _).mpr writable.workers)
  simp only [fromJson,found,results,started,finished,workers,Option.getD_some]
  rw [read]
  rfl

theorem exitCode_toMillis (run : TestRun) : run.toMillis.exitCode = run.exitCode := by
  simp [exitCode,toMillis,wasCancelled,List.any_map,Function.comp_def,TestResult.toMillis]

theorem statistics_toMillis (run : TestRun) : run.toMillis.statistics = run.statistics := by
  have added (stats : RunStatistics) (result : TestResult) : stats.add result.toMillis = stats.add result := rfl
  have lasted (result : TestResult) : result.toMillis.duration = result.duration := rfl
  simp [statistics,toMillis,RunStatistics.compute,List.foldl_map,added,lasted,Function.comp_def]

/-- What was written as a report reads back as the run, up to the fractions of a
millisecond. -/
theorem report_roundTrip (run : TestRun) (writable : run.Writable) (limits : ParseLimits)
    (fits : ∀ u ∈ run.toJson.subvalues, u.IntFits) (shallow : run.toJson.depth ≤ limits.maxDepth)
    (short : run.toJson.dump.length ≤ limits.maxLength) :
    ∃ value, parse limits run.toJson.dump = .ok value ∧ fromJson value = run.toMillis ∧
      (fromJson value).exitCode = run.exitCode ∧ (fromJson value).statistics = run.statistics := by
  refine ⟨_,Value.parse_dump limits _ fits shallow short,run.fromJson_reread writable,?_,?_⟩
  · rw [run.fromJson_reread writable,exitCode_toMillis]
  · rw [run.fromJson_reread writable,statistics_toMillis]

/-- A failed result with a nested value and half a millisecond in its times. -/
def sampleRun : TestRun where
  runId := ascii "r1"
  startedAt := 1789194692417500000
  finishedAt := 1789194693000000000
  duration := 583
  workers := 4
  environment := .object [(ascii "config",.object [(ascii "seed",.int (-7))])]
  results := [{
    testId := ascii "t1"
    testName := ascii "login \"twice\""
    suiteName := ascii "auth"
    status := .failed
    failureCategory := .assertionFailure
    startTime := 1789194692417500000
    endTime := 1789194692999999999
    duration := 582
    logs := [ascii "first\nline",[]]
    metadata := .object [(ascii "ratio",.double ⟨0x3FB999999999999A⟩)]
    attempt := 2 }]

theorem report_roundTrip_sample :
    ∃ value, parse {} sampleRun.toJson.dump = .ok value ∧ fromJson value = sampleRun.toMillis ∧
      (fromJson value).exitCode = sampleRun.exitCode ∧ (fromJson value).statistics = sampleRun.statistics := by
  refine report_roundTrip sampleRun ?_ {} ?_ ?_ ?_
  · refine ⟨by decide,by decide,by decide,by decide,fun result listed => ?_⟩
    rw [List.mem_singleton.mp listed]
    exact ⟨by decide,by decide,by decide,by decide,by decide,by decide⟩
  all_goals
    rw [toJson_eq]
    simp only [summaryMembers,RunStatistics.toJson,sampleRun,List.map_cons,List.map_nil,TestResult.toJson_eq,
      TestResult.members,ascii_eq_literalBytes]
    decide +kernel

end TestRun
end TestForge
