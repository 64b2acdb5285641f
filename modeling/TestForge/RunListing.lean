import TestForge.ResultStore
import TestForge.RunCounts
import Mathlib.Logic.Function.Basic

/-! The listing of runs, against the runs it summarises. -/
namespace TestForge.SqliteResultRepository

open Json Strings Clock

/-! ### Listing -/

structure RunQuery where
  labelContains : Option Bytes := none
  since : Option TimePoint := none
  untilTime : Option TimePoint := none
  limit : Int := 50
  offset : Int := 0

/-- What stands for the results of a listed run. -/
def placeholders (row : RunRow) : List TestResult :=
  let append (status : TestStatus) (count : Int) : List TestResult :=
    List.replicate count.toNat { status, runId := row.runId }
  let total := toInt32 row.total
  let passed := toInt32 row.passed
  let failed := toInt32 row.failed
  let skipped := toInt32 row.skipped
  let errors := toInt32 row.errors
  let timeouts := toInt32 row.timeouts
  let accounted := passed + failed + skipped + errors + timeouts
  append .passed passed ++ append .failed failed ++ append .skipped skipped ++ append .error errors ++
    append .timeout timeouts ++ append .error (max 0 (total - accounted))

def listedRun (row : RunRow) : TestRun := { readRunRow row with results := placeholders row }

section Listing

-- the operator `LIKE` of SQLite
variable (like : Bytes → Bytes → Bool)

def RunQuery.selects (query : RunQuery) (row : RunRow) : Bool :=
  (query.labelContains.all fun part => like (37 :: part ++ [37]) row.label) &&
    (query.since.all fun instant => toEpochMillis instant ≤ row.startedAtMs) &&
    query.untilTime.all fun instant => row.startedAtMs ≤ toEpochMillis instant

def listRuns (tables : Tables) (query : RunQuery) : List TestRun :=
  let rows := (tables.testRuns.filter (query.selects like)).mergeSort fun a b => b.startedAtMs ≤ a.startedAtMs
  ((rows.drop (max 0 query.offset).toNat).take (max 1 query.limit).toNat).map listedRun

theorem listRuns_row (tables : Tables) (query : RunQuery) (listed : TestRun)
    (member : listed ∈ listRuns like tables query) : ∃ row ∈ tables.testRuns, listed = listedRun row := by
  obtain ⟨row,taken,rfl⟩ := List.mem_map.mp member
  have sorted := List.mem_of_mem_drop (List.mem_of_mem_take taken)
  exact ⟨row,(List.mem_filter.mp (List.mem_mergeSort.mp sorted)).1,rfl⟩

end Listing

/-! ### Storing runs -/

inductive StoreCall where
  | beginRun (run : TestRun)
  | saveResult (result : TestResult)
  | completeRun (run : TestRun)

/-- A call of `saveResult` that throws changes nothing. -/
def perform (tables : Tables) : StoreCall → Tables
  | .beginRun run => beginRun tables run
  | .saveResult result => (saveResult tables result).getD tables
  | .completeRun run => completeRun tables run

/-- The run that the latest `completeRun` under an id had, unless a new one has begun. -/
def complete (known : Bytes → Option TestRun) : StoreCall → Bytes → Option TestRun
  | .beginRun run => Function.update known run.runId none
  | .saveResult _ => known
  | .completeRun run => Function.update known run.runId (some run)

def performed (calls : List StoreCall) : Tables := calls.foldl perform {}
def completedAs (calls : List StoreCall) : Bytes → Option TestRun := calls.foldl complete fun _ => none

/-- The row of a completed run holds its counts. -/
def Summed (tables : Tables) (known : Bytes → Option TestRun) : Prop :=
  ∀ row ∈ tables.testRuns, ∀ run, known row.runId = some run → ∃ earlier : RunRow, row = earlier.complete run

theorem Summed.perform {tables : Tables} {known : Bytes → Option TestRun} (summed : Summed tables known)
    (call : StoreCall) : Summed (perform tables call) (complete known call) := by
  intro row listed run found
  cases call with
  | beginRun begun =>
    rcases List.mem_append.mp listed with earlier | last
    · have other : row.runId ≠ begun.runId := by simpa using (List.mem_filter.mp earlier).2
      exact summed row (List.mem_filter.mp earlier).1 run (by simpa [complete,other] using found)
    · rw [List.mem_singleton.mp last] at found
      simp [complete] at found
  | saveResult result =>
    have same : ((saveResult tables result).getD tables).testRuns = tables.testRuns := by
      unfold saveResult
      split <;> rfl
    exact summed row (same ▸ listed) run found
  | completeRun finished =>
    obtain ⟨earlier,member,rfl⟩ := List.mem_map.mp listed
    by_cases mine : earlier.runId = finished.runId
    · rw [if_pos mine] at found ⊢
      have same : (earlier.complete finished).runId = finished.runId := mine
      rw [complete,same,Function.update_self] at found
      obtain rfl := Option.some.inj found
      exact ⟨earlier,rfl⟩
    · rw [if_neg mine] at found ⊢
      exact summed earlier member run (by simpa [complete,mine] using found)

theorem summed_performed (calls : List StoreCall) : Summed (performed calls) (completedAs calls) := by
  induction calls using List.reverseRecOn with
  | nil =>
    intro row listed
    cases listed
  | append_singleton calls call ih =>
    rw [performed,completedAs,List.foldl_append,List.foldl_append]
    exact ih.perform call

/-! ### Placeholders -/

/-- A run that its placeholders can stand for. -/
structure Plain (run : TestRun) : Prop where
  /-- The counts are those of an `int`. -/
  small : ∀ status, run.statistics.count status < 2^31
  unknown : ∀ result ∈ run.results, result.failureCategory = .unknown
  ended : run.cancellationReason = [] ∨ ∃ result ∈ run.results, result.status.isFailure = true

theorem placeholders_category (row : RunRow) : ∀ result ∈ placeholders row, result.failureCategory = .unknown := by
  intro result listed
  simp only [placeholders,List.mem_append,List.mem_replicate] at listed
  rcases listed with ((((⟨-,rfl⟩ | ⟨-,rfl⟩) | ⟨-,rfl⟩) | ⟨-,rfl⟩) | ⟨-,rfl⟩) | ⟨-,rfl⟩ <;> rfl

theorem count_replicate (status other : TestStatus) (runId : Bytes) (n : Nat) :
    (List.replicate n ({ status, runId } : TestResult)).countP (fun result => decide (result.status = other)) =
      if status = other then n else 0 := by
  rw [List.countP_replicate]
  simp

theorem toInt32_toNat_iff (n : Nat) : (toInt32 n).toNat = n ↔ n < 2^31 := by
  obtain ⟨k,wrapped,low,high⟩ := toInt32_spec n
  omega

theorem toInt32_small (n : Nat) (small : n < 2^31) : toInt32 n = n := by
  obtain ⟨k,wrapped,low,high⟩ := toInt32_spec n
  omega

/-- What is unaccounted for never makes up for a count that does not fit. -/
theorem errors_iff (others errors : Nat) :
    (toInt32 errors).toNat + (toInt32 (others + errors : Nat) - (others + toInt32 errors)).toNat = errors ↔
      errors < 2^31 := by
  obtain ⟨k,wrapped,low,high⟩ := toInt32_spec errors
  obtain ⟨k',wrapped',low',high'⟩ := toInt32_spec (others + errors : Nat)
  omega

theorem length_eq_counts (results : List TestResult) (wall : Int) :
    let stats := RunStatistics.compute results wall
    stats.total = stats.passed + stats.failed + stats.skipped + stats.errors + stats.timeouts := by
  have count := RunStatistics.compute_count results wall
  have passed := count .passed
  have failed := count .failed
  have skipped := count .skipped
  have errors := count .error
  have timeouts := count .timeout
  simp only [RunStatistics.count] at passed failed skipped errors timeouts
  simp only [RunStatistics.compute_total,passed,failed,skipped,errors,timeouts]
  clear * -
  induction results with
  | nil => rfl
  | cons result rest ih =>
    simp only [List.length_cons,List.countP_cons,ih]
    cases result.status <;> simp <;> omega

/-- As many placeholders of a status as the row tells, where the unaccounted count as errors. -/
theorem placeholders_count (row : RunRow) (status : TestStatus) :
    (placeholders row).countP (fun result => decide (result.status = status)) =
      match status with
      | .passed => (toInt32 row.passed).toNat
      | .failed => (toInt32 row.failed).toNat
      | .skipped => (toInt32 row.skipped).toNat
      | .error => (toInt32 row.errors).toNat + (toInt32 row.total - (toInt32 row.passed + toInt32 row.failed +
          toInt32 row.skipped + toInt32 row.errors + toInt32 row.timeouts)).toNat
      | .timeout => (toInt32 row.timeouts).toNat := by
  cases status <;> simp only [placeholders,List.countP_append,count_replicate] <;> simp
  omega

/-- Of the counts of a row with an exact total, those that fit an `int` are told. -/
theorem placeholders_exact_iff (row : RunRow) (count : TestStatus → Nat)
    (passed : row.passed = count .passed) (failed : row.failed = count .failed)
    (skipped : row.skipped = count .skipped) (errors : row.errors = count .error)
    (timeouts : row.timeouts = count .timeout) (total : row.total =
      (count .passed + count .failed + count .skipped + count .timeout + count .error : Nat)) :
    (∀ status, (placeholders row).countP (fun result => decide (result.status = status)) = count status) ↔
      ∀ status, count status < 2^31 := by
  have rest (p : count .passed < 2^31) (f : count .failed < 2^31) (s : count .skipped < 2^31)
      (t : count .timeout < 2^31) : (placeholders row).countP (fun result => decide (result.status = .error)) =
        count .error ↔ count .error < 2^31 := by
    have others (e : Int) : (count .passed : Int) + count .failed + count .skipped + e + count .timeout =
        (count .passed + count .failed + count .skipped + count .timeout : Nat) + e := by
      omega
    rw [placeholders_count,passed,failed,skipped,errors,timeouts,total,toInt32_small _ p,toInt32_small _ f,
      toInt32_small _ s,toInt32_small _ t]
    dsimp only
    rw [others,errors_iff]
  constructor
  · intro same
    have p := same .passed
    have f := same .failed
    have s := same .skipped
    have t := same .timeout
    rw [placeholders_count] at p f s t
    simp only [passed,failed,skipped,timeouts,toInt32_toNat_iff] at p f s t
    intro status
    cases status with
    | passed => exact p
    | failed => exact f
    | skipped => exact s
    | error => exact (rest p f s t).mp (same .error)
    | timeout => exact t
  · intro small status
    cases status with
    | error => exact (rest (small _) (small _) (small _) (small _)).mpr (small _)
    | passed => rw [placeholders_count,passed]; exact (toInt32_toNat_iff _).mpr (small _)
    | failed => rw [placeholders_count,failed]; exact (toInt32_toNat_iff _).mpr (small _)
    | skipped => rw [placeholders_count,skipped]; exact (toInt32_toNat_iff _).mpr (small _)
    | timeout => rw [placeholders_count,timeouts]; exact (toInt32_toNat_iff _).mpr (small _)

/-- The placeholders of a completed run have its counts as long as these are small. -/
theorem placeholders_small_iff (earlier : RunRow) (run : TestRun) :
    (∀ status, (placeholders (earlier.complete run)).countP (fun result => decide (result.status = status)) =
      run.statistics.count status) ↔ ∀ status, run.statistics.count status < 2^31 := by
  refine placeholders_exact_iff (earlier.complete run) run.statistics.count rfl rfl rfl rfl rfl ?_
  have total := length_eq_counts run.results run.duration
  have whole : run.statistics.total = run.statistics.count .passed + run.statistics.count .failed +
      run.statistics.count .skipped + run.statistics.count .timeout + run.statistics.count .error :=
    Eq.trans total (Nat.add_right_comm _ _ _)
  exact congrArg Nat.cast whole

/-! ### The same story -/

theorem status_perm {a b : List TestResult}
    (same : ∀ status, a.countP (fun result => decide (result.status = status)) =
      b.countP fun result => decide (result.status = status)) :
    (a.map (·.status)).Perm (b.map (·.status)) := by
  rw [List.perm_iff_count]
  intro status
  have counted : ∀ results : List TestResult, (results.map (·.status)).count status =
      results.countP fun result => decide (result.status = status) := by
    intro results
    rw [List.count,List.countP_map]
    rfl
  rw [counted,counted,same]

theorem verdicts_unknown (results : List TestResult) (unknown : ∀ result ∈ results, result.failureCategory = .unknown) :
    results.map TestResult.verdict = (results.map (·.status)).map (·,.unknown) := by
  rw [List.map_map]
  exact List.map_congr_left fun result listed => Prod.ext rfl (unknown result listed)

/-- With one category, the same counts of statuses are all there is. -/
theorem verdict_perm (listed run : TestRun) (unknown : ∀ result ∈ listed.results, result.failureCategory = .unknown)
    (only : ∀ result ∈ run.results, result.failureCategory = .unknown)
    (counted : ∀ status, listed.results.countP (fun result => decide (result.status = status)) =
      run.statistics.count status) :
    (listed.results.map TestResult.verdict).Perm (run.results.map TestResult.verdict) := by
  rw [verdicts_unknown _ unknown,verdicts_unknown _ only]
  refine (status_perm fun status => ?_).map _
  rw [counted,TestRun.statistics,RunStatistics.compute_count]

/-- Equal counts of categories leave only the one of the placeholders. -/
theorem only_unknown (listed run : TestRun) (unknown : ∀ result ∈ listed.results, result.failureCategory = .unknown)
    (same : TestRun.SameStory run listed) : ∀ result ∈ run.results, result.failureCategory = .unknown := by
  have total := same.counts.total
  have counts := congrFun same.counts.failureCategoryCounts .unknown
  rw [TestRun.statistics,TestRun.statistics,RunStatistics.compute_total,RunStatistics.compute_total] at total
  rw [TestRun.statistics,TestRun.statistics,RunStatistics.compute_category,RunStatistics.compute_category] at counts
  have whole : listed.results.countP (fun result => decide (result.failureCategory = .unknown ∧
      FailureCategory.unknown ≠ .none)) = listed.results.length := by
    rw [List.countP_eq_length]
    intro result member
    simp [unknown result member]
  rw [whole,← total,List.countP_eq_length] at counts
  intro result member
  simpa using counts result member

theorem spoiling_unknown (run : TestRun) (only : ∀ result ∈ run.results, result.failureCategory = .unknown) :
    (∃ result ∈ run.results, TestRun.Spoiling result) ↔ ∃ result ∈ run.results, result.status.isFailure = true := by
  refine exists_congr fun result => and_congr_right fun listed => ?_
  simp [TestRun.Spoiling,only result listed]

/-- A listed run tells what its run was exactly when that is a plain one. -/
theorem listed_iff (earlier : RunRow) (run : TestRun) :
    TestRun.SameStory run (listedRun (earlier.complete run)) ↔ Plain run := by
  have unknown := placeholders_category (earlier.complete run)
  have small_iff := placeholders_small_iff earlier run
  have unmarked : (listedRun (earlier.complete run)).cancellationReason = [] := rfl
  have results : (listedRun (earlier.complete run)).results = placeholders (earlier.complete run) := rfl
  rw [← results] at unknown small_iff
  generalize listedRun (earlier.complete run) = listed at *
  constructor
  · intro same
    have counted (status : TestStatus) : listed.results.countP (fun result => decide (result.status = status)) =
        run.statistics.count status := by
      rw [same.counts.count status,TestRun.statistics,RunStatistics.compute_count]
    have only := only_unknown listed run unknown same
    have perm := verdict_perm listed run unknown only counted
    refine ⟨small_iff.mp counted,only,?_⟩
    rw [← spoiling_unknown run only]
    exact (TestRun.sameStory_unmarked_iff run listed unmarked perm).mp same
  · rintro ⟨small,only,ended⟩
    have perm := verdict_perm listed run unknown only (small_iff.mpr small)
    rw [TestRun.sameStory_unmarked_iff run listed unmarked perm,spoiling_unknown run only]
    exact ended

section Listing

variable (like : Bytes → Bytes → Bool)

/-- After any calls of the repository, each listed run that was completed tells the
same as the run handed to `completeRun` exactly when that is a plain one. -/
theorem listRuns_sameStory_iff (calls : List StoreCall) (query : RunQuery) (listed run : TestRun)
    (member : listed ∈ listRuns like (performed calls) query)
    (completed : completedAs calls listed.runId = some run) : TestRun.SameStory run listed ↔ Plain run := by
  obtain ⟨row,stored,rfl⟩ := listRuns_row like (performed calls) query listed member
  obtain ⟨earlier,rfl⟩ := summed_performed calls row stored run completed
  exact listed_iff earlier run

end Listing

/-- A run of one test. -/
def oneResult (status : TestStatus) (failureCategory : FailureCategory) : TestRun where
  runId := ascii "r"
  results := [{ runId := ascii "r", status, failureCategory }]

def storing (run : TestRun) : List StoreCall :=
  .beginRun { run with results := [] } :: run.results.map .saveResult ++ [.completeRun run]

def oneRow (run : TestRun) : RunRow where
  runId := run.runId
  label := run.label
  startedAtMs := toEpochMillis run.startedAt
  workers := run.workers
  filter := run.filterDescription
  gitCommit := run.gitCommit
  hostname := run.hostname
  environmentJson := run.environment.dump

theorem storing_rows (status : TestStatus) (failureCategory : FailureCategory) :
    (performed (storing (oneResult status failureCategory))).testRuns =
      [(oneRow (oneResult status failureCategory)).complete (oneResult status failureCategory)] := by
  simp [performed,storing,oneResult,perform,beginRun,completeRun,saveResult,oneRow]

theorem storing_listed (status : TestStatus) (failureCategory : FailureCategory) :
    listedRun ((oneRow (oneResult status failureCategory)).complete (oneResult status failureCategory)) ∈
      listRuns (fun _ _ => true) (performed (storing (oneResult status failureCategory))) {} := by
  rw [listRuns,storing_rows]
  simp [RunQuery.selects]

theorem listRuns_sameStory_oneResult : ∃ listed ∈
    listRuns (fun _ _ => true) (performed (storing (oneResult .error .unknown))) {},
    TestRun.SameStory (oneResult .error .unknown) listed := by
  refine ⟨_,storing_listed .error .unknown,(listRuns_sameStory_iff (fun _ _ => true) (storing (oneResult .error .unknown))
    {} _ (oneResult .error .unknown) (storing_listed .error .unknown) rfl).mpr ⟨fun status => ?_,?_,.inl rfl⟩⟩
  · cases status <;> decide
  · simp [oneResult]

/-- A run with one passed test is listed with a failure of unknown category. -/
theorem passedRun_listed : ∃ listed ∈ listRuns (fun _ _ => true) (performed (storing (oneResult .passed .none))) {},
    completedAs (storing (oneResult .passed .none)) listed.runId = some (oneResult .passed .none) ∧
      ¬TestRun.SameStory (oneResult .passed .none) listed := by
  refine ⟨_,storing_listed .passed .none,rfl,fun same => ?_⟩
  have plain := (listed_iff _ _).mp same
  have category := plain.unknown _ (List.mem_singleton_self _)
  cases category

end TestForge.SqliteResultRepository
