import TestForge.FlakeRule
import TestForge.Percentiles

/-! The p95 duration of a test's history, beside the one of a run. The history takes the element
behind 95 percent of the sorted durations, the run the one at the nearest rank. -/
namespace TestForge.SqliteResultRepository

open NearestRank RunStatistics

/-- The durations that the second query of a summary collects. -/
def recentDurations (rows : List ResultRow) (testId : Bytes) : List Int :=
  ((newestFirst (rows.filter (·.testId = testId))).take 50).filterMap fun row => row.evidence.map fun _ => row.durationMs

/-- `summary.p95Duration`. -/
def p95Duration (rows : List ResultRow) (testId : Bytes) : Int :=
  let durations := (recentDurations rows testId).mergeSort
  if durations = [] then 0
  else
    let index := ((Double.ofRatio false 95 100).mul (Double.ofInt durations.length)).toInt.toNat
    durations.getD (min (durations.length - 1) index) 0

theorem index_eq : ∀ n < 51,
    ((Double.ofRatio false 95 100).mul (Double.ofInt (n : Nat))).toInt.toNat = 19 * n / 20 := by
  decide +kernel

theorem places : ∀ n < 51, 0 < n →
    min (n - 1) (19 * n / 20) = 19 * n / 20 ∧ rank 19 20 n ≠ 0 ∧
      (¬20 ∣ n → min (rank 19 20 n - 1) (n - 1) = 19 * n / 20) ∧
        (20 ∣ n → min (rank 19 20 n - 1) (n - 1) = 19 * n / 20 - 1 ∧ 19 * n / 20 - 1 < n) := by
  decide +kernel

theorem evidence_of_result (result : TestResult) (seen : result.status ≠ .skipped) :
    (resultRow result).evidence = some result.status := by
  rw [ResultRow.evidence,resultRow,TestStatus.fromString_toString]
  simp [Option.filter,seen]

section

variable (stored : List TestResult) (testId : Bytes) (few : (stored.filter (·.testId = testId)).length ≤ 50)
  (seen : ∀ result ∈ stored.filter (·.testId = testId), result.status ≠ .skipped)
include few seen

theorem recentDurations_perm :
    (recentDurations (stored.map resultRow) testId).Perm ((stored.filter (·.testId = testId)).map (·.duration)) := by
  have rows : (stored.map resultRow).filter (·.testId = testId) = (stored.filter (·.testId = testId)).map resultRow :=
    List.filter_map
  have order : (newestFirst ((stored.filter (·.testId = testId)).map resultRow)).Perm
      ((stored.filter (·.testId = testId)).map resultRow) :=
    List.mergeSort_perm _ _
  have all : (newestFirst ((stored.filter (·.testId = testId)).map resultRow)).length ≤ 50 := by
    rw [order.length_eq,List.length_map]
    exact few
  rw [recentDurations,rows,List.take_of_length_le all]
  refine (order.filterMap _).trans (List.Perm.of_eq ?_)
  rw [List.filterMap_map,← List.filterMap_eq_map]
  apply List.filterMap_congr
  intro result member
  rw [Function.comp_apply,evidence_of_result result (seen result member)]
  rfl

theorem p95_eq_iff (wall : Int) : p95Duration (stored.map resultRow) testId =
      (computeExact (stored.filter (·.testId = testId)) wall).p95Duration ↔
    let durations := ((stored.filter (·.testId = testId)).map (·.duration)).mergeSort
    20 ∣ durations.length →
      durations[19 * durations.length / 20 - 1]? = durations[19 * durations.length / 20]? := by
  have perm := recentDurations_perm stored testId few seen
  have sorted : (recentDurations (stored.map resultRow) testId).mergeSort =
      ((stored.filter (·.testId = testId)).map (·.duration)).mergeSort :=
    ((List.mergeSort_perm _ _).trans (perm.trans (List.mergeSort_perm _ _).symm)).eq_of_pairwise'
      (List.pairwise_mergeSort' (· ≤ ·) _) (List.pairwise_mergeSort' (· ≤ ·) _)
  have length : (((stored.filter (·.testId = testId)).map (·.duration)).mergeSort).length ≤ 50 := by
    rw [List.length_mergeSort,List.length_map]
    exact few
  rw [p95Duration,sorted,computeExact]
  generalize stored.filter (·.testId = testId) = results at length ⊢
  by_cases empty : results = []
  · subst empty
    rw [if_pos rfl]
    simp [compute]
  have filled : (results.map (·.duration)).mergeSort ≠ [] := by
    intro none
    have zero := congrArg List.length none
    rw [List.length_mergeSort,List.length_map] at zero
    exact empty (List.length_eq_zero_iff.mp zero)
  rw [if_neg empty]
  dsimp only
  rw [percentileExact,if_neg filled,if_neg filled]
  generalize (results.map (·.duration)).mergeSort = durations at length filled ⊢
  have positive := List.length_pos_iff.mpr filled
  obtain ⟨place,nonzero,apart,multiple⟩ := places durations.length (by omega) positive
  dsimp only
  rw [index_eq _ (by omega),place,if_neg nonzero]
  by_cases divides : 20 ∣ durations.length
  · obtain ⟨before,inside⟩ := multiple divides
    have behind : 19 * durations.length / 20 < durations.length := by omega
    rw [before,List.getD_eq_getElem?_getD,List.getD_eq_getElem?_getD,List.getElem?_eq_getElem inside,
      List.getElem?_eq_getElem behind,Option.getD_some,Option.getD_some,Option.some.injEq]
    exact ⟨fun equal _ => equal.symm,fun equal => (equal divides).symm⟩
  · rw [apart divides]
    exact iff_of_true rfl fun multiple => absurd multiple divides

end

/-- One definition of p95 exactly when the two places hold one duration. -/
theorem p95_agree_iff (stored : List TestResult) (testId : Bytes) (wall : Int)
    (few : (stored.filter (·.testId = testId)).length ≤ 50)
    (seen : ∀ result ∈ stored.filter (·.testId = testId), result.status ≠ .skipped) :
    (p95Duration (stored.map resultRow) testId =
        (computeExact (stored.filter (·.testId = testId)) wall).p95Duration ↔
      let durations := ((stored.filter (·.testId = testId)).map (·.duration)).mergeSort
      20 ∣ durations.length →
        durations[19 * durations.length / 20 - 1]? = durations[19 * durations.length / 20]?) ∧
    computeExact (stored.filter (·.testId = testId)) wall = compute (stored.filter (·.testId = testId)) wall :=
  ⟨p95_eq_iff stored testId few seen wall,computeExact_eq _ _ (few.trans_lt (by decide))⟩

/-- Passed results of one test. -/
def lasting (durations : List Int) : List TestResult := durations.map fun duration => { status := .passed, duration }

theorem lasting_filter (durations : List Int) :
    (lasting durations).filter (·.testId = []) = lasting durations ∧
      (∀ result ∈ (lasting durations).filter (·.testId = []), result.status ≠ .skipped) ∧
        (lasting durations).map (·.duration) = durations := by
  have all : (lasting durations).filter (·.testId = []) = lasting durations := by
    apply List.filter_eq_self.mpr
    intro result member
    obtain ⟨duration,-,rfl⟩ := List.mem_map.mp member
    rfl
  refine ⟨all,?_,by simp [lasting,Function.comp_def]⟩
  rw [all]
  intro result member
  obtain ⟨duration,-,rfl⟩ := List.mem_map.mp member
  exact TestStatus.noConfusion

theorem p95_agree_three : p95Duration ((lasting [5,3,9]).map resultRow) [] =
      (computeExact ((lasting [5,3,9]).filter (·.testId = [])) 0).p95Duration ↔
    let durations := (((lasting [5,3,9]).filter (·.testId = [])).map (·.duration)).mergeSort
    20 ∣ durations.length →
      durations[19 * durations.length / 20 - 1]? = durations[19 * durations.length / 20]? :=
  (p95_agree_iff (lasting [5,3,9]) [] 0 (by rw [(lasting_filter _).1]; decide) (lasting_filter _).2.1).1

/-- Twenty durations: the run reports the nineteenth, the history the largest. -/
theorem twenty_differ : ¬∀ (stored : List TestResult) (testId : Bytes) (wall : Int),
    (stored.filter (·.testId = testId)).length ≤ 50 →
    (∀ result ∈ stored.filter (·.testId = testId), result.status ≠ .skipped) →
      p95Duration (stored.map resultRow) testId =
        (computeExact (stored.filter (·.testId = testId)) wall).p95Duration := by
  intro agree
  let rising : List Int := [1,2,3,4,5,6,7,8,9,10,11,12,13,14,15,16,17,18,19,20]
  obtain ⟨all,seen,durations⟩ := lasting_filter rising
  have few : ((lasting rising).filter (·.testId = [])).length ≤ 50 := by
    rw [all]
    decide
  have same := (p95_eq_iff (lasting rising) [] few seen 0).mp (agree (lasting rising) [] 0 few seen)
  have sorted : rising.mergeSort = rising := List.mergeSort_of_pairwise (by decide)
  rw [all,durations,sorted] at same
  exact absurd (same (by decide)) (by decide)

end TestForge.SqliteResultRepository
