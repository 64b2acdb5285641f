import TestForge.TestResult

/-! What the statistics and the exit code of a run depend on. -/
namespace TestForge

/-- What counts of a result. -/
def TestResult.verdict (result : TestResult) : TestStatus × FailureCategory := (result.status,result.failureCategory)

namespace RunStatistics

def count (stats : RunStatistics) : TestStatus → Nat
  | .passed => stats.passed
  | .failed => stats.failed
  | .skipped => stats.skipped
  | .error => stats.errors
  | .timeout => stats.timeouts

/-- The numbers that do not measure time. -/
structure SameCounts (a b : RunStatistics) : Prop where
  total : a.total = b.total
  passed : a.passed = b.passed
  failed : a.failed = b.failed
  skipped : a.skipped = b.skipped
  errors : a.errors = b.errors
  timeouts : a.timeouts = b.timeouts
  failureCategoryCounts : a.failureCategoryCounts = b.failureCategoryCounts

theorem add_counts (stats : RunStatistics) (result : TestResult) :
    (stats.add result).total = stats.total ∧
    (∀ status, (stats.add result).count status =
      stats.count status + if result.status = status then 1 else 0) ∧
    ∀ category, (stats.add result).failureCategoryCounts category = stats.failureCategoryCounts category +
      if result.failureCategory = category ∧ category ≠ .none then 1 else 0 := by
  have timeless : ∃ duration longest slowest, stats.add result =
      { (stats.countStatus result.status).countCategory result.failureCategory with
        totalDuration := duration, maxDuration := longest, slowestTest := slowest } := by
    rw [add]
    split <;> exact ⟨_,_,_,rfl⟩
  obtain ⟨duration,longest,slowest,same⟩ := timeless
  rw [same]
  refine ⟨?_,fun status => ?_,fun category => ?_⟩
  · unfold countCategory
    split <;> cases result.status <;> rfl
  · unfold countCategory
    split <;> cases result.status <;> cases status <;> rfl
  · have kept : (stats.countStatus result.status).failureCategoryCounts = stats.failureCategoryCounts := by
      cases result.status <;> rfl
    unfold countCategory
    split
    · next none =>
      have never : ¬(result.failureCategory = category ∧ category ≠ .none) := by
        rintro ⟨equal,other⟩
        exact other (equal ▸ none)
      simp [kept,never]
    · next known =>
      have either : (category = result.failureCategory) ↔
          result.failureCategory = category ∧ category ≠ .none :=
        ⟨fun equal => ⟨equal.symm,equal ▸ known⟩,fun both => both.1.symm⟩
      simp [kept,either]

theorem SameCounts.count {a b : RunStatistics} (same : SameCounts a b) (status : TestStatus) :
    a.count status = b.count status := by
  cases status with
  | passed => exact same.passed
  | failed => exact same.failed
  | skipped => exact same.skipped
  | error => exact same.errors
  | timeout => exact same.timeouts

theorem foldl_add_counts (results : List TestResult) (stats : RunStatistics) :
    (results.foldl add stats).total = stats.total ∧
    (∀ status, (results.foldl add stats).count status =
      stats.count status + results.countP fun result => result.status = status) ∧
    ∀ category, (results.foldl add stats).failureCategoryCounts category = stats.failureCategoryCounts category +
      results.countP fun result => result.failureCategory = category ∧ category ≠ .none := by
  induction results generalizing stats with
  | nil => simp
  | cons result rest ih =>
    obtain ⟨total,counts,categories⟩ := ih (stats.add result)
    obtain ⟨total',counts',categories'⟩ := add_counts stats result
    rw [List.foldl_cons]
    refine ⟨total.trans total',fun status => ?_,fun category => ?_⟩
    · rw [counts,counts',List.countP_cons]
      simp only [decide_eq_true_eq]
      omega
    · rw [categories,categories',List.countP_cons]
      simp only [decide_eq_true_eq]
      omega

theorem compute_total (results : List TestResult) (wall : Int) : (compute results wall).total = results.length := by
  have folded := (foldl_add_counts results { wallDuration := wall, total := results.length }).1
  unfold compute
  split <;> exact folded

theorem compute_count (results : List TestResult) (wall : Int) (status : TestStatus) :
    (compute results wall).count status = results.countP fun result => result.status = status := by
  have folded := (foldl_add_counts results { wallDuration := wall, total := results.length }).2.1 status
  have zero : ({ wallDuration := wall, total := results.length } : RunStatistics).count status = 0 := by
    cases status <;> rfl
  rw [zero,Nat.zero_add] at folded
  rw [← folded]
  unfold compute
  split <;> cases status <;> rfl

theorem compute_category (results : List TestResult) (wall : Int) (category : FailureCategory) :
    (compute results wall).failureCategoryCounts category =
      results.countP fun result => result.failureCategory = category ∧ category ≠ .none := by
  have folded := (foldl_add_counts results { wallDuration := wall, total := results.length }).2.2 category
  rw [Nat.zero_add] at folded
  rw [← folded]
  unfold compute
  split <;> rfl

theorem compute_sameCounts (a b : List TestResult) (wall wall' : Int)
    (perm : (a.map TestResult.verdict).Perm (b.map TestResult.verdict)) : SameCounts (compute a wall) (compute b wall') := by
  have count : ∀ status, (compute a wall).count status = (compute b wall').count status := by
    intro status
    rw [compute_count,compute_count]
    have pairs := perm.countP_eq fun pair => decide (pair.1 = status)
    rw [List.countP_map,List.countP_map] at pairs
    exact pairs
  have category : ∀ category, (compute a wall).failureCategoryCounts category =
      (compute b wall').failureCategoryCounts category := by
    intro category
    rw [compute_category,compute_category]
    have pairs := perm.countP_eq fun pair => decide (pair.2 = category ∧ category ≠ .none)
    rw [List.countP_map,List.countP_map] at pairs
    exact pairs
  have total : (compute a wall).total = (compute b wall').total := by
    rw [compute_total,compute_total]
    simpa using perm.length_eq
  exact ⟨total,count .passed,count .failed,count .skipped,count .error,count .timeout,funext category⟩

end RunStatistics

namespace TestRun

/-- The same exit code, and statistics with the same counts. -/
structure SameStory (a b : TestRun) : Prop where
  exitCode : a.exitCode = b.exitCode
  counts : RunStatistics.SameCounts a.statistics b.statistics

/-- What makes an exit code 1 or 2. -/
def Spoiling (result : TestResult) : Prop :=
  result.status.isFailure = true ∨ result.failureCategory = .frameworkError

theorem exitCode_unspoiled (run : TestRun) (calm : ∀ result ∈ run.results, ¬Spoiling result) :
    run.exitCode = if run.cancellationReason = [] then 0 else 4 := by
  have framework : run.results.any (·.failureCategory == .frameworkError) = false := by
    rw [List.any_eq_false]
    intro result listed
    simpa using fun category => calm result listed (.inr category)
  have failing : run.results.any (·.status.isFailure) = false := by
    rw [List.any_eq_false]
    exact fun result listed failed => calm result listed (.inl failed)
  by_cases reason : run.cancellationReason = []
  · simp [exitCode,framework,failing,wasCancelled,reason]
  · simp [exitCode,framework,failing,wasCancelled,reason]

/-- The exit code of a spoiled run does not depend on a cancellation. -/
theorem exitCode_spoiled (a b : TestRun)
    (perm : (a.results.map TestResult.verdict).Perm (b.results.map TestResult.verdict))
    (spoiled : ∃ result ∈ a.results, Spoiling result) : a.exitCode = b.exitCode := by
  have framework : a.results.any (·.failureCategory == .frameworkError) =
      b.results.any (·.failureCategory == .frameworkError) := by
    have pairs := perm.any_eq (f := fun pair => pair.2 == .frameworkError)
    rw [List.any_map,List.any_map] at pairs
    exact pairs
  have failing : a.results.any (·.status.isFailure) = b.results.any (·.status.isFailure) := by
    have pairs := perm.any_eq (f := fun pair => pair.1.isFailure)
    rw [List.any_map,List.any_map] at pairs
    exact pairs
  have either : a.results.any (·.failureCategory == .frameworkError) = true ∨
      a.results.any (·.status.isFailure) = true := by
    obtain ⟨result,listed,failed | category⟩ := spoiled
    · exact .inr (List.any_eq_true.mpr ⟨result,listed,failed⟩)
    · exact .inl (List.any_eq_true.mpr ⟨result,listed,by simpa using category⟩)
  rw [exitCode,exitCode,← framework,← failing]
  split
  · rfl
  · next calm => rw [either.resolve_left calm]; rfl

theorem unspoiled_of_perm {a b : List TestResult}
    (perm : (b.map TestResult.verdict).Perm (a.map TestResult.verdict)) (calm : ∀ result ∈ a, ¬Spoiling result) :
    ∀ result ∈ b, ¬Spoiling result := by
  intro result listed bad
  obtain ⟨other,member,verdict⟩ := List.mem_map.mp (perm.mem_iff.mp (List.mem_map_of_mem listed))
  simp only [TestResult.verdict,Prod.mk.injEq] at verdict
  apply calm other member
  rwa [Spoiling,verdict.1,verdict.2]

/-- A copy with the same verdicts that does not know of a cancellation tells the same
unless that is all that happened. -/
theorem sameStory_unmarked_iff (run copy : TestRun) (unmarked : copy.cancellationReason = [])
    (perm : (copy.results.map TestResult.verdict).Perm (run.results.map TestResult.verdict)) :
    SameStory run copy ↔ run.cancellationReason = [] ∨ ∃ result ∈ run.results, Spoiling result := by
  by_cases spoiled : ∃ result ∈ run.results, Spoiling result
  · have same : SameStory run copy :=
      ⟨exitCode_spoiled run copy perm.symm spoiled,RunStatistics.compute_sameCounts _ _ _ _ perm.symm⟩
    exact iff_of_true same (.inr spoiled)
  · have calm : ∀ result ∈ run.results, ¬Spoiling result := fun result listed bad => spoiled ⟨result,listed,bad⟩
    have live := exitCode_unspoiled run calm
    have copied := exitCode_unspoiled copy (unspoiled_of_perm perm calm)
    rw [if_pos unmarked] at copied
    constructor
    · intro same
      by_contra neither
      rw [same.exitCode,copied,if_neg (not_or.mp neither).1] at live
      cases live
    · intro either
      rw [if_pos (either.resolve_right spoiled)] at live
      exact ⟨live.trans copied.symm,RunStatistics.compute_sameCounts _ _ _ _ perm.symm⟩

end TestRun
end TestForge
