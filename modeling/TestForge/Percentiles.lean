import TestForge.DoubleWhole
import TestForge.SampleStatistics
import TestForge.RunCounts
import Mathlib.Algebra.Order.BigOperators.Group.List
import Mathlib.Data.List.Perm.Basic

/-! The statistics of a run: what the numbers say about the results, and that the order in which
the results were completed does not show in them. -/
namespace TestForge

open NearestRank

/-- `percentile` with the fraction as a rational. -/
def percentileExact (sorted : List Int) (num den : Nat) : Int :=
  if sorted = [] then 0
  else
    let rank := rank num den sorted.length
    sorted.getD (if rank = 0 then 0 else min (rank - 1) (sorted.length - 1)) 0

/-- `percentile` sees the fraction in its rank only. -/
theorem percentile_eq (sorted : List Int) (fraction : Double) (num den : Nat)
    (ranks : sorted ≠ [] → (fraction.mul (Double.ofInt sorted.length)).ceil = rank num den sorted.length) :
    percentile sorted fraction = percentileExact sorted num den := by
  rw [percentile,percentileExact]
  split
  · rfl
  · next filled => rw [ranks filled]

theorem isPercentile_exact (sorted : List Int) (ordered : sorted.Pairwise (· ≤ ·)) (filled : sorted ≠ [])
    (num den : Nat) (positive : 0 < num) (proper : num ≤ den) :
    IsPercentile num den sorted (percentileExact sorted num den) := by
  have denominator : 0 < den := positive.trans_le proper
  have length := List.length_pos_iff.mpr filled
  have least := rank_pos num den sorted.length positive denominator length
  have most := rank_le num den sorted.length denominator proper
  have inside : rank num den sorted.length - 1 < sorted.length := by omega
  have place : min (rank num den sorted.length - 1) (sorted.length - 1) = rank num den sorted.length - 1 := by omega
  rw [percentileExact,if_neg filled]
  dsimp only
  rw [if_neg least.ne',place,List.getD_eq_getElem?_getD,List.getElem?_eq_getElem inside,Option.getD_some]
  exact isPercentile_get sorted ordered _ inside num den denominator (Nat.sub_add_cancel least)

/-! ### The ranks as doubles -/

namespace Double

/-- A product of a fraction with a whole number, rounded up. -/
theorem ceil_mul_natCast (fraction : Double) (plain : fraction.negative = false) (significand places n whole : Nat)
    (small : places ≤ 1074) (units : fraction.units = significand * 2^(1074 - places)) (positive : 0 < n)
    (bounded : n < 2^50) (low : 2^52 * 2^places ≤ significand * n * 2^1074)
    (high : significand * n * 2^1074 < 2^1126 * 2^places) (below : significand * n ≤ (whole + 1) * 2^places)
    (above : 2^53 * (whole * 2^places) + significand * n < 2^53 * (significand * n)) :
    (fraction.mul (ofInt n)).ceil = whole + 1 := by
  obtain ⟨sign,value⟩ := units_ofInt_natCast n positive bounded
  have unit : 0 < 2^1074 := pow_pos Nat.zero_lt_two _
  have product : fraction.mul (ofInt n) = ofRatio false (significand * n) (2^places) := by
    rw [mul,plain,sign,value,units]
    apply ofRatio_congr _ _ _ _ _ (Nat.mul_pos unit unit) (pow_pos Nat.zero_lt_two _)
    have power : 2^(1074 - places) * 2^places = 2^1074 := by rw [← pow_add,Nat.sub_add_cancel small]
    calc significand * 2^(1074 - places) * (n * 2^1074) * 2^places
        = significand * n * (2^1074 * (2^(1074 - places) * 2^places)) := by ring
      _ = significand * n * (2^1074 * 2^1074) := by rw [power]
  rw [product]
  exact ceil_ofRatio _ _ _ (pow_pos Nat.zero_lt_two _) low high below above

theorem ceil_half (n : Nat) (positive : 0 < n) (bounded : n < 2^40) :
    ((ofRatio false 1 2).mul (ofInt n)).ceil = rank 1 2 n := by
  obtain ⟨plain,units⟩ : (ofRatio false 1 2).negative = false ∧ (ofRatio false 1 2).units = 1 * 2^(1074 - 1) := by
    decide +kernel
  have least := rank_pos 1 2 n (by decide) (by decide) positive
  have upper := (rank_le_iff 1 2 n _ (by decide)).mp (Nat.le_refl _)
  have lower := (rank_le_iff 1 2 n (rank 1 2 n - 1) (by decide)).not.mp (by omega)
  obtain ⟨whole,rounded⟩ := Nat.exists_eq_add_of_le' least
  rw [rounded] at upper lower ⊢
  refine ceil_mul_natCast _ plain 1 1 n whole (by decide) units positive (by omega) ?_ ?_ (by omega) (by omega)
  · exact wide (by omega) (by decide)
  · exact narrow (by decide) (by omega)

/-- The double below 0.95 has 8 parts in 20 * 2^53 less. -/
theorem ceil_ninetyFive (n : Nat) (positive : 0 < n) (bounded : n < 2^40) :
    ((ofRatio false 95 100).mul (ofInt n)).ceil = rank 19 20 n := by
  obtain ⟨plain,units⟩ : (ofRatio false 95 100).negative = false ∧
      (ofRatio false 95 100).units = 8556839292003942 * 2^(1074 - 53) := by
    decide +kernel
  have least := rank_pos 19 20 n (by decide) (by decide) positive
  have upper := (rank_le_iff 19 20 n _ (by decide)).mp (Nat.le_refl _)
  have lower := (rank_le_iff 19 20 n (rank 19 20 n - 1) (by decide)).not.mp (by omega)
  obtain ⟨whole,rounded⟩ := Nat.exists_eq_add_of_le' least
  rw [rounded] at upper lower ⊢
  refine ceil_mul_natCast _ plain 8556839292003942 53 n whole (by decide) units positive (by omega) ?_ ?_ (by omega)
    (by omega)
  · calc 2^52 * 2^53 ≤ 1 * 2^1074 := by
          rw [← pow_add,Nat.one_mul]
          exact pow_le_pow_right₀ (by decide) (by decide)
      _ ≤ 8556839292003942 * n * 2^1074 := Nat.mul_le_mul_right _ (by omega)
  · have unit : 0 < 2^1074 := pow_pos Nat.zero_lt_two _
    calc 8556839292003942 * n * 2^1074 < 2^93 * 2^1074 := Nat.mul_lt_mul_of_pos_right (by omega) unit
      _ = 2^(93 + 1074) := (pow_add 2 93 1074).symm
      _ ≤ 2^(1126 + 53) := pow_le_pow_right₀ (by decide) (by decide)
      _ = 2^1126 * 2^53 := pow_add 2 1126 53

end Double

/-! ### The loop over the results -/

namespace RunStatistics

/-- `compute` with the fractions as rationals. -/
def computeExact (results : List TestResult) (wallDuration : Int) : RunStatistics :=
  let sorted := (results.map (·.duration)).mergeSort
  if results = [] then compute results wallDuration
  else
    { compute results wallDuration with
      medianDuration := percentileExact sorted 1 2
      p95Duration := percentileExact sorted 19 20 }

theorem computeExact_eq (results : List TestResult) (wall : Int) (short : results.length < 2^40) :
    computeExact results wall = compute results wall := by
  rw [computeExact]
  split
  · rfl
  · next filled =>
    have positive := List.length_pos_iff.mpr filled
    have length : ((results.map (·.duration)).mergeSort).length = results.length := by
      rw [List.length_mergeSort,List.length_map]
    have median := percentile_eq ((results.map (·.duration)).mergeSort) (Double.ofRatio false 1 2) 1 2 fun _ => by
      rw [length]
      exact Double.ceil_half _ positive short
    have p95 := percentile_eq ((results.map (·.duration)).mergeSort) (Double.ofRatio false 95 100) 19 20 fun _ => by
      rw [length]
      exact Double.ceil_ninetyFive _ positive short
    rw [← median,← p95,compute,if_neg filled]

/-- What `add` does to the durations, whatever else the result has. -/
theorem add_durations (stats : RunStatistics) (result : TestResult) :
    (stats.add result).totalDuration = stats.totalDuration + result.duration ∧
      (stats.add result).maxDuration = max stats.maxDuration result.duration ∧
        (stats.add result).wallDuration = stats.wallDuration := by
  have counted : ((stats.countStatus result.status).countCategory result.failureCategory).totalDuration =
        stats.totalDuration ∧
      ((stats.countStatus result.status).countCategory result.failureCategory).maxDuration = stats.maxDuration ∧
      ((stats.countStatus result.status).countCategory result.failureCategory).wallDuration = stats.wallDuration := by
    unfold countCategory
    split <;> cases result.status <;> exact ⟨rfl,rfl,rfl⟩
  obtain ⟨total,most,wall⟩ := counted
  rw [add]
  split
  · next longer =>
    simp only [total,most,wall] at longer ⊢
    exact ⟨trivial,by omega,trivial⟩
  · next shorter =>
    simp only [total,most,wall] at shorter ⊢
    exact ⟨trivial,by omega,trivial⟩

theorem foldl_add_durations (results : List TestResult) (stats : RunStatistics) :
    (results.foldl add stats).totalDuration = stats.totalDuration + (results.map (·.duration)).sum ∧
      (results.foldl add stats).maxDuration = (results.map (·.duration)).foldl max stats.maxDuration ∧
        (results.foldl add stats).wallDuration = stats.wallDuration := by
  induction results generalizing stats with
  | nil => simp
  | cons result rest ih =>
    obtain ⟨total,most,wall⟩ := ih (stats.add result)
    obtain ⟨total',most',wall'⟩ := add_durations stats result
    rw [total',Int.add_assoc,← List.sum_cons] at total
    rw [most',← List.foldl_cons] at most
    exact ⟨total,most,wall.trans wall'⟩

section

variable (results : List TestResult) (wall : Int)

theorem computeExact_counts : SameCounts (computeExact results wall) (compute results wall) := by
  rw [computeExact]
  split <;> exact ⟨rfl,rfl,rfl,rfl,rfl,rfl,rfl⟩

theorem computeExact_durations :
    (computeExact results wall).totalDuration = (results.map (·.duration)).sum ∧
      (computeExact results wall).maxDuration = (results.map (·.duration)).foldl max 0 ∧
        (computeExact results wall).wallDuration = wall ∧
          (computeExact results wall).averageDuration = Int.tdiv (results.map (·.duration)).sum results.length := by
  obtain ⟨total,most,time⟩ := foldl_add_durations results { wallDuration := wall, total := results.length }
  rw [Int.zero_add] at total
  by_cases empty : results = []
  · subst empty
    exact ⟨rfl,rfl,rfl,rfl⟩
  · rw [computeExact,if_neg empty,compute,if_neg empty]
    refine ⟨total,most,time,?_⟩
    rw [← total]

/-- The sorted durations, with what the list of them says. -/
theorem sorted_durations : ((results.map (·.duration)).mergeSort).Pairwise (· ≤ ·) ∧
    ((results.map (·.duration)).mergeSort).Perm (results.map (·.duration)) :=
  ⟨List.pairwise_mergeSort' (· ≤ ·) _,List.mergeSort_perm _ _⟩

theorem isPercentile_durations (filled : results ≠ []) (num den : Nat) (positive : 0 < num) (proper : num ≤ den) :
    IsPercentile num den (results.map (·.duration))
      (percentileExact ((results.map (·.duration)).mergeSort) num den) := by
  obtain ⟨ordered,perm⟩ := sorted_durations results
  have listed : (results.map (·.duration)).mergeSort ≠ [] := by
    intro empty
    rw [empty] at perm
    exact filled (List.map_eq_nil_iff.mp perm.symm.eq_nil)
  exact (isPercentile_exact _ ordered listed num den positive proper).perm perm

end

/-- What the numbers of a run have to say about its results. -/
structure Accounts (results : List TestResult) (stats : RunStatistics) : Prop where
  size : stats.total = results.length
  total : stats.total = stats.passed + stats.failed + stats.skipped + stats.errors + stats.timeouts
  categories : (FailureCategory.allFailureCategories.map stats.failureCategoryCounts).sum =
    results.countP (·.failureCategory ≠ .none)
  minimum : ∀ least, (results.map (·.duration)).min? = some least → least ≤ stats.medianDuration
  order : stats.medianDuration ≤ stats.p95Duration ∧ stats.p95Duration ≤ stats.maxDuration
  maximum : ∀ most, (results.map (·.duration)).max? = some most → stats.maxDuration = most
  median : results ≠ [] → IsPercentile 1 2 (results.map (·.duration)) stats.medianDuration
  p95 : results ≠ [] → IsPercentile 19 20 (results.map (·.duration)) stats.p95Duration
  /-- The sum of the durations stays in 64 bits all along the loop. -/
  sums : ∀ front, front <+: results →
    0 ≤ (front.foldl add {}).totalDuration ∧ (front.foldl add {}).totalDuration < 2^63

/-- Everything but the name of the slowest test. -/
def numbers (stats : RunStatistics) : RunStatistics := { stats with slowestTest := [] }

theorem sum_categories (results : List TestResult) :
    (FailureCategory.allFailureCategories.map fun category =>
      results.countP fun result => result.failureCategory = category ∧ category ≠ .none).sum =
        results.countP (·.failureCategory ≠ .none) := by
  induction results with
  | nil => rfl
  | cons result rest ih =>
    rw [List.countP_cons,← ih]
    simp only [FailureCategory.allFailureCategories,List.map_cons,List.map_nil,List.sum_cons,List.sum_nil,
      List.countP_cons]
    cases result.failureCategory <;> simp <;> omega

theorem sum_statuses (results : List TestResult) : results.length =
    results.countP (·.status = .passed) + results.countP (·.status = .failed) +
      results.countP (·.status = .skipped) + results.countP (·.status = .error) +
        results.countP (·.status = .timeout) := by
  induction results with
  | nil => rfl
  | cons result rest ih =>
    simp only [List.length_cons,List.countP_cons]
    rw [ih]
    cases result.status <;> simp <;> omega

theorem sum_front (front rest : List TestResult) (nonnegative : ∀ result ∈ front ++ rest, 0 ≤ result.duration)
    (fits : ((front ++ rest).map (·.duration)).sum < 2^63) :
    0 ≤ (front.foldl add {}).totalDuration ∧ (front.foldl add {}).totalDuration < 2^63 := by
  have positive : ∀ part : List TestResult, (∀ result ∈ part, 0 ≤ result.duration) →
      0 ≤ (part.map (·.duration)).sum := by
    intro part durations
    apply List.sum_nonneg
    intro duration member
    obtain ⟨result,listed,rfl⟩ := List.mem_map.mp member
    exact durations result listed
  have before := positive front fun result member => nonnegative result (List.mem_append_left _ member)
  have behind := positive rest fun result member => nonnegative result (List.mem_append_right _ member)
  rw [List.map_append,List.sum_append] at fits
  rw [(foldl_add_durations front {}).1,Int.zero_add]
  exact ⟨before,by omega⟩

theorem le_foldl_max (durations : List Int) (start : Int) :
    start ≤ durations.foldl max start ∧ ∀ duration ∈ durations, duration ≤ durations.foldl max start := by
  induction durations generalizing start with
  | nil => simp
  | cons duration rest ih =>
    obtain ⟨least,all⟩ := ih (max start duration)
    rw [List.foldl_cons]
    refine ⟨(le_max_left _ _).trans least,?_⟩
    intro other member
    rcases List.mem_cons.mp member with rfl | later
    · exact (le_max_right _ _).trans least
    · exact all other later

theorem foldl_max_max? (durations : List Int) (nonnegative : ∀ duration ∈ durations, 0 ≤ duration) (most : Int)
    (largest : durations.max? = some most) : durations.foldl max 0 = most := by
  cases durations with
  | nil => cases largest
  | cons duration rest =>
    rw [List.max?_cons',Option.some.injEq] at largest
    rw [List.foldl_cons,max_eq_right (nonnegative duration (by simp)),largest]

section

variable (results : List TestResult) (wall : Int) (nonnegative : ∀ result ∈ results, 0 ≤ result.duration)
  (fits : (results.map (·.duration)).sum < 2^63)
include nonnegative fits

theorem accounts_exact : Accounts results (computeExact results wall) := by
  have counts := computeExact_counts results wall
  obtain ⟨-,most,-⟩ := computeExact_durations results wall
  have percentiles : results ≠ [] →
      IsPercentile 1 2 (results.map (·.duration)) (computeExact results wall).medianDuration ∧
        IsPercentile 19 20 (results.map (·.duration)) (computeExact results wall).p95Duration := by
    intro filled
    rw [computeExact,if_neg filled]
    exact ⟨isPercentile_durations results filled 1 2 (by decide) (by decide),
      isPercentile_durations results filled 19 20 (by decide) (by decide)⟩
  have durations : ∀ duration ∈ results.map (·.duration), 0 ≤ duration := by
    intro duration member
    obtain ⟨result,listed,rfl⟩ := List.mem_map.mp member
    exact nonnegative result listed
  constructor
  case size => rw [counts.total,compute_total]
  case total =>
    have count := compute_count results wall
    rw [counts.total,counts.passed,counts.failed,counts.skipped,counts.errors,counts.timeouts,compute_total,
      sum_statuses results]
    exact congrArg₂ _ (congrArg₂ _ (congrArg₂ _ (congrArg₂ _ (count .passed).symm (count .failed).symm)
      (count .skipped).symm) (count .error).symm) (count .timeout).symm
  case categories =>
    rw [counts.failureCategoryCounts,← sum_categories results]
    exact congrArg List.sum (List.map_congr_left fun category _ => compute_category results wall category)
  case minimum =>
    intro least smallest
    have filled : results ≠ [] := by
      rintro rfl
      cases smallest
    exact (List.min?_eq_some_iff.mp smallest).2 _ (percentiles filled).1.observed
  case order =>
    by_cases empty : results = []
    · subst empty
      exact ⟨le_refl _,le_refl _⟩
    obtain ⟨median,p95⟩ := percentiles empty
    constructor
    · apply median.least _ p95.observed
      have enough := p95.enough
      have all := List.countP_le_length (p := fun d => decide (d ≤ (computeExact results wall).p95Duration))
        (l := results.map (·.duration))
      omega
    · rw [most]
      exact (le_foldl_max _ 0).2 _ p95.observed
  case maximum =>
    intro largest greatest
    rw [most]
    exact foldl_max_max? _ durations largest greatest
  case median => exact fun filled => (percentiles filled).1
  case p95 => exact fun filled => (percentiles filled).2
  case sums =>
    rintro front ⟨rest,rfl⟩
    exact sum_front front rest nonnegative fits

end

theorem numbers_eq {a b : RunStatistics} (counts : SameCounts a b) (sum : a.totalDuration = b.totalDuration)
    (wall : a.wallDuration = b.wallDuration) (average : a.averageDuration = b.averageDuration)
    (median : a.medianDuration = b.medianDuration) (p95 : a.p95Duration = b.p95Duration)
    (most : a.maxDuration = b.maxDuration) : a.numbers = b.numbers := by
  obtain ⟨total,passed,failed,skipped,errors,timeouts,categories⟩ := counts
  simp only [numbers,total,passed,failed,skipped,errors,timeouts,categories,sum,wall,average,median,p95,most]

/-- The order in which results were completed does not show in the numbers. -/
theorem numbers_perm (a b : List TestResult) (wall : Int) (perm : a.Perm b) :
    (computeExact a wall).numbers = (computeExact b wall).numbers := by
  have durations := perm.map (·.duration)
  have sorted : (a.map (·.duration)).mergeSort = (b.map (·.duration)).mergeSort :=
    ((sorted_durations a).2.trans (durations.trans (sorted_durations b).2.symm)).eq_of_pairwise'
      (sorted_durations a).1 (sorted_durations b).1
  have counts := compute_sameCounts a b wall wall (perm.map TestResult.verdict)
  obtain ⟨sum,most,time,average⟩ := computeExact_durations a wall
  obtain ⟨sum',most',time',average'⟩ := computeExact_durations b wall
  by_cases empty : a = []
  · subst empty
    rw [perm.nil_eq]
  have filled : b ≠ [] := by
    rintro rfl
    exact empty perm.eq_nil
  have counts : SameCounts (computeExact a wall) (computeExact b wall) := by
    rw [computeExact,computeExact,if_neg empty,if_neg filled]
    exact ⟨counts.total,counts.passed,counts.failed,counts.skipped,counts.errors,counts.timeouts,
      counts.failureCategoryCounts⟩
  apply numbers_eq counts
  case sum => rw [sum,sum',durations.sum_eq]
  case wall => rw [time,time']
  case average => rw [average,average',durations.sum_eq,perm.length_eq]
  case median => rw [computeExact,computeExact,if_neg empty,if_neg filled,sorted]
  case p95 => rw [computeExact,computeExact,if_neg empty,if_neg filled,sorted]
  case most =>
    rw [most,most']
    exact durations.foldl_eq _

/-- The statistics say what they should and do not depend on the order of the results. -/
theorem compute_statistics (results : List TestResult) (wall : Int)
    (nonnegative : ∀ result ∈ results, 0 ≤ result.duration) (fits : (results.map (·.duration)).sum < 2^63) :
    (Accounts results (computeExact results wall) ∧
      ∀ others, results.Perm others → (computeExact others wall).numbers = (computeExact results wall).numbers) ∧
    (results.length < 2^40 → Accounts results (compute results wall) ∧
      ∀ others, results.Perm others → (compute others wall).numbers = (compute results wall).numbers) := by
  have exact := accounts_exact results wall nonnegative fits
  have order := fun others perm => (numbers_perm results others wall perm).symm
  refine ⟨⟨exact,order⟩,fun short => ?_⟩
  have same := computeExact_eq results wall short
  rw [← same]
  refine ⟨exact,fun others perm => ?_⟩
  rw [← computeExact_eq others wall (perm.length_eq ▸ short)]
  exact order others perm

theorem compute_statistics_two :
    Accounts [{ status := .passed, duration := 7 },{ status := .failed, duration := 3 }]
      (compute [{ status := .passed, duration := 7 },{ status := .failed, duration := 3 }] 10) :=
  ((compute_statistics [{ status := .passed, duration := 7 },{ status := .failed, duration := 3 }] 10
    (by decide) (by decide)).2 (by decide)).1

end RunStatistics
end TestForge
