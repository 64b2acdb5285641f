import TestForge.DoubleOrder
import TestForge.SampleStatistics
import TestForge.ResultStore
import Mathlib.Data.List.Dedup

/-! The histories of tests and the rule that names flaky candidates. Its counts are taken from all
rows of a test, its flip rate from those of the last fifty rows that are no skips. -/
namespace TestForge

open Sequence Strings

/-- Without the durations. -/
structure TestHistorySummary where
  testId : Bytes
  qualifiedName : Bytes
  totalRuns : Int := 0
  passes : Int := 0
  failures : Int := 0
  skips : Int := 0
  lastRun : TimePoint
  lastStatus : TestStatus := .error
  flipRate : Double := Double.ofInt 0

def TestHistorySummary.looksFlaky (summary : TestHistorySummary) (minimumRuns : Int := 5)
    (threshold : Double := Double.ofRatio false 1 5) : Bool :=
  summary.totalRuns ≥ minimumRuns && summary.passes > 0 && summary.failures > 0 && summary.flipRate.ge threshold

namespace SqliteResultRepository

open Clock

/-- `ORDER BY start_time_ms DESC`; the index on it leaves rows of one time in their order. -/
def newestFirst (rows : List ResultRow) : List ResultRow := rows.mergeSort fun a b => b.startTimeMs ≤ a.startTimeMs

/-- The status of a row; skips are not evidence either way. -/
def ResultRow.evidence (row : ResultRow) : Option TestStatus :=
  (TestStatus.fromString row.status).filter (· ≠ .skipped)

/-- What `GROUP BY test_id, qualified_name` puts together. -/
def groupOf (rows : List ResultRow) (key : Bytes × Bytes) : List ResultRow :=
  rows.filter fun row => row.testId = key.1 ∧ row.qualifiedName = key.2

def historyKeys (rows : List ResultRow) : List (Bytes × Bytes) :=
  (rows.map fun row => (row.testId,row.qualifiedName)).dedup

def lastMs (group : List ResultRow) : Int := ((group.map (·.startTimeMs)).max?).getD 0

/-- The second query, by the id alone. -/
def recentStatuses (rows : List ResultRow) (testId : Bytes) : List TestStatus :=
  ((newestFirst (rows.filter (·.testId = testId))).take 50).filterMap (·.evidence)

def passSequence (statuses : List TestStatus) : List Bool := statuses.map (· == .passed)

def flipRate (passSequence : List Bool) : Double :=
  if 2 ≤ passSequence.length then
    (Double.ofInt (flips passSequence)).div (Double.ofInt (passSequence.length - 1 : Nat))
  else Double.ofInt 0

def summarise (rows : List ResultRow) (key : Bytes × Bytes) : TestHistorySummary :=
  let group := groupOf rows key
  let statuses := recentStatuses rows key.1
  { testId := key.1
    qualifiedName := key.2
    totalRuns := toInt32 group.length
    passes := toInt32 (group.countP (·.status = ascii "PASSED"))
    failures := toInt32 (group.countP (·.status ∈ [ascii "FAILED",ascii "ERROR",ascii "TIMEOUT"]))
    skips := toInt32 (group.countP (·.status = ascii "SKIPPED"))
    lastRun := fromEpochMillis (lastMs group)
    lastStatus := statuses.head?.getD .error
    flipRate := flipRate (passSequence statuses) }

def historySummaries (rows : List ResultRow) (limit : Int) : List TestHistorySummary :=
  let newest := (historyKeys rows).mergeSort fun a b => lastMs (groupOf rows b) ≤ lastMs (groupOf rows a)
  (newest.take (max 1 limit).toNat).map (summarise rows)

/-! ### The rule -/

/-- The outcomes of the 50 most recent results of a test that are no skips. -/
def documentedWindow (rows : List ResultRow) (key : Bytes × Bytes) : List Bool :=
  passSequence (((newestFirst (groupOf rows key)).filterMap (·.evidence)).take 50)

/-- The rule as the documentation has it. -/
structure FlakyAsDocumented (rows : List ResultRow) (key : Bytes × Bytes) : Prop where
  runs : 5 ≤ (documentedWindow rows key).length
  passed : true ∈ documentedWindow rows key
  failed : false ∈ documentedWindow rows key
  changed : (documentedWindow rows key).length - 1 ≤ 5 * flips (documentedWindow rows key)

theorem documented_iff (rows : List ResultRow) (key : Bytes × Bytes) :
    FlakyAsDocumented rows key ↔ 5 ≤ (documentedWindow rows key).length ∧ Changing (documentedWindow rows key) := by
  constructor
  · rintro ⟨runs,-,-,changed⟩
    exact ⟨runs,by omega,changed⟩
  · rintro ⟨runs,changing⟩
    exact ⟨runs,changing.mixed.1,changing.mixed.2,changing.2⟩

theorem units_ofInt : ∀ n < 50,
    (Double.ofInt (n : Nat)).negative = false ∧ (Double.ofInt (n : Nat)).units = n * 2^1074 := by
  decide +kernel

theorem zero_below : (Double.ofInt 0).ge (Double.ofRatio false 1 5) = false := by
  decide +kernel

/-- The quotient is rounded, and the threshold with it. -/
theorem rate_ge (pairs changes : Nat) (few : pairs < 50) (fewer : changes < 50) (positive : 0 < pairs) :
    ((Double.ofInt changes).div (Double.ofInt pairs)).ge (Double.ofRatio false 1 5) = true ↔ pairs ≤ 5 * changes := by
  obtain ⟨sign,units⟩ := units_ofInt changes fewer
  obtain ⟨sign',units'⟩ := units_ofInt pairs few
  have quotient : (Double.ofInt changes).div (Double.ofInt pairs) = Double.ofRatio false changes pairs := by
    rw [Double.div,sign,sign',units,units',Nat.mul_comm changes,Nat.mul_comm pairs]
    exact Double.ofRatio_scale false _ changes pairs (pow_pos Nat.zero_lt_two _)
  rw [quotient]
  rcases Nat.eq_zero_or_pos changes with rfl | changed
  · have nought : Double.ofRatio false 0 pairs = Double.ofInt 0 :=
      Double.ofRatio_congr false 0 pairs 0 1 positive Nat.one_pos (by rw [Nat.zero_mul,Nat.zero_mul])
    rw [nought,zero_below]
    exact iff_of_false Bool.false_ne_true (Nat.not_le.mpr positive)
  · rw [Double.ofRatio_ge_iff changes pairs 1 5 ⟨changed,positive⟩ ⟨by decide,by decide⟩ (by omega) (by omega)]
    omega

theorem flipRate_ge (outcomes : List Bool) (short : outcomes.length ≤ 50) :
    (flipRate outcomes).ge (Double.ofRatio false 1 5) = true ↔ Changing outcomes := by
  unfold flipRate
  by_cases several : 2 ≤ outcomes.length
  · have bounded := flips_le outcomes
    rw [if_pos several,rate_ge _ _ (by omega) (by omega) (by omega),Changing,and_iff_right several]
  · rw [if_neg several]
    rw [zero_below]
    exact iff_of_false Bool.false_ne_true fun changing => several changing.1

/-! ### When the two agree -/

/-- The outcomes that the flip rate is taken of. -/
def usedWindow (rows : List ResultRow) (key : Bytes × Bytes) : List Bool := passSequence (recentStatuses rows key.1)

/-- No other test has the id, and the counts fit into an `int`. -/
def Ordinary (rows : List ResultRow) (key : Bytes × Bytes) : Prop :=
  (∀ row ∈ rows, row.testId = key.1 → row.qualifiedName = key.2) ∧ (groupOf rows key).length < 2^31

/-- The counts as they come out of the cast. -/
def Counted (rows : List ResultRow) (key : Bytes × Bytes) : Prop :=
  5 ≤ toInt32 (groupOf rows key).length ∧ 0 < toInt32 ((groupOf rows key).countP (·.status = ascii "PASSED")) ∧
    0 < toInt32 ((groupOf rows key).countP (·.status ∈ [ascii "FAILED",ascii "ERROR",ascii "TIMEOUT"]))

/-- No skip pushes a result that matters out of the last fifty rows: there is none among them, there are only
skips behind them, or the documented window is all passes or has none. -/
def Clear (rows : List ResultRow) (key : Bytes × Bytes) : Prop :=
  (∀ row ∈ (newestFirst (groupOf rows key)).take 50, row.evidence ≠ none) ∨
    (∀ row ∈ (newestFirst (groupOf rows key)).drop 50, row.evidence = none) ∨
    true ∉ documentedWindow rows key ∨ false ∉ documentedWindow rows key

/-- Skips make up the five runs around a pass and a failure. -/
structure Thin (rows : List ResultRow) (key : Bytes × Bytes) : Prop where
  runs : 5 ≤ (groupOf rows key).length
  few : (documentedWindow rows key).length < 5
  passed : true ∈ documentedWindow rows key
  failed : false ∈ documentedWindow rows key

theorem usedWindow_length (rows : List ResultRow) (key : Bytes × Bytes) : (usedWindow rows key).length ≤ 50 := by
  rw [usedWindow,passSequence,List.length_map,recentStatuses]
  exact (List.length_filterMap_le _ _).trans (List.length_take_le _ _)

theorem looksFlaky_iff (rows : List ResultRow) (key : Bytes × Bytes) :
    (summarise rows key).looksFlaky = true ↔ Counted rows key ∧ Changing (usedWindow rows key) := by
  have rate : (summarise rows key).flipRate.ge (Double.ofRatio false 1 5) = true ↔ Changing (usedWindow rows key) :=
    flipRate_ge (usedWindow rows key) (usedWindow_length rows key)
  rw [TestHistorySummary.looksFlaky,Bool.and_eq_true,Bool.and_eq_true,Bool.and_eq_true,rate,decide_eq_true_eq,
    decide_eq_true_eq,decide_eq_true_eq]
  simp only [summarise,Counted,ge_iff_le,gt_iff_lt,and_assoc]

theorem usedWindow_ordinary (rows : List ResultRow) (key : Bytes × Bytes) (ordinary : Ordinary rows key) :
    usedWindow rows key = passSequence (((newestFirst (groupOf rows key)).take 50).filterMap (·.evidence)) := by
  have same : rows.filter (·.testId = key.1) = groupOf rows key := by
    apply List.filter_congr
    intro row member
    simp only [decide_eq_decide]
    exact ⟨fun id => ⟨id,ordinary.1 row member id⟩,And.left⟩
  rw [usedWindow,recentStatuses,same]

/-- The results used are the newest of those that the documentation means. -/
theorem usedWindow_newest (rows : List ResultRow) (key : Bytes × Bytes) (ordinary : Ordinary rows key) :
    usedWindow rows key <+: documentedWindow rows key := by
  rw [usedWindow_ordinary rows key ordinary,documentedWindow]
  apply List.IsPrefix.map
  rw [List.prefix_take_iff]
  refine ⟨(List.take_prefix _ _).filterMap _,?_⟩
  exact (List.length_filterMap_le _ _).trans (List.length_take_le _ _)

theorem take_filterMap {α β : Type} (f : α → Option β) (n : Nat) (items : List α)
    (clear : (∀ item ∈ items.take n, f item ≠ none) ∨ ∀ item ∈ items.drop n, f item = none) :
    (items.filterMap f).take n = (items.take n).filterMap f := by
  have split : items.filterMap f = (items.take n).filterMap f ++ (items.drop n).filterMap f := by
    rw [← List.filterMap_append,List.take_append_drop]
  have short : ((items.take n).filterMap f).length ≤ n :=
    (List.length_filterMap_le _ _).trans (List.length_take_le _ _)
  rcases clear with every | behind
  · have whole : ((items.take n).filterMap f).length = (items.take n).length :=
      List.filterMap_length_eq_length.mpr fun item member => Option.isSome_iff_ne_none.mpr (every item member)
    by_cases long : n ≤ items.length
    · have exact_ : ((items.take n).filterMap f).length = n := by rw [whole,List.length_take,Nat.min_eq_left long]
      rw [split,List.take_append_of_le_length exact_.ge,List.take_of_length_le exact_.le]
    · rw [List.take_of_length_le (Nat.le_of_not_le long),List.take_of_length_le]
      exact (List.length_filterMap_le _ _).trans (Nat.le_of_not_le long)
  · rw [split,List.filterMap_eq_nil_iff.mpr behind,List.append_nil,List.take_of_length_le short]

/-- Without a skip in the way both windows are one. -/
theorem windows_eq (rows : List ResultRow) (key : Bytes × Bytes) (ordinary : Ordinary rows key)
    (clear : (∀ row ∈ (newestFirst (groupOf rows key)).take 50, row.evidence ≠ none) ∨
      ∀ row ∈ (newestFirst (groupOf rows key)).drop 50, row.evidence = none) :
    usedWindow rows key = documentedWindow rows key := by
  rw [usedWindow_ordinary rows key ordinary,documentedWindow,take_filterMap _ _ _ clear]

theorem documentedWindow_length (rows : List ResultRow) (key : Bytes × Bytes) :
    (documentedWindow rows key).length ≤ (groupOf rows key).length := by
  rw [documentedWindow,passSequence,List.length_map]
  calc _ ≤ ((newestFirst (groupOf rows key)).filterMap (·.evidence)).length := List.length_take_le' _ _
    _ ≤ (newestFirst (groupOf rows key)).length := List.length_filterMap_le _ _
    _ = _ := List.length_mergeSort _

theorem mem_documentedWindow (rows : List ResultRow) (key : Bytes × Bytes) (passed : Bool)
    (member : passed ∈ documentedWindow rows key) :
    ∃ row ∈ groupOf rows key, ∃ status, row.evidence = some status ∧ (status == .passed) = passed := by
  obtain ⟨status,recent,rfl⟩ := List.mem_map.mp member
  obtain ⟨row,sorted,shown⟩ := List.mem_filterMap.mp (List.mem_of_mem_take recent)
  exact ⟨row,List.mem_mergeSort.mp sorted,status,shown,rfl⟩

theorem evidence_resultRow (result : TestResult) (status : TestStatus)
    (shown : (resultRow result).evidence = some status) :
    (resultRow result).status = status.toString ∧ status ≠ .skipped := by
  rw [ResultRow.evidence,Option.filter_eq_some_iff] at shown
  obtain ⟨read,seen⟩ := shown
  rw [resultRow,TestStatus.fromString_toString,Option.some.injEq] at read
  exact ⟨congrArg TestStatus.toString read,by simpa using seen⟩

section

variable (stored : List TestResult) (key : Bytes × Bytes)

/-- An outcome in the window is in the counts. -/
theorem counted_of_mem (passed : Bool) (member : passed ∈ documentedWindow (stored.map resultRow) key) :
    0 < (groupOf (stored.map resultRow) key).countP fun row =>
      if passed then row.status = ascii "PASSED" else row.status ∈ [ascii "FAILED",ascii "ERROR",ascii "TIMEOUT"] := by
  obtain ⟨row,listed,status,shown,rfl⟩ := mem_documentedWindow _ key passed member
  obtain ⟨result,-,rfl⟩ := List.mem_map.mp (List.mem_of_mem_filter listed)
  obtain ⟨text,seen⟩ := evidence_resultRow result status shown
  rw [List.countP_pos_iff]
  refine ⟨_,listed,?_⟩
  rw [text]
  cases status with
  | skipped => exact absurd rfl seen
  | _ => decide

theorem counted_iff (ordinary : Ordinary (stored.map resultRow) key)
    (changing : Changing (usedWindow (stored.map resultRow) key)) :
    Counted (stored.map resultRow) key ↔ 5 ≤ (groupOf (stored.map resultRow) key).length := by
  have newest := (usedWindow_newest _ key ordinary).subset
  have passes := counted_of_mem stored key true (newest changing.mixed.1)
  have failures := counted_of_mem stored key false (newest changing.mixed.2)
  have kept : ∀ n : Nat, n ≤ (groupOf (stored.map resultRow) key).length → toInt32 n = n := by
    intro n bounded
    have small := ordinary.2
    exact (toInt32_eq_iff n).mpr ⟨by omega,by omega⟩
  rw [Counted,kept _ (Nat.le_refl _),kept _ List.countP_le_length,kept _ List.countP_le_length]
  constructor
  · rintro ⟨runs,-,-⟩
    omega
  · intro runs
    exact ⟨by omega,Int.natCast_pos.mpr passes,Int.natCast_pos.mpr failures⟩

/-- One window for both: the counts tell when the rules part. -/
theorem rules_agree_iff (ordinary : Ordinary (stored.map resultRow) key)
    (equal : usedWindow (stored.map resultRow) key = documentedWindow (stored.map resultRow) key) :
    (Counted (stored.map resultRow) key ∧ Changing (usedWindow (stored.map resultRow) key) ↔
      5 ≤ (documentedWindow (stored.map resultRow) key).length ∧
        Changing (documentedWindow (stored.map resultRow) key)) ↔ ¬Thin (stored.map resultRow) key := by
  have counted := counted_iff stored key ordinary
  have least := documentedWindow_length (stored.map resultRow) key
  rw [equal] at counted ⊢
  constructor
  · rintro agree ⟨runs,few,passed,failed⟩
    have changing := changing_of_mixed (by omega) ⟨passed,failed⟩
    have enough := (agree.mp ⟨(counted changing).mpr runs,changing⟩).1
    omega
  · intro thick
    constructor
    · rintro ⟨runs,changing⟩
      refine ⟨?_,changing⟩
      by_contra few
      exact thick ⟨(counted changing).mp runs,Nat.not_le.mp few,changing.mixed.1,changing.mixed.2⟩
    · rintro ⟨runs,changing⟩
      exact ⟨(counted changing).mpr (runs.trans least),changing⟩

/-- Where no other test shares the id and no skip pushes a result out, the rule is the documented one unless
skips make up the five runs. -/
theorem looksFlaky_documented_iff (limit : Int) (summary : TestHistorySummary)
    (listed : summary ∈ historySummaries (stored.map resultRow) limit)
    (ordinary : Ordinary (stored.map resultRow) (summary.testId,summary.qualifiedName))
    (clear : Clear (stored.map resultRow) (summary.testId,summary.qualifiedName)) :
    (summary.looksFlaky = true ↔
        FlakyAsDocumented (stored.map resultRow) (summary.testId,summary.qualifiedName)) ↔
      ¬Thin (stored.map resultRow) (summary.testId,summary.qualifiedName) := by
  obtain ⟨key,-,rfl⟩ := List.mem_map.mp listed
  have same := rules_agree_iff stored key ordinary
  rw [documented_iff,looksFlaky_iff]
  rcases clear with none | behind | uniform
  · exact same (windows_eq _ _ ordinary (.inl none))
  · exact same (windows_eq _ _ ordinary (.inr behind))
  · have still : ¬Changing (documentedWindow (stored.map resultRow) key) := fun changing =>
      uniform.elim (fun absent => absent changing.mixed.1) fun absent => absent changing.mixed.2
    have quiet : ¬Changing (usedWindow (stored.map resultRow) key) := fun changing => by
      have newest := (usedWindow_newest _ key ordinary).subset
      exact uniform.elim (fun absent => absent (newest changing.mixed.1)) fun absent => absent (newest changing.mixed.2)
    have agree : Counted (stored.map resultRow) key ∧ Changing (usedWindow (stored.map resultRow) key) ↔
        5 ≤ (documentedWindow (stored.map resultRow) key).length ∧
          Changing (documentedWindow (stored.map resultRow) key) :=
      iff_of_false (fun both => quiet both.2) fun both => still both.2
    exact iff_of_true agree fun thin => uniform.elim (fun absent => absent thin.passed) fun absent => absent thin.failed

end

/-- Results of one test at one time. -/
def historyOf (statuses : List TestStatus) : List TestResult := statuses.map fun status => { status }

theorem historyOf_rows (statuses : List TestStatus) : ∀ row ∈ (historyOf statuses).map resultRow,
    row.testId = [] ∧ row.qualifiedName = [] ∧ row.startTimeMs = 0 := by
  intro row member
  obtain ⟨result,listed,rfl⟩ := List.mem_map.mp member
  obtain ⟨status,-,rfl⟩ := List.mem_map.mp listed
  exact ⟨rfl,rfl,rfl⟩

theorem groupOf_historyOf (statuses : List TestStatus) :
    groupOf ((historyOf statuses).map resultRow) ([],[]) = (historyOf statuses).map resultRow := by
  apply List.filter_eq_self.mpr
  intro row member
  obtain ⟨id,name,-⟩ := historyOf_rows statuses row member
  simp [id,name]

theorem documentedWindow_historyOf (statuses : List TestStatus) :
    documentedWindow ((historyOf statuses).map resultRow) ([],[]) =
      passSequence ((statuses.filter (· ≠ .skipped)).take 50) := by
  have order : newestFirst ((historyOf statuses).map resultRow) = (historyOf statuses).map resultRow := by
    apply List.mergeSort_of_pairwise
    apply List.pairwise_of_forall_mem_list
    intro a first b second
    rw [(historyOf_rows statuses a first).2.2,(historyOf_rows statuses b second).2.2]
    rfl
  have shown : ∀ status : TestStatus,
      (resultRow { status }).evidence = Option.guard (fun status => decide (status ≠ .skipped)) status := by
    intro status
    cases status <;> rfl
  rw [documentedWindow,groupOf_historyOf,order,historyOf,List.map_map,List.filterMap_map,← List.filterMap_eq_filter]
  congr 3
  funext status
  exact shown status

theorem summarise_listed {rows : List ResultRow} {key : Bytes × Bytes} (alone : historyKeys rows = [key])
    (limit : Int) : summarise rows key ∈ historySummaries rows limit := by
  have room : [key].length ≤ (max 1 limit).toNat := by
    rw [List.length_singleton]
    omega
  rw [historySummaries,alone]
  simp only [List.mergeSort_singleton,List.take_of_length_le room,List.map_cons,List.map_nil,List.mem_singleton]

theorem ordinary_historyOf (statuses : List TestStatus) (few : statuses.length < 2^31) :
    Ordinary ((historyOf statuses).map resultRow) ([],[]) := by
  refine ⟨fun row member _ => (historyOf_rows statuses row member).2.1,?_⟩
  rw [groupOf_historyOf,historyOf,List.length_map,List.length_map]
  exact few

theorem nothing_behind (rows : List ResultRow) (key : Bytes × Bytes) (few : (groupOf rows key).length ≤ 50) :
    ∀ row ∈ (newestFirst (groupOf rows key)).drop 50, row.evidence = none := by
  have sorted : (newestFirst (groupOf rows key)).length ≤ 50 := by rwa [newestFirst,List.length_mergeSort]
  rw [List.drop_of_length_le sorted]
  exact fun row member => absurd member List.not_mem_nil

def steady : List TestStatus := [.passed,.failed,.passed,.skipped,.failed,.passed]

theorem looksFlaky_documented_steady :
    (summarise ((historyOf steady).map resultRow) ([],[])).looksFlaky = true ∧
      FlakyAsDocumented ((historyOf steady).map resultRow) ([],[]) := by
  have alone : historyKeys ((historyOf steady).map resultRow) = [([],[])] := by decide +kernel
  have ordinary := ordinary_historyOf steady (by decide)
  have clear := nothing_behind ((historyOf steady).map resultRow) ([],[]) (by rw [groupOf_historyOf]; decide)
  have window : documentedWindow ((historyOf steady).map resultRow) ([],[]) = [true,false,true,false,true] :=
    documentedWindow_historyOf steady
  have documented : FlakyAsDocumented ((historyOf steady).map resultRow) ([],[]) := by
    constructor <;> rw [window] <;> decide
  have agree := looksFlaky_documented_iff (historyOf steady) 20 _ (summarise_listed alone 20) ordinary (.inr (.inl clear))
  have thick : ¬Thin ((historyOf steady).map resultRow) ([],[]) := fun thin => by
    have few := thin.few
    rw [window] at few
    exact absurd few (by decide)
  exact ⟨(agree.mpr thick).mpr documented,documented⟩

/-- A pass and a failure, and three skips that make up the five runs. -/
def mostlySkipped : List TestStatus := [.passed,.failed,.skipped,.skipped,.skipped]

theorem skips_count_as_runs : ¬∀ (stored : List TestResult) (limit : Int) (summary : TestHistorySummary),
    summary ∈ historySummaries (stored.map resultRow) limit →
      (summary.looksFlaky = true ↔
        FlakyAsDocumented (stored.map resultRow) (summary.testId,summary.qualifiedName)) := by
  intro holds
  have alone : historyKeys ((historyOf mostlySkipped).map resultRow) = [([],[])] := by decide +kernel
  have agree := holds (historyOf mostlySkipped) 20 _ (summarise_listed alone 20)
  have window : documentedWindow ((historyOf mostlySkipped).map resultRow) ([],[]) = [true,false] :=
    documentedWindow_historyOf mostlySkipped
  have ordinary := ordinary_historyOf mostlySkipped (by decide)
  have behind := nothing_behind ((historyOf mostlySkipped).map resultRow) ([],[]) (by rw [groupOf_historyOf]; decide)
  have used := windows_eq _ _ ordinary (.inr behind)
  have counted : Counted ((historyOf mostlySkipped).map resultRow) ([],[]) := by
    rw [Counted,groupOf_historyOf]
    decide
  have flaky := (looksFlaky_iff _ ([],[])).mpr ⟨counted,by rw [used,window]; decide⟩
  have runs := (agree.mp flaky).runs
  change 5 ≤ (documentedWindow ((historyOf mostlySkipped).map resultRow) ([],[])).length at runs
  rw [window] at runs
  exact absurd runs (by decide)

end SqliteResultRepository
end TestForge
