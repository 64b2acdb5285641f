import TestForge.SpecAccounting
import TestForge.SpecSoundness
import TestForge.TestSpecJson

/-! The statuses that a document states and those that its tests hold a response to. Between
the two a number loses its fraction and all but 32 bits, and only then is its range checked. -/
namespace TestForge

open Json Json.Value Strings

namespace Json.Value

/-- A number that is an integer of 32 bits. -/
def FitsInt32 (value : Value) : Prop := ∃ n : Int, (Value.int n).same value = true ∧ -2^31 ≤ n ∧ n < 2^31

end Json.Value

namespace TestSpec

/-- The numbers that an entry of a document states as statuses. -/
def statusNumbers (item : Value) : List Value := (statusEntry item).toList ++ statusEntries item

/-- The first check of `execute`. -/
def statusCondition (spec : TestSpec) : SpecCondition :=
  if spec.acceptableStatuses ≠ [] then .statusIn spec.acceptableStatuses else .status spec.expectedStatus

/-- The response gets through the check of its status. -/
def StatusPasses (spec : TestSpec) (response : HttpResponse) (elapsed : Int) : Prop :=
  ∃ report, spec.statusCondition.check response elapsed = .ok report ∧ report.succeeded = true

/-- The numbers of an entry are statuses, and a response passes exactly when its status is one of
those that count: the acceptable ones when there are any, the expected one otherwise. -/
structure StatusesAsWritten (item : Value) (spec : TestSpec) : Prop where
  range : ∀ value ∈ statusNumbers item, ∃ n : Int, (Value.int n).same value = true ∧ 100 ≤ n ∧ n ≤ 599
  several : statusEntries item ≠ [] → ∀ response elapsed, spec.StatusPasses response elapsed ↔
    ∃ value ∈ statusEntries item, (Value.int response.statusCode).same value = true
  single : statusEntries item = [] → ∀ value ∈ statusEntry item, ∀ response elapsed,
    spec.StatusPasses response elapsed ↔ (Value.int response.statusCode).same value = true

theorem statusPasses_iff (spec : TestSpec) (response : HttpResponse) (elapsed : Int) :
    spec.StatusPasses response elapsed ↔
    if spec.acceptableStatuses ≠ [] then response.statusCode ∈ spec.acceptableStatuses
    else response.statusCode = spec.expectedStatus := by
  by_cases several : spec.acceptableStatuses ≠ []
  · simp [StatusPasses,statusCondition,several,SpecCondition.check,Assertions.statusCodeIn]
  · simp [StatusPasses,statusCondition,several,SpecCondition.check,Assertions.statusCode]

theorem narrow_eq_iff {value : Value} (fits : value.FitsInt32) (z : Int) :
    z = narrow value ↔ (Value.int z).same value = true := by
  obtain ⟨n,exact,low,high⟩ := fits
  have kept : narrow value = n := by
    rw [narrow,(same_int n value exact 0).2]
    exact (toInt32_eq_iff n).mpr ⟨low,high⟩
  rw [kept]
  constructor
  · rintro rfl
    exact exact
  · intro other
    rw [← (same_int n value exact 0).2,(same_int z value other 0).2]

end TestSpec

theorem SpecValidator.Accepts.statuses {validator : SpecValidator} {spec : TestSpec}
    (accepted : validator.Accepts spec) :
    ∀ status ∈ spec.expectedStatus :: spec.acceptableStatuses, 100 ≤ status ∧ status ≤ 599 := by
  obtain ⟨index,clean⟩ := accepted
  have clean : ∀ issue ∈ statusIssues spec (testPrefix index), issue.fatal = false :=
    fun issue found => clean issue (by simp [validateOne,found])
  rw [statusIssues,List.forall_mem_append] at clean
  have inside : ∀ status, statusOutside status = false → 100 ≤ status ∧ status ≤ 599 := by
    intro status inside
    simpa [statusOutside] using inside
  rw [List.forall_mem_cons]
  refine ⟨inside _ (issueIf_fatal _ _ _ clean.1),fun status member => inside _ ?_⟩
  apply issueIf_fatal
  intro issue found
  exact clean.2 issue (List.mem_flatMap.mpr ⟨status,member,found⟩)

namespace TestSpecSuite

open TestSpec

theorem fromJson_at {doc : Value} {suite : TestSpecSuite} (read : fromJson doc = .ok suite) {index : Nat}
    {item : Value} {spec : TestSpec} (entry : (itemsAt doc (ascii "tests"))[index]? = some item)
    (test : suite.tests[index]? = some spec) :
    TestSpec.fromJson item = .ok spec := by
  obtain ⟨-,-,-,pointwise⟩ := fromJson_ok read
  obtain ⟨inside,rfl⟩ := List.getElem?_eq_some_iff.mp entry
  obtain ⟨within,rfl⟩ := List.getElem?_eq_some_iff.mp test
  exact pointwise.get inside within

/-- An accepted test takes its statuses as they are written exactly when they are integers of
32 bits. -/
theorem statuses_as_written_iff (doc : Value) (suite : TestSpecSuite) (read : fromJson doc = .ok suite)
    (validator : SpecValidator) (index : Nat) (item : Value) (spec : TestSpec)
    (entry : (itemsAt doc (ascii "tests"))[index]? = some item) (test : suite.tests[index]? = some spec)
    (kept : spec ∈ (validator.validate suite).2.tests) :
    StatusesAsWritten item spec ↔ ∀ value ∈ statusNumbers item, value.FitsInt32 := by
  obtain ⟨-,single,several⟩ := TestSpec.fromJson_ok (fromJson_at read entry test)
  have ranges := (validator.validate_accepts suite spec kept).statuses
  constructor
  · intro written value member
    obtain ⟨n,exact,low,high⟩ := written.range value member
    exact ⟨n,exact,by omega,by omega⟩
  · intro fits
    have narrowed : ∀ value ∈ statusNumbers item, narrow value ∈ spec.expectedStatus :: spec.acceptableStatuses := by
      intro value member
      rcases List.mem_append.mp member with stated | listed
      · rw [single,Option.mem_toList.mp stated]
        exact List.mem_cons_self
      · rw [several]
        exact List.mem_cons_of_mem _ (List.mem_map_of_mem listed)
    constructor
    case range =>
      intro value member
      obtain ⟨low,high⟩ := ranges _ (narrowed value member)
      exact ⟨narrow value,(narrow_eq_iff (fits value member) _).mp rfl,low,high⟩
    case several =>
      intro some_ response _
      have listed : spec.acceptableStatuses ≠ [] := by rwa [several,ne_eq,List.map_eq_nil_iff]
      rw [statusPasses_iff,if_pos listed,several,List.mem_map]
      apply exists_congr
      intro value
      apply and_congr_right
      intro member
      rw [eq_comm]
      exact narrow_eq_iff (fits value (List.mem_append_right _ member)) _
    case single =>
      intro none value stated response _
      have unlisted : ¬spec.acceptableStatuses ≠ [] := by
        rw [several,none]
        exact not_not.mpr rfl
      rw [statusPasses_iff,if_neg unlisted,single,stated]
      exact narrow_eq_iff (fits value (List.mem_append_left _ (Option.mem_toList.mpr stated))) _

/-- The entry of a test with one expected status. -/
def expectingEntry (status : Value) : Value :=
  .object [(ascii "name",.string (ascii "t")),(ascii "endpoint",.string (ascii "/")),(ascii "expected_status",status)]

/-- A document of that test alone. -/
def expecting (status : Value) : Value :=
  .object [(ascii "suite",.string (ascii "s")),(ascii "tests",.array [expectingEntry status])]

def expected (status : Int) : TestSpecSuite where
  suite := ascii "s"
  tests := [{ name := ascii "t", endpoint := ascii "/", expectedStatus := status }]

theorem expected_kept : { name := ascii "t", endpoint := ascii "/" } ∈
    (SpecValidator.validate { baseUrl := ascii "http://h" } (expected 200)).2.tests := by
  have named : SpecValidator.isSafeName (ascii "s") = .ok () := by decide
  have clean : SpecValidator.rejects { baseUrl := ascii "http://h" }
      { name := ascii "t", endpoint := ascii "/" } = false := by decide
  simp [SpecValidator.validate_tests,SpecValidator.kept,expected,named,SpecValidator.maxTests,Sequence.firstOfKey,clean]

theorem statuses_as_written_ok :
    StatusesAsWritten (expectingEntry (.int 200)) { name := ascii "t", endpoint := ascii "/" } ↔
      ∀ value ∈ statusNumbers (expectingEntry (.int 200)), value.FitsInt32 :=
  statuses_as_written_iff (expecting (.int 200)) (expected 200) rfl { baseUrl := ascii "http://h" } 0 _ _ rfl rfl
    expected_kept

/-- 2^32 + 200 is a status of 200. -/
theorem wrapped_status_accepted : ¬∀ (doc : Value) (suite : TestSpecSuite), fromJson doc = .ok suite →
    ∀ (validator : SpecValidator) (index : Nat) (item : Value) (spec : TestSpec),
      (itemsAt doc (ascii "tests"))[index]? = some item → suite.tests[index]? = some spec →
        spec ∈ (validator.validate suite).2.tests → StatusesAsWritten item spec := by
  intro holds
  have written := holds (expecting (.int 4294967496)) (expected 200) rfl { baseUrl := ascii "http://h" } 0 _ _ rfl rfl
    expected_kept
  have stated : statusNumbers (expectingEntry (.int 4294967496)) = [.int 4294967496] := rfl
  have range := written.range
  rw [stated,List.forall_mem_singleton] at range
  obtain ⟨n,exact,_,high⟩ := range
  have value := (same_int n _ exact 0).2
  simp only [intOr] at value
  omega

end TestSpecSuite
end TestForge
