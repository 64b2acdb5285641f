import TestForge.FirstOfKey
import TestForge.SpecValidator

/-! The accounts of `SpecValidator::validate`: which tests stay, how they are counted, and what
a second validation finds. The tests kept are the first of every name, ignoring case, except
where that one has a fatal issue of its own. -/
namespace TestForge.SpecValidator

open Sequence Strings

/-- A test has a fatal issue of its own, whatever its position. -/
def rejects (validator : SpecValidator) (spec : TestSpec) : Bool := (validator.validateOne spec 0).any (·.fatal)

/-- What makes two tests collide. -/
def nameKey (spec : TestSpec) : Bytes := toLower spec.name

def maxTests (validator : SpecValidator) : Nat := (max 1 validator.config.maxGeneratedTests).toNat

/-! ### Verdicts -/

@[simp] theorem issueIf_any (broken fatal : Bool) (whereText message : Bytes) :
    (issueIf broken whereText message fatal).any (·.fatal) = (broken && fatal) := by
  cases broken <;> simp [issueIf]

theorem nameIssues_any (spec : TestSpec) (pre other : Bytes) :
    (nameIssues spec pre).any (·.fatal) = (nameIssues spec other).any (·.fatal) := by
  unfold nameIssues
  split <;> rfl

theorem endpointIssues_any (validator : SpecValidator) (spec : TestSpec) (pre other : Bytes) :
    (validator.endpointIssues spec pre).any (·.fatal) = (validator.endpointIssues spec other).any (·.fatal) := by
  unfold endpointIssues
  split
  · rfl
  · split
    · rfl
    · simp

theorem headerIssues_any (pre other : Bytes) (header : Bytes × Json.Value) :
    (headerIssues pre header).any (·.fatal) = (headerIssues other header).any (·.fatal) := by
  unfold headerIssues
  cases header.2.asString? <;> simp

theorem bodyIssues_any (spec : TestSpec) (pre other : Bytes) :
    (bodyIssues spec pre).any (·.fatal) = (bodyIssues spec other).any (·.fatal) := by
  unfold bodyIssues
  split <;> simp

theorem assertionIssues_any (whereText other : Bytes) (assertion : SpecAssertion) :
    (assertionIssues whereText assertion).any (·.fatal) = (assertionIssues other assertion).any (·.fatal) := by
  simp [assertionIssues]

/-- The position of a test appears in its issues and has no part in its verdict. -/
theorem validateOne_any (validator : SpecValidator) (spec : TestSpec) (index : Nat) :
    (validator.validateOne spec index).any (·.fatal) = validator.rejects spec := by
  have headers : (fun header => (headerIssues (testPrefix index) header).any (·.fatal)) =
      fun header => (headerIssues (testPrefix 0) header).any (·.fatal) :=
    funext fun header => headerIssues_any _ _ header
  have assertions : (fun entry : SpecAssertion × Nat =>
        (assertionIssues (testPrefix index ++ ascii ".assertions[" ++ decimal entry.2 ++ ascii "]") entry.1).any (·.fatal)) =
      fun entry => (assertionIssues (testPrefix 0 ++ ascii ".assertions[" ++ decimal entry.2 ++ ascii "]") entry.1).any
        (·.fatal) :=
    funext fun entry => assertionIssues_any _ _ entry.1
  simp only [rejects,validateOne,methodIssues,statusIssues,latencyIssues,headersIssues,assertionsIssues,
    List.any_append,List.any_flatMap,issueIf_any,nameIssues_any spec (testPrefix index) (testPrefix 0),
    endpointIssues_any validator spec (testPrefix index) (testPrefix 0),
    bodyIssues_any spec (testPrefix index) (testPrefix 0),headers,assertions]

theorem rejects_eq_false (validator : SpecValidator) (spec : TestSpec) (index : Nat) :
    validator.rejects spec = false ↔ ∀ issue ∈ validator.validateOne spec index, issue.fatal = false := by
  rw [← validateOne_any validator spec index,List.any_eq_false]
  simp

/-! ### The pass over the tests -/

theorem validateTests_kept (validator : SpecValidator) (tests : List TestSpec) (index : Nat) (seen : List Bytes) :
    (validator.validateTests tests index seen).1 = firstOfKey nameKey validator.rejects seen tests := by
  induction tests generalizing index seen with
  | nil => rfl
  | cons spec rest ih =>
    have verdict : (validator.validateOne spec index ++ issueIf (toLower spec.name ∈ seen) (testPrefix index ++ ascii ".name")
        (ascii "duplicate test name '" ++ spec.name ++ ascii "' within the suite")).any (·.fatal) = true ↔
          validator.rejects spec = true ∨ nameKey spec ∈ seen := by
      rw [List.any_append,validateOne_any,issueIf_any,Bool.and_true,Bool.or_eq_true,decide_eq_true_iff]
      rfl
    have later := ih (index + 1) (nameKey spec :: seen)
    rw [firstOfKey,← later]
    simp only [validateTests]
    by_cases dropped : validator.rejects spec = true ∨ nameKey spec ∈ seen
    · rw [if_pos dropped,if_pos (verdict.mpr dropped)]
      rfl
    · rw [if_neg dropped,if_neg (mt verdict.mp dropped)]
      rfl

theorem validateTests_count (validator : SpecValidator) (tests : List TestSpec) (index : Nat) (seen : List Bytes) :
    (validator.validateTests tests index seen).1.length + (validator.validateTests tests index seen).2.2 =
      tests.length := by
  induction tests generalizing index seen with
  | nil => rfl
  | cons spec rest ih =>
    have later := ih (index + 1) (toLower spec.name :: seen)
    simp only [validateTests]
    split
    · exact congrArg (· + 1) later
    · rw [List.length_cons,List.length_cons,Nat.add_right_comm]
      exact congrArg (· + 1) later

/-- What `validate` keeps. -/
def kept (validator : SpecValidator) (suite : TestSpecSuite) : List TestSpec :=
  match isSafeName suite.suite with
  | .error _ => []
  | .ok () => firstOfKey nameKey validator.rejects [] (suite.tests.take validator.maxTests)

theorem validate_tests (validator : SpecValidator) (suite : TestSpecSuite) :
    (validator.validate suite).2 = { suite with tests := validator.kept suite } := by
  unfold validate kept
  cases isSafeName suite.suite with
  | error reason => rfl
  | ok =>
    simp only
    rw [← validateTests_kept validator _ 0]
    rfl

theorem validate_report (validator : SpecValidator) (suite : TestSpecSuite) :
    (validator.validate suite).1.accepted = (validator.kept suite).length ∧
    (validator.validate suite).1.rejected + (validator.kept suite).length = suite.tests.length ∧
    (validator.validate suite).1.valid = !(validator.kept suite).isEmpty := by
  unfold validate kept
  cases isSafeName suite.suite with
  | error reason => exact ⟨rfl,rfl,rfl⟩
  | ok =>
    have count := validateTests_count validator (suite.tests.take validator.maxTests) 0 []
    have whole : suite.tests.length - validator.maxTests + (suite.tests.take validator.maxTests).length =
        suite.tests.length := by
      rw [List.length_take]
      omega
    simp only
    rw [← validateTests_kept validator _ 0]
    refine ⟨rfl,?_,rfl⟩
    rw [Nat.add_assoc,Nat.add_comm _ (List.length _)]
    exact (congrArg (suite.tests.length - validator.maxTests + ·) count).trans whole

/-! ### The accounts -/

/-- What `validate` owes for one suite. -/
structure Accounted (validator : SpecValidator) (suite : TestSpecSuite) (report : ValidationReport)
    (result : TestSpecSuite) : Prop where
  order : result.tests.Sublist suite.tests
  clean : ∀ spec ∈ result.tests, ∀ index, ∀ issue ∈ validator.validateOne spec index, issue.fatal = false
  distinct : (result.tests.map fun spec => toLower spec.name).Nodup
  bounded : (result.tests.length : Int) ≤ max 1 validator.config.maxGeneratedTests
  accepted : report.accepted = result.tests.length
  counted : report.accepted + report.rejected = suite.tests.length
  valid : report.valid = true ↔ result.tests ≠ []
  again : (validator.validate result).1.accepted = result.tests.length ∧
    (validator.validate result).1.rejected = 0 ∧ (validator.validate result).2 = result

theorem kept_sublist (validator : SpecValidator) (suite : TestSpecSuite) : (validator.kept suite).Sublist suite.tests := by
  unfold kept
  split
  · exact List.nil_sublist _
  · exact (firstOfKey_sublist _ _ _ _).trans (List.take_sublist _ _)

theorem kept_clean (validator : SpecValidator) (suite : TestSpecSuite) :
    ∀ spec ∈ validator.kept suite, validator.rejects spec = false := by
  unfold kept
  split
  · simp
  · exact firstOfKey_clean _ _ _ _

theorem kept_distinct (validator : SpecValidator) (suite : TestSpecSuite) :
    ((validator.kept suite).map nameKey).Nodup := by
  unfold kept
  split
  · simp
  · exact (firstOfKey_distinct _ _ _ _).1

theorem kept_length (validator : SpecValidator) (suite : TestSpecSuite) :
    (validator.kept suite).length ≤ validator.maxTests := by
  unfold kept
  split
  · simp
  · exact (firstOfKey_sublist _ _ _ _).length_le.trans (List.length_take_le _ _)

/-- Every test that `validate` keeps was accepted on its own. -/
theorem validate_accepts (validator : SpecValidator) (suite : TestSpecSuite) :
    ∀ spec ∈ (validator.validate suite).2.tests, validator.Accepts spec := by
  intro spec member
  rw [validate_tests] at member
  exact ⟨0,(rejects_eq_false validator spec 0).mp (kept_clean validator suite spec member)⟩

theorem validate_distinct (validator : SpecValidator) (suite : TestSpecSuite) :
    ((validator.validate suite).2.tests.map (·.name)).Nodup := by
  have keys := kept_distinct validator suite
  rw [validate_tests]
  apply List.Nodup.of_map toLower
  rwa [List.map_map]

@[simp] theorem validate_suite (validator : SpecValidator) (suite : TestSpecSuite) :
    (validator.validate suite).2.suite = suite.suite := by
  rw [validate_tests]

/-- A suite that went through the gate goes through it again, whole. -/
theorem kept_again (validator : SpecValidator) (suite : TestSpecSuite) :
    validator.kept { suite with tests := validator.kept suite } = validator.kept suite := by
  cases named : isSafeName suite.suite with
  | error reason => simp [kept,named]
  | ok =>
    have short := kept_length validator suite
    have again := firstOfKey_self nameKey validator.rejects [] (validator.kept suite) (kept_clean validator suite)
      (kept_distinct validator suite) (by simp)
    calc validator.kept { suite with tests := validator.kept suite }
        = firstOfKey nameKey validator.rejects [] ((validator.kept suite).take validator.maxTests) := by
          rw [kept]
          simp only [named]
      _ = validator.kept suite := by rw [List.take_of_length_le short,again]

/-- Every suite, under every configuration, is accounted for. -/
theorem validate_accounted (validator : SpecValidator) (suite : TestSpecSuite) :
    Accounted validator suite (validator.validate suite).1 (validator.validate suite).2 := by
  obtain ⟨accepted,counted,valid⟩ := validate_report validator suite
  obtain ⟨acceptedAgain,countedAgain,-⟩ := validate_report validator { suite with tests := validator.kept suite }
  have bound : (validator.maxTests : Int) = max 1 validator.config.maxGeneratedTests :=
    Int.toNat_of_nonneg (by omega)
  have short := kept_length validator suite
  rw [kept_again] at acceptedAgain countedAgain
  rw [validate_tests]
  constructor
  case order => exact kept_sublist validator suite
  case clean =>
    intro spec member index
    exact (rejects_eq_false validator spec index).mp (kept_clean validator suite spec member)
  case distinct => exact kept_distinct validator suite
  case bounded =>
    simp only
    omega
  case accepted => exact accepted
  case counted => omega
  case valid => simp [valid]
  case again =>
    simp only at countedAgain
    refine ⟨acceptedAgain,by omega,?_⟩
    rw [validate_tests,kept_again]

/-! ### Removing a rejected test -/

/-- The validator keeps the other tests of a suite when the one at `index` is taken out. -/
def TakesNothing (validator : SpecValidator) (suite : TestSpecSuite) (index : Nat) : Prop :=
  (validator.validate { suite with tests := suite.tests.eraseIdx index }).2.tests = (validator.validate suite).2.tests

/-- No test loses its name to the one at `index`: the suite is refused as a whole, an earlier test
has the name already, or the next one that has it is itself rejected. -/
def NameUnclaimed (validator : SpecValidator) (suite : TestSpecSuite) (index : Nat) (spec : TestSpec) : Prop :=
  isSafeName suite.suite ≠ .ok () ∨ (∃ other ∈ suite.tests.take index, toLower other.name = toLower spec.name) ∨
    ∀ other, (suite.tests.drop (index + 1)).find? (fun other => toLower other.name = toLower spec.name) = some other →
      validator.rejects other = true

/-- In a suite within the cap, a test rejected for its content takes others with it exactly when
it claims their name. -/
theorem takesNothing_iff (validator : SpecValidator) (suite : TestSpecSuite) (index : Nat) (spec : TestSpec)
    (within : (suite.tests.length : Int) ≤ max 1 validator.config.maxGeneratedTests)
    (there : suite.tests[index]? = some spec) (own : validator.rejects spec = true) :
    TakesNothing validator suite index ↔ NameUnclaimed validator suite index spec := by
  obtain ⟨inside,at_⟩ := List.getElem?_eq_some_iff.mp there
  have bound : (validator.maxTests : Int) = max 1 validator.config.maxGeneratedTests :=
    Int.toNat_of_nonneg (by omega)
  have parts : suite.tests = suite.tests.take index ++ spec :: suite.tests.drop (index + 1) := by
    rw [← at_,List.getElem_cons_drop inside,List.take_append_drop]
  cases named : isSafeName suite.suite with
  | error reason =>
    refine iff_of_true ?_ (.inl (by simp [named]))
    simp only [TakesNothing,validate_tests,kept,named]
  | ok =>
    have whole : suite.tests.take validator.maxTests = suite.tests := List.take_of_length_le (by omega)
    have others : (suite.tests.eraseIdx index).take validator.maxTests =
        suite.tests.take index ++ suite.tests.drop (index + 1) := by
      rw [List.take_of_length_le (by rw [List.length_eraseIdx_of_lt inside]; omega),List.eraseIdx_eq_take_drop_succ]
    have run : firstOfKey nameKey validator.rejects [] suite.tests =
        firstOfKey nameKey validator.rejects [] (suite.tests.take index) ++ firstOfKey nameKey validator.rejects
          (nameKey spec :: (((suite.tests.take index).map nameKey).reverse ++ [])) (suite.tests.drop (index + 1)) := by
      conv_lhs => rw [parts]
      rw [firstOfKey_append,firstOfKey,if_pos (by simp [own])]
    have known : nameKey spec ∈ ((suite.tests.take index).map nameKey).reverse ++ [] ↔
        ∃ other ∈ suite.tests.take index, nameKey other = nameKey spec := by
      rw [List.append_nil,List.mem_reverse,List.mem_map]
    simp only [TakesNothing,NameUnclaimed,validate_tests,kept,named,whole,others,run,firstOfKey_append,
      List.append_cancel_left_eq,ne_eq,not_true_eq_false,false_or]
    by_cases claimed : nameKey spec ∈ ((suite.tests.take index).map nameKey).reverse ++ []
    · refine iff_of_true ?_ (.inl (known.mp claimed))
      apply firstOfKey_congr
      intro k
      rw [List.mem_cons,or_iff_right_of_imp]
      rintro rfl
      exact claimed
    · have free := mt known.mpr claimed
      refine (firstOfKey_forget nameKey validator.rejects (nameKey spec) _ claimed _).trans ?_
      exact (or_iff_right free).symm

/-- A test with a foreign address, and a second one of the same name but for its case. -/
def sameNames : TestSpecSuite where
  suite := ascii "s"
  tests := [{ name := ascii "Health", endpoint := ascii "http://e/" },{ name := ascii "health", endpoint := ascii "/" }]

def loneHealth : TestSpecSuite where
  suite := ascii "s"
  tests := sameNames.tests.take 1

theorem takesNothing_lone : TakesNothing { baseUrl := ascii "http://h" } loneHealth 0 ↔
    NameUnclaimed { baseUrl := ascii "http://h" } loneHealth 0
      { name := ascii "Health", endpoint := ascii "http://e/" } :=
  takesNothing_iff { baseUrl := ascii "http://h" } loneHealth 0 _ (by decide) rfl (by decide)

/-- The rejected test takes the second one with it. -/
theorem health_taken : ¬∀ (validator : SpecValidator) (suite : TestSpecSuite) (index : Nat) (spec : TestSpec),
    (suite.tests.length : Int) ≤ max 1 validator.config.maxGeneratedTests → suite.tests[index]? = some spec →
      validator.rejects spec = true → TakesNothing validator suite index := by
  intro holds
  have foreign : rejects { baseUrl := ascii "http://h" }
      { name := ascii "Health", endpoint := ascii "http://e/" } = true := by decide
  have local_ : rejects { baseUrl := ascii "http://h" } { name := ascii "health", endpoint := ascii "/" } = false := by
    decide
  have named : isSafeName (ascii "s") = .ok () := by decide
  have same : nameKey { name := ascii "Health", endpoint := ascii "http://e/" } =
      nameKey { name := ascii "health", endpoint := ascii "/" } := by decide
  have takes := holds { baseUrl := ascii "http://h" } sameNames 0 _ (by decide) rfl foreign
  simp [TakesNothing,validate_tests,kept,sameNames,named,maxTests,firstOfKey,foreign,local_,same] at takes

end TestForge.SpecValidator
