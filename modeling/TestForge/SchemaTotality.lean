import TestForge.SidecarSchema

/-! When the sidecar's check of a specification raises nothing. Every type is tested before it is
used, but for the method, which is upper-cased even where it was reported, and the kind of an
assertion, which is looked up in a set. -/
namespace TestForge.Sidecar

open Python

variable {Float : Type} (runtime : Runtime Float)

/-- A method is text where one is given. -/
def MethodText (test : Value Float) : Prop := ∀ method, test.find (text "method") = some method → method.isStr = true

/-- No kind of an assertion is a list or an object. -/
def KindsHashable (test : Value Float) : Prop := ∀ items, test.find (text "assertions") = some (.list items) →
  ∀ assertion ∈ items, ∀ kind, assertion.find (text "kind") = some kind → kind.isHashable = true

def Checkable (specification : Value Float) : Prop := ∀ tests, specification.find (text "tests") = some (.list tests) →
  ∀ test ∈ tests, MethodText test ∧ KindsHashable test

/-! ### What the built-in operations need -/

theorem dict_of_isDict {value : Value Float} (dict : value.isDict = true) : ∃ items, value = .dict items := by
  cases value with
  | dict items => exact ⟨items,rfl⟩
  | _ => cases dict

theorem list_of_isList {value : Value Float} (list : value.isList = true) : ∃ items, value = .list items := by
  cases value with
  | list items => exact ⟨items,rfl⟩
  | _ => cases list

theorem find_of_not_dict {value : Value Float} (other : value.isDict = false) (key : Text) : value.find key = none := by
  cases value with
  | dict items => cases other
  | _ => rfl

theorem returns_get {value : Value Float} (dict : value.isDict = true) (key : Text) (default : Value Float) :
    Returns (value.get key default) := by
  obtain ⟨items,rfl⟩ := dict_of_isDict dict
  exact returns_ok _

theorem returns_asStr (value : Value Float) : Returns value.asStr ↔ value.isStr = true := by
  cases value with
  | str value => exact iff_of_true (returns_ok _) rfl
  | _ => exact iff_of_false (returns_error _) (by simp [Value.isStr])

theorem returns_isIn (value : Value Float) (members : List Text) : Returns (value.isIn members) ↔ value.isHashable = true := by
  cases value with
  | list items => exact iff_of_false (returns_error _) (by simp [Value.isHashable])
  | dict items => exact iff_of_false (returns_error _) (by simp [Value.isHashable])
  | _ => exact iff_of_true (returns_ok _) rfl

/-! ### One test -/

theorem isStr_of_checked {value : Value Float} (checked : ¬(!value.isStr || !value.truthy runtime) = true) :
    value.isStr = true := by
  simp only [Bool.or_eq_true,Bool.not_eq_true'] at checked
  simpa using (not_or.mp checked).1

theorem returns_nameProblem (name : Value Float) : Returns (nameProblem runtime name) := by
  rw [nameProblem]
  split
  · exact returns_ok _
  · next checked => exact ((returns_asStr name).mpr (isStr_of_checked runtime checked)).bind fun _ => returns_pure _

theorem returns_endpointProblem (endpoint : Value Float) : Returns (endpointProblem runtime endpoint) := by
  rw [endpointProblem]
  split
  · exact returns_ok _
  · next checked => exact ((returns_asStr endpoint).mpr (isStr_of_checked runtime checked)).bind fun _ => returns_pure _

theorem returns_methodAllowed (method : Value Float) : Returns (methodAllowed runtime method) := by
  rw [methodAllowed]
  split
  · exact returns_ok _
  · next checked => exact ((returns_asStr method).mpr (by simpa using checked)).bind fun _ => returns_pure _

theorem returns_integerBetween (low high : Int) (value : Value Float) :
    Returns (integerBetween runtime low high value) := by
  rw [integerBetween]
  split
  · exact returns_ok _
  · next checked =>
    cases value with
    | int value => exact returns_ok _
    | _ => simp [Value.isInt,Value.isBool] at checked

section
variable {test : Value Float} (dict : test.isDict = true) (here : Text)
include dict

theorem returns_nameProblems : Returns (nameProblems runtime here test) :=
  (returns_get dict _ _).bind fun _ => (returns_nameProblem runtime _).bind fun _ => returns_pure _

theorem returns_methodProblems : Returns (methodProblems runtime here test) :=
  (returns_get dict _ _).bind fun _ => (returns_methodAllowed runtime _).bind fun _ => returns_pure _

theorem returns_endpointProblems : Returns (endpointProblems runtime here test) :=
  (returns_get dict _ _).bind fun _ => (returns_endpointProblem runtime _).bind fun _ => returns_pure _

theorem returns_statusProblems : Returns (statusProblems runtime here test) :=
  (returns_get dict _ _).bind fun _ => (returns_integerBetween runtime _ _ _).bind fun _ => returns_pure _

theorem returns_budgetProblems : Returns (budgetProblems runtime here test) := by
  refine (returns_get dict _ _).bind fun budget => ?_
  cases budget with
  | none => exact returns_pure _
  | _ => exact (returns_integerBetween runtime _ _ _).bind fun _ => returns_pure _

theorem returns_headersProblems : Returns (headersProblems runtime here test) := by
  refine (returns_get dict _ _).bind fun headers => ?_
  split
  · exact returns_ok _
  · split
    · exact returns_ok _
    · next checked =>
      obtain ⟨items,rfl⟩ := dict_of_isDict (by simpa using checked)
      exact (returns_ok _).bind fun _ => (returns_ok _).bind fun _ => returns_pure _

/-- The method is used as a text here, whatever was found out about it. -/
theorem returns_bodyProblems : Returns (bodyProblems runtime here test) ↔ MethodText test := by
  obtain ⟨items,rfl⟩ := dict_of_isDict dict
  have body (upper : Text) : Returns (do
      let body ← (Value.dict items).get (text "body")
      return if [text "GET",text "HEAD"].contains (runtime.upper upper) && !isBlank body then
        [here ++ text ".body: a " ++ runtime.upper upper ++ text " request should not carry a body"] else []) :=
    (returns_get rfl _ _).bind fun _ => returns_pure _
  rw [bodyProblems,returns_bind_and (P := ((items.lookup (text "method")).getD (.str (text "GET"))).isStr = true)]
  · rw [and_iff_right (returns_get rfl _ _),MethodText,Value.find]
    cases found : items.lookup (text "method") with
    | none => simp [Value.isStr]
    | some method => simp
  · intro method got
    obtain rfl := Except.ok.inj got
    rw [returns_bind_and fun upper _ => iff_of_true (body upper) trivial,and_true,returns_asStr]

end

theorem returns_assertionProblems (spot : Text) (assertion : Value Float) :
    Returns (assertionProblems runtime spot assertion) ↔
      ∀ kind, assertion.find (text "kind") = some kind → kind.isHashable = true := by
  rw [assertionProblems]
  split
  · next other =>
    refine iff_of_true (returns_ok _) fun kind found => ?_
    rw [find_of_not_dict (by simpa using other)] at found
    cases found
  · next dict =>
    obtain ⟨items,rfl⟩ := dict_of_isDict (by simpa using dict)
    rw [returns_bind_and (P := (((items.lookup (text "kind")).getD .none).isHashable = true))]
    · rw [and_iff_right (returns_get rfl _ _),Value.find]
      cases found : items.lookup (text "kind") with
      | none => simp [Value.isHashable]
      | some kind => simp
    · intro kind got
      obtain rfl := Except.ok.inj got
      rw [returns_bind_and (P := True),and_true,returns_isIn]
      intro known same
      have hashable := (returns_isIn _ _).mp ⟨known,same⟩
      refine iff_of_true ?_ trivial
      split
      · exact returns_ok _
      · exact ((returns_isIn _ _).mpr hashable).bind fun _ => (returns_get rfl _ _).bind fun _ => returns_pure _

theorem returns_assertionsProblems {test : Value Float} (dict : test.isDict = true) (here : Text) :
    Returns (assertionsProblems runtime here test) ↔ KindsHashable test := by
  obtain ⟨members,rfl⟩ := dict_of_isDict dict
  rw [assertionsProblems,returns_bind_and (P := KindsHashable (.dict members)),and_iff_right (returns_get rfl _ _)]
  intro assertions got
  obtain rfl := Except.ok.inj got
  rw [KindsHashable,Value.find]
  cases found : members.lookup (text "assertions") with
  | none => exact iff_of_true (returns_ok _) (by simp)
  | some assertions =>
    rw [Option.getD_some]
    by_cases list : assertions.isList = true
    · obtain ⟨items,rfl⟩ := list_of_isList list
      cases items with
      | nil => exact iff_of_true (returns_ok _) (by simp)
      | cons first items =>
        have each : Returns (gather ((first :: items).zipIdx.map fun item =>
            assertionProblems runtime (here ++ text ".assertions[" ++ decimal item.2 ++ text "]") item.1)) ↔
            ∀ assertion ∈ first :: items, ∀ kind, assertion.find (text "kind") = some kind → kind.isHashable = true := by
          rw [returns_gather,List.forall_mem_map]
          constructor
          · intro all assertion member
            obtain ⟨i,inside,same⟩ := List.mem_iff_getElem.mp member
            have listed : (assertion,i) ∈ (first :: items).zipIdx := by
              rw [List.mem_zipIdx_iff_getElem?,← same]
              exact List.getElem?_eq_getElem inside
            exact (returns_assertionProblems runtime _ _).mp (all _ listed)
          · intro all item member
            exact (returns_assertionProblems runtime _ _).mpr (all item.1 (List.fst_mem_of_mem_zipIdx member))
        simp only [Option.some.injEq,Value.list.injEq,forall_eq']
        rw [← each]
        exact (returns_bind_and fun problems _ => iff_of_true (returns_pure _) trivial).trans (iff_of_eq (and_true _))
    · refine iff_of_true ?_ ?_
      · simp only [list]
        split
        · exact returns_ok _
        · exact returns_ok _
      · intro items same
        rw [Option.some.injEq] at same
        rw [same] at list
        exact (list rfl).elim

theorem returns_validateTest (test : Value Float) (index : Nat) :
    Returns (validateTest runtime test index) ↔ MethodText test ∧ KindsHashable test := by
  rw [validateTest]
  split
  · next other =>
    have nothing (key : Text) : test.find key = none := find_of_not_dict (by simpa using other) key
    refine iff_of_true (returns_ok _) ⟨?_,?_⟩
    · intro method found
      rw [nothing] at found
      cases found
    · intro items found
      rw [nothing] at found
      cases found
  · next checked =>
    have dict : test.isDict = true := by simpa using checked
    rw [returns_gather]
    simp only [List.mem_cons,List.not_mem_nil,or_false,forall_eq_or_imp,forall_eq]
    simp only [returns_nameProblems runtime dict,returns_methodProblems runtime dict,returns_endpointProblems runtime dict,
      returns_statusProblems runtime dict,returns_budgetProblems runtime dict,returns_headersProblems runtime dict,
      returns_assertionsProblems runtime dict,returns_bodyProblems runtime dict,true_and,and_comm]

/-! ### The specification -/

theorem returns_noteName (test : Value Float) (index : Nat) (seen : Seen) : Returns (noteName runtime test index seen) := by
  rw [noteName]
  split
  · exact returns_ok _
  · next checked =>
    refine (returns_get (by simpa using checked) _ _).bind fun given => ?_
    simp only []
    split
    · exact returns_ok _
    · split
      · exact returns_ok _
      · exact returns_ok _

/-- The tests are checked one by one, whatever was found before. -/
theorem returns_testsProblems (tests : List (Value Float)) (index : Nat) (seen : Seen) :
    Returns (testsProblems runtime tests index seen) ↔ ∀ test ∈ tests, MethodText test ∧ KindsHashable test := by
  induction tests generalizing index seen with
  | nil => exact iff_of_true (returns_ok _) (by simp)
  | cons test tests ih =>
    rw [testsProblems,returns_bind_and (P := ∀ test ∈ tests, MethodText test ∧ KindsHashable test),returns_validateTest,
      List.forall_mem_cons]
    intro problems _
    rw [returns_bind_and (P := ∀ test ∈ tests, MethodText test ∧ KindsHashable test),
      and_iff_right (returns_noteName runtime test index seen)]
    intro noted _
    rw [returns_bind_and fun later _ => iff_of_true (returns_pure _) trivial,and_true,ih]

theorem returns_validateSpecification (specification suite : Value Float) (maxTests : Int) :
    Returns (validateSpecification runtime specification suite maxTests) ↔ Checkable specification := by
  rw [validateSpecification]
  split
  · next other =>
    refine iff_of_true (returns_ok _) fun tests found => ?_
    rw [find_of_not_dict (by simpa using other)] at found
    cases found
  · next checked =>
    obtain ⟨members,rfl⟩ := dict_of_isDict (by simpa using checked)
    rw [returns_bind_and (P := Checkable (.dict members)),and_iff_right (returns_get rfl _ _)]
    intro declared _
    rw [returns_bind_and (P := Checkable (.dict members)),and_iff_right (returns_nameProblem runtime declared)]
    intro problem _
    rw [returns_bind_and (P := Checkable (.dict members)),and_iff_right (returns_get rfl _ _)]
    intro tests got
    obtain rfl := Except.ok.inj got
    rw [Checkable,Value.find]
    cases found : members.lookup (text "tests") with
    | none => exact iff_of_true (returns_ok _) (by simp)
    | some tests =>
      rw [Option.getD_some]
      by_cases list : tests.isList = true
      · obtain ⟨items,rfl⟩ := list_of_isList list
        simp only [Option.some.injEq,Value.list.injEq,forall_eq']
        cases items with
        | nil => exact iff_of_true (returns_ok _) (by simp)
        | cons first items =>
          rw [← returns_testsProblems runtime (first :: items) 0 []]
          exact (returns_bind_and fun problems _ => iff_of_true (returns_pure _) trivial).trans (iff_of_eq (and_true _))
      · refine iff_of_true ?_ ?_
        · simp only [list]
          exact returns_ok _
        · intro items same
          rw [Option.some.injEq] at same
          rw [same] at list
          exact (list rfl).elim

/-- What nothing is reported about is an object. -/
theorem isDict_of_accepted {specification suite : Value Float} {maxTests : Int}
    (accepted : validateSpecification runtime specification suite maxTests = .ok []) : specification.isDict = true := by
  rw [validateSpecification] at accepted
  split at accepted
  · cases accepted
  · next checked => simpa using checked

/-! ### The reply -/

/-- A reply is given; it tells the problems found, and says that the answer was not accepted
unless there were none. -/
def Replies (call : Generated Float) (parsed : Value Float) : Prop :=
  ∃ reply, generateTests runtime call parsed = .ok reply ∧
    (validateSpecification runtime (answered parsed) (.str call.suite) (min call.maxTests maxTestsCeiling) ≠ .ok [] →
      reply.find (text "ok") = some (.bool false)) ∧
    ∀ problems, parsed.isDict = true →
      validateSpecification runtime (answered parsed) (.str call.suite) (min call.maxTests maxTestsCeiling) = .ok problems →
      problems ≠ [] → reply = rejection call.model (answered parsed) problems

theorem generateTests_object (call : Generated Float) (members : List (Text × Value Float)) :
    generateTests runtime call (.dict members) = validateSpecification runtime (answered (.dict members))
      (.str call.suite) (min call.maxTests maxTestsCeiling) >>= replyTo call (answered (.dict members)) := rfl

theorem replies_iff_object (call : Generated Float) (members : List (Text × Value Float)) :
    Replies runtime call (.dict members) ↔ Returns (validateSpecification runtime (answered (.dict members))
      (.str call.suite) (min call.maxTests maxTestsCeiling)) := by
  constructor
  · rintro ⟨reply,given,-,-⟩
    rw [generateTests_object] at given
    obtain ⟨problems,same,-⟩ := (returns_bind _ _).mp ⟨reply,given⟩
    exact ⟨problems,same⟩
  · rintro ⟨problems,same⟩
    have given : generateTests runtime call (.dict members) = replyTo call (answered (.dict members)) problems := by
      rw [generateTests_object,same]
      rfl
    by_cases nothing : problems = []
    · subst nothing
      obtain ⟨items,object⟩ := dict_of_isDict (isDict_of_accepted runtime same)
      have accepted : Returns (replyTo call (answered (.dict members)) []) := by
        rw [object]
        exact returns_ok _
      obtain ⟨reply,accepting⟩ := accepted
      refine ⟨reply,given.trans accepting,fun refused => (refused same).elim,fun problems _ found some => ?_⟩
      exact (some (Except.ok.inj (found.symm.trans same))).elim
    · refine ⟨_,given.trans (if_pos nothing),fun _ => rfl,fun others _ found _ => ?_⟩
      rw [Except.ok.inj (same.symm.trans found)]

/-- The check raises nothing, and every answer it rejects gets its reply, exactly when no test
has a method that is no text or an assertion whose kind is a list or an object. -/
theorem schema_check_total_iff :
    (∀ (specification suite : Value Float) (maxTests : Int),
      (∃ problems, validateSpecification runtime specification suite maxTests = .ok problems) ↔ Checkable specification) ∧
    ∀ (call : Generated Float) (parsed : Value Float), Replies runtime call parsed ↔ Checkable (answered parsed) := by
  refine ⟨returns_validateSpecification runtime,fun call parsed => ?_⟩
  by_cases dict : parsed.isDict = true
  · obtain ⟨members,rfl⟩ := dict_of_isDict dict
    rw [replies_iff_object,returns_validateSpecification]
  · have other : parsed.isDict = false := by simpa using dict
    have whole : answered parsed = parsed := by rw [answered,find_of_not_dict other]; rfl
    refine iff_of_true ⟨unavailable call.model (text "the model returned JSON that is not an object"),?_,fun _ => rfl,
      fun _ object => (dict object).elim⟩ ?_
    · rw [generateTests,objectAnswer,if_neg dict]
    · intro tests found
      rw [whole,find_of_not_dict other] at found
      cases found

/-- Case and printing of ASCII texts; floats do not occur. -/
def asciiRuntime : Runtime Empty where
  upper := List.map fun c => if 97 ≤ c ∧ c ≤ 122 then c - 32 else c
  lower := List.map fun c => if 65 ≤ c ∧ c ≤ 90 then c + 32 else c
  printable := fun _ => false
  truthy := Empty.elim
  between := fun _ _ => Empty.elim
  repr := Empty.elim

/-- A specification with one test that has these members besides its name and endpoint. -/
def oneTest (members : List (Text × Value Empty)) : Value Empty := .dict [
  (text "suite",.str (text "s")),
  (text "tests",.list [.dict ((text "name",.str (text "t")) :: (text "endpoint",.str (text "/x")) :: members)])]

def sampleCall : Generated Empty where
  requirement := text "r"
  suite := text "s"
  maxTests := 10
  model := text "m"
  elapsedMs := 0
  usage := .dict []

example : validateSpecification asciiRuntime (oneTest [(text "method",.str (text "get"))]) .none 10 = .ok [] := rfl

example : validateSpecification asciiRuntime (oneTest [(text "expected_status",.bool true)]) .none 10 =
    .ok [text "tests[0].expected_status: True is not a status code in 100-599"] := rfl

/-- A method that is null, and a kind that is a list. -/
theorem wrong_types_raise :
    generateTests asciiRuntime sampleCall (oneTest [(text "method",.none)]) = .error .attributeError ∧
    generateTests asciiRuntime sampleCall (oneTest [(text "assertions",.list [.dict [(text "kind",.list [])]])]) =
      .error .typeError ∧
    ¬∀ specification suite maxTests, ∃ problems,
      validateSpecification asciiRuntime specification suite maxTests = .ok problems := by
  refine ⟨rfl,rfl,fun total => ?_⟩
  obtain ⟨problems,same⟩ := total (oneTest [(text "method",.none)]) (.str (text "s")) 10
  cases same

end TestForge.Sidecar
