import TestForge.JsonAccess
import TestForge.TestResult
import TestForge.TestSpec

/-! Specifications as JSON: what is written, what is read, and which of them come back as they
were. The reader trims, defaults and narrows; the writer leaves empty parts out. -/
namespace TestForge

open Json Strings

/-! ### Objects with optional members -/

namespace Json.Value

def isObject : Value → Bool
  | .object _ => true
  | _ => false

/-- The members that there are, set one after the other. -/
def ofSections (sections : List (Bytes × Option Value)) : Value :=
  sections.foldl (fun target entry => setSome target entry.1 entry.2) (.object [])

/-- A member that is a number. -/
def numberAt (object : Value) (key : Bytes) : Option Value := (object.find key).filter (·.isNumber)

/-- The items of an array, read one after the other up to the first error. -/
def readAll (read : Value → Except Bytes α) : List Value → Except Bytes (List α)
  | [] => .ok []
  | item :: rest =>
    match read item with
    | .error message => .error message
    | .ok first => (readAll read rest).map (first :: ·)

end Json.Value

open Json.Value

/-! ### Assertions -/

namespace SpecAssertion

def kindNames : List (Kind × Bytes) := [
  (.statusCode,ascii "status_code"),
  (.statusCodeIn,ascii "status_code_in"),
  (.responseTimeUnder,ascii "response_time_under_ms"),
  (.bodyContains,ascii "body_contains"),
  (.bodyNotContains,ascii "body_not_contains"),
  (.jsonFieldExists,ascii "json_field_exists"),
  (.jsonFieldEquals,ascii "json_field_equals"),
  (.headerExists,ascii "header_exists"),
  (.headerEquals,ascii "header_equals")]

def kindName (kind : Kind) : Bytes := ((kindNames.find? (·.1 = kind)).map (·.2)).getD (ascii "unknown")

def kindFromString (text : Bytes) : Option Kind :=
  let normalised := toLower (trim text)
  (kindNames.find? (·.2 = normalised)).map (·.1)

def needsTarget (kind : Kind) : Bool :=
  kind = .jsonFieldExists || kind = .jsonFieldEquals || kind = .headerExists || kind = .headerEquals

def sections (assertion : SpecAssertion) : List (Bytes × Option Value) := [
  (ascii "kind",some (.string (kindName assertion.kind))),
  (ascii "target",if assertion.target = [] then none else some (.string assertion.target)),
  (ascii "expected",some assertion.expected)]

def toJson (assertion : SpecAssertion) : Value := ofSections assertion.sections

def fromJson (value : Value) : Except Bytes SpecAssertion :=
  if !value.isObject then .error (ascii "assertion must be an object")
  else
    let kindText := readString value (ascii "kind")
    match kindFromString kindText with
    | none => .error (ascii "unknown assertion kind '" ++ kindText ++ ascii "'; supported kinds are " ++
        join (kindNames.map (·.2)) (ascii ", "))
    | some kind =>
      let target := readString value (ascii "target")
      if needsTarget kind && target = [] then
        .error (ascii "assertion '" ++ kindName kind ++ ascii "' requires a non-empty 'target'")
      else .ok { kind, target, expected := (value.find (ascii "expected")).getD .null }

end SpecAssertion

/-! ### Tests -/

namespace TestSpec

def sections (spec : TestSpec) : List (Bytes × Option Value) := [
  (ascii "name",some (.string spec.name)),
  (ascii "description",some (.string spec.description)),
  (ascii "method",some (.string spec.method)),
  (ascii "endpoint",some (.string spec.endpoint)),
  (ascii "headers",if spec.headers = [] then none else some (objectOf spec.headers)),
  (ascii "body",if spec.body.isNull then none else some spec.body),
  (ascii "expected_status",some (.int spec.expectedStatus)),
  (ascii "acceptable_statuses",
    if spec.acceptableStatuses = [] then none else some (.array (spec.acceptableStatuses.map .int))),
  (ascii "max_response_time_ms",if spec.maxResponseTimeMs > 0 then some (.int spec.maxResponseTimeMs) else none),
  (ascii "assertions",if spec.assertions = [] then none else some (.array (spec.assertions.map (·.toJson)))),
  (ascii "tags",if spec.tags = [] then none else some (stringsToJson spec.tags))]

def toJson (spec : TestSpec) : Value := ofSections spec.sections

/-- The number a test states as its status, under either name. -/
def statusEntry (value : Value) : Option Value :=
  (value.numberAt (ascii "expected_status")).or (value.numberAt (ascii "expectedStatus"))

/-- The numbers of an array member; other items are skipped. -/
def statusEntries (value : Value) : List Value :=
  match value.find (ascii "acceptable_statuses") with
  | some (.array items) => items.filter (·.isNumber)
  | _ => []

def itemsAt (value : Value) (key : Bytes) : List Value :=
  match value.find key with
  | some (.array items) => items
  | _ => []

/-- `static_cast<int>(value.asInt())`. -/
def narrow (value : Value) : Int := toInt32 (value.intOr 0)

/-- `endpoint`, or else `path`. -/
def readEndpoint (value : Value) : Bytes :=
  let endpoint := trim (readString value (ascii "endpoint"))
  if endpoint = [] then trim (readString value (ascii "path")) else endpoint

def fromJson (value : Value) : Except Bytes TestSpec :=
  if !value.isObject then .error (ascii "test must be an object")
  else
    let name := trim (readString value (ascii "name"))
    if name = [] then .error (ascii "test is missing a 'name'")
    else
      let endpoint := readEndpoint value
      if endpoint = [] then .error (ascii "test '" ++ name ++ ascii "' is missing an 'endpoint'")
      else
        match readAll SpecAssertion.fromJson (itemsAt value (ascii "assertions")) with
        | .error message => .error (ascii "test '" ++ name ++ ascii "': " ++ message)
        | .ok assertions => .ok {
            name
            description := readString value (ascii "description")
            method := toUpper (trim (((value.find (ascii "method")).bind asString?).getD (ascii "GET")))
            endpoint
            headers := match value.find (ascii "headers") with
              | some (.object members) => members
              | _ => []
            body := (value.find (ascii "body")).getD .null
            expectedStatus := ((statusEntry value).map narrow).getD 200
            acceptableStatuses := (statusEntries value).map narrow
            maxResponseTimeMs := (readNumber value (ascii "max_response_time_ms")).getD 0
            assertions
            tags := stringsFromJson (value.find (ascii "tags")) }

end TestSpec

/-! ### Suites -/

namespace TestSpecSuite

def sections (suite : TestSpecSuite) : List (Bytes × Option Value) := [
  (ascii "suite",some (.string suite.suite)),
  (ascii "requirement",some (.string suite.requirement)),
  (ascii "source",some (.string suite.source)),
  (ascii "model",if suite.model = [] then none else some (.string suite.model)),
  (ascii "tests",some (.array (suite.tests.map (·.toJson)))),
  (ascii "test_count",some (.int suite.tests.length))]

def toJson (suite : TestSpecSuite) : Value := ofSections suite.sections

def fromJson (value : Value) : Except Bytes TestSpecSuite :=
  if !value.isObject then .error (ascii "the specification document must be a JSON object")
  else
    let suite := trim (readString value (ascii "suite"))
    if suite = [] then .error (ascii "the specification is missing a 'suite' name")
    else
      match value.find (ascii "tests") with
      | some (.array []) => .error (ascii "the specification contains no tests")
      | some (.array items) =>
        (readAll TestSpec.fromJson items).map fun tests => {
          suite
          requirement := readString value (ascii "requirement")
          source := readString value (ascii "source")
          model := readString value (ascii "model")
          tests }
      | _ => .error (ascii "the specification is missing a 'tests' array")

end TestSpecSuite

/-! ### Reading what was written -/

namespace Json.Value

theorem ofSections_eq (sections : List (Bytes × Option Value)) (distinct : (sections.map (·.1)).Nodup) :
    ofSections sections = .object (sections.filterMap fun entry => entry.2.map (entry.1,·)) :=
  foldl_setSome sections distinct

theorem find_filterMap_none (key : Bytes) (sections : List (Bytes × Option Value))
    (absent : key ∉ sections.map (·.1)) :
    (object (sections.filterMap fun entry => entry.2.map (entry.1,·))).find key = none := by
  simp only [find,Option.map_eq_none_iff,List.find?_eq_none,List.mem_filterMap,Option.map_eq_some_iff,
    decide_eq_true_eq]
  rintro member ⟨entry,listed,value,-,rfl⟩ same
  exact absent (List.mem_map.mpr ⟨entry,listed,same⟩)

theorem find_ofSections (sections : List (Bytes × Option Value)) (distinct : (sections.map (·.1)).Nodup)
    (key : Bytes) (value : Option Value) (listed : (key,value) ∈ sections) :
    (ofSections sections).find key = value := by
  rw [ofSections_eq sections distinct]
  induction sections with
  | nil => cases listed
  | cons entry rest ih =>
    rw [List.map_cons,List.nodup_cons] at distinct
    have absent : key = entry.1 → (object (rest.filterMap fun entry => entry.2.map (entry.1,·))).find key = none := by
      rintro rfl
      exact find_filterMap_none _ rest distinct.1
    rcases List.mem_cons.mp listed with rfl | later
    · cases value with
      | none => exact absent rfl
      | some value => simp [find]
    · have other : entry.1 ≠ key := by
        rintro rfl
        exact distinct.1 (List.mem_map.mpr ⟨_,later,rfl⟩)
      have tail := ih distinct.2 later
      obtain ⟨name,member⟩ := entry
      cases member with
      | none => exact tail
      | some member =>
        simpa [find,List.filterMap_cons,List.find?_cons,show name ≠ key from other] using tail

theorem isObject_ofSections (sections : List (Bytes × Option Value)) (distinct : (sections.map (·.1)).Nodup) :
    (ofSections sections).isObject = true := by
  rw [ofSections_eq _ distinct]
  rfl

section

variable (sections : List (Bytes × Option Value)) (distinct : (sections.map (·.1)).Nodup) (key text : Bytes)

include distinct

theorem readString_ofSections (listed : (key,some (.string text)) ∈ sections) :
    readString (ofSections sections) key = text := by
  rw [readString,find_ofSections _ distinct key _ listed]
  rfl

/-- A text that is left out when it is empty. -/
theorem readString_optional (listed : (key,if text = [] then none else some (.string text)) ∈ sections) :
    readString (ofSections sections) key = text := by
  rw [readString,find_ofSections _ distinct key _ listed]
  split
  · next absent => exact absent.symm
  · rfl

end

/-- Reading all items is reading each. -/
theorem readAll_ok (read : Value → Except Bytes α) (items : List Value) (out : List α) :
    readAll read items = .ok out ↔ List.Forall₂ (fun item value => read item = .ok value) items out := by
  induction items generalizing out with
  | nil =>
    rw [List.forall₂_nil_left_iff,readAll,Except.ok.injEq]
    exact eq_comm
  | cons item rest ih =>
    rw [readAll]
    constructor
    · intro done
      split at done
      · cases done
      · next first here =>
        cases later : readAll read rest with
        | error message =>
          rw [later] at done
          cases done
        | ok values =>
          rw [later] at done
          obtain rfl := Except.ok.inj done
          exact .cons here ((ih values).mp later)
    · rintro (_ | ⟨here,later⟩)
      rw [here,(ih _).mpr later]
      rfl

theorem readAll_mem {read : Value → Except Bytes α} {items : List Value} {out : List α}
    (done : readAll read items = .ok out) :
    ∀ value ∈ out, ∃ item ∈ items, read item = .ok value := by
  have pointwise := (readAll_ok read items out).mp done
  clear done
  induction pointwise with
  | nil => simp
  | cons here _ ih =>
    rw [List.forall_mem_cons]
    refine ⟨⟨_,List.mem_cons_self,here⟩,fun value member => ?_⟩
    obtain ⟨item,listed,read⟩ := ih value member
    exact ⟨item,List.mem_cons_of_mem _ listed,read⟩

/-- Items that are written and read back. -/
theorem readAll_map (read : Value → Except Bytes α) (write : β → Value) (after : β → α) (values : List β)
    (back : ∀ value ∈ values, read (write value) = .ok (after value)) :
    readAll read (values.map write) = .ok (values.map after) := by
  rw [readAll_ok,List.forall₂_map_left_iff,List.forall₂_map_right_iff,List.forall₂_same]
  exact back

end Json.Value

namespace Strings

@[simp] theorem upperAscii_upperAscii (c : UInt8) : upperAscii (upperAscii c) = upperAscii c := by
  unfold upperAscii
  grind

theorem isSpace_upperAscii (c : UInt8) : isSpace (upperAscii c) = isSpace c := by
  unfold upperAscii isSpace
  grind

/-- A method stays as it is when it is read again. -/
theorem upper_trim_again (text : Bytes) : toUpper (trim (toUpper (trim text))) = toUpper (trim text) := by
  have ends : trim (toUpper (trim text)) = toUpper (trim text) := by
    apply trim_of_ends
    · intro c first
      obtain ⟨d,shown,rfl⟩ := Option.map_eq_some_iff.mp ((List.head?_map ..).symm.trans first)
      rw [isSpace_upperAscii]
      exact (trim_ends text).1 d shown
    · intro c last
      obtain ⟨d,shown,rfl⟩ := Option.map_eq_some_iff.mp ((List.getLast?_map ..).symm.trans last)
      rw [isSpace_upperAscii]
      exact (trim_ends text).2 d shown
  rw [ends]
  simp [toUpper]

end Strings

namespace SpecAssertion

theorem kindFromString_kindName (kind : Kind) : kindFromString (kindName kind) = some kind := by
  cases kind <;> decide

theorem sections_distinct (assertion : SpecAssertion) : (assertion.sections.map (·.1)).Nodup := by
  simp only [sections,List.map_cons,List.map_nil]
  decide

/-- What reading leaves of an assertion: it has the target it needs. -/
theorem fromJson_ok (read : fromJson value = .ok assertion) :
    ¬(needsTarget assertion.kind && assertion.target = []) := by
  unfold fromJson at read
  split at read
  · cases read
  · simp only at read
    split at read
    · cases read
    · next kind _ =>
      by_cases missing : (needsTarget kind && decide (readString value (ascii "target") = [])) = true
      · rw [if_pos missing] at read
        cases read
      · rw [if_neg missing] at read
        obtain rfl := Except.ok.inj read
        exact missing

theorem reread (assertion : SpecAssertion) (targeted : ¬(needsTarget assertion.kind && assertion.target = [])) :
    fromJson assertion.toJson = .ok assertion := by
  have distinct := assertion.sections_distinct
  have kind : readString assertion.toJson (ascii "kind") = kindName assertion.kind :=
    readString_ofSections _ distinct _ _ (by simp [sections])
  have target : readString assertion.toJson (ascii "target") = assertion.target :=
    readString_optional _ distinct _ _ (by simp [sections])
  have expected : assertion.toJson.find (ascii "expected") = some assertion.expected :=
    find_ofSections _ distinct _ _ (by simp [sections])
  have object : assertion.toJson.isObject = true := isObject_ofSections _ distinct
  simp only [fromJson,object,kind,kindFromString_kindName,target,expected,if_neg targeted]
  rfl

end SpecAssertion

namespace TestSpec

theorem sections_distinct (spec : TestSpec) : (spec.sections.map (·.1)).Nodup := by
  simp only [sections,List.map_cons,List.map_nil]
  decide

/-- What every test that was read satisfies. -/
structure Normal (spec : TestSpec) : Prop where
  name : trim spec.name = spec.name ∧ spec.name ≠ []
  method : toUpper (trim spec.method) = spec.method
  endpoint : trim spec.endpoint = spec.endpoint ∧ spec.endpoint ≠ []
  expectedStatus : toInt32 spec.expectedStatus = spec.expectedStatus
  acceptableStatuses : ∀ status ∈ spec.acceptableStatuses, toInt32 status = status
  assertions : ∀ assertion ∈ spec.assertions,
    ¬(SpecAssertion.needsTarget assertion.kind && assertion.target = [])

theorem trim_readEndpoint (value : Value) : trim (readEndpoint value) = readEndpoint value := by
  simp only [readEndpoint]
  split
  · exact trim_trim _
  · exact trim_trim _

theorem toInt32_narrow (value : Value) : toInt32 (narrow value) = narrow value := by
  obtain ⟨_,_,low,high⟩ := toInt32_spec (value.intOr 0)
  exact (toInt32_eq_iff _).mpr ⟨low,high⟩

theorem fromJson_ok (read : fromJson value = .ok spec) : spec.Normal ∧
    spec.expectedStatus = ((statusEntry value).map narrow).getD 200 ∧
    spec.acceptableStatuses = (statusEntries value).map narrow := by
  unfold fromJson at read
  split at read
  · cases read
  · simp only at read
    split at read
    · cases read
    · next named =>
      split at read
      · cases read
      · next located =>
        split at read
        · cases read
        · next assertions listed =>
          obtain rfl := Except.ok.inj read
          refine ⟨?_,rfl,rfl⟩
          constructor
          case name => exact ⟨trim_trim _,named⟩
          case method => exact upper_trim_again _
          case endpoint => exact ⟨trim_readEndpoint value,located⟩
          case expectedStatus =>
            cases statusEntry value with
            | none => rfl
            | some entry => exact toInt32_narrow entry
          case acceptableStatuses =>
            intro status member
            obtain ⟨entry,-,rfl⟩ := List.mem_map.mp member
            exact toInt32_narrow entry
          case assertions =>
            intro assertion member
            obtain ⟨item,-,here⟩ := readAll_mem listed assertion member
            exact SpecAssertion.fromJson_ok here

/-- What reading makes of a test that was written: of two headers of one name the last stays, and
a negative budget is gone. -/
def reread (spec : TestSpec) : TestSpec :=
  { spec with headers := lastWins spec.headers, maxResponseTimeMs := max spec.maxResponseTimeMs 0 }

section

variable {spec : TestSpec}

theorem find_toJson (key : Bytes) (value : Option Value) (listed : (key,value) ∈ spec.sections) :
    spec.toJson.find key = value := find_ofSections _ spec.sections_distinct key value listed

theorem find_headers : (match spec.toJson.find (ascii "headers") with
    | some (.object members) => members
    | _ => []) = lastWins spec.headers := by
  rw [find_toJson _ (if spec.headers = [] then none else some (objectOf spec.headers)) (by simp [sections])]
  split
  · next members found =>
    split at found
    · cases found
    · rw [objectOf_eq] at found
      simpa using found.symm
  · next other =>
    by_cases none : spec.headers = []
    · rw [none]
      rfl
    · rw [if_neg none,objectOf_eq] at other
      exact absurd rfl (other _)

theorem find_body : (spec.toJson.find (ascii "body")).getD .null = spec.body := by
  rw [find_toJson _ (if spec.body.isNull then none else some spec.body) (by simp [sections])]
  cases spec.body <;> rfl

theorem statusEntry_toJson : statusEntry spec.toJson = some (.int spec.expectedStatus) := by
  rw [statusEntry,numberAt,find_toJson _ (some (.int spec.expectedStatus)) (by simp [sections])]
  rfl

theorem statusEntries_toJson : statusEntries spec.toJson = spec.acceptableStatuses.map .int := by
  rw [statusEntries,find_toJson _ (if spec.acceptableStatuses = [] then none
    else some (.array (spec.acceptableStatuses.map .int))) (by simp [sections])]
  by_cases none : spec.acceptableStatuses = []
  · simp [none]
  · simp [none,isNumber]

theorem budget_toJson :
    (readNumber spec.toJson (ascii "max_response_time_ms")).getD 0 = max spec.maxResponseTimeMs 0 := by
  rw [readNumber,find_toJson _ (if spec.maxResponseTimeMs > 0 then some (.int spec.maxResponseTimeMs) else none)
    (by simp [sections])]
  split
  · next positive => exact (max_eq_left positive.le).symm
  · next negative => exact (max_eq_right (not_lt.mp negative)).symm

theorem tags_toJson : stringsFromJson (spec.toJson.find (ascii "tags")) = spec.tags := by
  rw [find_toJson _ (if spec.tags = [] then none else some (stringsToJson spec.tags)) (by simp [sections])]
  split
  · next none => exact none.symm
  · exact stringsFromJson_stringsToJson spec.tags

theorem itemsAt_assertions : itemsAt spec.toJson (ascii "assertions") = spec.assertions.map (·.toJson) := by
  rw [itemsAt,find_toJson _ (if spec.assertions = [] then none else some (.array (spec.assertions.map (·.toJson))))
    (by simp [sections])]
  by_cases none : spec.assertions = []
  · simp [none]
  · simp [none]

theorem readString_toJson (key text : Bytes) (listed : (key,some (.string text)) ∈ spec.sections) :
    readString spec.toJson key = text := readString_ofSections _ spec.sections_distinct key text listed

theorem fromJson_toJson (normal : spec.Normal) : fromJson spec.toJson = .ok spec.reread := by
  have object : spec.toJson.isObject = true := isObject_ofSections _ spec.sections_distinct
  have name : readString spec.toJson (ascii "name") = spec.name := readString_toJson _ _ (by simp [sections])
  have description : readString spec.toJson (ascii "description") = spec.description :=
    readString_toJson _ _ (by simp [sections])
  have method : ((spec.toJson.find (ascii "method")).bind asString?).getD (ascii "GET") = spec.method := by
    rw [find_toJson _ (some (.string spec.method)) (by simp [sections])]
    rfl
  have endpoint : readEndpoint spec.toJson = spec.endpoint := by
    rw [readEndpoint,readString_toJson (ascii "endpoint") spec.endpoint (by simp [sections]),normal.endpoint.1,
      if_neg normal.endpoint.2]
  have assertions : readAll SpecAssertion.fromJson (itemsAt spec.toJson (ascii "assertions")) = .ok spec.assertions := by
    have back := readAll_map SpecAssertion.fromJson (·.toJson) id spec.assertions fun assertion member =>
      assertion.reread (normal.assertions assertion member)
    rwa [List.map_id,← itemsAt_assertions] at back
  have statuses : (spec.acceptableStatuses.map Value.int).map narrow = spec.acceptableStatuses := by
    rw [List.map_map]
    exact (List.map_congr_left normal.acceptableStatuses).trans (List.map_id _)
  simp only [fromJson,object,name,normal.name.1,if_neg normal.name.2,endpoint,if_neg normal.endpoint.2,assertions,
    description,method,normal.method,statusEntry_toJson,statusEntries_toJson,statuses,find_body,budget_toJson,tags_toJson,
    find_headers]
  simp [reread,narrow,intOr,normal.expectedStatus]

theorem reread_eq_iff : spec.reread = spec ↔ 0 ≤ spec.maxResponseTimeMs ∧ (spec.headers.map (·.1)).Nodup := by
  constructor
  · intro same
    have headers : lastWins spec.headers = spec.headers := congrArg TestSpec.headers same
    have budget : max spec.maxResponseTimeMs 0 = spec.maxResponseTimeMs := congrArg TestSpec.maxResponseTimeMs same
    refine ⟨by omega,?_⟩
    rw [← headers]
    exact lastWins_keys _
  · rintro ⟨budget,distinct⟩
    rw [reread,lastWins_distinct _ distinct,max_eq_left budget]

end

end TestSpec

namespace TestSpecSuite

theorem sections_distinct (suite : TestSpecSuite) : (suite.sections.map (·.1)).Nodup := by
  simp only [sections,List.map_cons,List.map_nil]
  decide

/-- The document's tests, one for one. -/
theorem fromJson_ok {doc : Value} {suite : TestSpecSuite} (read : fromJson doc = .ok suite) :
    trim suite.suite = suite.suite ∧ suite.suite ≠ [] ∧ suite.tests ≠ [] ∧
      List.Forall₂ (fun item spec => TestSpec.fromJson item = .ok spec)
      (TestSpec.itemsAt doc (ascii "tests")) suite.tests := by
  unfold fromJson at read
  split at read
  · cases read
  · simp only at read
    split at read
    · cases read
    · next named =>
      split at read
      · cases read
      · next items other found =>
        cases listed : readAll TestSpec.fromJson items with
        | error message =>
          rw [listed] at read
          cases read
        | ok tests =>
          rw [listed] at read
          obtain rfl := Except.ok.inj read
          have pointwise := (readAll_ok _ _ _).mp listed
          refine ⟨trim_trim _,named,?_,?_⟩
          · rintro (rfl : tests = [])
            obtain rfl := List.forall₂_nil_right_iff.mp pointwise
            exact other rfl
          · rwa [TestSpec.itemsAt,found]
      · cases read

theorem tests_normal {doc : Value} {suite : TestSpecSuite} (read : fromJson doc = .ok suite) :
    ∀ spec ∈ suite.tests, spec.Normal := by
  obtain ⟨-,-,-,pointwise⟩ := fromJson_ok read
  intro spec member
  obtain ⟨index,inside,rfl⟩ := List.getElem_of_mem member
  have here := pointwise.get (by rw [pointwise.length_eq]; exact inside) inside
  exact (TestSpec.fromJson_ok here).1

theorem readString_toJson (suite : TestSpecSuite) (key text : Bytes)
    (listed : (key,some (.string text)) ∈ suite.sections) : readString suite.toJson key = text :=
  readString_ofSections _ suite.sections_distinct key text listed

/-- A suite that was read is read again, test by test. -/
theorem fromJson_toJson {doc : Value} {suite : TestSpecSuite} (read : fromJson doc = .ok suite) :
    fromJson suite.toJson = .ok { suite with tests := suite.tests.map (·.reread) } := by
  obtain ⟨trimmed,named,some_,-⟩ := fromJson_ok read
  have object : suite.toJson.isObject = true := isObject_ofSections _ suite.sections_distinct
  have name : readString suite.toJson (ascii "suite") = suite.suite := suite.readString_toJson _ _ (by simp [sections])
  have requirement : readString suite.toJson (ascii "requirement") = suite.requirement :=
    suite.readString_toJson _ _ (by simp [sections])
  have source : readString suite.toJson (ascii "source") = suite.source :=
    suite.readString_toJson _ _ (by simp [sections])
  have model : readString suite.toJson (ascii "model") = suite.model :=
    readString_optional _ suite.sections_distinct _ _ (by simp [sections])
  have tests : suite.toJson.find (ascii "tests") = some (.array (suite.tests.map (·.toJson))) :=
    find_ofSections _ suite.sections_distinct _ _ (by simp [sections])
  have back := readAll_map TestSpec.fromJson (·.toJson) (·.reread) suite.tests fun spec member =>
    TestSpec.fromJson_toJson (tests_normal read spec member)
  simp only [fromJson,object,name,trimmed,if_neg named,requirement,source,model,tests]
  cases listed : suite.tests.map (·.toJson) with
  | nil => exact absurd (List.map_eq_nil_iff.mp listed) some_
  | cons first rest =>
    rw [listed] at back
    change Except.map _ (readAll TestSpec.fromJson (first :: rest)) = _
    rw [back]
    rfl

/-- The form of a suite loses nothing exactly when no budget is negative and no header of a test
is there twice. -/
theorem suite_restored_iff (doc : Value) (suite : TestSpecSuite) (read : fromJson doc = .ok suite) :
    fromJson suite.toJson = .ok suite ↔
      ∀ spec ∈ suite.tests, 0 ≤ spec.maxResponseTimeMs ∧ (spec.headers.map (·.1)).Nodup := by
  have same : fromJson suite.toJson = .ok suite ↔ suite.tests.map (·.reread) = suite.tests := by
    rw [fromJson_toJson read,Except.ok.injEq]
    constructor
    · exact congrArg TestSpecSuite.tests
    · intro same
      rw [same]
  calc fromJson suite.toJson = .ok suite
    _ ↔ suite.tests.map (·.reread) = suite.tests.map id := by rw [same,List.map_id]
    _ ↔ ∀ spec ∈ suite.tests, spec.reread = spec := List.map_inj_left
    _ ↔ _ := forall₂_congr fun _ _ => TestSpec.reread_eq_iff

/-- A suite of one test with a budget. -/
def budgeted (budget : Int) : TestSpecSuite where
  suite := ascii "s"
  tests := [{ name := ascii "t", endpoint := ascii "/", maxResponseTimeMs := budget }]

def budgetedDoc (budget : Int) : Value :=
  .object [(ascii "suite",.string (ascii "s")),(ascii "tests",.array [.object [(ascii "name",.string (ascii "t")),
    (ascii "endpoint",.string (ascii "/")),(ascii "max_response_time_ms",.int budget)]])]

theorem suite_restored_budget : fromJson (budgeted 250).toJson = .ok (budgeted 250) ↔
    ∀ spec ∈ (budgeted 250).tests, 0 ≤ spec.maxResponseTimeMs ∧ (spec.headers.map (·.1)).Nodup :=
  suite_restored_iff (budgetedDoc 250) (budgeted 250) rfl

/-- A budget below zero comes back as none. -/
theorem negative_budget_lost : ¬∀ (doc : Value) (suite : TestSpecSuite), fromJson doc = .ok suite →
    fromJson suite.toJson = .ok suite := by
  intro holds
  have back := holds (budgetedDoc (-1)) (budgeted (-1)) rfl
  have lost : fromJson (budgeted (-1)).toJson = .ok (budgeted 0) := rfl
  rw [lost,Except.ok.injEq] at back
  have budgets : ([0] : List Int) = [-1] := congrArg (fun suite => suite.tests.map (·.maxResponseTimeMs)) back
  simp at budgets

end TestSpecSuite
end TestForge
