import TestForge.SpecGate
import TestForge.SpecVerdict

/-! When the outcome of a generated test is what its conditions say. -/
namespace TestForge

open Json Strings

namespace SpecAssertion

/-- The check passes by coercion, although what is described does not hold. -/
def Coerced (a : SpecAssertion) (response : HttpResponse) (elapsed : Int) : Prop :=
  match a.kind with
  | .statusCode => toInt32 (a.expected.intOr 200) = response.statusCode ∧
      (Value.int response.statusCode).same a.expected = false
  | .statusCodeIn => response.statusCode ∈ allowed a.expected ∧
      ∀ item ∈ a.expected.items, (Value.int response.statusCode).same item = false
  | .responseTimeUnder => elapsed = a.expected.intOr 0 ∧ a.expected.exceeds elapsed = false
  | .bodyContains => a.expected.asString? = none ∧ ¬a.expected.dump <:+: response.body
  | .jsonFieldEquals => ∃ document ∈ response.document, ∃ found ∈ document.path a.target,
      found.equals a.expected = true ∧ found.same a.expected = false
  | .headerEquals => response.headers.getOr a.target [] = a.expected.stringOr [] ∧
      (response.headers.get a.target = none ∨ a.expected.asString? = none)
  | .bodyNotContains | .jsonFieldExists | .headerExists => False

/-- The check fails whatever the body is. -/
def Hopeless (a : SpecAssertion) : Prop := a.kind = .bodyNotContains ∧ a.expected.asString? = none

/-- The check reads the body as JSON. -/
def ReadsJson (a : SpecAssertion) : Prop := a.kind = .jsonFieldExists ∨ a.kind = .jsonFieldEquals

/-- A response time bound is a positive number, as the validator wants it. -/
def Bounded (a : SpecAssertion) : Prop :=
  a.kind = .responseTimeUnder → a.expected.isNumber = true ∧ 0 < a.expected.intOr 0

end SpecAssertion

namespace Json.Value

theorem same_int (z : Int) (value : Value) (equal : (Value.int z).same value = true) (fallback : Int) :
    value.isNumber = true ∧ value.intOr fallback = z := by
  cases value with
  | int other =>
    rw [same,equalsBy,beq_iff_eq] at equal
    exact ⟨rfl,equal.symm⟩
  | double d =>
    rw [same,equalsBy] at equal
    exact ⟨rfl,d.toInt_of_isInt z equal⟩
  | _ => simp [same,equalsBy] at equal

end Json.Value

theorem Double.le_toInt (d : Double) (z : Int) (above : d.above z = true) : z ≤ d.toInt := by
  rw [Double.above,decide_eq_true_iff] at above
  simp only [-Nat.reducePow,toInt,Int.natCast_ediv]
  have positive : 0 < ((2^1074 : Nat) : Int) := Int.natCast_pos.mpr (pow_pos Nat.two_pos 1074)
  generalize ((2^1074 : Nat) : Int) = unit at *
  cases sign : d.negative with
  | true =>
    rw [sign,if_pos rfl] at above
    have below := Int.ediv_lt_of_lt_mul positive (show (d.units : Int) < -z * unit by rw [Int.neg_mul]; omega)
    simp only [if_true]
    omega
  | false =>
    rw [sign,if_neg Bool.false_ne_true] at above
    exact Int.le_ediv_of_mul_le positive (Int.le_of_lt above)

/-- Truncation leaves at most an integer that a positive double is not above. -/
theorem Double.toInt_le (d : Double) (z : Int) (whole : 0 < d.toInt) (below : d.above z = false) : d.toInt ≤ z := by
  rw [Double.above,decide_eq_false_iff_not,Int.not_lt] at below
  simp only [-Nat.reducePow,toInt,Int.natCast_ediv] at whole ⊢
  have positive : 0 < ((2^1074 : Nat) : Int) := Int.natCast_pos.mpr (pow_pos Nat.two_pos 1074)
  generalize ((2^1074 : Nat) : Int) = unit at *
  cases sign : d.negative with
  | true =>
    have quotient := Int.ediv_nonneg (Int.natCast_nonneg d.units) (Int.le_of_lt positive)
    simp only [sign,if_true] at whole
    omega
  | false =>
    rw [sign,if_neg Bool.false_ne_true] at below
    exact Int.ediv_le_of_le_mul positive below

namespace Json.Value

theorem le_intOr (value : Value) (z : Int) (above : value.exceeds z = true) : z ≤ value.intOr 0 := by
  cases value with
  | int n => exact Int.le_of_lt (of_decide_eq_true above)
  | double d => exact d.le_toInt z above
  | _ => simp [exceeds] at above

theorem intOr_le (value : Value) (z : Int) (number : value.isNumber = true) (positive : 0 < value.intOr 0)
    (below : value.exceeds z = false) : value.intOr 0 ≤ z := by
  cases value with
  | int n => exact Int.not_lt.mp (of_decide_eq_false below)
  | double d => exact d.toInt_le z positive below
  | _ => simp [isNumber] at number

theorem null_path (dotted : Bytes) : path dotted .null = none := by
  rw [path]
  cases parts : split dotted 46 false with
  | nil => exact absurd parts (by simp [split])
  | cons segment rest => simp [find]

end Json.Value

theorem HttpResponse.jsonOrThrow_cases (response : HttpResponse) :
    (∃ failure, response.jsonOrThrow = .error failure ∧ response.body ≠ [] ∧ response.document = none) ∨
    (response.jsonOrThrow = .ok .null ∧ response.body = [] ∧ response.document = none) ∨
    ∃ document, response.jsonOrThrow = .ok document ∧ response.document = some document := by
  rw [jsonOrThrow,document]
  by_cases empty : response.body = []
  · exact .inr (.inl (by simp [empty]))
  · rw [if_neg empty,if_neg empty,tryParse]
    cases parse {} response.body with
    | error error => exact .inl ⟨_,rfl,empty,rfl⟩
    | ok document => exact .inr (.inr ⟨document,rfl,rfl⟩)

/-- What the checks of the two JSON assertions have in common: an empty body reads as null. -/
theorem HttpResponse.read_json (response : HttpResponse) (read : Value → Report) (report : Report)
    (done : response.jsonOrThrow.map read = .ok report) (absent : (read .null).succeeded = false) :
    report.succeeded = true ↔ ∃ document ∈ response.document, (read document).succeeded = true := by
  rcases response.jsonOrThrow_cases with ⟨_,thrown,-⟩ | ⟨null,-,missing⟩ | ⟨document,parsed,there⟩
  · simp [thrown,Except.map] at done
  · rw [null] at done
    obtain rfl := Except.ok.inj done
    simp [missing,absent]
  · rw [parsed] at done
    obtain rfl := Except.ok.inj done
    simp [there]

namespace SpecTestCase

open SpecAssertion

variable (target : Bytes) (expected : Value) (response : HttpResponse) (elapsed : Int)

theorem evaluate_statusCodeIn (sized : toInt32 response.statusCode = response.statusCode) :
    response.statusCode ∈ allowed expected ↔
      (∃ item ∈ expected.items, (Value.int response.statusCode).same item = true) ∨
        response.statusCode ∈ allowed expected ∧
          ∀ item ∈ expected.items, (Value.int response.statusCode).same item = false := by
  have exact : (∃ item ∈ expected.items, (Value.int response.statusCode).same item = true) →
      response.statusCode ∈ allowed expected := by
    rintro ⟨item,member,equal⟩
    obtain ⟨number,value⟩ := Value.same_int _ _ equal 0
    exact List.mem_map.mpr ⟨item,List.mem_filter.mpr ⟨member,number⟩,by rw [value,sized]⟩
  by_cases found : ∃ item ∈ expected.items, (Value.int response.statusCode).same item = true
  · exact ⟨fun _ => .inl found,fun _ => exact found⟩
  · refine ⟨fun within => .inr ⟨within,fun item member => ?_⟩,fun either => either.elim exact And.left⟩
    exact Bool.eq_false_iff.mpr fun equal => found ⟨item,member,equal⟩

theorem evaluate_bodyContains : contains response.body (expected.stringOr []) = true ↔
    expected.text <:+: response.body ∨ expected.asString? = none ∧ ¬expected.dump <:+: response.body := by
  rw [contains_iff,Value.stringOr,Value.text]
  cases expected.asString? with
  | some text => simp
  | none => simp [Classical.em]

theorem evaluate_headerEquals : response.headers.getOr target [] = expected.stringOr [] ↔
    (∃ value ∈ response.headers.get target, expected = .string value) ∨
      response.headers.getOr target [] = expected.stringOr [] ∧
        (response.headers.get target = none ∨ expected.asString? = none) := by
  rw [HttpHeaders.getOr,Value.stringOr]
  cases response.headers.get target with
  | none => simp
  | some value =>
    cases text : expected.asString? with
    | none =>
      have other : expected ≠ .string value := fun same => by simp [same,Value.asString?] at text
      simp [other]
    | some wanted =>
      obtain rfl := Value.asString?_eq_some.mp text
      simp [eq_comm]

theorem evaluate_jsonFieldEquals (document : Value) :
    (Assertions.jsonFieldEquals document target expected).succeeded = true ↔
      ∃ found ∈ document.path target, found.equals expected = true := by
  rw [Assertions.jsonFieldEquals]
  cases document.path target <;> simp

/-- A check passes where what is described holds, save where no check could, and where it holds
by coercion only. -/
theorem evaluate_succeeds (a : SpecAssertion) (bounded : a.Bounded)
    (sized : toInt32 response.statusCode = response.statusCode) (report : Report)
    (done : evaluate a response elapsed = .ok report) :
    report.succeeded = true ↔ a.Holds response elapsed ∧ ¬a.Hopeless ∨ a.Coerced response elapsed := by
  obtain ⟨kind,target,expected⟩ := a
  cases kind with
  | statusCode =>
    obtain rfl := Except.ok.inj done
    have exact := fun equal => (Value.same_int response.statusCode expected equal 200).2
    by_cases equal : (Value.int response.statusCode).same expected = true
    · simp [Holds,Coerced,Hopeless,Assertions.statusCode,equal,exact equal,sized]
    · simp [Holds,Coerced,Hopeless,Assertions.statusCode,equal,eq_comm (a := response.statusCode)]
  | statusCodeIn =>
    obtain rfl := Except.ok.inj done
    simpa [Holds,Coerced,Hopeless,Assertions.statusCodeIn] using evaluate_statusCodeIn expected response sized
  | responseTimeUnder =>
    obtain rfl := Except.ok.inj done
    obtain ⟨number,positive⟩ := bounded rfl
    simp only [Holds,Coerced,Hopeless,Assertions.responseTime,decide_eq_true_eq,reduceCtorEq,false_and,not_false_eq_true,
      and_true]
    cases above : expected.exceeds elapsed with
    | true => simp [expected.le_intOr elapsed above]
    | false =>
      have least := expected.intOr_le elapsed number positive above
      simp only [Bool.false_eq_true,and_true,false_or]
      omega
  | bodyContains =>
    obtain rfl := Except.ok.inj done
    simpa [Holds,Coerced,Hopeless,Assertions.containsSubstring] using evaluate_bodyContains expected response
  | bodyNotContains =>
    obtain rfl := Except.ok.inj done
    simp only [Holds,Coerced,Hopeless,Assertions.doesNotContainSubstring,Bool.not_eq_true',Bool.eq_false_iff,ne_eq,
      contains_iff,Value.stringOr,Value.text,true_and,or_false]
    cases expected.asString? with
    | some text => simp
    | none => simp
  | jsonFieldExists =>
    have absent : (Assertions.jsonHasField .null target).succeeded = false := by
      simp [Assertions.jsonHasField,Value.null_path]
    rw [response.read_json _ report done absent]
    simp [Holds,Coerced,Hopeless,Assertions.jsonHasField]
  | jsonFieldEquals =>
    have absent : (Assertions.jsonFieldEquals .null target expected).succeeded = false := by
      simp [Assertions.jsonFieldEquals,Value.null_path]
    rw [response.read_json _ report done absent]
    simp only [Holds,Coerced,Hopeless,evaluate_jsonFieldEquals,reduceCtorEq,false_and,not_false_eq_true,and_true]
    constructor
    · rintro ⟨document,there,found,path,equal⟩
      cases exact : found.same expected with
      | true => exact .inl ⟨document,there,found,path,exact⟩
      | false => exact .inr ⟨document,there,found,path,equal,exact⟩
    · rintro (⟨document,there,found,path,exact⟩ | ⟨document,there,found,path,equal,-⟩)
      · exact ⟨document,there,found,path,Value.equals_of_same _ _ exact⟩
      · exact ⟨document,there,found,path,equal⟩
  | headerExists =>
    obtain rfl := Except.ok.inj done
    simp [Holds,Coerced,Hopeless]
  | headerEquals =>
    obtain rfl := Except.ok.inj done
    simpa [Holds,Coerced,Hopeless] using evaluate_headerEquals target expected response

end SpecTestCase

namespace SpecCondition

variable (response : HttpResponse) (elapsed : Int)

def Coerced : SpecCondition → Prop
  | .assertion a => a.Coerced response elapsed
  | _ => False

def Hopeless : SpecCondition → Prop
  | .assertion a => a.Hopeless
  | _ => False

def ReadsJson : SpecCondition → Prop
  | .assertion a => a.ReadsJson
  | _ => False

/-- The outcome of the check on a readable response. -/
def Passes (condition : SpecCondition) : Prop :=
  condition.Holds response elapsed ∧ ¬condition.Hopeless ∨ condition.Coerced response elapsed

end SpecCondition

theorem TestSpec.mem_assertions (spec : TestSpec) {a : SpecAssertion} (member : .assertion a ∈ spec.conditions) :
    a ∈ spec.assertions := by
  simp only [TestSpec.conditions,List.cons_append,List.mem_cons,List.mem_append,List.mem_map] at member
  rcases member with first | latency | ⟨_,listed,same⟩
  · split at first <;> cases first
  · split at latency <;> simp at latency
  · cases same
    exact listed

/-- There is a body, and it is no JSON. -/
def HttpResponse.Unreadable (response : HttpResponse) : Prop := response.body ≠ [] ∧ response.document = none

namespace SpecTestCase

variable {response : HttpResponse} {elapsed : Int}

theorem check_succeeds (spec : TestSpec) (bounded : ∀ a ∈ spec.assertions, a.Bounded)
    (sized : toInt32 response.statusCode = response.statusCode) (condition : SpecCondition)
    (member : condition ∈ spec.conditions) (report : Report) (done : condition.check response elapsed = .ok report) :
    report.succeeded = true ↔ condition.Passes response elapsed := by
  cases condition with
  | statusIn acceptable =>
    obtain rfl := Except.ok.inj done
    simp [SpecCondition.Passes,SpecCondition.Holds,SpecCondition.Hopeless,SpecCondition.Coerced,Assertions.statusCodeIn]
  | status expected =>
    obtain rfl := Except.ok.inj done
    simp [SpecCondition.Passes,SpecCondition.Holds,SpecCondition.Hopeless,SpecCondition.Coerced,Assertions.statusCode]
  | latency budget =>
    obtain rfl := Except.ok.inj done
    simp [SpecCondition.Passes,SpecCondition.Holds,SpecCondition.Hopeless,SpecCondition.Coerced,Assertions.responseTime]
  | assertion a =>
    exact evaluate_succeeds response elapsed a (bounded a (spec.mem_assertions member)) sized report done

theorem evaluate_throws (a : SpecAssertion) :
    (∃ failure, evaluate a response elapsed = .error failure) ↔ a.ReadsJson ∧ response.Unreadable := by
  have thrown : (∃ failure, response.jsonOrThrow = .error failure) ↔ response.Unreadable := by
    rcases response.jsonOrThrow_cases with ⟨failure,thrown,body,missing⟩ | ⟨null,body,-⟩ | ⟨document,parsed,there⟩
    · exact ⟨fun _ => ⟨body,missing⟩,fun _ => ⟨failure,thrown⟩⟩
    · simp [null,HttpResponse.Unreadable,body]
    · simp [parsed,HttpResponse.Unreadable,there]
  rw [← thrown]
  obtain ⟨kind,target,expected⟩ := a
  cases kind <;> simp [evaluate,SpecAssertion.ReadsJson] <;> cases response.jsonOrThrow <;> simp [Except.map]

theorem check_throws (condition : SpecCondition) :
    (∃ failure, condition.check response elapsed = .error failure) ↔ condition.ReadsJson ∧ response.Unreadable := by
  cases condition with
  | assertion a => exact evaluate_throws a
  | _ => simp [SpecCondition.check,SpecCondition.ReadsJson]

theorem readsJson_fails (condition : SpecCondition) (reads : condition.ReadsJson) (unreadable : response.Unreadable) :
    ¬condition.Holds response elapsed := by
  cases condition with
  | assertion a =>
    rcases reads with kind | kind <;> simp [SpecCondition.Holds,SpecAssertion.Holds,kind,unreadable.2]
  | _ => exact absurd reads id

variable (location : Option Bytes)

theorem collect_error (conditions : List SpecCondition) (number : Nat) (soft : SoftAssertions.Scope)
    (failure : AssertionFailure) (k : Nat)
    (thrown : collect response elapsed location conditions number soft = .error (failure,k)) :
    ∃ i condition, conditions[i]? = some condition ∧ k = number + i ∧
      condition.check response elapsed = .error failure := by
  induction conditions generalizing number soft with
  | nil => cases thrown
  | cons first rest ih =>
    rw [collect] at thrown
    cases done : first.check response elapsed with
    | error here =>
      rw [done] at thrown
      obtain ⟨rfl,rfl⟩ := Prod.mk.inj (Except.error.inj thrown)
      exact ⟨0,first,rfl,rfl,done⟩
    | ok report =>
      rw [done] at thrown
      obtain ⟨i,condition,here,rfl,failed⟩ := ih _ _ thrown
      exact ⟨i + 1,condition,here,by omega,failed⟩

/-- The scope lists the conditions whose checks failed, by their numbers. -/
theorem collect_ok (conditions : List SpecCondition) (number : Nat) (soft final : SoftAssertions.Scope)
    (done : collect response elapsed location conditions number soft = .ok final) :
    (∀ condition ∈ conditions, ∃ report, condition.check response elapsed = .ok report) ∧
    ∀ k, k ∈ final.failures.map (·.1) ↔ k ∈ soft.failures.map (·.1) ∨
      ∃ i condition report, conditions[i]? = some condition ∧ condition.check response elapsed = .ok report ∧
        report.succeeded = false ∧ k = number + i := by
  induction conditions generalizing number soft with
  | nil =>
    obtain rfl := Except.ok.inj done
    simp
  | cons first rest ih =>
    rw [collect] at done
    cases here : first.check response elapsed with
    | error failure =>
      rw [here] at done
      cases done
    | ok report =>
      rw [here] at done
      obtain ⟨checked,listed⟩ := ih _ _ done
      refine ⟨List.forall_mem_cons.mpr ⟨⟨report,here⟩,checked⟩,fun k => (listed k).trans ?_⟩
      have now : k ∈ (if report.succeeded = true then soft else soft.record number
        (report.failure location)).failures.map (·.1) ↔
          k ∈ soft.failures.map (·.1) ∨ report.succeeded = false ∧ k = number := by
        cases report.succeeded <;> simp [SoftAssertions.Scope.record]
      rw [now,or_assoc]
      refine or_congr_right ⟨?_,?_⟩
      · rintro (⟨failed,rfl⟩ | ⟨i,condition,report,at_,done,failed,rfl⟩)
        · exact ⟨0,first,report,rfl,here,failed,rfl⟩
        · exact ⟨i + 1,condition,report,at_,done,failed,by omega⟩
      · rintro ⟨i,condition,other,at_,done,failed,rfl⟩
        cases i with
        | zero =>
          obtain rfl := Option.some.inj at_
          obtain rfl := Except.ok.inj (here.symm.trans done)
          exact .inl ⟨failed,rfl⟩
        | succ i => exact .inr ⟨i,condition,other,at_,done,failed,by omega⟩

end SpecTestCase

/-- The outcome says what the conditions say: the test passes when all of them hold, and a
failure lists every one that does not. -/
def TestSpec.Sound (spec : TestSpec) (response : HttpResponse) (elapsed : Int) (location : Option Bytes) : Prop :=
  (SpecTestCase.conclude spec response elapsed location = .passed ↔
    ∀ condition ∈ spec.conditions, condition.Holds response elapsed) ∧
  ∀ failure listed, SpecTestCase.conclude spec response elapsed location = .failed failure listed →
    ∀ (n : Nat) (condition : SpecCondition), spec.conditions[n]? = some condition →
      ¬condition.Holds response elapsed → n ∈ listed

/-- A check will throw. -/
def TestSpec.Throws (spec : TestSpec) (response : HttpResponse) : Prop :=
  response.Unreadable ∧ ∃ condition ∈ spec.conditions, condition.ReadsJson

namespace SpecTestCase

variable {response : HttpResponse} {elapsed : Int}

/-- A throw is all that is told of: nothing else may be wrong. -/
theorem sound_of_throws (spec : TestSpec) (location : Option Bytes) (reached : response.transportError = false)
    (throws : spec.Throws response) : spec.Sound response elapsed location ↔
      ∃ (n : Nat) (condition : SpecCondition), spec.conditions[n]? = some condition ∧ condition.ReadsJson ∧
        ∀ (m : Nat) (other : SpecCondition), spec.conditions[m]? = some other → m ≠ n → other.Holds response elapsed := by
  obtain ⟨unreadable,reader,member,reads⟩ := throws
  cases collected : collect response elapsed location spec.conditions 0 {} with
  | ok final =>
    obtain ⟨report,done⟩ := (collect_ok location _ _ _ _ collected).1 reader member
    obtain ⟨failure,thrown⟩ : ∃ failure, reader.check response elapsed = .error failure :=
      (check_throws reader).mpr ⟨reads,unreadable⟩
    exact absurd (done.symm.trans thrown) (by simp)
  | error entry =>
    obtain ⟨failure,number⟩ := entry
    obtain ⟨k,condition,here,rfl,thrown⟩ := collect_error location _ _ _ failure _ collected
    rw [Nat.zero_add] at collected
    have outcome : conclude spec response elapsed location = .failed failure [k] := by
      rw [conclude,reached,collected]
      rfl
    have json := ((check_throws condition).mp ⟨failure,thrown⟩).1
    have fails : ¬condition.Holds response elapsed := readsJson_fails condition json unreadable
    constructor
    · rintro ⟨-,lists⟩
      refine ⟨k,condition,here,json,fun m other there different => ?_⟩
      by_contra wrong
      exact different (List.mem_singleton.mp (lists failure [k] outcome m other there wrong))
    · rintro ⟨n,_,-,-,others⟩
      have only : k = n := by
        by_contra different
        exact fails (others k condition here different)
      refine ⟨⟨fun passed => by simp [outcome] at passed,fun holds => ?_⟩,?_⟩
      · exact absurd (holds condition (List.mem_of_getElem? here)) fails
      · rintro failure listed same m other there wrong
        obtain ⟨rfl,rfl⟩ := Outcome.failed.inj (outcome.symm.trans same)
        by_contra unlisted
        refine wrong (others m other there fun equal => unlisted ?_)
        rw [only,equal]
        exact List.mem_singleton_self _

theorem conclude_readable (spec : TestSpec) (location : Option Bytes) (reached : response.transportError = false)
    (bounded : ∀ a ∈ spec.assertions, a.Bounded) (sized : toInt32 response.statusCode = response.statusCode)
    (readable : ¬spec.Throws response) :
    (conclude spec response elapsed location = .passed ∧ ∀ condition ∈ spec.conditions, condition.Passes response elapsed) ∨
    ∃ failure listed, conclude spec response elapsed location = .failed failure listed ∧ listed ≠ [] ∧
      ∀ k, k ∈ listed ↔ ∃ condition : SpecCondition, spec.conditions[k]? = some condition ∧
        ¬condition.Passes response elapsed := by
  cases collected : collect response elapsed location spec.conditions 0 {} with
  | error entry =>
    obtain ⟨failure,number⟩ := entry
    obtain ⟨k,condition,here,-,thrown⟩ := collect_error location _ _ _ failure _ collected
    obtain ⟨reads,unreadable⟩ := (check_throws condition).mp ⟨failure,thrown⟩
    exact absurd ⟨unreadable,condition,List.mem_of_getElem? here,reads⟩ readable
  | ok final =>
    obtain ⟨checked,recorded⟩ := collect_ok location _ _ _ _ collected
    have listed : ∀ k, k ∈ final.failures.map (·.1) ↔ ∃ condition : SpecCondition,
        spec.conditions[k]? = some condition ∧ ¬condition.Passes response elapsed := by
      intro k
      rw [recorded k]
      constructor
      · rintro (none | ⟨i,condition,report,here,done,failed,rfl⟩)
        · simp at none
        · refine ⟨condition,by rwa [Nat.zero_add],fun passes => ?_⟩
          have succeeded := (check_succeeds spec bounded sized condition (List.mem_of_getElem? here) report done).mpr passes
          simp [failed] at succeeded
      · rintro ⟨condition,here,fails⟩
        have member := List.mem_of_getElem? here
        obtain ⟨report,done⟩ := checked condition member
        have failed := mt (check_succeeds spec bounded sized condition member report done).mp fails
        exact .inr ⟨k,condition,report,here,done,by simpa using failed,(Nat.zero_add k).symm⟩
    rw [conclude,reached,collected]
    by_cases none : final.failures = []
    · refine .inl ⟨by simp [none],fun condition member => ?_⟩
      by_contra fails
      obtain ⟨k,here⟩ := List.mem_iff_getElem?.mp member
      have entry := (listed k).mpr ⟨condition,here,fails⟩
      simp [none] at entry
    · exact .inr ⟨final.combined,final.failures.map (·.1),by simp [none],by simpa using none,listed⟩

theorem coerced_fails (condition : SpecCondition) (coerced : condition.Coerced response elapsed) :
    ¬condition.Holds response elapsed ∧ ¬condition.Hopeless := by
  cases condition with
  | assertion a =>
    obtain ⟨kind,target,expected⟩ := a
    cases kind with
    | statusCode => simpa [SpecCondition.Holds,SpecAssertion.Holds,SpecCondition.Hopeless,SpecAssertion.Hopeless] using coerced.2
    | statusCodeIn =>
      simpa [SpecCondition.Holds,SpecAssertion.Holds,SpecCondition.Hopeless,SpecAssertion.Hopeless] using coerced.2
    | responseTimeUnder =>
      simpa [SpecCondition.Holds,SpecAssertion.Holds,SpecCondition.Hopeless,SpecAssertion.Hopeless] using coerced.2
    | bodyContains =>
      obtain ⟨other,missing⟩ := coerced
      simpa [SpecCondition.Holds,SpecAssertion.Holds,SpecCondition.Hopeless,SpecAssertion.Hopeless,
        Value.text,other] using missing
    | jsonFieldEquals =>
      obtain ⟨document,there,found,path,-,different⟩ := coerced
      refine ⟨?_,by simp [SpecCondition.Hopeless,SpecAssertion.Hopeless]⟩
      rintro ⟨_,also,_,reached,equal⟩
      obtain rfl := Option.mem_unique there also
      obtain rfl := Option.mem_unique path reached
      exact absurd equal (by simp [different])
    | headerEquals =>
      refine ⟨?_,by simp [SpecCondition.Hopeless,SpecAssertion.Hopeless]⟩
      rintro ⟨value,there,rfl⟩
      rcases coerced.2 with absent | other
      · simp [absent] at there
      · simp [Value.asString?] at other
    | _ => exact absurd coerced id
  | _ => exact absurd coerced id

/-- Of a readable response every condition is told of. What remains are the checks that pass by
coercion, and those that cannot pass. -/
theorem sound_of_readable (spec : TestSpec) (location : Option Bytes) (reached : response.transportError = false)
    (bounded : ∀ a ∈ spec.assertions, a.Bounded) (sized : toInt32 response.statusCode = response.statusCode)
    (readable : ¬spec.Throws response) : spec.Sound response elapsed location ↔
      (∀ condition ∈ spec.conditions, ¬condition.Coerced response elapsed) ∧
      ((∀ condition ∈ spec.conditions, condition.Holds response elapsed) →
        ∀ condition ∈ spec.conditions, ¬condition.Hopeless) := by
  have kept (condition : SpecCondition) (plain : ¬condition.Coerced response elapsed)
      (passes : condition.Passes response elapsed) : condition.Holds response elapsed ∧ ¬condition.Hopeless :=
    passes.resolve_right plain
  rcases @conclude_readable response elapsed spec location reached bounded sized readable with
    ⟨outcome,passes⟩ | ⟨failure,listed,outcome,some,lists⟩
  · constructor
    · rintro ⟨iff,-⟩
      have holds := iff.mp outcome
      have plain : ∀ condition ∈ spec.conditions, ¬condition.Coerced response elapsed :=
        fun condition member coerced => (coerced_fails condition coerced).1 (holds condition member)
      exact ⟨plain,fun _ condition member => (kept condition (plain condition member) (passes condition member)).2⟩
    · rintro ⟨plain,-⟩
      refine ⟨⟨fun _ condition member => (kept condition (plain condition member) (passes condition member)).1,
        fun _ => outcome⟩,fun failure listed failed => ?_⟩
      rw [outcome] at failed
      cases failed
  · obtain ⟨k,entry⟩ := List.exists_mem_of_ne_nil listed some
    obtain ⟨first,here,fails⟩ := (lists k).mp entry
    constructor
    · rintro ⟨iff,complete⟩
      refine ⟨fun condition member coerced => ?_,fun holds => ?_⟩
      · obtain ⟨n,there⟩ := List.mem_iff_getElem?.mp member
        obtain ⟨same,present,refused⟩ := (lists n).mp
          (complete failure listed outcome n condition there (coerced_fails condition coerced).1)
        obtain rfl := Option.some.inj (there.symm.trans present)
        exact refused (.inr coerced)
      · have passed := iff.mpr holds
        rw [outcome] at passed
        cases passed
    · rintro ⟨plain,hopeful⟩
      refine ⟨⟨fun passed => ?_,fun holds => ?_⟩,fun _ _ same n condition there wrong => ?_⟩
      · rw [outcome] at passed
        cases passed
      · have member := List.mem_of_getElem? here
        exact absurd (.inl ⟨holds first member,hopeful holds first member⟩) fails
      · obtain ⟨rfl,rfl⟩ := Outcome.failed.inj (outcome.symm.trans same)
        refine (lists n).mpr ⟨condition,there,fun passes => wrong ?_⟩
        exact (kept condition (plain condition (List.mem_of_getElem? there)) passes).1

end SpecTestCase

theorem SpecValidator.Accepts.bounded {validator : SpecValidator} {spec : TestSpec} (accepted : validator.Accepts spec) :
    ∀ a ∈ spec.assertions, a.Bounded := by
  intro a member kind
  obtain ⟨index,clean⟩ := accepted
  obtain ⟨i,here⟩ := List.mem_iff_getElem?.mp member
  have clean : ∀ issue ∈ assertionIssues (testPrefix index ++ ascii ".assertions[" ++ decimal i ++ ascii "]") a,
      issue.fatal = false := by
    refine fun issue found => clean issue ?_
    simp only [validateOne,assertionsIssues,List.mem_append,List.mem_flatMap]
    exact .inr (.inr ⟨(a,i),List.mk_mem_zipIdx_iff_getElem?.mpr here,found⟩)
  have numeric := issueIf_fatal _ _ _ fun issue found => clean issue (by
    simp only [assertionIssues,List.mem_append]
    exact .inl (.inr found))
  simpa [kind] using numeric

/-- Exactly when the outcome is right. After a throw nothing but the one JSON assertion may fail;
otherwise no check may pass by coercion, and when all conditions hold none may be hopeless. -/
theorem specSound_iff (validator : SpecValidator) (spec : TestSpec) (accepted : validator.Accepts spec)
    (response : HttpResponse) (elapsed : Int) (location : Option Bytes) (reached : response.transportError = false)
    (sized : toInt32 response.statusCode = response.statusCode) : spec.Sound response elapsed location ↔
      (spec.Throws response → ∃ (n : Nat) (condition : SpecCondition), spec.conditions[n]? = some condition ∧
        condition.ReadsJson ∧ ∀ (m : Nat) (other : SpecCondition), spec.conditions[m]? = some other → m ≠ n →
          other.Holds response elapsed) ∧
      (¬spec.Throws response → (∀ condition ∈ spec.conditions, ¬condition.Coerced response elapsed) ∧
        ((∀ condition ∈ spec.conditions, condition.Holds response elapsed) →
          ∀ condition ∈ spec.conditions, ¬condition.Hopeless)) := by
  by_cases throws : spec.Throws response
  · simp only [throws,true_imp_iff,not_true_eq_false,false_imp_iff,and_true]
    exact SpecTestCase.sound_of_throws spec location reached throws
  · simp only [throws,false_imp_iff,not_false_eq_true,true_imp_iff,true_and]
    exact SpecTestCase.sound_of_readable spec location reached accepted.bounded sized throws

end TestForge
