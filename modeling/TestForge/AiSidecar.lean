import TestForge.AnalysisContext
import TestForge.Config
import TestForge.JsonUtf8

/-! What the engine sends to the AI sidecar, and the limits the sidecar puts on it. The
sidecar's replies are left out. -/
namespace TestForge

open Json Strings Settings

structure GenerationRequest where
  requirement : Bytes
  suiteName : Bytes := ascii "generated"
  baseUrl : Bytes
  maxTests : Int32 := 10
  context : Value := .object []

namespace TestForgeService

inductive Generation where
  | refused (message code : Bytes)
  | handed (request : GenerationRequest)

/-- The service up to its call of the provider. -/
def generateTests (provider : Bool) (config : Config) (requirement suiteName : Bytes) (maxTests : Int32) : Generation :=
  if !provider then .refused (ascii "no AI provider is configured") (ascii "AI_UNAVAILABLE")
  else if trim requirement = [] then .refused (ascii "the requirement text is empty") (ascii "INVALID_REQUEST")
  else if requirement.length > 8000 then
    .refused (ascii "the requirement text exceeds 8000 characters") (ascii "INVALID_REQUEST")
  else .handed {
    requirement
    suiteName := if suiteName = [] then ascii "generated" else suiteName
    baseUrl := config.api.baseUrl
    maxTests := if maxTests > 0 then maxTests else config.ai.maxGeneratedTests }

end TestForgeService

namespace HttpAiProvider

def isEnabled (config : Settings.AiConfig) : Bool := config.enabled && config.endpoint ≠ []

/-- The payload for `/generate-tests`, when the provider sends one. -/
def generateTests (config : Settings.AiConfig) (request : GenerationRequest) : Option Value :=
  if !isEnabled config then none
  else some (Value.objectOf [
    (ascii "requirement",.string request.requirement),
    (ascii "suite",.string request.suiteName),
    (ascii "base_url",.string request.baseUrl),
    (ascii "max_tests",.int (min request.maxTests config.maxGeneratedTests).toInt),
    (ascii "model",.string config.model),
    (ascii "context",request.context)])

/-- The payload for `/analyze-failure`, when the provider sends one. -/
def analyseFailure (config : Settings.AiConfig) (request : TestForgeService.AnalysisRequest) : Option Value :=
  if !isEnabled config then none
  else some (Value.objectOf [
    (ascii "context",request.context),
    (ascii "test",.string request.testName),
    (ascii "failure_category",.string request.failureCategory),
    (ascii "model",.string config.model)])

end HttpAiProvider

/-! ### The sidecar -/
namespace Sidecar

open Utf8

def maxRequirementChars : Nat := 8000
def maxTestsCeiling : Int := 50

/-- The text is UTF-8 and has at most so many characters. -/
def AtMost (limit : Nat) (text : Bytes) : Prop := ∃ characters ∈ count text, characters ≤ limit

/-- `str = Field(max_length=...)` -/
def Str (maxLength : Nat) : Value → Prop
  | .string text => AtMost maxLength text
  | _ => False

/-- `int = Field(ge=..., le=...)`; what else can be coerced to an integer is left out. -/
def Integer (least greatest : Int) : Value → Prop
  | .int n => least ≤ n ∧ n ≤ greatest
  | _ => False

/-- `str | None = Field(max_length=...)` -/
def OptionalStr (maxLength : Nat) : Value → Prop
  | .null => True
  | value => Str maxLength value

/-- `dict[str, Any]` -/
def Dict : Value → Prop
  | .object _ => True
  | _ => False

/-- A field without a default. -/
def Required (body : Value) (key : Bytes) (field : Value → Prop) : Prop := ∃ value ∈ body.find key, field value

/-- A field whose default passes. -/
def Defaulted (body : Value) (key : Bytes) (field : Value → Prop) : Prop := ∀ value ∈ body.find key, field value

structure GenerateRequest (body : Value) : Prop where
  requirement : Required body (ascii "requirement") (Str maxRequirementChars)
  suite : Defaulted body (ascii "suite") (Str 64)
  baseUrl : Defaulted body (ascii "base_url") (Str 512)
  maxTests : Defaulted body (ascii "max_tests") (Integer 1 maxTestsCeiling)
  model : Defaulted body (ascii "model") (OptionalStr 64)
  context : Defaulted body (ascii "context") Dict

structure AnalyzeRequest (body : Value) : Prop where
  context : Defaulted body (ascii "context") Dict
  test : Defaulted body (ascii "test") (Str 256)
  failureCategory : Defaulted body (ascii "failure_category") (Str 64)
  model : Defaulted body (ascii "model") (OptionalStr 64)

/-- The same, but for what is inside of objects. -/
def Alike : Value → Value → Prop
  | .object _, .object _ => True
  | one, other => one = other

/-- What is asked of `json.loads`, which the framework decodes a body with: a document has the members that were
sent, and a body in UTF-8 is one. -/
structure Reads (loads : Bytes → Option Value) (body : Value) : Prop where
  members : ∀ doc ∈ loads body.dump, Dict doc ∧ ∀ key, Option.Rel Alike (doc.find key) (body.find key)
  utf8 : IsUtf8 body.dump → (loads body.dump).isSome

/-- The body is a document, and its fields are those of the model. -/
def Accepts (loads : Bytes → Option Value) (model : Value → Prop) (body : Value) : Prop :=
  ∃ doc ∈ loads body.dump, Dict doc ∧ model doc

/-- A field that takes every object or none. -/
def Shallow (field : Value → Prop) : Prop := ∀ members others, field (.object members) ↔ field (.object others)

theorem Alike.field {one other : Value} (alike : Alike one other) {field : Value → Prop} (shallow : Shallow field) :
    field one ↔ field other := by
  cases one with
  | object members =>
    cases other with
    | object others => exact shallow members others
    | _ => cases alike
  | _ => rw [show _ = other from alike]

section

variable {doc body : Value} (same : ∀ key, Option.Rel Alike (doc.find key) (body.find key))
include same

theorem required_iff (key : Bytes) {field : Value → Prop} (shallow : Shallow field) :
    Required doc key field ↔ Required body key field := by
  have alike := same key
  unfold Required
  generalize doc.find key = one at alike
  generalize body.find key = other at alike
  cases alike with
  | none => rfl
  | some alike => simpa using alike.field shallow

theorem defaulted_iff (key : Bytes) {field : Value → Prop} (shallow : Shallow field) :
    Defaulted doc key field ↔ Defaulted body key field := by
  have alike := same key
  unfold Defaulted
  generalize doc.find key = one at alike
  generalize body.find key = other at alike
  cases alike with
  | none => rfl
  | some alike => simpa using alike.field shallow

theorem GenerateRequest.of_same (fields : GenerateRequest body) : GenerateRequest doc where
  requirement := (required_iff same _ fun _ _ => Iff.rfl).mpr fields.requirement
  suite := (defaulted_iff same _ fun _ _ => Iff.rfl).mpr fields.suite
  baseUrl := (defaulted_iff same _ fun _ _ => Iff.rfl).mpr fields.baseUrl
  maxTests := (defaulted_iff same _ fun _ _ => Iff.rfl).mpr fields.maxTests
  model := (defaulted_iff same _ fun _ _ => Iff.rfl).mpr fields.model
  context := (defaulted_iff same _ fun _ _ => Iff.rfl).mpr fields.context

theorem AnalyzeRequest.of_same (fields : AnalyzeRequest body) : AnalyzeRequest doc where
  context := (defaulted_iff same _ fun _ _ => Iff.rfl).mpr fields.context
  test := (defaulted_iff same _ fun _ _ => Iff.rfl).mpr fields.test
  failureCategory := (defaulted_iff same _ fun _ _ => Iff.rfl).mpr fields.failureCategory
  model := (defaulted_iff same _ fun _ _ => Iff.rfl).mpr fields.model

end

theorem Alike.symm {one other : Value} (alike : Alike one other) : Alike other one := by
  cases one with
  | object members =>
    cases other with
    | object others => trivial
    | _ => cases alike
  | _ => exact (show _ = other from alike) ▸ alike

/-- A body is accepted when it is a document and its own fields are those of the model. -/
theorem accepts_iff {loads : Bytes → Option Value} {model : Value → Prop} {body : Value} (reads : Reads loads body)
    (same : ∀ {one other : Value}, (∀ key, Option.Rel Alike (one.find key) (other.find key)) → model other → model one) :
    Accepts loads model body ↔ (loads body.dump).isSome ∧ model body := by
  constructor
  · rintro ⟨doc,decoded,-,fields⟩
    have back : ∀ key, Option.Rel Alike (body.find key) (doc.find key) := by
      intro key
      have alike := (reads.members doc decoded).2 key
      generalize doc.find key = one at alike
      generalize body.find key = other at alike
      cases alike with
      | none => exact .none
      | some alike => exact .some alike.symm
    exact ⟨Option.isSome_of_mem decoded,same back fields⟩
  · rintro ⟨decodes,fields⟩
    obtain ⟨doc,decoded⟩ := Option.isSome_iff_exists.mp decodes
    obtain ⟨dict,members⟩ := reads.members doc decoded
    exact ⟨doc,decoded,dict,same members fields⟩

theorem atMost_of_length {limit : Nat} {text : Bytes} (decodes : IsUtf8 text) (short : text.length ≤ limit) :
    AtMost limit text := by
  obtain ⟨characters,counted⟩ := Option.isSome_iff_exists.mp ((isUtf8_iff_count text).mp decodes)
  exact ⟨characters,counted,(count_le text characters counted).trans short⟩

theorem AtMost.isUtf8 {limit : Nat} {text : Bytes} (fits : AtMost limit text) : IsUtf8 text := by
  obtain ⟨characters,counted,-⟩ := fits
  exact (isUtf8_iff_count text).mpr (Option.isSome_of_mem counted)

/-! ### Bodies that decode -/

theorem isUtf8_string (text : Bytes) : IsUtf8 (Value.string text).dump ↔ IsUtf8 text := isUtf8_escape text

theorem isUtf8_int (z : Int) : IsUtf8 (Value.int z).dump := by
  refine isUtf8_plain _ fun c member => ?_
  have clock := Clock.decimalInt_clock z c member
  simp only [Clock.isClockByte,isDigit,Bool.or_eq_true,Bool.and_eq_true,decide_eq_true_eq,
    beq_iff_eq] at clock
  rcases clock with ((((⟨-,digit⟩ | rfl) | rfl) | rfl) | rfl) | rfl
  · exact UInt8.lt_of_le_of_lt digit (by decide)
  all_goals decide

theorem isUtf8_members (members : List (Bytes × Value)) :
    IsUtf8 (Value.dumpMembers members) ↔ ∀ member ∈ members, IsUtf8 member.1 ∧ IsUtf8 member.2.dump := by
  induction members with
  | nil => simp [Value.dumpMembers]
  | cons member rest ih =>
    obtain ⟨key,value⟩ := member
    cases rest with
    | nil => simp [Value.dumpMembers,isUtf8_cut,isUtf8_escape]
    | cons next rest =>
      rw [Value.dumpMembers,List.append_assoc,List.cons_append,isUtf8_cut _ _ _ (by decide),
        isUtf8_cut _ _ _ (by decide),isUtf8_escape,ih]
      · simp [and_assoc]
      · exact List.cons_ne_nil next rest

theorem isUtf8_object (members : List (Bytes × Value)) : IsUtf8 (Value.object members).dump ↔
    ∀ member ∈ members, IsUtf8 member.1 ∧ IsUtf8 member.2.dump := by
  rw [Value.dump,List.cons_append,isUtf8_cons _ _ (by decide),isUtf8_cut _ _ _ (by decide),isUtf8_members]
  simp

theorem category_atMost (category : FailureCategory) : AtMost 64 category.toString := by
  cases category <;> exact atMost_of_length (isUtf8_small _ rfl) (by decide)

/-! ### Agreement -/

/-- What `/generate-tests` is sent for a call of the service. -/
def generateBody (config : Config) (requirement suiteName : Bytes) (maxTests : Int32) : Option Value :=
  match TestForgeService.generateTests true config requirement suiteName maxTests with
  | .refused _ _ => none
  | .handed request => HttpAiProvider.generateTests config.ai request

theorem generateTests_handed {provider : Bool} {config : Config} {requirement suiteName : Bytes} {maxTests : Int32}
    {request : GenerationRequest}
    (handed : TestForgeService.generateTests provider config requirement suiteName maxTests = .handed request) :
    requirement.length ≤ 8000 ∧ request = {
      requirement
      suiteName := if suiteName = [] then ascii "generated" else suiteName
      baseUrl := config.api.baseUrl
      maxTests := if maxTests > 0 then maxTests else config.ai.maxGeneratedTests } := by
  rw [TestForgeService.generateTests] at handed
  split at handed
  · cases handed
  · split at handed
    · cases handed
    · split at handed
      · cases handed
      · next short => exact ⟨not_lt.mp short,(TestForgeService.Generation.handed.inj handed).symm⟩

theorem generateTests_sent {config : Settings.AiConfig} {request : GenerationRequest} {body : Value}
    (sent : HttpAiProvider.generateTests config request = some body) : body = .object [
      (ascii "requirement",.string request.requirement),
      (ascii "suite",.string request.suiteName),
      (ascii "base_url",.string request.baseUrl),
      (ascii "max_tests",.int (min request.maxTests config.maxGeneratedTests).toInt),
      (ascii "model",.string config.model),
      (ascii "context",request.context)] := by
  rw [HttpAiProvider.generateTests,Value.objectOf_distinct _ (by simp only [List.map_cons,List.map_nil]; decide)] at sent
  split at sent
  · cases sent
  · exact (Option.some.inj sent).symm

theorem analyseFailure_sent {config : Settings.AiConfig} {request : TestForgeService.AnalysisRequest} {body : Value}
    (sent : HttpAiProvider.analyseFailure config request = some body) : body = .object [
      (ascii "context",request.context),
      (ascii "test",.string request.testName),
      (ascii "failure_category",.string request.failureCategory),
      (ascii "model",.string config.model)] := by
  rw [HttpAiProvider.analyseFailure,Value.objectOf_distinct _ (by simp only [List.map_cons,List.map_nil]; decide)] at sent
  split at sent
  · cases sent
  · exact (Option.some.inj sent).symm

/-- The context that is handed to the provider is an object. -/
theorem handed_context {repository : Option TestForgeService.History} {result : TestResult}
    {request : TestForgeService.AnalysisRequest}
    (handed : TestForgeService.analyseResult true repository result = .ok (.handed request)) :
    (∃ members, request.context = .object members) ∧ request.testName = result.qualifiedName ∧
      request.failureCategory = result.failureCategory.toString := by
  obtain ⟨failing,members,metadata⟩ := FailureContext.analyseResult_handed handed
  rw [FailureContext.analyseResult_built repository failing
    (FailureContext.build_object {} result members metadata)] at handed
  obtain rfl := TestForgeService.Analysis.handed.inj (Except.ok.inj handed)
  refine ⟨?_,rfl,rfl⟩
  rw [FailureContext.trimmed_eq,FailureContext.evidence_eq,← apply_ite Value.object]
  cases repository <;> exact ⟨_,rfl⟩

theorem min_toInt (a b : Int32) : (min a b).toInt = min a.toInt b.toInt := by
  have unfolded : min a b = if a ≤ b then a else b := rfl
  rw [unfolded,min_def]
  simp only [← Int32.le_iff_toInt_le]
  split <;> rfl

def generateMembers (requirement suiteName baseUrl : Bytes) (maxTests : Int) (model : Bytes) : List (Bytes × Value) := [
  (ascii "requirement",.string requirement),
  (ascii "suite",.string suiteName),
  (ascii "base_url",.string baseUrl),
  (ascii "max_tests",.int maxTests),
  (ascii "model",.string model),
  (ascii "context",.object [])]

def analyzeMembers (members : List (Bytes × Value)) (test : Bytes) (category : FailureCategory) (model : Bytes) :
    List (Bytes × Value) := [
  (ascii "context",.object members),
  (ascii "test",.string test),
  (ascii "failure_category",.string category.toString),
  (ascii "model",.string model)]

theorem generateRequest_iff (requirement suiteName baseUrl model : Bytes) (maxTests : Int) :
    GenerateRequest (.object (generateMembers requirement suiteName baseUrl maxTests model)) ↔
    AtMost 8000 requirement ∧ AtMost 64 suiteName ∧ AtMost 512 baseUrl ∧ (1 ≤ maxTests ∧ maxTests ≤ 50) ∧
      AtMost 64 model := by
  constructor
  · intro fields
    obtain ⟨value,found,text⟩ := fields.requirement
    obtain rfl := Option.some.inj found
    exact ⟨text,fields.suite _ rfl,fields.baseUrl _ rfl,fields.maxTests _ rfl,fields.model _ rfl⟩
  · rintro ⟨text,suite,base,range,model⟩
    refine ⟨⟨_,rfl,text⟩,?_,?_,?_,?_,?_⟩
    · rintro _ ⟨⟩
      exact suite
    · rintro _ ⟨⟩
      exact base
    · rintro _ ⟨⟩
      exact range
    · rintro _ ⟨⟩
      exact model
    · rintro _ ⟨⟩
      trivial

theorem generate_isUtf8 {requirement suiteName baseUrl model : Bytes} (maxTests : Int)
    (fields : IsUtf8 requirement ∧ IsUtf8 suiteName ∧ IsUtf8 baseUrl ∧ IsUtf8 model) :
    IsUtf8 (Value.object (generateMembers requirement suiteName baseUrl maxTests model)).dump := by
  obtain ⟨text,suite,base,model⟩ := fields
  rw [isUtf8_object]
  simp only [generateMembers,List.forall_mem_cons,isUtf8_string,isUtf8_int,text,suite,base,model,and_true]
  exact ⟨isUtf8_small _ rfl,isUtf8_small _ rfl,isUtf8_small _ rfl,isUtf8_small _ rfl,isUtf8_small _ rfl,
    ⟨isUtf8_small _ rfl,isUtf8_small _ rfl⟩,by simp⟩

theorem analyzeRequest_iff (members : List (Bytes × Value)) (test model : Bytes) (category : FailureCategory) :
    AnalyzeRequest (.object (analyzeMembers members test category model)) ↔ AtMost 256 test ∧ AtMost 64 model := by
  constructor
  · intro fields
    exact ⟨fields.test _ rfl,fields.model _ rfl⟩
  · rintro ⟨name,model⟩
    refine ⟨?_,?_,?_,?_⟩
    · rintro _ ⟨⟩
      trivial
    · rintro _ ⟨⟩
      exact name
    · rintro _ ⟨⟩
      exact category_atMost category
    · rintro _ ⟨⟩
      exact model

theorem analyze_isUtf8 {members : List (Bytes × Value)} {test model : Bytes} (category : FailureCategory)
    (fields : IsUtf8 (Value.object members).dump ∧ IsUtf8 test ∧ IsUtf8 model) :
    IsUtf8 (Value.object (analyzeMembers members test category model)).dump := by
  obtain ⟨context,name,model⟩ := fields
  rw [isUtf8_object]
  simp only [analyzeMembers,List.forall_mem_cons,isUtf8_string,name,(category_atMost category).isUtf8,model,context,
    and_true]
  exact ⟨isUtf8_small _ rfl,isUtf8_small _ rfl,isUtf8_small _ rfl,isUtf8_small _ rfl,by simp⟩

/-- What the sidecar asks of a request for tests; all of it in UTF-8 is a document. -/
theorem accepts_generate {loads : Bytes → Option Value} {requirement suiteName baseUrl model : Bytes} {maxTests : Int}
    (reads : Reads loads (.object (generateMembers requirement suiteName baseUrl maxTests model))) :
    Accepts loads GenerateRequest (.object (generateMembers requirement suiteName baseUrl maxTests model)) ↔
    AtMost 8000 requirement ∧ AtMost 64 suiteName ∧ AtMost 512 baseUrl ∧ (1 ≤ maxTests ∧ maxTests ≤ 50) ∧
      AtMost 64 model := by
  rw [accepts_iff reads GenerateRequest.of_same,generateRequest_iff,and_iff_right_iff_imp]
  rintro ⟨text,suite,base,-,model⟩
  exact reads.utf8 (generate_isUtf8 maxTests ⟨text.isUtf8,suite.isUtf8,base.isUtf8,model.isUtf8⟩)

theorem validate_maxGeneratedTests {config : Config} (valid : config.validate = .ok ()) :
    0 < config.ai.maxGeneratedTests.toInt := by
  have check := (Config.validate_ok_iff config).mp valid
    (config.ai.maxGeneratedTests ≤ 0 || config.ai.maxGeneratedTests > 500,
      ascii "ai.max_generated_tests must be between 1 and 500") (by simp [Config.checks])
  simp only [Bool.or_eq_false_iff,decide_eq_false_iff_not] at check
  exact Int.not_le.mp fun low => check.1 (Int32.le_iff_toInt_le.mpr low)

/-- When the sidecar takes what the engine sends it. Whether the text of a context is a document is left to its
decoder; in UTF-8 it is. -/
theorem sidecar_accepts_iff (loads : Bytes → Option Value) (config : Config) (valid : config.validate = .ok ()) :
    (∀ requirement suiteName maxTests body, generateBody config requirement suiteName maxTests = some body →
      Reads loads body → (Accepts loads GenerateRequest body ↔
        IsUtf8 requirement ∧ AtMost 64 suiteName ∧ AtMost 512 config.api.baseUrl ∧ AtMost 64 config.ai.model ∧
          (config.ai.maxGeneratedTests ≤ 50 ∨ (0 < maxTests ∧ maxTests ≤ 50)))) ∧
    (∀ repository result request body,
      TestForgeService.analyseResult true repository result = .ok (.handed request) →
      HttpAiProvider.analyseFailure config.ai request = some body → Reads loads body →
        (Accepts loads AnalyzeRequest body ↔
          (loads body.dump).isSome ∧ AtMost 256 result.qualifiedName ∧ AtMost 64 config.ai.model) ∧
        (IsUtf8 request.context.dump → AtMost 256 result.qualifiedName → AtMost 64 config.ai.model →
          Accepts loads AnalyzeRequest body)) := by
  constructor
  · intro requirement suiteName maxTests body sent reads
    rw [generateBody] at sent
    split at sent
    · cases sent
    · next request handed =>
      obtain ⟨short,rfl⟩ := generateTests_handed handed
      obtain rfl := generateTests_sent sent
      refine (accepts_generate reads).trans ?_
      rw [min_toInt]
      have positive := validate_maxGeneratedTests valid
      have text : AtMost 8000 requirement ↔ IsUtf8 requirement := ⟨AtMost.isUtf8,fun decodes => atMost_of_length decodes short⟩
      have suite : AtMost 64 (if suiteName = [] then ascii "generated" else suiteName) ↔ AtMost 64 suiteName := by
        split
        next absent =>
          rw [absent]
          exact iff_of_true (atMost_of_length (isUtf8_small _ rfl) (by decide))
            (atMost_of_length isUtf8_nil (by decide))
        next => rfl
      have range : (1 ≤ min (if maxTests > 0 then maxTests else config.ai.maxGeneratedTests).toInt
            config.ai.maxGeneratedTests.toInt ∧
          min (if maxTests > 0 then maxTests else config.ai.maxGeneratedTests).toInt
            config.ai.maxGeneratedTests.toInt ≤ 50) ↔
          (config.ai.maxGeneratedTests ≤ 50 ∨ (0 < maxTests ∧ maxTests ≤ 50)) := by
        have fifty : (50 : Int32).toInt = 50 := by decide
        have zero : (0 : Int32).toInt = 0 := by decide
        simp only [gt_iff_lt,Int32.le_iff_toInt_le,Int32.lt_iff_toInt_lt,fifty,zero]
        split <;> omega
      rw [text,suite,range]
      exact and_congr_right fun _ => and_congr_right fun _ => and_congr_right fun _ => and_comm
  · intro repository result request body handed sent reads
    obtain ⟨⟨members,context⟩,name,category⟩ := handed_context handed
    obtain rfl := analyseFailure_sent sent
    rw [context,name,category] at reads ⊢
    have accepted := accepts_iff reads AnalyzeRequest.of_same
    have fields := analyzeRequest_iff members result.qualifiedName config.ai.model result.failureCategory
    refine ⟨accepted.trans (and_congr_right fun _ => fields),fun decodes short model => ?_⟩
    exact accepted.mpr ⟨reads.utf8 (analyze_isUtf8 result.failureCategory ⟨decodes,short.isUtf8,model.isUtf8⟩),
      fields.mpr ⟨short,model⟩⟩

def enabledConfig (maxGeneratedTests : Int32) : Config := { ai := { enabled := true,maxGeneratedTests } }

/-- The document of the engine's own parser. -/
def loads (text : Bytes) : Option Value := (parse {} text).toOption

theorem reads_loads {body : Value} (dict : Dict body) (faithful : ∀ u ∈ body.subvalues, u.Faithful)
    (shallow : body.depth ≤ ({} : ParseLimits).maxDepth) (short : body.dump.length ≤ ({} : ParseLimits).maxLength) :
    Reads loads body := by
  have parsed : loads body.dump = some body := by
    rw [loads,Value.parse_dump {} body (fun u inside => (faithful u inside).intFits) shallow short,
      Value.reread_eq body faithful]
    rfl
  refine ⟨fun doc decoded => ?_,fun _ => by rw [parsed]; rfl⟩
  obtain rfl := Option.some.inj (parsed.symm.trans decoded)
  refine ⟨dict,fun key => ?_⟩
  cases body.find key with
  | none => exact .none
  | some value => exact .some (by cases value <;> first | exact trivial | rfl)

theorem sidecar_accepts_iff_enabled :
    (∃ body, generateBody (enabledConfig 50) (ascii "list users") [] 10 = some body ∧
      Accepts loads GenerateRequest body) ∧
    ∃ request body,
      TestForgeService.analyseResult true none { status := .failed } = .ok (.handed request) ∧
      HttpAiProvider.analyseFailure (enabledConfig 50).ai request = some body ∧ Accepts loads AnalyzeRequest body := by
  have agrees := sidecar_accepts_iff loads (enabledConfig 50) (by decide)
  have model : AtMost 64 (enabledConfig 50).ai.model := atMost_of_length (isUtf8_small _ rfl) (by decide)
  constructor
  · have reads : Reads loads (.object (generateMembers (ascii "list users") (ascii "generated")
        (enabledConfig 50).api.baseUrl 10 (enabledConfig 50).ai.model)) :=
      reads_loads trivial (by decide +kernel) (by decide) (by decide +kernel)
    refine ⟨_,rfl,(agrees.1 (ascii "list users") [] 10 _ rfl reads).mpr ⟨isUtf8_small _ rfl,?_,?_,model,?_⟩⟩
    · exact atMost_of_length isUtf8_nil (by decide)
    · exact atMost_of_length (isUtf8_small _ rfl) (by decide)
    · exact .inl (by decide)
  · have failing : ({ status := .failed } : TestResult).status.isFailure = true := rfl
    have handed := FailureContext.analyseResult_built none failing (FailureContext.build_object {} _ [] rfl)
    refine ⟨_,_,handed,rfl,(agrees.2 _ _ _ _ handed rfl ?_).2 (isUtf8_small _ (by decide +kernel)) ?_ model⟩
    · exact reads_loads trivial (by decide +kernel) (by decide +kernel) (by decide +kernel)
    · exact atMost_of_length (isUtf8_small _ rfl) (by decide)

/-- The configuration allows 500 generated tests, the sidecar 50. -/
theorem many_tests_rejected : ¬∀ (config : Config) (requirement suiteName : Bytes) (maxTests : Int32) (body : Value),
    config.validate = .ok () → generateBody config requirement suiteName maxTests = some body →
      GenerateRequest body := by
  intro every
  have accepted := every (enabledConfig 500) (ascii "list users") [] 51 _ (by decide) rfl
  have range : (1 : Int) ≤ 51 ∧ (51 : Int) ≤ 50 := accepted.maxTests _ rfl
  exact absurd range.2 (by decide)

end Sidecar
end TestForge
