import TestForge.AnalysisReply
import TestForge.SidecarSchema

/-! The way of an analysis from the model through the sidecar and over the wire to the engine. The
exceptions that a handler does not catch, and replies that cannot be written, are answered by the
server with a status that says so. -/
namespace TestForge

open Json Strings

namespace Sidecar

open Python

/-- What came of the call of the model. -/
inductive Answer where
  | keyMissing
  | packageMissing
  /-- With the text of the decoder's exception. -/
  | undecodable (reason : Text)
  /-- Any other exception. -/
  | failed (type reason : Text)
  | decoded (parsed : Python.Value Double)

def Answer.outcome : Answer → Except Text (Python.Value Double)
  | .keyMissing => .error (text "OPENAI_API_KEY is not set. Export it, or run TestForge with " ++
      text "TESTFORGE_AI_MOCK=1 for the offline deterministic provider.")
  | .packageMissing => .error (text "the 'openai' package is not installed (pip install -r python/requirements.txt)")
  | .undecodable reason => .error (text "the model returned text that is not valid JSON: " ++ reason)
  | .failed type reason => .error (type ++ text ": " ++ reason)
  | .decoded parsed => objectAnswer parsed

/-- What of Python's conversions rests on the shapes of texts. -/
structure Conversions where
  runtime : Runtime Double
  /-- `float(text)`; nothing when it raises. -/
  parseFloat : Text → Option Double

/-- `max(0.0, min(1.0, d))`, in which a NaN becomes 1. -/
def unitFloat (d : Double) : Double :=
  let low := if d.less .one then d else .one
  if Double.zero.less low then low else .zero

/-- The confidence that is told. Nothing for an integer beyond every float: nobody catches what
`float` raises then. -/
def confidence (conversions : Conversions) : Python.Value Double → Option Double
  | .bool value => some (if value then .one else .zero)
  | .int value => if (Double.ofInt value).isFinite then some (unitFloat (.ofInt value)) else none
  | .float value => some (unitFloat value)
  | .str value => some ((conversions.parseFloat value).elim .zero unitFloat)
  | _ => some .zero

def strings (conversions : Conversions) (value : Python.Value Double) : List Text :=
  match value with
  | .str value => [value.take 500]
  | .list items => (items.map fun item => (item.toText conversions.runtime).take 500).take 10
  | _ => []

/-- What is taken from the request and from the call of the model. -/
structure Asked where
  model : Text
  elapsedMs : Int
  usage : Python.Value Double

def analysisOf (raw : Python.Value Double) : Python.Value Double := (raw.find (text "analysis")).getD raw

def missingCause (model : Text) (raw : Python.Value Double) : Python.Value Double := .dict [
  (text "ok",.bool false),
  (text "error",.str (text "the model's analysis had no 'probable_cause'")),
  (text "raw",raw),
  (text "model",.str model)]

/-- The cause, when the analysis is a dictionary with one that is true. -/
def causeOf (runtime : Runtime Double) (raw : Python.Value Double) : Option (Python.Value Double) :=
  ((analysisOf raw).find (text "probable_cause")).filter (·.truthy runtime)

def entryOf (raw : Python.Value Double) (key : Text) (default : Python.Value Double) : Python.Value Double :=
  ((analysisOf raw).find key).getD default

/-- `analyze_failure`; nothing when it raises. -/
def analyzeFailure (conversions : Conversions) (asked : Asked) (answer : Answer) : Option (Python.Value Double) :=
  match answer.outcome with
  | .error message => some (unavailable asked.model message)
  | .ok raw =>
    match causeOf conversions.runtime raw with
    | none => some (missingCause asked.model raw)
    | some cause =>
      (confidence conversions (entryOf raw (text "confidence") (.float .zero))).map fun confidence => .dict [
        (text "ok",.bool true),
        (text "model",.str asked.model),
        (text "elapsed_ms",.int asked.elapsedMs),
        (text "usage",asked.usage),
        (text "analysis",.dict [
          (text "probable_cause",.str ((cause.toText conversions.runtime).take 2000)),
          (text "category",.str (((entryOf raw (text "category") (.str [])).toText conversions.runtime).take 64)),
          (text "evidence",.list ((strings conversions (entryOf raw (text "evidence") (.list []))).map .str)),
          (text "suggested_investigation",
            .list ((strings conversions (entryOf raw (text "suggested_investigation") (.list []))).map .str)),
          (text "confidence",.float confidence)])]

/-! ### The wire -/

/-- The UTF-8 of a text; nothing when a surrogate stands in it. -/
def utf8 (whole : Text) : Option Bytes :=
  if whole.all (fun c => decide c.isValidChar) then some (Utf8.encode (whole.map Char.ofNat)) else none

mutual
/-- What a JSON reader finds in the text of a reply; nothing when the text cannot be written. -/
def sent : Python.Value Double → Option Value
  | .none => some .null
  | .bool value => some (.bool value)
  | .int value => some (if -2^63 ≤ value ∧ value < 2^63 then .int value else .double (.ofInt value))
  | .float value => if value.isFinite then some (.double value) else none
  | .str value => (utf8 value).map .string
  | .list items => (sentItems items).map .array
  | .dict items => (sentMembers items).map .object

def sentItems : List (Python.Value Double) → Option (List Value)
  | [] => some []
  | item :: rest => do
    let first ← sent item
    let others ← sentItems rest
    return first :: others

def sentMembers : List (Text × Python.Value Double) → Option (List (Bytes × Value))
  | [] => some []
  | (key,item) :: rest => do
    let name ← utf8 key
    let first ← sent item
    let others ← sentMembers rest
    return (name,first) :: others
end

theorem utf8_injective {one other : Text} {told : Bytes} (first : utf8 one = some told) (second : utf8 other = some told) :
    one = other := by
  unfold utf8 at first second
  split at first
  case isFalse => cases first
  split at second
  case isFalse => cases second
  next valid alsoValid =>
    have same := Utf8.encode_injective ((Option.some.inj first).trans (Option.some.inj second).symm)
    have back (whole : Text) (valid : whole.all (fun c => decide c.isValidChar) = true) :
        (whole.map Char.ofNat).map Char.toNat = whole := by
      rw [List.map_map,List.map_congr_left (g := id),List.map_id]
      intro c member
      have known := of_decide_eq_true (List.all_eq_true.mp valid c member)
      have same : Char.ofNat c = Char.ofNatAux c known := dif_pos known
      rw [Function.comp_apply,same]
      rfl
    rw [← back one valid,same,back other alsoValid]

theorem utf8_nonempty {whole : Text} {told : Bytes} (written : utf8 whole = some told) (filled : whole ≠ []) : told ≠ [] := by
  unfold utf8 at written
  split at written
  case isFalse => cases written
  next =>
    obtain rfl := Option.some.inj written
    have longer := Utf8.length_le_encode (whole.map Char.ofNat)
    have some_ := List.length_pos_iff.mpr filled
    rw [List.length_map] at longer
    exact List.length_pos_iff.mp (by omega)

theorem sentMembers_cons {key : Text} {item : Python.Value Double} {rest : List (Text × Python.Value Double)}
    {members : List (Bytes × Value)} (written : sentMembers ((key,item) :: rest) = some members) :
    ∃ name first others, utf8 key = some name ∧ sent item = some first ∧ sentMembers rest = some others ∧
      members = (name,first) :: others := by
  simp only [sentMembers,bind,Option.bind_eq_some_iff] at written
  obtain ⟨name,spelled,first,told,others,later,same⟩ := written
  exact ⟨name,first,others,spelled,told,later,(Option.some.inj same).symm⟩

/-- What is found in a document is what was told under the key. -/
theorem sent_find {value : Python.Value Double} {document : Value} (wire : sent value = some document) {key : Text}
    {name : Bytes} (named : utf8 key = some name) :
    document.find name = (value.find key).bind sent ∧ ∀ item ∈ value.find key, (sent item).isSome = true := by
  cases value with
  | dict entries =>
    obtain ⟨members,written,rfl⟩ := Option.map_eq_some_iff.mp wire
    clear wire
    induction entries generalizing members with
    | nil =>
      obtain rfl := Option.some.inj written
      exact ⟨rfl,by simp [Python.Value.find]⟩
    | cons entry rest ih =>
      obtain ⟨own,item⟩ := entry
      obtain ⟨name',first,others,spelled,told,later,rfl⟩ := sentMembers_cons written
      obtain ⟨found,defined⟩ := ih others later
      by_cases mine : own = key
      · obtain rfl := mine
        obtain rfl := Option.some.inj (spelled.symm.trans named)
        simp [Python.Value.find,Json.Value.find,told]
      · have apart : name' ≠ name := fun same => mine (utf8_injective spelled (same ▸ named))
        have skip : (key == own) = false := beq_false_of_ne (Ne.symm mine)
        simpa [Python.Value.find,Json.Value.find,List.lookup_cons,skip,apart] using And.intro found defined
  | none | bool =>
    obtain rfl := Option.some.inj wire
    exact ⟨rfl,fun item inside => absurd inside (Option.not_mem_none item)⟩
  | int z =>
    obtain rfl := Option.some.inj wire
    refine ⟨?_,fun item inside => absurd inside (Option.not_mem_none item)⟩
    split <;> rfl
  | float d =>
    rw [sent] at wire
    split at wire
    · obtain rfl := Option.some.inj wire
      exact ⟨rfl,fun item inside => absurd inside (Option.not_mem_none item)⟩
    · cases wire
  | str | list =>
    obtain ⟨told,written,rfl⟩ := Option.map_eq_some_iff.mp wire
    exact ⟨rfl,fun item inside => absurd inside (Option.not_mem_none item)⟩

/-! ### From the model to the engine -/

section

variable (conversions : Conversions) (asked : Asked) (answer : Answer)

/-- Why there is no analysis. -/
def refusal : Option Text :=
  match answer.outcome with
  | .error message => some message
  | .ok raw =>
    if (causeOf conversions.runtime raw).isSome then none else some (text "the model's analysis had no 'probable_cause'")

/-- A text as the engine keeps it. -/
def kept (limit : Nat) (whole : Bytes) : Bytes := truncate (redactSecrets whole) limit

theorem kept_nonempty {whole : Bytes} (filled : whole ≠ []) {limit : Nat} (positive : 0 < limit) : kept limit whole ≠ [] :=
  truncate_nonempty (redactSecrets_nonempty filled) positive

/-- What of an analysis reaches the engine. -/
structure Relayed (raw cause : Python.Value Double) (result : AnalysisResult) : Prop where
  cause : ∃ told ∈ utf8 ((cause.toText conversions.runtime).take 2000), result.probableCause = kept 2000 told
  category : ∃ told ∈ utf8 (((entryOf raw (text "category") (.str [])).toText conversions.runtime).take 64),
    result.suggestedCategory = kept 2000 told
  evidence : ∃ told ∈ (strings conversions (entryOf raw (text "evidence") (.list []))).mapM utf8,
    result.evidence = told.map (kept 500)
  investigation : ∃ told ∈ (strings conversions (entryOf raw (text "suggested_investigation") (.list []))).mapM utf8,
    result.suggestedInvestigation = told.map (kept 500)
  confidence : confidence conversions (entryOf raw (text "confidence") (.float .zero)) = some result.confidence
  model : utf8 asked.model = some result.model

/-- The engine has an analysis exactly when the model gave one, and then that one; otherwise it has the reason. -/
structure Understood (result : AnalysisResult) : Prop where
  ok : result.ok = true ↔ refusal conversions answer = none
  reason : ∀ message ∈ refusal conversions answer, result.error ≠ [] ∧
    ∃ told ∈ utf8 message, result.error = kept 2000 told
  analysis : ∀ raw, answer.outcome = .ok raw → ∀ cause ∈ causeOf conversions.runtime raw,
    Relayed conversions asked raw cause result
  few : result.evidence.length ≤ 10 ∧ result.suggestedInvestigation.length ≤ 10

variable {conversions asked answer}

theorem shown_nonempty (runtime : Runtime Double) (printed : ∀ d, runtime.repr d ≠ []) {value : Python.Value Double}
    (true_ : value.truthy runtime = true) : value.toText runtime ≠ [] := by
  cases value with
  | none => cases true_
  | bool value => cases value <;> simp [Python.Value.toText,Python.Value.shown,Python.text]
  | int z =>
    simp only [Python.Value.toText,Python.Value.shown,Python.decimalInt,Python.decimal]
    split
    · exact List.cons_ne_nil _ _
    · exact fun empty => Nat.toDigits_ne_nil (List.map_eq_nil_iff.mp empty)
  | float d => exact printed d
  | str whole => simpa [Python.Value.truthy,Python.Value.toText] using true_
  | list | dict => simp [Python.Value.toText,Python.Value.shown]

theorem unitFloat_inUnit (d : Double) : (unitFloat d).InUnit := by
  unfold unitFloat
  dsimp only
  split
  · split
    · next below above =>
      have number : d.isNaN = false := by
        by_contra nan
        simp [Double.less,nan] at below
      rw [Double.less_iff Double.zero_inUnit.1 number] at above
      rw [Double.less_iff number Double.one_inUnit.1] at below
      exact ⟨number,Int.le_of_lt above,Int.le_of_lt below⟩
    · exact Double.zero_inUnit
  · split
    · exact Double.one_inUnit
    · exact Double.zero_inUnit

theorem confidence_inUnit {value : Python.Value Double} {d : Double} (told : confidence conversions value = some d) :
    d.InUnit := by
  cases value with
  | bool value =>
    simp only [confidence,Option.some.injEq] at told
    subst told
    split
    · exact Double.one_inUnit
    · exact Double.zero_inUnit
  | int z =>
    simp only [confidence] at told
    split at told
    · simp only [Option.some.injEq] at told
      subst told
      exact unitFloat_inUnit _
    · cases told
  | float number =>
    simp only [confidence,Option.some.injEq] at told
    subst told
    exact unitFloat_inUnit number
  | str whole =>
    simp only [confidence,Option.some.injEq] at told
    subst told
    cases conversions.parseFloat whole with
    | none =>
      rw [Option.elim_none]
      exact Double.zero_inUnit
    | some number =>
      rw [Option.elim_some]
      exact unitFloat_inUnit number
  | none | list | dict =>
    simp only [confidence,Option.some.injEq] at told
    subst told
    exact Double.zero_inUnit

theorem strings_length (value : Python.Value Double) : (strings conversions value).length ≤ 10 := by
  cases value with
  | list items => exact List.length_take_le _ _
  | none | bool | int | float | str | dict => simp [strings]

theorem mapM_utf8_length (texts : List Text) : ∀ told, texts.mapM utf8 = some told → told.length = texts.length := by
  induction texts with
  | nil =>
    intro told same
    obtain rfl := Option.some.inj same
    rfl
  | cons whole rest ih =>
    intro told same
    rw [List.mapM_cons] at same
    obtain ⟨first,-,later⟩ := Option.bind_eq_some_iff.mp same
    obtain ⟨others,all,same⟩ := Option.bind_eq_some_iff.mp later
    obtain rfl := Option.some.inj same
    exact congrArg (· + 1) (ih others all)

theorem sentItems_str (texts : List Text) :
    sentItems (texts.map .str) = (texts.mapM utf8).map fun told => told.map .string := by
  induction texts with
  | nil => rfl
  | cons whole rest ih =>
    rw [List.map_cons,sentItems,ih,sent,List.mapM_cons]
    cases utf8 whole <;> cases rest.mapM utf8 <;> rfl

section

variable {value : Python.Value Double} {document : Value} (wire : sent value = some document) {key : Text} {name : Bytes}
  (named : utf8 key = some name)

include wire named

theorem sent_entry {item : Python.Value Double} (told : value.find key = some item) :
    ∃ written, sent item = some written ∧ document.find name = some written := by
  obtain ⟨found,defined⟩ := sent_find wire named
  obtain ⟨written,same⟩ := Option.isSome_iff_exists.mp (defined item told)
  exact ⟨written,same,by rw [found,told]; exact same⟩

theorem sent_string {whole : Text} (told : value.find key = some (.str whole)) :
    ∃ written ∈ utf8 whole, HttpAiProvider.readString document name = kept 2000 written := by
  obtain ⟨item,same,found⟩ := sent_entry wire named told
  obtain ⟨written,spelled,rfl⟩ := Option.map_eq_some_iff.mp same
  exact ⟨written,spelled,by rw [HttpAiProvider.readString,found,kept]⟩

theorem sent_strings {texts : List Text} (told : value.find key = some (.list (texts.map .str))) :
    ∃ written ∈ texts.mapM utf8, HttpAiProvider.readStringArray document name = written.map (kept 500) := by
  obtain ⟨item,same,found⟩ := sent_entry wire named told
  obtain ⟨items,spelled,rfl⟩ := Option.map_eq_some_iff.mp same
  rw [sentItems_str] at spelled
  obtain ⟨written,all,rfl⟩ := Option.map_eq_some_iff.mp spelled
  refine ⟨written,all,?_⟩
  rw [HttpAiProvider.readStringArray,found]
  simp [List.filterMap_map,Value.asString?,kept]

end

theorem sent_dict {value : Python.Value Double} (dict : value.isDict = true)
    {document : Value} (wire : sent value = some document) :
    ∃ members, document = .object members := by
  cases value with
  | dict entries =>
    obtain ⟨members,-,rfl⟩ := Option.map_eq_some_iff.mp wire
    exact ⟨members,rfl⟩
  | none | bool | int | float | str | list => cases dict

theorem sent_confidence {value : Python.Value Double} {document : Value} (wire : sent value = some document) {d : Double}
    (inside : d.InUnit) (told : value.find (text "confidence") = some (.float d)) :
    HttpAiProvider.readConfidence document = d := by
  obtain ⟨item,same,found⟩ := sent_entry wire (by decide : utf8 (text "confidence") = some (ascii "confidence")) told
  rw [sent,if_pos inside.isFinite] at same
  obtain rfl := Option.some.inj same
  rw [HttpAiProvider.readConfidence,found]
  simp only [Value.isNumber,Value.doubleOr,if_true]
  exact Double.clampUnit_inside inside

/-- What the reply says when there is no analysis. -/
theorem reply_refused {message : Text} (refused : refusal conversions answer = some message) {reply : Python.Value Double}
    (answered : analyzeFailure conversions asked answer = some reply) :
    reply.find (text "ok") = some (.bool false) ∧ reply.find (text "error") = some (.str message) := by
  unfold refusal at refused
  unfold analyzeFailure at answered
  cases outcome : answer.outcome with
  | error reason =>
    rw [outcome] at refused answered
    obtain rfl := Option.some.inj refused
    obtain rfl := Option.some.inj answered
    exact ⟨rfl,rfl⟩
  | ok raw =>
    simp only [outcome] at refused answered
    cases cause : causeOf conversions.runtime raw with
    | some cause => simp [cause] at refused
    | none =>
      simp only [cause] at refused answered
      obtain rfl := Option.some.inj refused
      obtain rfl := Option.some.inj answered
      exact ⟨rfl,rfl⟩

theorem refusal_nonempty {message : Text} (refused : refusal conversions answer = some message) : message ≠ [] := by
  unfold refusal at refused
  cases outcome : answer.outcome with
  | error reason =>
    rw [outcome] at refused
    obtain rfl := Option.some.inj refused
    cases answer with
    | keyMissing | packageMissing | undecodable | failed =>
      obtain rfl := Except.error.inj outcome
      simp [text]
    | decoded parsed =>
      simp only [Answer.outcome,objectAnswer] at outcome
      split at outcome
      · cases outcome
      · obtain rfl := Except.error.inj outcome
        simp [text]
  | ok raw =>
    simp only [outcome] at refused
    split at refused
    · cases refused
    · obtain rfl := Option.some.inj refused
      simp [text]

/-- What the reply says when there is an analysis. -/
structure Told (conversions : Conversions) (asked : Asked) (raw cause reply analysis : Python.Value Double) (d : Double) :
    Prop where
  ok : reply.find (text "ok") = some (.bool true)
  model : reply.find (text "model") = some (.str asked.model)
  inside : reply.find (text "analysis") = some analysis
  dict : analysis.isDict = true
  cause : analysis.find (text "probable_cause") = some (.str ((cause.toText conversions.runtime).take 2000))
  category : analysis.find (text "category") =
    some (.str (((entryOf raw (text "category") (.str [])).toText conversions.runtime).take 64))
  evidence : analysis.find (text "evidence") =
    some (.list ((strings conversions (entryOf raw (text "evidence") (.list []))).map .str))
  investigation : analysis.find (text "suggested_investigation") =
    some (.list ((strings conversions (entryOf raw (text "suggested_investigation") (.list []))).map .str))
  confidence : analysis.find (text "confidence") = some (.float d)

theorem reply_analysed {raw cause : Python.Value Double} (outcome : answer.outcome = .ok raw)
    (useful : causeOf conversions.runtime raw = some cause) {reply : Python.Value Double}
    (answered : analyzeFailure conversions asked answer = some reply) :
    ∃ analysis d, confidence conversions (entryOf raw (text "confidence") (.float .zero)) = some d ∧
      Told conversions asked raw cause reply analysis d := by
  simp only [analyzeFailure,outcome,useful] at answered
  obtain ⟨d,told,rfl⟩ := Option.map_eq_some_iff.mp answered
  exact ⟨_,d,told,rfl,rfl,rfl,rfl,rfl,rfl,rfl,rfl,rfl⟩

theorem causeOf_truthy {runtime : Runtime Double} {raw cause : Python.Value Double} (useful : causeOf runtime raw = some cause) :
    cause.truthy runtime = true :=
  (Option.filter_eq_some_iff.mp useful).2

theorem useful_of_accepted (accepted : refusal conversions answer = none) :
    ∃ raw cause, answer.outcome = .ok raw ∧ causeOf conversions.runtime raw = some cause := by
  unfold refusal at accepted
  cases outcome : answer.outcome with
  | error reason => simp [outcome] at accepted
  | ok raw =>
    simp only [outcome] at accepted
    cases useful : causeOf conversions.runtime raw with
    | none => simp [useful] at accepted
    | some cause => exact ⟨raw,cause,rfl,useful⟩

section Crossing

variable {reply : Python.Value Double} {document : Value} (wire : sent reply = some document)
  (config : Settings.AiConfig) (elapsed : Int) (response : HttpResponse)
  (carried : HttpAiProvider.document config response = .ok document)
include wire carried

/-- A refusal arrives as the error. -/
theorem refusal_crosses {message : Text} (refused : refusal conversions answer = some message)
    (answered : analyzeFailure conversions asked answer = some reply) :
    Understood conversions asked answer (HttpAiProvider.received config elapsed response) := by
  obtain ⟨ok,error⟩ := reply_refused refused answered
  obtain ⟨flag,same,found⟩ := sent_entry wire (by decide : utf8 (text "ok") = some (ascii "ok")) ok
  obtain rfl := Option.some.inj same
  obtain ⟨told,spelled,read⟩ := sent_string wire (by decide : utf8 (text "error") = some (ascii "error")) error
  have refuses : HttpAiProvider.refuses document = true := by rw [HttpAiProvider.refuses,found]; rfl
  have result : HttpAiProvider.received config elapsed response =
      { provider := ascii "http-sidecar", model := config.model, elapsed, error := kept 2000 told } := by
    simp only [HttpAiProvider.received,carried,refuses,read,if_true]
  have filled := kept_nonempty (utf8_nonempty spelled (refusal_nonempty refused)) (by decide : 0 < 2000)
  have error : (HttpAiProvider.received config elapsed response).error = kept 2000 told := by rw [result]
  have failed : (HttpAiProvider.received config elapsed response).ok = false := by rw [result]
  have nothing : (HttpAiProvider.received config elapsed response).evidence = [] ∧
      (HttpAiProvider.received config elapsed response).suggestedInvestigation = [] := by
    rw [result]
    exact ⟨rfl,rfl⟩
  refine ⟨by simp [refused,failed],?_,?_,by simp [nothing]⟩
  · intro other same
    obtain rfl := Option.some.inj (refused.symm.trans same)
    rw [error]
    exact ⟨filled,told,spelled,rfl⟩
  · intro raw outcome cause useful
    simp [refusal,outcome,Option.mem_def.mp useful] at refused

/-- What is read of the reply when there is an analysis. -/
theorem told_crosses (printed : ∀ d, conversions.runtime.repr d ≠ []) {raw cause analysis : Python.Value Double} {d : Double}
    (useful : causeOf conversions.runtime raw = some cause)
    (confident : confidence conversions (entryOf raw (text "confidence") (.float .zero)) = some d)
    (told : Told conversions asked raw cause reply analysis d) :
    (HttpAiProvider.received config elapsed response).ok = true ∧
      Relayed conversions asked raw cause (HttpAiProvider.received config elapsed response) := by
  obtain ⟨flag,same,found⟩ := sent_entry wire (by decide : utf8 (text "ok") = some (ascii "ok")) told.ok
  obtain rfl := Option.some.inj same
  have refuses : HttpAiProvider.refuses document = false := by rw [HttpAiProvider.refuses,found]; rfl
  obtain ⟨inner,wired,inside⟩ := sent_entry wire (by decide : utf8 (text "analysis") = some (ascii "analysis")) told.inside
  obtain ⟨members,rfl⟩ := sent_dict told.dict wired
  obtain ⟨causeText,causeTold,causeRead⟩ := sent_string wired
    (by decide : utf8 (text "probable_cause") = some (ascii "probable_cause")) told.cause
  obtain ⟨categoryText,categoryTold,categoryRead⟩ := sent_string wired
    (by decide : utf8 (text "category") = some (ascii "category")) told.category
  obtain ⟨items,itemsTold,itemsRead⟩ := sent_strings wired
    (by decide : utf8 (text "evidence") = some (ascii "evidence")) told.evidence
  obtain ⟨steps,stepsTold,stepsRead⟩ := sent_strings wired
    (by decide : utf8 (text "suggested_investigation") = some (ascii "suggested_investigation")) told.investigation
  have confidenceRead := sent_confidence wired (confidence_inUnit confident) told.confidence
  obtain ⟨modelValue,modelSent,modelFound⟩ := sent_entry wire
    (by decide : utf8 (text "model") = some (ascii "model")) told.model
  obtain ⟨modelText,modelTold,rfl⟩ := Option.map_eq_some_iff.mp modelSent
  have shown := shown_nonempty conversions.runtime printed (causeOf_truthy useful)
  have cut : (cause.toText conversions.runtime).take 2000 ≠ [] := by simpa [List.take_eq_nil_iff] using shown
  have filled := kept_nonempty (utf8_nonempty causeTold cut) (by decide : 0 < 2000)
  have result : HttpAiProvider.received config elapsed response = {
      ok := true
      provider := ascii "http-sidecar"
      elapsed
      probableCause := kept 2000 causeText
      suggestedCategory := kept 2000 categoryText
      evidence := items.map (kept 500)
      suggestedInvestigation := steps.map (kept 500)
      confidence := d
      model := modelText } := by
    simp only [HttpAiProvider.received,carried,refuses,inside,causeRead,categoryRead,itemsRead,stepsRead,confidenceRead,
      modelFound,Option.elim_some,Value.stringOr,Value.asString?,Option.getD_some,if_neg filled,Bool.false_eq_true,if_false]
  rw [result]
  refine ⟨rfl,?_⟩
  exact {
    cause := ⟨causeText,causeTold,by dsimp only⟩
    category := ⟨categoryText,categoryTold,by dsimp only⟩
    evidence := ⟨items,itemsTold,by dsimp only⟩
    investigation := ⟨steps,stepsTold,by dsimp only⟩
    confidence := confident
    model := modelTold }

end Crossing

/-- What the model gives is what the engine has, up to the cuts, and what it does not give has a reason. -/
theorem analysis_crosses (printed : ∀ d, conversions.runtime.repr d ≠ []) {reply : Python.Value Double} {document : Value}
    (answered : analyzeFailure conversions asked answer = some reply) (wire : sent reply = some document)
    (config : Settings.AiConfig) (elapsed : Int) (response : HttpResponse)
    (carried : HttpAiProvider.document config response = .ok document) :
    Understood conversions asked answer (HttpAiProvider.received config elapsed response) := by
  cases refused : refusal conversions answer with
  | some message => exact refusal_crosses wire config elapsed response carried refused answered
  | none =>
    obtain ⟨raw,cause,outcome,useful⟩ := useful_of_accepted refused
    obtain ⟨analysis,d,confident,told⟩ := reply_analysed outcome useful answered
    obtain ⟨ok,relayed⟩ := told_crosses wire config elapsed response carried printed useful confident told
    have few {value : Python.Value Double} {told : List Bytes} (all : (strings conversions value).mapM utf8 = some told) :
        (told.map (kept 500)).length ≤ 10 := by
      rw [List.length_map,mapM_utf8_length _ told all]
      exact strings_length value
    refine ⟨iff_of_true ok refused,by simp [refused],?_,?_⟩
    · intro other same also usefulToo
      obtain rfl := Except.ok.inj (same.symm.trans outcome)
      obtain rfl := Option.some.inj (useful.symm.trans usefulToo)
      exact relayed
    · obtain ⟨items,itemsTold,evidence⟩ := relayed.evidence
      obtain ⟨steps,stepsTold,investigation⟩ := relayed.investigation
      rw [evidence,investigation]
      exact ⟨few itemsTold,few stepsTold⟩

/-- Floats do not occur. -/
def plainConversions : Conversions where
  runtime := {
    upper := id
    lower := id
    printable := fun _ => false
    truthy := fun _ => true
    between := fun _ _ _ => false
    repr := fun _ => text "0.5" }
  parseFloat := fun _ => none

def sampleAsked : Asked where
  model := text "m"
  elapsedMs := 5
  usage := .dict []

/-- One item where a list is expected, and a word for the confidence. -/
def diskFull : Answer := .decoded (.dict [
  (text "probable_cause",.str (text "disk full")),
  (text "evidence",.str (text "ENOSPC")),
  (text "confidence",.str (text "high"))])

def diskFullDocument : Value := .object [
  (ascii "ok",.bool true),
  (ascii "model",.string (ascii "m")),
  (ascii "elapsed_ms",.int 5),
  (ascii "usage",.object []),
  (ascii "analysis",.object [
    (ascii "probable_cause",.string (ascii "disk full")),
    (ascii "category",.string []),
    (ascii "evidence",.array [.string (ascii "ENOSPC")]),
    (ascii "suggested_investigation",.array []),
    (ascii "confidence",.double .zero)])]

theorem analysis_crosses_diskFull : Understood plainConversions sampleAsked diskFull
    (HttpAiProvider.received {} 7 { statusCode := 200, body := diskFullDocument.dump }) := by
  have faithful : ∀ u ∈ diskFullDocument.subvalues, u.Faithful := by
    simp only [diskFullDocument,Value.subvalues,Value.memberSubvalues,Value.itemSubvalues]
    simp [Value.Faithful,Value.IntFits,ascii,Double.zero,Double.isFinite,Double.exponentField]
  have parsed : parse {} diskFullDocument.dump = .ok diskFullDocument :=
    (Value.dump_roundTrip diskFullDocument faithful {} (by decide)).1 (by decide +kernel)
  have carried : HttpAiProvider.document {} { statusCode := 200, body := diskFullDocument.dump } = .ok diskFullDocument := by
    simp [HttpAiProvider.document,HttpResponse.ok,parsed]
  have printed : ∀ d, plainConversions.runtime.repr d ≠ [] := fun d => by simp [plainConversions,text]
  exact analysis_crosses printed rfl rfl {} 7 _ carried

end

end Sidecar
end TestForge
