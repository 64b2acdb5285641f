import TestForge.AiSidecar
import TestForge.Durations
import TestForge.IntegerReads

/-! What the engine makes of the response to a request for an analysis, whatever that is. -/
namespace TestForge

open Json Strings Settings

structure AnalysisResult where
  ok : Bool := false
  error : Bytes := []
  probableCause : Bytes := []
  suggestedCategory : Bytes := []
  confidence : Double := ⟨0⟩
  evidence : List Bytes := []
  suggestedInvestigation : List Bytes := []
  model : Bytes := []
  provider : Bytes := []
  elapsed : Int := 0

namespace Double

/-- The order of the doubles that are no NaN. -/
def rank (d : Double) : Int := if d.negative then -(d.magnitude : Int) else d.magnitude

/-- `a < b` -/
def less (a b : Double) : Bool := !a.isNaN && !b.isNaN && a.rank < b.rank

def zero : Double := ⟨0⟩
def one : Double := ⟨0x3FF0000000000000⟩

/-- `std::clamp(d, 0.0, 1.0)` -/
def clampUnit (d : Double) : Double := if d.less zero then zero else if one.less d then one else d

/-- `0.0 <= d && d <= 1.0` -/
def InUnit (d : Double) : Prop := d.isNaN = false ∧ 0 ≤ d.rank ∧ d.rank ≤ one.rank

theorem zero_inUnit : zero.InUnit := ⟨by decide,by decide,by decide⟩
theorem one_inUnit : one.InUnit := ⟨by decide,by decide,by decide⟩

theorem less_iff {a b : Double} (left : a.isNaN = false) (right : b.isNaN = false) : a.less b = true ↔ a.rank < b.rank := by
  simp [less,left,right]

theorem clampUnit_inUnit {d : Double} (number : d.isNaN = false) : d.clampUnit.InUnit := by
  unfold clampUnit
  split
  · exact zero_inUnit
  split
  · exact one_inUnit
  · next low high =>
    rw [less_iff number zero_inUnit.1] at low
    rw [less_iff one_inUnit.1 number] at high
    exact ⟨number,not_lt.mp low,not_lt.mp high⟩

/-- Nothing is changed between the bounds. -/
theorem clampUnit_inside {d : Double} (inside : d.InUnit) : d.clampUnit = d := by
  have low : ¬d.less zero = true := fun less => absurd ((less_iff inside.1 zero_inUnit.1).mp less) (not_lt.mpr inside.2.1)
  have high : ¬one.less d = true := fun less => absurd ((less_iff one_inUnit.1 inside.1).mp less) (not_lt.mpr inside.2.2)
  rw [clampUnit,if_neg low,if_neg high]

theorem InUnit.isFinite {d : Double} (inside : d.InUnit) : d.isFinite = true := by
  obtain ⟨-,low,high⟩ := inside
  have bound : one.rank < 2047 * 2^52 := by decide
  rw [isFinite_iff]
  have signed : d.rank = -(d.magnitude : Int) ∨ d.rank = d.magnitude := by
    unfold rank
    split <;> simp
  omega

theorem isNaN_ofRatio (negative : Bool) (num den : Nat) : (ofRatio negative num den).isNaN = false := by
  have capped : (ofRatio negative num den).magnitude ≤ 2047 * 2^52 :=
    (ofRatio_fields negative num den).2 ▸ Nat.min_le_right _ _
  generalize ofRatio negative num den = d at capped ⊢
  by_contra nan
  have parts : d.exponentField = 2047 ∧ d.fraction ≠ 0 := by simpa [isNaN,isFinite] using nan
  rw [magnitude,shift,significand,parts.1] at capped
  have positive := Nat.pos_of_ne_zero parts.2
  rw [if_neg (by decide)] at capped
  omega

theorem isNaN_ofInt (z : Int) : (ofInt z).isNaN = false := isNaN_ofRatio _ _ _

end Double

namespace Json

/-- No NaN is read from a text. -/
theorem Node.numbers (node : Node) : ∀ d, Value.double d ∈ node.value.subvalues → d.isNaN = false := by
  induction node using Node.induction with
  | null | bool | string => simp [Node.value,Value.subvalues]
  | number n =>
    intro d inside
    rw [Node.value,Numeral.value] at inside
    split at inside
    · simp [Value.subvalues] at inside
    · obtain rfl : d = n.toDouble := by simpa [Value.subvalues] using inside
      exact Double.isNaN_ofRatio _ _ _
  | array items ih =>
    intro d inside
    rw [Node.value,Node.itemValues_eq] at inside
    rcases (Value.subvalues_array _ _).mp inside with same | ⟨item,listed,inside⟩
    · cases same
    obtain ⟨node,member,rfl⟩ := List.mem_map.mp listed
    exact ih node member d inside
  | object members ih =>
    intro d inside
    rw [Node.value,Node.memberValues_eq] at inside
    rcases (Value.subvalues_object _ _).mp inside with same | ⟨member,listed,inside⟩
    · cases same
    obtain ⟨tree,known,rfl⟩ := List.mem_map.mp (lastWins_subset listed)
    exact ih tree known d inside

theorem parse_numbers {limits : ParseLimits} {text : Bytes} {value : Value} (parsed : parse limits text = .ok value) :
    ∀ d, Value.double d ∈ value.subvalues → d.isNaN = false := by
  obtain ⟨-,node,-,-,rfl⟩ := (parse_iff _ _ _).mp parsed
  exact node.numbers

theorem Value.find_inside {value item : Value} {key : Bytes} (found : value.find key = some item) :
    ∀ u ∈ item.subvalues, u ∈ value.subvalues := by
  cases value with
  | object members =>
    obtain ⟨member,listed,rfl⟩ := Option.map_eq_some_iff.mp found
    intro u inside
    exact (subvalues_object _ _).mpr (.inr ⟨member,List.mem_of_find?_eq_some listed,inside⟩)
  | null | bool | int | double | string | array => cases found

end Json

namespace AnalysisResult

def advisory : Bytes :=
  ascii "AI analysis is advisory. The pass/fail verdict was decided by the assertions in " ++
    ascii "the C++ engine and is not affected by anything in this object."

def toJson (result : AnalysisResult) : Value := .object ([
  (ascii "ok",.bool result.ok)] ++
  (if result.ok then [] else [(ascii "error",.string result.error)]) ++ [
  (ascii "provider",.string result.provider),
  (ascii "model",.string result.model),
  (ascii "elapsed_ms",.int result.elapsed),
  (ascii "probable_cause",.string result.probableCause),
  (ascii "suggested_category",.string result.suggestedCategory),
  (ascii "confidence",.double result.confidence),
  (ascii "evidence",.array (result.evidence.map .string)),
  (ascii "suggested_investigation",.array (result.suggestedInvestigation.map .string)),
  (ascii "advisory_only",.bool true),
  (ascii "disclaimer",.string advisory)])

end AnalysisResult

namespace HttpResponse

def ok (response : HttpResponse) : Bool := 200 ≤ response.statusCode && response.statusCode < 300

end HttpResponse

namespace Masking

variable {σ : Type} {mask : List σ}

theorem masked_nonempty {rule : Rule σ} (lawful : Lawful mask rule) {whole : List σ} (filled : whole ≠ []) :
    masked mask rule whole ≠ [] := by
  cases located : rule whole with
  | some found =>
    rw [masked_found lawful located]
    simp [lawful.keeps whole found located]
  | none =>
    obtain ⟨c,rest,rfl⟩ := List.exists_cons_of_ne_nil filled
    rw [masked_none located]
    exact List.cons_ne_nil _ _

theorem passes_nonempty {rules : List (Rule σ)} (lawful : ∀ rule ∈ rules, Lawful mask rule) :
    ∀ whole : List σ, whole ≠ [] → passes mask rules whole ≠ [] := by
  induction rules with
  | nil => exact fun whole filled => filled
  | cons rule rules ih =>
    intro whole filled
    exact ih (fun other member => lawful other (.tail _ member)) _ (masked_nonempty (lawful rule (.head _)) filled)

end Masking

namespace Strings

theorem redactSecrets_nonempty {whole : Bytes} (filled : whole ≠ []) : redactSecrets whole ≠ [] :=
  Masking.passes_nonempty redactionRules_lawful whole filled

theorem truncate_nonempty {whole : Bytes} (filled : whole ≠ []) {limit : Nat} (positive : 0 < limit) :
    truncate whole limit ≠ [] := by
  unfold truncate
  split
  · exact filled
  split
  · simp [List.take_eq_nil_iff,filled,Nat.ne_of_gt positive]
  · simp [truncationMarker,ascii]

end Strings

/-! ### The provider -/

namespace HttpAiProvider

def readString (object : Value) (key : Bytes) : Bytes :=
  match object.find key with
  | some (.string text) => truncate (redactSecrets text) 2000
  | _ => []

def readStringArray (object : Value) (key : Bytes) : List Bytes :=
  match object.find key with
  | some (.array items) => items.filterMap fun item =>
      item.asString?.map fun text => truncate (redactSecrets text) 500
  | _ => []

def readConfidence (object : Value) : Double :=
  match object.find (ascii "confidence") with
  | some confidence => if confidence.isNumber then (confidence.doubleOr .zero).clampUnit else .zero
  | none => .zero

/-- The document of a response, or what is said when there is none. -/
def document (config : Settings.AiConfig) (response : HttpResponse) : Except Bytes Value :=
  if response.transportError then
    .error (ascii "cannot reach the AI sidecar at " ++ config.endpoint ++ ascii ": " ++ response.errorMessage)
  else if !response.ok then
    .error (ascii "the AI sidecar returned HTTP " ++ decimalInt response.statusCode ++ ascii ": " ++
      truncate response.body 500)
  else
    match parse {} response.body with
    | .ok document => .ok document
    | .error error => .error (ascii "the AI sidecar returned a body that is not valid JSON: " ++ error.what)

/-- The document says `ok: false`. -/
def refuses (document : Value) : Bool := (document.find (ascii "ok")).any Value.isFalse

/-- What `analyseFailure` makes of the response. -/
def received (config : Settings.AiConfig) (elapsed : Int) (response : HttpResponse) : AnalysisResult :=
  let result : AnalysisResult := { provider := ascii "http-sidecar", model := config.model, elapsed }
  match document config response with
  | .error error => { result with error }
  | .ok document =>
    if refuses document then { result with error := readString document (ascii "error") }
    else
      match document.find (ascii "analysis") with
      | some (.object members) =>
        let read := { result with
          probableCause := readString (.object members) (ascii "probable_cause")
          suggestedCategory := readString (.object members) (ascii "category")
          evidence := readStringArray (.object members) (ascii "evidence")
          suggestedInvestigation := readStringArray (.object members) (ascii "suggested_investigation")
          confidence := readConfidence (.object members)
          model := (document.find (ascii "model")).elim config.model (·.stringOr config.model) }
        if read.probableCause = [] then { read with error := ascii "the AI response contained no probable cause" }
        else { read with ok := true }
      | _ => { result with error := ascii "the AI response has no 'analysis' object" }

/-- The whole of `analyseFailure`; `postJson` measures the time as well. -/
def analyse (config : Settings.AiConfig) (postJson : Value → Int × HttpResponse)
    (request : TestForgeService.AnalysisRequest) : AnalysisResult :=
  match analyseFailure config request with
  | some payload => received config (postJson payload).1 (postJson payload).2
  | none => {
      provider := ascii "http-sidecar"
      model := config.model
      error := ascii "the AI provider is not enabled" }

end HttpAiProvider

namespace HttpAiProvider

variable (config : Settings.AiConfig) (elapsed : Int) (response : HttpResponse)

theorem readString_length (object : Value) (key : Bytes) : (readString object key).length ≤ 2000 := by
  unfold readString
  split
  · exact truncate_length _ _
  · exact Nat.zero_le _

theorem readStringArray_length (object : Value) (key : Bytes) : ∀ item ∈ readStringArray object key, item.length ≤ 500 := by
  unfold readStringArray
  split
  · intro item member
    obtain ⟨told,-,read⟩ := List.mem_filterMap.mp member
    obtain ⟨text,-,rfl⟩ := Option.map_eq_some_iff.mp read
    exact truncate_length _ _
  · exact fun _ none => nomatch none

theorem readConfidence_inUnit (object : Value) (numbers : ∀ d, Value.double d ∈ object.subvalues → d.isNaN = false) :
    (readConfidence object).InUnit := by
  unfold readConfidence
  split
  case h_2 => exact Double.zero_inUnit
  next confidence found =>
    cases confidence with
    | double d =>
      have number := numbers d (Value.find_inside found _ (Value.self_mem_subvalues _))
      simpa only [Value.isNumber,Value.doubleOr,if_true] using Double.clampUnit_inUnit number
    | int z =>
      simpa only [Value.isNumber,Value.doubleOr,if_true] using Double.clampUnit_inUnit (Double.isNaN_ofInt z)
    | null | bool | string | array | object =>
      simpa only [Value.isNumber,Bool.false_eq_true,if_false] using Double.zero_inUnit

/-- The response is a success whose body is this document. -/
def Carries (document : Value) : Prop :=
  response.transportError = false ∧ response.ok = true ∧ parse {} response.body = .ok document

theorem document_iff (document : Value) :
    HttpAiProvider.document config response = .ok document ↔ Carries response document := by
  unfold HttpAiProvider.document Carries
  split
  · next transport => simp [transport]
  next transport =>
    split
    · next refused => simp_all
    next answered =>
      cases parsed : parse {} response.body with
      | error error => simp
      | ok value => simp_all

theorem document_error {error : Bytes} (failed : HttpAiProvider.document config response = .error error) : error ≠ [] := by
  unfold HttpAiProvider.document at failed
  split at failed
  · obtain rfl := Except.error.inj failed
    simp [ascii]
  split at failed
  · obtain rfl := Except.error.inj failed
    simp [ascii]
  split at failed
  · cases failed
  · obtain rfl := Except.error.inj failed
    simp [ascii]

theorem readString_empty (object : Value) (key : Bytes) :
    readString object key = [] ↔ ∀ text, object.find key = some (.string text) → text = [] := by
  unfold readString
  split
  · next text found =>
    constructor
    · intro nothing other same
      obtain rfl := Value.string.inj (Option.some.inj (found.symm.trans same))
      by_contra filled
      exact truncate_nonempty (redactSecrets_nonempty filled) (by decide) nothing
    · intro empty
      rw [empty text found]
      rfl
  · next other => exact iff_of_true rfl fun text found => absurd found (other text)

theorem readString_redacted (object : Value) (key : Bytes) : FailureContext.Redacted (readString object key) := by
  unfold readString
  split
  · exact FailureContext.redacted_truncate _ _
  · exact FailureContext.redacted_truncate [] 0

theorem readStringArray_redacted (object : Value) (key : Bytes) :
    ∀ item ∈ readStringArray object key, FailureContext.Redacted item := by
  unfold readStringArray
  split
  · intro item member
    obtain ⟨told,-,read⟩ := List.mem_filterMap.mp member
    obtain ⟨text,-,rfl⟩ := Option.map_eq_some_iff.mp read
    exact FailureContext.redacted_truncate _ _
  · exact fun _ none => nomatch none

/-- The response has an analysis with a cause. -/
def Usable : Prop := ∃ document members text, Carries response document ∧
  refuses document = false ∧ document.find (ascii "analysis") = some (.object members) ∧
    (Value.object members).find (ascii "probable_cause") = some (.string text) ∧ text ≠ []

/-- The response says that it has failed, and not why. -/
def Silent : Prop := ∃ document, Carries response document ∧ refuses document = true ∧
  ∀ text, document.find (ascii "error") = some (.string text) → text = []

/-- What holds of an analysis, whatever was said. -/
structure Sound (result : AnalysisResult) : Prop where
  ok : result.ok = true ↔ Usable response
  error : result.error = [] ↔ Usable response ∨ Silent response
  cause : result.ok = true → result.probableCause ≠ []
  texts : ∀ text ∈ [result.probableCause,result.suggestedCategory], FailureContext.Redacted text ∧ text.length ≤ 2000
  items : ∀ item ∈ result.evidence ++ result.suggestedInvestigation, FailureContext.Redacted item ∧ item.length ≤ 500
  confidence : result.confidence.InUnit
  model : result.model = config.model ∨ ∃ document, Carries response document ∧
    document.find (ascii "model") = some (.string result.model)

/-- Nothing is told with an error. -/
theorem sound_error (error provider : Bytes) (unusable : ¬Usable response)
    (named : error = [] ↔ Silent response) : Sound config response { error, model := config.model, provider, elapsed } where
  ok := iff_of_false (by simp) unusable
  error := by simp [named,unusable]
  cause told := nomatch told
  texts text member := by
    obtain rfl : text = [] := by simpa using member
    exact ⟨FailureContext.redacted_truncate [] 0,Nat.zero_le _⟩
  items item member := nomatch member
  confidence := Double.zero_inUnit
  model := .inl rfl

theorem Carries.unique {document other : Value} (mine : Carries response document)
    (same : Carries response other) : other = document :=
  Except.ok.inj (same.2.2.symm.trans mine.2.2)

/-- An answer is usable exactly when the cause that is read from it is there. -/
theorem usable_iff {document : Value} {members : List (Bytes × Value)} (mine : Carries response document)
    (agreed : refuses document = false) (found : document.find (ascii "analysis") = some (.object members)) :
    Usable response ↔ readString (.object members) (ascii "probable_cause") ≠ [] := by
  rw [Ne,readString_empty]
  constructor
  · rintro ⟨other,members',text,same,-,here,told,filled⟩ empty
    rw [mine.unique response same,found] at here
    obtain rfl := Value.object.inj (Option.some.inj here)
    exact filled (empty text told)
  · intro told
    push Not at told
    obtain ⟨text,told,filled⟩ := told
    exact ⟨document,members,text,mine,agreed,found,told,filled⟩

theorem told_texts (object : Value) : ∀ text ∈ [readString object (ascii "probable_cause"),
    readString object (ascii "category")], FailureContext.Redacted text ∧ text.length ≤ 2000 := by
  have sound (key : Bytes) : FailureContext.Redacted (readString object key) ∧ (readString object key).length ≤ 2000 :=
    ⟨readString_redacted object key,readString_length object key⟩
  rintro text (_ | ⟨_,_ | ⟨_,_ | _⟩⟩)
  · exact sound _
  · exact sound _

theorem told_items (object : Value) : ∀ item ∈ readStringArray object (ascii "evidence") ++
    readStringArray object (ascii "suggested_investigation"), FailureContext.Redacted item ∧ item.length ≤ 500 := by
  have sound (key : Bytes) : ∀ item ∈ readStringArray object key, FailureContext.Redacted item ∧ item.length ≤ 500 :=
    fun item member => ⟨readStringArray_redacted object key item member,readStringArray_length object key item member⟩
  intro item member
  rcases List.mem_append.mp member with first | second
  · exact sound _ item first
  · exact sound _ item second

theorem told_model {document : Value} (mine : Carries response document) :
    (document.find (ascii "model")).elim config.model (·.stringOr config.model) = config.model ∨
      ∃ other, Carries response other ∧ other.find (ascii "model") =
        some (.string ((document.find (ascii "model")).elim config.model (·.stringOr config.model))) := by
  cases named : document.find (ascii "model") with
  | none => exact .inl rfl
  | some told =>
    cases told with
    | string text => exact .inr ⟨document,mine,by rw [named]; rfl⟩
    | null | bool | int | double | array | object => exact .inl rfl

theorem sound_refused {document : Value} (mine : Carries response document) (refused : refuses document = true)
    (provider : Bytes) : Sound config response
      { error := readString document (ascii "error"), model := config.model, provider, elapsed } := by
  refine sound_error config elapsed response _ _ ?_ ?_
  · rintro ⟨other,members,text,same,agreed,-⟩
    rw [mine.unique response same,refused] at agreed
    cases agreed
  · rw [readString_empty]
    constructor
    · exact fun silent => ⟨document,mine,refused,silent⟩
    · rintro ⟨other,same,-,silent⟩
      rwa [mine.unique response same] at silent

theorem not_silent {document : Value} (mine : Carries response document) (agreed : refuses document = false) :
    ¬Silent response := by
  rintro ⟨other,same,silent,-⟩
  rw [mine.unique response same,agreed] at silent
  cases silent

/-- The fields that an analysis fills, with or without a cause. -/
theorem sound_answered {document : Value} {members : List (Bytes × Value)} (mine : Carries response document)
    (agreed : refuses document = false) (found : document.find (ascii "analysis") = some (.object members)) :
    Sound config response (received config elapsed response) := by
  have loud := not_silent response mine agreed
  have usable := usable_iff response mine agreed found
  have confidence : (readConfidence (.object members)).InUnit := readConfidence_inUnit _ fun d inside =>
    parse_numbers mine.2.2 d (Value.find_inside found _ inside)
  have model := told_model config response mine
  rw [received,(document_iff config response document).mpr mine]
  simp only [agreed,found,Bool.false_eq_true,if_false]
  split
  · next nothing =>
    have unusable : ¬Usable response := fun claimed => usable.mp claimed nothing
    have named : ascii "the AI response contained no probable cause" ≠ [] := by decide
    exact ⟨iff_of_false Bool.false_ne_true unusable,iff_of_false named (not_or.mpr ⟨unusable,loud⟩),
      fun told => absurd told Bool.false_ne_true,told_texts _,told_items _,confidence,model⟩
  · next filled =>
    have usable := usable.mpr filled
    exact ⟨iff_of_true rfl usable,iff_of_true rfl (.inl usable),fun _ => filled,told_texts _,told_items _,
      confidence,model⟩

theorem received_sound : Sound config response (received config elapsed response) := by
  cases carried : HttpAiProvider.document config response with
  | error error =>
    have nowhere (document : Value) : ¬Carries response document := fun same => by
      cases carried.symm.trans ((document_iff config response document).mpr same)
    rw [received,carried]
    refine sound_error config elapsed response _ _ ?_ (iff_of_false (document_error config response carried) ?_)
    · exact fun ⟨document,_,_,same,_⟩ => nowhere document same
    · exact fun ⟨document,same,_⟩ => nowhere document same
  | ok document =>
    have mine : Carries response document := (document_iff config response document).mp carried
    cases refused : refuses document with
    | true =>
      simp only [received,carried,refused,if_true]
      exact sound_refused config elapsed response mine refused _
    | false =>
      by_cases answered : ∃ members, document.find (ascii "analysis") = some (.object members)
      · obtain ⟨members,found⟩ := answered
        exact sound_answered config elapsed response mine refused found
      · simp only [received,carried,refused,Bool.false_eq_true,if_false]
        split
        · next members found => exact absurd ⟨members,found⟩ answered
        · refine sound_error config elapsed response _ _ ?_ (iff_of_false (by decide) (not_silent response mine refused))
          rintro ⟨same,members,text,read,-,found,-⟩
          rw [mine.unique response read] at found
          exact answered ⟨members,found⟩

/-- Of a call, the response decides; without a provider there is an error. -/
theorem analyse_sound (postJson : Value → Int × HttpResponse) (request : TestForgeService.AnalysisRequest) :
    (∃ payload, analyseFailure config request = some payload ∧
      Sound config (postJson payload).2 (analyse config postJson request)) ∨
    isEnabled config = false ∧ (analyse config postJson request).ok = false ∧ (analyse config postJson request).error ≠ [] := by
  cases sent : analyseFailure config request with
  | some payload =>
    refine .inl ⟨payload,rfl,?_⟩
    rw [analyse,sent]
    exact received_sound config _ _
  | none =>
    have off : isEnabled config = false := by
      unfold analyseFailure at sent
      split at sent
      · next off => simpa using off
      · cases sent
    have unsaid : ascii "the AI provider is not enabled" ≠ [] := by decide
    refine .inr ⟨off,?_,?_⟩
    · rw [analyse,sent]
    · rw [analyse,sent]
      exact unsaid

end HttpAiProvider

end TestForge
