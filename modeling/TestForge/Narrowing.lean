import TestForge.ConfigRoundTrip
import TestForge.FrontEnds
import TestForge.IntegerText
import TestForge.QueryCodec
import TestForge.SpecSoundness
import TestForge.Wrapping

/-! Integers that come in as JSON or in a query and are cut to an `int` before anything looks at
their range: the settings, the options of `POST /api/runs` and the parameters of the lists. -/
namespace TestForge

open Json Strings Wrapping

/-! ### Query parameters -/

namespace ServerRequest

def queryParameter (query name fallback : Bytes) : Bytes :=
  (((parseQuery query).find? (·.1 = name)).map (·.2)).getD fallback

def queryParameterInt (query name : Bytes) (fallback : Int32) : Int32 :=
  let raw := queryParameter query name []
  if raw = [] then fallback
  else
    match parseInt raw with
    | some parsed => (Int64.ofInt parsed).toInt32
    | none => fallback

end ServerRequest

namespace RestApiServer

def boundedInt (query name : Bytes) (fallback minimum maximum : Int32) : Int32 :=
  max minimum (min (ServerRequest.queryParameterInt query name fallback) maximum)

/-- An integer parameter of a route. -/
structure BoundedParameter where
  route : Bytes
  name : Bytes
  fallback : Int32
  minimum : Int32
  maximum : Int32

def boundedParameters : List BoundedParameter := [
  ⟨ascii "/api/runs",ascii "limit",25,1,500⟩,
  ⟨ascii "/api/stats",ascii "runs",50,1,1000⟩,
  ⟨ascii "/api/history",ascii "limit",25,1,500⟩,
  ⟨ascii "/api/flaky",ascii "limit",20,1,200⟩]

def BoundedParameter.read (parameter : BoundedParameter) (query : Bytes) : Int32 :=
  boundedInt query parameter.name parameter.fallback parameter.minimum parameter.maximum

/-- An integer option of a run. -/
structure BoundedOption where
  key : Bytes
  minimum : Int32
  maximum : Int32
  value : RunOptions → Int32

def boundedOptions : List BoundedOption := [
  ⟨ascii "workers",1,128,(·.workers)⟩,
  ⟨ascii "retry_failed",0,5,(·.retryFailed)⟩]

end RestApiServer

/-! ### Integer settings -/

namespace Settings

/-- A setting of type `int` with its place in the document. -/
structure IntSetting where
  group : Bytes
  key : Bytes
  value : Config → Int32

def intSettings : List IntSetting := [
  ⟨ascii "execution",ascii "workers",(·.execution.workers)⟩,
  ⟨ascii "execution",ascii "retry_failed",(·.execution.retryFailed)⟩,
  ⟨ascii "database",ascii "retention_days",(·.database.retentionDays)⟩,
  ⟨ascii "ai",ascii "max_generated_tests",(·.ai.maxGeneratedTests)⟩,
  ⟨ascii "diagnostics",ascii "top_process_count",(·.diagnostics.topProcessCount)⟩,
  ⟨ascii "server",ascii "port",(·.server.port)⟩,
  ⟨ascii "server",ascii "workers",(·.server.workers)⟩,
  ⟨ascii "server",ascii "max_pending_connections",(·.server.maxPendingConnections)⟩]

/-- What the document has for a setting. -/
def IntSetting.given (setting : IntSetting) (root : Value) : Option Value :=
  (sectionOf root setting.group).bind (·.find setting.key)

theorem readIntNarrow_number (obj : Value) (key : Bytes) (out : Int32) (value : Value)
    (found : obj.find key = some value) (number : value.isNumber = true) :
    readIntNarrow obj key out = (Int64.ofInt (value.intOr 0)).toInt32 := by
  rw [readIntNarrow,readInt,found]
  simp only [number,if_true]

/-- Every integer setting is read by the same cast. -/
theorem value_fromJson (setting : IntSetting) (listed : setting ∈ intSettings) (root value : Value)
    (given : setting.given root = some value) (number : value.isNumber = true) :
    setting.value (Config.fromJson root) = (Int64.ofInt (value.intOr 0)).toInt32 := by
  obtain ⟨obj,there,found⟩ := Option.bind_eq_some_iff.mp given
  have read := fun out => readIntNarrow_number obj setting.key out value found number
  simp only [intSettings,List.mem_cons,List.not_mem_nil,or_false] at listed
  rcases listed with rfl | rfl | rfl | rfl | rfl | rfl | rfl | rfl
  all_goals
    simp only [Config.fromJson,there,Option.map_some,Option.getD_some]
    exact read _

/-- The setting is the integer that the document gives for it, if it gives one. -/
def AsGiven (setting : IntSetting) (root : Value) : Prop :=
  ∀ value ∈ setting.given root, ∀ n : Int, (Value.int n).same value = true →
    (setting.value (Config.fromJson root)).toInt = n

/-- An integer that the document gives for the setting fits into 32 bits. -/
def GivenFits (setting : IntSetting) (root : Value) : Prop :=
  ∀ value ∈ setting.given root, ∀ n : Int, (Value.int n).same value = true → -2^31 ≤ n ∧ n < 2^31

theorem toInt_narrowed (z : Int) : (Int64.ofInt z).toInt32.toInt = wrap (2^31) z := by
  rw [Int64.toInt_toInt32,Int64.toInt_ofInt]
  exact Int.bmod_bmod_of_dvd (by decide)

theorem asGiven_iff (setting : IntSetting) (listed : setting ∈ intSettings) (root : Value) :
    AsGiven setting root ↔ GivenFits setting root := by
  apply forall₂_congr
  intro value given
  apply forall₂_congr
  intro n exact
  obtain ⟨number,shown⟩ := Value.same_int n value exact 0
  rw [value_fromJson setting listed root value given number,toInt_narrowed,shown]
  exact wrap_eq_self_iff (by decide)

end Settings

/-! ### Options and parameters -/

namespace RestApiServer

open Settings

theorem toInt_clamped (low high x : Int32) : (max low (min x high)).toInt = clamp low.toInt high.toInt x.toInt := by
  have smaller : (min x high).toInt = min x.toInt high.toInt := by
    change (if x ≤ high then x else high).toInt = _
    rw [apply_ite Int32.toInt,min_def]
    simp only [Int32.le_iff_toInt_le]
  change (if low ≤ min x high then min x high else low).toInt = _
  rw [apply_ite Int32.toInt,smaller,clamp,max_def]
  simp only [Int32.le_iff_toInt_le,smaller]

theorem value_runOptions (option : BoundedOption) (listed : option ∈ boundedOptions) (body value : Value)
    (given : body.find option.key = some value) (number : value.isNumber = true) :
    option.value (runOptions body) =
      max option.minimum (min (Int64.ofInt (value.intOr 0)).toInt32 option.maximum) := by
  have read : ∀ fallback, boundedNumber body option.key fallback option.minimum option.maximum =
      max option.minimum (min (Int64.ofInt (value.intOr 0)).toInt32 option.maximum) := by
    intro fallback
    rw [boundedNumber,given]
    simp only [number,if_true]
  simp only [boundedOptions,List.mem_cons,List.not_mem_nil,or_false] at listed
  rcases listed with rfl | rfl
  · exact read _
  · exact read _

theorem option_clamped_iff (option : BoundedOption) (listed : option ∈ boundedOptions) (body value : Value) (n : Int)
    (given : body.find option.key = some value) (exact : (Value.int n).same value = true) :
    (option.value (runOptions body)).toInt = clamp option.minimum.toInt option.maximum.toInt n ↔
      KeepsSide (2^31) option.minimum.toInt option.maximum.toInt n := by
  obtain ⟨number,shown⟩ := Value.same_int n value exact 0
  have bounds : 0 ≤ option.minimum.toInt ∧ option.minimum.toInt < option.maximum.toInt ∧
      option.maximum.toInt < 2^31 := by
    simp only [boundedOptions,List.mem_cons,List.not_mem_nil,or_false] at listed
    rcases listed with rfl | rfl <;> decide
  rw [value_runOptions option listed body value given number,shown,toInt_clamped,toInt_narrowed]
  exact clamp_wrap_iff bounds.1 bounds.2.1 bounds.2.2

theorem parameter_bounds (parameter : BoundedParameter) (listed : parameter ∈ boundedParameters) :
    0 ≤ parameter.minimum.toInt ∧ parameter.minimum.toInt < parameter.fallback.toInt ∧
      parameter.fallback.toInt < parameter.maximum.toInt ∧ parameter.maximum.toInt < 2^31 := by
  simp only [boundedParameters,List.mem_cons,List.not_mem_nil,or_false] at listed
  rcases listed with rfl | rfl | rfl | rfl <;> decide

/-- An integer that 64 bits do not hold counts as no integer at all. -/
theorem queryParameterInt_integer (query name : Bytes) (fallback : Int32) (n : Int)
    (given : IsInteger (ServerRequest.queryParameter query name []) n) :
    (ServerRequest.queryParameterInt query name fallback).toInt =
      if -2^63 ≤ n ∧ n < 2^63 then wrap (2^31) n else fallback.toInt := by
  have nonempty : ServerRequest.queryParameter query name [] ≠ [] := by
    obtain ⟨sign,digits,-,shape,-⟩ := given
    intro empty
    rw [empty] at shape
    exact digits.nonempty (List.append_eq_nil_iff.mp shape.symm).2
  rw [ServerRequest.queryParameterInt]
  simp only [if_neg nonempty,parseInt_integer _ n given]
  by_cases inside : -2^63 ≤ n ∧ n < 2^63
  · rw [if_pos inside,if_pos inside]
    exact toInt_narrowed n
  · rw [if_neg inside,if_neg inside]

theorem parameter_clamped_iff (parameter : BoundedParameter) (listed : parameter ∈ boundedParameters)
    (query : Bytes) (n : Int) (given : IsInteger (ServerRequest.queryParameter query parameter.name []) n) :
    (parameter.read query).toInt = clamp parameter.minimum.toInt parameter.maximum.toInt n ↔
      (-2^63 ≤ n ∧ n < 2^63) ∧ KeepsSide (2^31) parameter.minimum.toInt parameter.maximum.toInt n := by
  obtain ⟨nonnegative,low,high,bounded⟩ := parameter_bounds parameter listed
  rw [BoundedParameter.read,boundedInt,toInt_clamped,queryParameterInt_integer query _ _ n given]
  by_cases inside : -2^63 ≤ n ∧ n < 2^63
  · rw [if_pos inside,and_iff_right inside]
    exact clamp_wrap_iff nonnegative (low.trans high) bounded
  · rw [if_neg inside]
    refine iff_of_false ?_ fun both => inside both.1
    unfold clamp
    omega

/-- When an integer is taken as it is written: by a setting, when it fits into 32 bits; by an option
or a parameter, when the cut leaves it on its side of the bounds. -/
theorem narrowing_harmless_iff (root body : Value) (query : Bytes) :
    (((Config.fromJson root).validate = .ok () → ∀ setting ∈ intSettings, AsGiven setting root) ↔
      ((Config.fromJson root).validate = .ok () → ∀ setting ∈ intSettings, GivenFits setting root)) ∧
    (∀ option ∈ boundedOptions, ∀ value ∈ body.find option.key, ∀ n : Int, (Value.int n).same value = true →
      -2^63 ≤ n → n < 2^63 →
        ((option.value (runOptions body)).toInt = clamp option.minimum.toInt option.maximum.toInt n ↔
          KeepsSide (2^31) option.minimum.toInt option.maximum.toInt n)) ∧
    ∀ parameter ∈ boundedParameters, ∀ n, IsInteger (ServerRequest.queryParameter query parameter.name []) n →
      ((parameter.read query).toInt = clamp parameter.minimum.toInt parameter.maximum.toInt n ↔
        (-2^63 ≤ n ∧ n < 2^63) ∧ KeepsSide (2^31) parameter.minimum.toInt parameter.maximum.toInt n) := by
  refine ⟨?_,?_,?_⟩
  · apply imp_congr_right
    intro _
    apply forall₂_congr
    intro setting listed
    exact asGiven_iff setting listed root
  · intro option listed value given n exact _ _
    exact option_clamped_iff option listed body value n given exact
  · intro parameter listed n given
    exact parameter_clamped_iff parameter listed query n given

/-- A number as an option, as a setting and as a parameter. -/
def workersBody (n : Int) : Value := .object [(ascii "workers",.int n)]

def workersRoot (n : Int) : Value := .object [(ascii "execution",workersBody n)]

def limitQuery (n : Int) : Bytes := ascii "limit=" ++ decimalInt n

theorem narrowing_harmless_seven :
    (((Config.fromJson (workersRoot 7)).validate = .ok () →
        ∀ setting ∈ intSettings, AsGiven setting (workersRoot 7)) ↔
      ((Config.fromJson (workersRoot 7)).validate = .ok () →
        ∀ setting ∈ intSettings, GivenFits setting (workersRoot 7))) ∧
    ((runOptions (workersBody 7)).workers.toInt = clamp 1 128 7 ↔ KeepsSide (2^31) 1 128 7) ∧
    ((boundedInt (limitQuery 7) (ascii "limit") 25 1 500).toInt = clamp 1 500 7 ↔
      ((-2^63 : Int) ≤ 7 ∧ (7 : Int) < 2^63) ∧ KeepsSide (2^31) 1 500 7) := by
  obtain ⟨settings,options,parameters⟩ := narrowing_harmless_iff (workersRoot 7) (workersBody 7) (limitQuery 7)
  have integer : IsInteger (ServerRequest.queryParameter (limitQuery 7) (ascii "limit") []) 7 :=
    ⟨none,⟨ascii "7",by decide,List.all_eq_true.mp rfl⟩,by simp,by decide +kernel,by decide +kernel⟩
  exact ⟨settings,options _ List.mem_cons_self (.int 7) rfl 7 rfl (by decide) (by decide),
    parameters _ List.mem_cons_self 7 integer⟩

/-- At each of the three 2^32 + 1 comes out as 1. -/
theorem narrowing_alters :
    (¬∀ root, (Config.fromJson root).validate = .ok () → ∀ setting ∈ intSettings, AsGiven setting root) ∧
    (¬∀ body, ∀ option ∈ boundedOptions, ∀ value ∈ body.find option.key, ∀ n : Int, (Value.int n).same value = true →
      -2^63 ≤ n → n < 2^63 →
        (option.value (runOptions body)).toInt = clamp option.minimum.toInt option.maximum.toInt n) ∧
    ¬∀ query, ∀ parameter ∈ boundedParameters, ∀ n,
      IsInteger (ServerRequest.queryParameter query parameter.name []) n →
        (parameter.read query).toInt = clamp parameter.minimum.toInt parameter.maximum.toInt n := by
  refine ⟨?_,?_,?_⟩
  · intro holds
    have accepted : (Config.fromJson (workersRoot 4294967297)).validate = .ok () := by decide +kernel
    have same : (1 : Int) = 4294967297 := holds _ accepted _ List.mem_cons_self (.int 4294967297) rfl 4294967297 rfl
    omega
  · intro holds
    have same : (1 : Int) = 128 :=
      holds (workersBody 4294967297) _ List.mem_cons_self (.int 4294967297) rfl 4294967297 rfl (by decide) (by decide)
    omega
  · intro holds
    have integer : IsInteger (ServerRequest.queryParameter (limitQuery 4294967297) (ascii "limit") []) 4294967297 :=
      ⟨none,⟨ascii "4294967297",by decide,List.all_eq_true.mp rfl⟩,by simp,by decide +kernel,by decide +kernel⟩
    have same : (1 : Int) = 500 := holds (limitQuery 4294967297) _ List.mem_cons_self 4294967297 integer
    omega

end RestApiServer
end TestForge
