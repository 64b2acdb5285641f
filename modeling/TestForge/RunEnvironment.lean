import TestForge.Config
import TestForge.HttpTypes
import TestForge.JsonAccess
import TestForge.Redaction
import TestForge.RunnerPersistence
import TestForge.Selector
import TestForge.SortedTable

/-! The environment that a run is recorded with, and what of the configured headers shows
in it. -/
namespace TestForge

open Json Strings

/-! ### Redaction by name -/

namespace Strings

def sensitiveMarkers : List Bytes :=
  [ascii "password",ascii "passwd",ascii "secret",ascii "token",ascii "api_key",ascii "apikey",ascii "auth",
    ascii "cookie",ascii "session",ascii "credential",ascii "private",ascii "signature"]

def isSensitiveName (name : Bytes) : Bool := sensitiveMarkers.any (contains (toLower name))

def redactedValue (name value : Bytes) : Bytes :=
  if isSensitiveName name then redactionMask else redactSecrets value

end Strings

/-- Two members that may differ in their values where the name is sensitive. -/
def SameButSecret {α : Type} (x y : Bytes × α) : Prop := x.1 = y.1 ∧ (isSensitiveName x.1 = false → x.2 = y.2)

theorem redactedValue_same {a b : List (Bytes × Bytes)} (same : List.Forall₂ SameButSecret a b) :
    a.map (fun item => (item.1,redactedValue item.1 item.2)) = b.map fun item => (item.1,redactedValue item.1 item.2) := by
  induction same with
  | nil => rfl
  | @cons x y _ _ head _ ih =>
    obtain ⟨names,values⟩ := head
    have shown : redactedValue x.1 x.2 = redactedValue y.1 y.2 := by
      cases sensitive : isSensitiveName x.1 with
      | true => simp [redactedValue,← names,sensitive]
      | false => rw [← names,values sensitive]
    rw [List.map_cons,List.map_cons,ih,shown,names]

/-- Headers as they are written into results. -/
def HttpHeaders.toRedactedJson (headers : HttpHeaders) : Value :=
  Value.objectOf ((headers.items.map fun item => (item.1,redactedValue item.1 item.2)).map fun item =>
    (item.1,.string item.2))

/-- The headers of a response tell nothing of the values under sensitive names. -/
theorem HttpHeaders.toRedactedJson_same {a b : HttpHeaders} (same : List.Forall₂ SameButSecret a.items b.items) :
    a.toRedactedJson = b.toRedactedJson := by
  rw [toRedactedJson,toRedactedJson,redactedValue_same same]

namespace Environment

def diagnosticNames : List Bytes :=
  [ascii "PATH",ascii "HOME",ascii "USER",ascii "SHELL",ascii "LANG",ascii "LC_ALL",ascii "PWD",ascii "HOSTNAME",
    ascii "CI",ascii "GITHUB_ACTIONS",ascii "GITHUB_RUN_ID",ascii "container",ascii "CUDA_VISIBLE_DEVICES",
    ascii "NVIDIA_VISIBLE_DEVICES",ascii "TESTFORGE_CONFIG",ascii "TESTFORGE_ENV"]

def diagnosticSubset (getenv : Bytes → Option Bytes) : List (Bytes × Bytes) :=
  diagnosticNames.foldl (fun out name =>
    match getenv name with
    | some value => SortedTable.put name (redactedValue name value) out
    | none => out) []

/-- Variables that are not on the list do not show. -/
theorem diagnosticSubset_same {a b : Bytes → Option Bytes} (same : ∀ name ∈ diagnosticNames, a name = b name) :
    diagnosticSubset a = diagnosticSubset b := by
  unfold diagnosticSubset
  exact List.foldl_ext _ _ _ fun out name listed => by rw [same name listed]

end Environment

/-! ### The record of a run -/

/-- What one call of `TestRunner::run` works from, apart from the configuration. -/
structure Occasion where
  selected : List TestMetadata := []
  distinct : (selected.map (·.qualifiedName)).Nodup
  options : RunOptions := {}
  hasCollector : Bool := false
  callerName : Bytes := ascii "main"
  runId : Bytes := []
  startedAt : TimePoint := 0
  hostname : Bytes := []
  gitCommit : Bytes := []
  getenv : Bytes → Option Bytes := fun _ => none
  hardware : UInt32 := 0

namespace Occasion

variable (occasion : Occasion) (config : Settings.Config)

def unopened : Runner.Plan where
  selected := occasion.selected
  distinct := occasion.distinct
  options := {
    workers := occasion.options.workers.toInt
    failFast := occasion.options.failFast
    retryFailed := occasion.options.retryFailed.toInt
    label := occasion.options.label
    collectDiagnostics := occasion.options.collectDiagnostics }
  config := {
    workers := config.execution.workers.toInt
    hardwareConcurrency := occasion.hardware.toNat
    defaultTimeoutMs := config.execution.defaultTimeoutMs.toInt
    collectOnFailure := config.diagnostics.collectOnFailure }
  hasCollector := occasion.hasCollector
  callerName := occasion.callerName

def environment : Value := Value.objectOf [
  (ascii "hostname",.string occasion.hostname),
  (ascii "workers",.int (occasion.unopened config).workers),
  (ascii "config",config.toJson occasion.hardware),
  (ascii "variables",Value.objectOf ((Environment.diagnosticSubset occasion.getenv).map fun entry =>
    (entry.1,.string entry.2)))]

def plan : Runner.Plan :=
  { occasion.unopened config with
    opened := {
      runId := occasion.runId
      startedAt := occasion.startedAt
      filterDescription := occasion.options.filter.describe
      hostname := occasion.hostname
      gitCommit := occasion.gitCommit
      environment := occasion.environment config } }

end Occasion

/-! ### Where the configured headers show -/

open Settings

/-- The default headers in the report of a run. -/
def reportedHeaders (report : Value) : Option Value :=
  (((report.find (ascii "environment")).bind (·.find (ascii "config"))).bind (·.find (ascii "api"))).bind
    (·.find (ascii "default_headers"))

theorem TestRun.find_environment (run : TestRun) : run.toJson.find (ascii "environment") = some run.environment := by
  rw [toJson,toSummaryJson,Value.objectOf,Value.set,Value.set,Value.find_setMember,if_neg (by decide),
    Value.find_setMember,if_pos rfl]

theorem Settings.Config.find_api (hardware : UInt32) (config : Config) :
    (config.toJson hardware).find (ascii "api") = some (Value.objectOf config.api.members) := by
  have listed : (Value.objectOf (config.sections hardware)).find (ascii "api") =
      some (Value.objectOf config.api.members) := by
    rw [Value.find_objectOf]
    rfl
  unfold toJson
  split
  · exact listed
  · rw [Value.objectOf,Value.set,Value.find_setMember,if_neg (by decide)]
    exact listed

theorem report_reveals (occasion : Occasion) (config : Config) (s : Runner.State) (finishedAt : TimePoint)
    (duration : Int) : reportedHeaders (Runner.collected (occasion.plan config) s finishedAt duration).toJson =
      some (headersToJson config.api.defaultHeaders) := by
  have configured : (occasion.environment config).find (ascii "config") = some (config.toJson occasion.hardware) := by
    rw [Occasion.environment,Value.find_objectOf]
    rfl
  have headers : (Value.objectOf config.api.members).find (ascii "default_headers") =
      some (headersToJson config.api.defaultHeaders) := by
    rw [Value.find_objectOf]
    rfl
  have environment : (Runner.collected (occasion.plan config) s finishedAt duration).environment =
      occasion.environment config := rfl
  simp only [reportedHeaders,TestRun.find_environment,environment,Option.bind_some,configured,
    Config.find_api,headers]

/-! ### Two configurations -/

/-- The value that a header is sent with: of several entries the last counts. -/
def lastValue (headers : List (Bytes × Value)) (name : Bytes) : Option Value :=
  (headers.reverse.find? (·.1 = name)).map (·.2)

theorem lastValue_member (headers : List (Bytes × Value)) (name : Bytes) :
    headers.reverse.find? (·.1 = name) = (lastValue headers name).map fun value => (name,value) := by
  unfold lastValue
  cases found : headers.reverse.find? (·.1 = name) with
  | none => rfl
  | some member =>
    have named : member.1 = name := by simpa using List.find?_some found
    simp [← named]

theorem headersToJson_eq_iff {a b : List (Bytes × Value)} (names : a.map (·.1) = b.map (·.1)) :
    headersToJson a = headersToJson b ↔ ∀ name, lastValue a name = lastValue b name := by
  constructor
  · intro same name
    have found := congrArg (Value.find name) same
    rwa [headersToJson,headersToJson,Value.find_objectOf,Value.find_objectOf] at found
  · intro same
    rw [headersToJson,headersToJson,Value.objectOf_eq,Value.objectOf_eq,lastWins,lastWins,names]
    refine congrArg Value.object (List.filterMap_congr fun name _ => ?_)
    rw [lastValue_member,lastValue_member,same name]

/-- The configurations differ in nothing but the values of sensitive default headers. -/
structure DifferInSecrets (a b : Config) : Prop where
  rest : b = { a with api := { a.api with defaultHeaders := b.api.defaultHeaders } }
  headers : List.Forall₂ SameButSecret a.api.defaultHeaders b.api.defaultHeaders

/-- A header that is not sensitive ends with the same value. -/
theorem SameButSecret.lastValue_same {a b : List (Bytes × Value)} (same : List.Forall₂ SameButSecret a b)
    {name : Bytes} (plain : isSensitiveName name = false) : lastValue a name = lastValue b name := by
  have reversed : List.Forall₂ SameButSecret a.reverse b.reverse := List.rel_reverse same
  unfold lastValue
  generalize a.reverse = first, b.reverse = second at reversed ⊢
  induction reversed with
  | nil => rfl
  | @cons x y _ _ head _ ih =>
    obtain ⟨names,values⟩ := head
    by_cases here : x.1 = name
    · have equal := values (here ▸ plain)
      simp [here,← names,equal]
    · simpa [here,← names] using ih

/-- What is written while the run starts and when it ends is the same. -/
structure Hidden (occasion : Occasion) (a b : Config) : Prop where
  stored : ∀ tables, SqliteResultRepository.beginRun tables (Runner.begun (occasion.plan a)) =
    SqliteResultRepository.beginRun tables (Runner.begun (occasion.plan b))
  report : ∀ s finishedAt duration, (Runner.collected (occasion.plan a) s finishedAt duration).toJson =
    (Runner.collected (occasion.plan b) s finishedAt duration).toJson

theorem Occasion.plan_same (occasion : Occasion) {a b : Config} (differ : DifferInSecrets a b)
    (same : headersToJson a.api.defaultHeaders = headersToJson b.api.defaultHeaders) :
    occasion.plan a = occasion.plan b := by
  have document : a.toJson occasion.hardware = b.toJson occasion.hardware := by
    rw [differ.rest]
    simp only [Config.toJson,Config.sections,ApiTargetConfig.members,Config.effectiveWorkers,same]
  have unopened : occasion.unopened a = occasion.unopened b := by
    rw [differ.rest]
    rfl
  rw [plan,plan,environment,environment,document,unopened]

theorem hidden_iff (occasion : Occasion) (a b : Config) (differ : DifferInSecrets a b) :
    Hidden occasion a b ↔ ∀ name, isSensitiveName name = true →
      lastValue a.api.defaultHeaders name = lastValue b.api.defaultHeaders name := by
  have names : a.api.defaultHeaders.map (·.1) = b.api.defaultHeaders.map (·.1) := by
    have heads := differ.headers.imp fun _ _ same => same.1
    rwa [← List.forall₂_eq_eq_eq,List.forall₂_map_left_iff,List.forall₂_map_right_iff]
  constructor
  · intro hidden name _
    have reports := congrArg reportedHeaders (hidden.report Runner.initial 0 0)
    rw [report_reveals,report_reveals] at reports
    exact (headersToJson_eq_iff names).mp (Option.some.inj reports) name
  · intro secrets
    have same := occasion.plan_same differ ((headersToJson_eq_iff names).mpr fun name => by
      cases sensitive : isSensitiveName name with
      | true => exact secrets name sensitive
      | false => exact SameButSecret.lastValue_same differ.headers sensitive)
    exact ⟨fun _ => by rw [same],fun _ _ _ => by rw [same]⟩

/-- A configuration with one authorization header. -/
def withToken (token : Bytes) : Config where
  api := { defaultHeaders := [(ascii "Authorization",.string token)] }

theorem withToken_differ (first second : Bytes) : DifferInSecrets (withToken first) (withToken second) where
  rest := rfl
  headers := by
    have sensitive : isSensitiveName (ascii "Authorization") = true := by decide
    exact .cons ⟨rfl,fun plain => by simp only [sensitive,reduceCtorEq] at plain⟩ .nil

/-- A run of one test. -/
def oneTestRun : Occasion where
  selected := [{ name := ascii "a" }]
  distinct := List.nodup_singleton _

theorem hidden_iff_withToken :
    Hidden oneTestRun (withToken (ascii "Bearer one")) (withToken (ascii "Bearer two")) ↔
      ∀ name, isSensitiveName name = true → lastValue (withToken (ascii "Bearer one")).api.defaultHeaders name =
        lastValue (withToken (ascii "Bearer two")).api.defaultHeaders name :=
  hidden_iff _ _ _ (withToken_differ _ _)

/-- The token stands in the report as it is configured. -/
theorem token_reported : DifferInSecrets (withToken (ascii "Bearer one")) (withToken (ascii "Bearer two")) ∧
    reportedHeaders (Runner.collected (oneTestRun.plan (withToken (ascii "Bearer one")))
      Runner.initial 0 0).toJson = some (.object [(ascii "Authorization",.string (ascii "Bearer one"))]) ∧
    ¬Hidden oneTestRun (withToken (ascii "Bearer one")) (withToken (ascii "Bearer two")) := by
  refine ⟨withToken_differ _ _,by rw [report_reveals]; rfl,fun hidden => ?_⟩
  have reports := congrArg reportedHeaders (hidden.report Runner.initial 0 0)
  rw [report_reveals,report_reveals] at reports
  have tokens := congrArg (Value.find (ascii "Authorization")) (Option.some.inj reports)
  simp [headersToJson,withToken,Value.objectOf,Value.setMember,Value.find,ascii] at tokens

end TestForge
