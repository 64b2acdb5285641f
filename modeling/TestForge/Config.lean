import TestForge.TestResult

/-! The configuration: eight sections of settings, their defaults and their JSON form.
The settings keep the fixed-width types of the source. -/
namespace TestForge.Settings

open Json Strings

inductive LogLevel where
  | trace | debug | info | warn | error | off
  deriving DecidableEq

namespace LogLevel

def toString : LogLevel → Bytes
  | .trace => ascii "TRACE"
  | .debug => ascii "DEBUG"
  | .info => ascii "INFO"
  | .warn => ascii "WARN"
  | .error => ascii "ERROR"
  | .off => ascii "OFF"

def logLevelFromString (text : Bytes) : Option LogLevel :=
  let upper := toUpper (trim text)
  if upper = ascii "TRACE" then some .trace
  else if upper = ascii "DEBUG" then some .debug
  else if upper = ascii "INFO" then some .info
  else if upper = ascii "WARN" ∨ upper = ascii "WARNING" then some .warn
  else if upper = ascii "ERROR" then some .error
  else if upper = ascii "OFF" ∨ upper = ascii "NONE" then some .off
  else none

theorem logLevelFromString_toString (level : LogLevel) : logLevelFromString level.toString = some level := by
  cases level <;> decide

end LogLevel

/-! ### Sections and their defaults -/

@[ext] structure ExecutionConfig where
  workers : Int32 := 0
  defaultTimeoutMs : Int64 := 30000
  cancellationGraceMs : Int64 := 2000
  failFast : Bool := false
  retryFailed : Int32 := 0
  shuffle : Bool := false
  shuffleSeed : UInt64 := 0
  excludeSuitesByDefault : List Bytes := [ascii "failure_injection"]

@[ext] structure LoggingConfig where
  level : LogLevel := .info
  json : Bool := false
  color : Bool := true
  file : Bytes := []

@[ext] structure DatabaseConfig where
  enabled : Bool := true
  path : Bytes := ascii "testforge.db"
  retentionDays : Int32 := 90
  busyTimeoutMs : Int64 := 5000

@[ext] structure ReportingConfig where
  outputDirectory : Bytes := ascii "reports"
  console : Bool := true
  json : Bool := true
  html : Bool := true
  junit : Bool := false
  verboseFailures : Bool := true

@[ext] structure ApiTargetConfig where
  baseUrl : Bytes := ascii "http://127.0.0.1:8000"
  timeoutMs : Int64 := 10000
  slaMs : Int64 := 2000
  defaultHeaders : List (Bytes × Value) := []

@[ext] structure AiConfig where
  enabled : Bool := false
  endpoint : Bytes := ascii "http://127.0.0.1:8810/"
  model : Bytes := ascii "gpt-4o-mini"
  timeoutMs : Int64 := 60000
  maxGeneratedTests : Int32 := 50
  maxResponseBytes : Int64 := 512 * 1024
  allowedTargetHosts : List Bytes := []

@[ext] structure DiagnosticsConfig where
  collectOnFailure : Bool := true
  includeGpu : Bool := true
  includeProcesses : Bool := false
  includeSystemLogs : Bool := false
  topProcessCount : Int32 := 10
  commandTimeoutMs : Int64 := 4000

@[ext] structure ServerConfig where
  host : Bytes := ascii "127.0.0.1"
  port : Int32 := 8080
  workers : Int32 := 4
  staticDirectory : Bytes := ascii "dashboard"
  maxRequestBytes : Int64 := 1024 * 1024
  maxPendingConnections : Int32 := 256

@[ext] structure Config where
  execution : ExecutionConfig := {}
  logging : LoggingConfig := {}
  database : DatabaseConfig := {}
  reporting : ReportingConfig := {}
  api : ApiTargetConfig := {}
  ai : AiConfig := {}
  diagnostics : DiagnosticsConfig := {}
  server : ServerConfig := {}
  custom : Value := .object []
  sourcePath : Bytes := []

/-! ### Reading

Every reader leaves its setting alone when the key is missing or has another type. -/

def sectionOf (root : Value) (name : Bytes) : Option Value :=
  match root.find name with
  | some (.object members) => some (.object members)
  | _ => none

def readBool (obj : Value) (key : Bytes) (out : Bool) : Bool :=
  match obj.find key with
  | some (.bool value) => value
  | _ => out

def readInt (obj : Value) (key : Bytes) (out : Int64) : Int64 :=
  match obj.find key with
  | some value => if value.isNumber then Int64.ofInt (value.intOr 0) else out
  | none => out

def readIntNarrow (obj : Value) (key : Bytes) (out : Int32) : Int32 := (readInt obj key out.toInt64).toInt32

def readString (obj : Value) (key out : Bytes) : Bytes :=
  match obj.find key with
  | some (.string value) => value
  | _ => out

def readStringList (obj : Value) (key : Bytes) (out : List Bytes) : List Bytes :=
  match obj.find key with
  | some (.array items) => items.filterMap Value.asString?
  | _ => out

def ExecutionConfig.read (exec : Value) (config : ExecutionConfig) : ExecutionConfig where
  workers := readIntNarrow exec (ascii "workers") config.workers
  defaultTimeoutMs := readInt exec (ascii "default_timeout_ms") config.defaultTimeoutMs
  cancellationGraceMs := readInt exec (ascii "cancellation_grace_ms") config.cancellationGraceMs
  failFast := readBool exec (ascii "fail_fast") config.failFast
  retryFailed := readIntNarrow exec (ascii "retry_failed") config.retryFailed
  shuffle := readBool exec (ascii "shuffle") config.shuffle
  shuffleSeed := (readInt exec (ascii "shuffle_seed") config.shuffleSeed.toInt64).toUInt64
  excludeSuitesByDefault := readStringList exec (ascii "exclude_suites_by_default") config.excludeSuitesByDefault

def LoggingConfig.read (log : Value) (config : LoggingConfig) : LoggingConfig where
  level := (LogLevel.logLevelFromString (readString log (ascii "level") config.level.toString)).getD config.level
  json := readBool log (ascii "json") config.json
  color := readBool log (ascii "color") config.color
  file := readString log (ascii "file") config.file

def DatabaseConfig.read (db : Value) (config : DatabaseConfig) : DatabaseConfig where
  enabled := readBool db (ascii "enabled") config.enabled
  path := readString db (ascii "path") config.path
  retentionDays := readIntNarrow db (ascii "retention_days") config.retentionDays
  busyTimeoutMs := readInt db (ascii "busy_timeout_ms") config.busyTimeoutMs

def ReportingConfig.read (rep : Value) (config : ReportingConfig) : ReportingConfig where
  outputDirectory := readString rep (ascii "output_directory") config.outputDirectory
  console := readBool rep (ascii "console") config.console
  json := readBool rep (ascii "json") config.json
  html := readBool rep (ascii "html") config.html
  junit := readBool rep (ascii "junit") config.junit
  verboseFailures := readBool rep (ascii "verbose_failures") config.verboseFailures

def ApiTargetConfig.read (api : Value) (config : ApiTargetConfig) : ApiTargetConfig where
  baseUrl := readString api (ascii "base_url") config.baseUrl
  timeoutMs := readInt api (ascii "timeout_ms") config.timeoutMs
  slaMs := readInt api (ascii "sla_ms") config.slaMs
  defaultHeaders := match api.find (ascii "default_headers") with
    | some (.object headers) => headers
    | _ => config.defaultHeaders

def AiConfig.read (ai : Value) (config : AiConfig) : AiConfig where
  enabled := readBool ai (ascii "enabled") config.enabled
  endpoint := readString ai (ascii "endpoint") config.endpoint
  model := readString ai (ascii "model") config.model
  timeoutMs := readInt ai (ascii "timeout_ms") config.timeoutMs
  maxGeneratedTests := readIntNarrow ai (ascii "max_generated_tests") config.maxGeneratedTests
  maxResponseBytes := readInt ai (ascii "max_response_bytes") config.maxResponseBytes
  allowedTargetHosts := readStringList ai (ascii "allowed_target_hosts") config.allowedTargetHosts

def DiagnosticsConfig.read (diag : Value) (config : DiagnosticsConfig) : DiagnosticsConfig where
  collectOnFailure := readBool diag (ascii "collect_on_failure") config.collectOnFailure
  includeGpu := readBool diag (ascii "include_gpu") config.includeGpu
  includeProcesses := readBool diag (ascii "include_processes") config.includeProcesses
  includeSystemLogs := readBool diag (ascii "include_system_logs") config.includeSystemLogs
  topProcessCount := readIntNarrow diag (ascii "top_process_count") config.topProcessCount
  commandTimeoutMs := readInt diag (ascii "command_timeout_ms") config.commandTimeoutMs

def ServerConfig.read (server : Value) (config : ServerConfig) : ServerConfig where
  host := readString server (ascii "host") config.host
  port := readIntNarrow server (ascii "port") config.port
  workers := readIntNarrow server (ascii "workers") config.workers
  staticDirectory := readString server (ascii "static_directory") config.staticDirectory
  maxRequestBytes := readInt server (ascii "max_request_bytes") config.maxRequestBytes
  maxPendingConnections := readIntNarrow server (ascii "max_pending_connections") config.maxPendingConnections

namespace Config

def fromJson (root : Value) : Config where
  execution := ((sectionOf root (ascii "execution")).map (ExecutionConfig.read · {})).getD {}
  logging := ((sectionOf root (ascii "logging")).map (LoggingConfig.read · {})).getD {}
  database := ((sectionOf root (ascii "database")).map (DatabaseConfig.read · {})).getD {}
  reporting := ((sectionOf root (ascii "reporting")).map (ReportingConfig.read · {})).getD {}
  api := ((sectionOf root (ascii "api")).map (ApiTargetConfig.read · {})).getD {}
  ai := ((sectionOf root (ascii "ai")).map (AiConfig.read · {})).getD {}
  diagnostics := ((sectionOf root (ascii "diagnostics")).map (DiagnosticsConfig.read · {})).getD {}
  server := ((sectionOf root (ascii "server")).map (ServerConfig.read · {})).getD {}
  custom := (root.find (ascii "custom")).getD (.object [])

/-- `hardware` stands for `std::thread::hardware_concurrency()`, 0 when it cannot tell. -/
def effectiveWorkers (hardware : UInt32) (config : Config) : Int32 :=
  if config.execution.workers > 0 then config.execution.workers
  else if hardware = 0 then 4
  else (min hardware 32).toInt32

end Config

/-! ### Writing -/

def ExecutionConfig.members (effectiveWorkers : Int32) (config : ExecutionConfig) : List (Bytes × Value) := [
  (ascii "workers",.int config.workers.toInt),
  (ascii "effective_workers",.int effectiveWorkers.toInt),
  (ascii "default_timeout_ms",.int config.defaultTimeoutMs.toInt),
  (ascii "cancellation_grace_ms",.int config.cancellationGraceMs.toInt),
  (ascii "fail_fast",.bool config.failFast),
  (ascii "retry_failed",.int config.retryFailed.toInt),
  (ascii "shuffle",.bool config.shuffle),
  (ascii "shuffle_seed",.int config.shuffleSeed.toInt64.toInt),
  (ascii "exclude_suites_by_default",stringsToJson config.excludeSuitesByDefault)]

def LoggingConfig.members (config : LoggingConfig) : List (Bytes × Value) := [
  (ascii "level",.string config.level.toString),
  (ascii "json",.bool config.json),
  (ascii "color",.bool config.color),
  (ascii "file",.string config.file)]

def DatabaseConfig.members (config : DatabaseConfig) : List (Bytes × Value) := [
  (ascii "enabled",.bool config.enabled),
  (ascii "path",.string config.path),
  (ascii "retention_days",.int config.retentionDays.toInt),
  (ascii "busy_timeout_ms",.int config.busyTimeoutMs.toInt)]

def ReportingConfig.members (config : ReportingConfig) : List (Bytes × Value) := [
  (ascii "output_directory",.string config.outputDirectory),
  (ascii "console",.bool config.console),
  (ascii "json",.bool config.json),
  (ascii "html",.bool config.html),
  (ascii "junit",.bool config.junit),
  (ascii "verbose_failures",.bool config.verboseFailures)]

def headersToJson (headers : List (Bytes × Value)) : Value := Value.objectOf headers

def ApiTargetConfig.members (config : ApiTargetConfig) : List (Bytes × Value) := [
  (ascii "base_url",.string config.baseUrl),
  (ascii "timeout_ms",.int config.timeoutMs.toInt),
  (ascii "sla_ms",.int config.slaMs.toInt),
  (ascii "default_headers",headersToJson config.defaultHeaders)]

def AiConfig.members (config : AiConfig) : List (Bytes × Value) := [
  (ascii "enabled",.bool config.enabled),
  (ascii "endpoint",.string config.endpoint),
  (ascii "model",.string config.model),
  (ascii "timeout_ms",.int config.timeoutMs.toInt),
  (ascii "max_generated_tests",.int config.maxGeneratedTests.toInt),
  (ascii "max_response_bytes",.int config.maxResponseBytes.toInt),
  (ascii "allowed_target_hosts",stringsToJson config.allowedTargetHosts)]

def DiagnosticsConfig.members (config : DiagnosticsConfig) : List (Bytes × Value) := [
  (ascii "collect_on_failure",.bool config.collectOnFailure),
  (ascii "include_gpu",.bool config.includeGpu),
  (ascii "include_processes",.bool config.includeProcesses),
  (ascii "include_system_logs",.bool config.includeSystemLogs),
  (ascii "top_process_count",.int config.topProcessCount.toInt),
  (ascii "command_timeout_ms",.int config.commandTimeoutMs.toInt)]

def ServerConfig.members (config : ServerConfig) : List (Bytes × Value) := [
  (ascii "host",.string config.host),
  (ascii "port",.int config.port.toInt),
  (ascii "workers",.int config.workers.toInt),
  (ascii "static_directory",.string config.staticDirectory),
  (ascii "max_request_bytes",.int config.maxRequestBytes.toInt),
  (ascii "max_pending_connections",.int config.maxPendingConnections.toInt)]

namespace Config

def sections (hardware : UInt32) (config : Config) : List (Bytes × Value) := [
  (ascii "execution",Value.objectOf (config.execution.members (config.effectiveWorkers hardware))),
  (ascii "logging",Value.objectOf config.logging.members),
  (ascii "database",Value.objectOf config.database.members),
  (ascii "reporting",Value.objectOf config.reporting.members),
  (ascii "api",Value.objectOf config.api.members),
  (ascii "ai",Value.objectOf config.ai.members),
  (ascii "diagnostics",Value.objectOf config.diagnostics.members),
  (ascii "server",Value.objectOf config.server.members),
  (ascii "custom",config.custom)]

def toJson (hardware : UInt32) (config : Config) : Value :=
  let root := Value.objectOf (config.sections hardware)
  if config.sourcePath = [] then root else root.set (ascii "source_path") (.string config.sourcePath)

/-! ### Checking -/

/-- The checks of `validate`, in its order. -/
def checks (config : Config) : List (Bool × Bytes) := [
  (config.execution.workers < 0 || config.execution.workers > 512,
    ascii "execution.workers must be between 0 and 512"),
  (config.execution.defaultTimeoutMs < 0,ascii "execution.default_timeout_ms must not be negative"),
  (config.execution.retryFailed < 0 || config.execution.retryFailed > 10,
    ascii "execution.retry_failed must be between 0 and 10"),
  (config.database.enabled && config.database.path = [],
    ascii "database.path must not be empty when the database is enabled"),
  (config.database.retentionDays < 0,ascii "database.retention_days must not be negative"),
  (config.api.timeoutMs ≤ 0,ascii "api.timeout_ms must be positive"),
  (config.api.baseUrl ≠ [] && !startsWith config.api.baseUrl (ascii "http://") &&
      !startsWith config.api.baseUrl (ascii "https://"),
    ascii "api.base_url must start with http:// or https://"),
  (config.ai.enabled && config.ai.endpoint = [],ascii "ai.endpoint must be set when ai.enabled is true"),
  (config.ai.maxGeneratedTests ≤ 0 || config.ai.maxGeneratedTests > 500,
    ascii "ai.max_generated_tests must be between 1 and 500"),
  (config.server.port < 1 || config.server.port > 65535,ascii "server.port must be between 1 and 65535"),
  (config.server.workers < 1 || config.server.workers > 128,ascii "server.workers must be between 1 and 128"),
  (config.server.maxPendingConnections < 1,ascii "server.max_pending_connections must be at least 1")]

def problems (config : Config) : List Bytes := (config.checks.filter (·.1)).map (·.2)

/-- The text of the `ConfigurationError`, when there is one. -/
def validate (config : Config) : Except Bytes Unit :=
  if config.problems = [] then .ok ()
  else
    let source := if config.sourcePath = [] then [] else ascii " (" ++ config.sourcePath ++ ascii ")"
    .error (ascii "invalid configuration" ++ source ++ ascii ":" ++
      config.problems.flatMap fun problem => ascii "\n  - " ++ problem)

theorem validate_ok_iff (config : Config) :
    config.validate = .ok () ↔ ∀ check ∈ config.checks, check.1 = false := by
  have clear : config.problems = [] ↔ ∀ check ∈ config.checks, check.1 = false := by
    simp [problems,List.filter_eq_nil_iff]
  rw [← clear,validate]
  split <;> simp_all

example : ({} : Config).validate = .ok () := by decide

end Config
end TestForge.Settings
