import TestForge.CommandLine
import TestForge.Config
import TestForge.DotEnv
import TestForge.Durations
import TestForge.JsonAccess
import TestForge.JsonParser
import TestForge.KeyedRows

/-! Where the configuration of a command comes from: its defaults, a file, the environment with the
`.env` file behind it, and the options of the command line. -/
namespace TestForge

open Strings Json Settings Layering

namespace Env

def getOr (env : Environment) (name fallback : Bytes) : Bytes := (get env name).getD fallback

def getBool (env : Environment) (name : Bytes) (fallback : Bool) : Bool :=
  match get env name with
  | none => fallback
  | some raw => if raw = [] then fallback else (parseBool raw).getD fallback

def getInt (env : Environment) (name : Bytes) (fallback : Int64) : Int64 :=
  match get env name with
  | none => fallback
  | some raw => ((parseInt raw).map Int64.ofInt).getD fallback

end Env

def ParsedCommand.has (parsed : ParsedCommand) (name : Bytes) : Bool := (parsed.find name).isSome

namespace Settings

open Env

namespace Config

/-- `files` gives what is in a file that can be opened. -/
def loadFromFile (files : Bytes → Option Bytes) (path : Bytes) : Except Bytes Config :=
  match files path with
  | none => .error (ascii "cannot open configuration file: " ++ path)
  | some text =>
    match parse {} text with
    | .error failure => .error (ascii "invalid JSON in " ++ path ++ ascii ": " ++ failure.what)
    | .ok root =>
      match root with
      | .object members => .ok { fromJson (.object members) with sourcePath := path }
      | _ => .error (ascii "configuration root must be a JSON object: " ++ path)

def applyEnvironmentOverrides (env : Environment) (config : Config) : Config := { config with
  execution := { config.execution with
    workers := (getInt env (ascii "TESTFORGE_WORKERS") config.execution.workers.toInt64).toInt32
    defaultTimeoutMs := getInt env (ascii "TESTFORGE_TIMEOUT_MS") config.execution.defaultTimeoutMs
    failFast := getBool env (ascii "TESTFORGE_FAIL_FAST") config.execution.failFast
    retryFailed := (getInt env (ascii "TESTFORGE_RETRY_FAILED") config.execution.retryFailed.toInt64).toInt32 }
  logging := {
    level := ((get env (ascii "TESTFORGE_LOG_LEVEL")).bind LogLevel.logLevelFromString).getD config.logging.level
    json := getBool env (ascii "TESTFORGE_LOG_JSON") config.logging.json
    file := getOr env (ascii "TESTFORGE_LOG_FILE") config.logging.file
    color := if isSet env (ascii "NO_COLOR") then false else config.logging.color }
  database := { config.database with
    enabled := getBool env (ascii "TESTFORGE_DB_ENABLED") config.database.enabled
    path := getOr env (ascii "TESTFORGE_DB_PATH") config.database.path }
  reporting := { config.reporting with
    outputDirectory := getOr env (ascii "TESTFORGE_REPORT_DIR") config.reporting.outputDirectory }
  api := { config.api with
    baseUrl := getOr env (ascii "TESTFORGE_API_BASE_URL") config.api.baseUrl
    timeoutMs := getInt env (ascii "TESTFORGE_API_TIMEOUT_MS") config.api.timeoutMs }
  ai := { config.ai with
    enabled := getBool env (ascii "TESTFORGE_AI_ENABLED") config.ai.enabled
    endpoint := getOr env (ascii "TESTFORGE_AI_ENDPOINT") config.ai.endpoint
    model := getOr env (ascii "TESTFORGE_AI_MODEL") config.ai.model
    timeoutMs := getInt env (ascii "TESTFORGE_AI_TIMEOUT_MS") config.ai.timeoutMs }
  diagnostics := { config.diagnostics with
    collectOnFailure := getBool env (ascii "TESTFORGE_DIAG_ON_FAILURE") config.diagnostics.collectOnFailure
    includeGpu := getBool env (ascii "TESTFORGE_DIAG_GPU") config.diagnostics.includeGpu }
  server := { config.server with
    host := getOr env (ascii "TESTFORGE_SERVER_HOST") config.server.host
    port := (getInt env (ascii "TESTFORGE_SERVER_PORT") config.server.port.toInt64).toInt32 } }

end Config

/-! ### The command line -/

/-- What `buildConfig` reads beside its arguments. -/
structure Surroundings where
  dotEnv : Option Bytes
  env : Environment
  files : Bytes → Option Bytes

inductive Built where
  | config (config : Config)
  /-- The text of the `ConfigurationError`. -/
  | failed (message : Bytes)
  /-- The cast of a duration has no defined value. -/
  | undefined

/-- The options, with what `--log-level` and `--timeout` are read as. -/
def applyOptions (parsed : ParsedCommand) (level : Option LogLevel) (millis : Option Int64)
    (config : Config) : Config := { config with
  execution := { config.execution with defaultTimeoutMs := millis.getD config.execution.defaultTimeoutMs }
  logging := {
    level := if parsed.flag (ascii "quiet") then .error
      else if parsed.flag (ascii "verbose") then .debug
      else level.getD config.logging.level
    file := if parsed.has (ascii "log-file") then parsed.value (ascii "log-file") else config.logging.file
    json := if parsed.flag (ascii "log-json") then true else config.logging.json
    color := if parsed.flag (ascii "no-color") then false else config.logging.color }
  database := { config.database with
    path := if parsed.has (ascii "db") then parsed.value (ascii "db") else config.database.path
    enabled := if parsed.flag (ascii "no-db") || parsed.flag (ascii "no-persist") then false
      else if parsed.has (ascii "db") then true
      else config.database.enabled }
  reporting := { config.reporting with
    outputDirectory := if parsed.has (ascii "report-dir") then parsed.value (ascii "report-dir")
      else config.reporting.outputDirectory
    json := if parsed.flag (ascii "no-report") then false else config.reporting.json
    html := if parsed.flag (ascii "no-report") then false else config.reporting.html
    junit := if parsed.flag (ascii "no-report") then false else config.reporting.junit } }

/-- The file to be read; nothing is read when the text is empty. -/
def configPath (surroundings : Surroundings) (env : Environment) (parsed : ParsedCommand) : Bytes :=
  let option := parsed.value (ascii "config")
  let told := if option = [] then getOr env (ascii "TESTFORGE_CONFIG") [] else option
  if told = [] ∧ (surroundings.files (ascii "config/default.json")).isSome then ascii "config/default.json" else told

def loaded (surroundings : Surroundings) (env : Environment) (parsed : ParsedCommand) : Except Bytes Config :=
  let path := configPath surroundings env parsed
  if path = [] then .ok {} else Config.loadFromFile surroundings.files path

/-- `--log-level`: nothing when it is not given. -/
def levelOption (parsed : ParsedCommand) : Except Bytes (Option LogLevel) :=
  let level := parsed.value (ascii "log-level")
  if level = [] then .ok none
  else match LogLevel.logLevelFromString level with
    | some known => .ok (some known)
    | none => .error (ascii "unknown log level '" ++ level ++ ascii "' (trace, debug, info, warn, error, off)")

def checked (config : Config) : Built :=
  match config.validate with
  | .ok () => .config config
  | .error message => .failed message

def buildConfig (surroundings : Surroundings) (parsed : ParsedCommand) : Built :=
  let env := (loadDotEnv surroundings.dotEnv surroundings.env).2
  match loaded surroundings env parsed with
  | .error message => .failed message
  | .ok config =>
    let config := config.applyEnvironmentOverrides env
    match levelOption parsed with
    | .error message => .failed message
    | .ok level =>
      if parsed.has (ascii "timeout") then
        match parseDurationMillis (parsed.value (ascii "timeout")) with
        | .rejected => .failed (ascii "could not parse --timeout '" ++ parsed.value (ascii "timeout") ++
            ascii "' (try 30s, 1500ms, 2m)")
        | .undefined => .undefined
        | .millis value => checked (applyOptions parsed level (some value) config)
      else checked (applyOptions parsed level none config)

/-! ### What each layer tells -/

/-- A setting of the configuration. -/
inductive ConfigKey where
  | workers | defaultTimeoutMs | cancellationGraceMs | failFast | retryFailed | shuffle | shuffleSeed
  | excludeSuitesByDefault
  | level | json | color | file
  | databaseEnabled | databasePath | retentionDays | busyTimeoutMs
  | outputDirectory | console | reportJson | reportHtml | reportJunit | verboseFailures
  | baseUrl | apiTimeoutMs | slaMs | defaultHeaders
  | aiEnabled | aiEndpoint | aiModel | aiTimeoutMs | maxGeneratedTests | maxResponseBytes | allowedTargetHosts
  | collectOnFailure | includeGpu | includeProcesses | includeSystemLogs | topProcessCount | commandTimeoutMs
  | serverHost | serverPort | serverWorkers | staticDirectory | maxRequestBytes | maxPendingConnections

/-- How a setting is read. -/
inductive ConfigKind where
  | bool | wide | narrow | text | level | texts | members

namespace ConfigKind

def ofJson : ConfigKind → Value → Option Value
  | .bool, .bool value => some (.bool value)
  | .text, .string value => some (.string value)
  | .level, .string value => (LogLevel.logLevelFromString value).map fun level => .string level.toString
  | .texts, .array items => some (stringsToJson (items.filterMap Value.asString?))
  | .members, .object headers => some (headersToJson headers)
  | .wide, value => if value.isNumber then some (.int (Int64.ofInt (value.intOr 0)).toInt) else none
  | .narrow, value => if value.isNumber then some (.int (Int64.ofInt (value.intOr 0)).toInt32.toInt) else none
  | _, _ => none

/-- Lists and headers are not read out of the environment. -/
def ofText : ConfigKind → Bytes → Option Value
  | .bool, raw => (parseBool raw).map .bool
  | .wide, raw => (parseInt raw).map fun n => .int (Int64.ofInt n).toInt
  | .narrow, raw => (parseInt raw).map fun n => .int (Int64.ofInt n).toInt32.toInt
  | .text, raw => some (.string raw)
  | .level, raw => (LogLevel.logLevelFromString raw).map fun level => .string level.toString
  | .texts, _ | .members, _ => none

end ConfigKind

namespace ConfigKey

/-- The section of the file and the key in it. -/
def place : ConfigKey → Bytes × Bytes
  | .workers => (ascii "execution",ascii "workers")
  | .defaultTimeoutMs => (ascii "execution",ascii "default_timeout_ms")
  | .cancellationGraceMs => (ascii "execution",ascii "cancellation_grace_ms")
  | .failFast => (ascii "execution",ascii "fail_fast")
  | .retryFailed => (ascii "execution",ascii "retry_failed")
  | .shuffle => (ascii "execution",ascii "shuffle")
  | .shuffleSeed => (ascii "execution",ascii "shuffle_seed")
  | .excludeSuitesByDefault => (ascii "execution",ascii "exclude_suites_by_default")
  | .level => (ascii "logging",ascii "level")
  | .json => (ascii "logging",ascii "json")
  | .color => (ascii "logging",ascii "color")
  | .file => (ascii "logging",ascii "file")
  | .databaseEnabled => (ascii "database",ascii "enabled")
  | .databasePath => (ascii "database",ascii "path")
  | .retentionDays => (ascii "database",ascii "retention_days")
  | .busyTimeoutMs => (ascii "database",ascii "busy_timeout_ms")
  | .outputDirectory => (ascii "reporting",ascii "output_directory")
  | .console => (ascii "reporting",ascii "console")
  | .reportJson => (ascii "reporting",ascii "json")
  | .reportHtml => (ascii "reporting",ascii "html")
  | .reportJunit => (ascii "reporting",ascii "junit")
  | .verboseFailures => (ascii "reporting",ascii "verbose_failures")
  | .baseUrl => (ascii "api",ascii "base_url")
  | .apiTimeoutMs => (ascii "api",ascii "timeout_ms")
  | .slaMs => (ascii "api",ascii "sla_ms")
  | .defaultHeaders => (ascii "api",ascii "default_headers")
  | .aiEnabled => (ascii "ai",ascii "enabled")
  | .aiEndpoint => (ascii "ai",ascii "endpoint")
  | .aiModel => (ascii "ai",ascii "model")
  | .aiTimeoutMs => (ascii "ai",ascii "timeout_ms")
  | .maxGeneratedTests => (ascii "ai",ascii "max_generated_tests")
  | .maxResponseBytes => (ascii "ai",ascii "max_response_bytes")
  | .allowedTargetHosts => (ascii "ai",ascii "allowed_target_hosts")
  | .collectOnFailure => (ascii "diagnostics",ascii "collect_on_failure")
  | .includeGpu => (ascii "diagnostics",ascii "include_gpu")
  | .includeProcesses => (ascii "diagnostics",ascii "include_processes")
  | .includeSystemLogs => (ascii "diagnostics",ascii "include_system_logs")
  | .topProcessCount => (ascii "diagnostics",ascii "top_process_count")
  | .commandTimeoutMs => (ascii "diagnostics",ascii "command_timeout_ms")
  | .serverHost => (ascii "server",ascii "host")
  | .serverPort => (ascii "server",ascii "port")
  | .serverWorkers => (ascii "server",ascii "workers")
  | .staticDirectory => (ascii "server",ascii "static_directory")
  | .maxRequestBytes => (ascii "server",ascii "max_request_bytes")
  | .maxPendingConnections => (ascii "server",ascii "max_pending_connections")

def kind : ConfigKey → ConfigKind
  | .failFast | .shuffle | .json | .color | .databaseEnabled | .console | .reportJson | .reportHtml | .reportJunit
  | .verboseFailures | .aiEnabled | .collectOnFailure | .includeGpu | .includeProcesses | .includeSystemLogs => .bool
  | .defaultTimeoutMs | .cancellationGraceMs | .shuffleSeed | .busyTimeoutMs | .apiTimeoutMs | .slaMs | .aiTimeoutMs
  | .maxResponseBytes | .commandTimeoutMs | .maxRequestBytes => .wide
  | .workers | .retryFailed | .retentionDays | .maxGeneratedTests | .topProcessCount | .serverPort | .serverWorkers
  | .maxPendingConnections => .narrow
  | .file | .databasePath | .outputDirectory | .baseUrl | .aiEndpoint | .aiModel | .serverHost | .staticDirectory => .text
  | .level => .level
  | .excludeSuitesByDefault | .allowedTargetHosts => .texts
  | .defaultHeaders => .members

/-- The variable of a setting that the environment can tell. -/
def variableName : ConfigKey → Option Bytes
  | .workers => some (ascii "TESTFORGE_WORKERS")
  | .defaultTimeoutMs => some (ascii "TESTFORGE_TIMEOUT_MS")
  | .failFast => some (ascii "TESTFORGE_FAIL_FAST")
  | .retryFailed => some (ascii "TESTFORGE_RETRY_FAILED")
  | .level => some (ascii "TESTFORGE_LOG_LEVEL")
  | .json => some (ascii "TESTFORGE_LOG_JSON")
  | .file => some (ascii "TESTFORGE_LOG_FILE")
  | .databaseEnabled => some (ascii "TESTFORGE_DB_ENABLED")
  | .databasePath => some (ascii "TESTFORGE_DB_PATH")
  | .outputDirectory => some (ascii "TESTFORGE_REPORT_DIR")
  | .baseUrl => some (ascii "TESTFORGE_API_BASE_URL")
  | .apiTimeoutMs => some (ascii "TESTFORGE_API_TIMEOUT_MS")
  | .aiEnabled => some (ascii "TESTFORGE_AI_ENABLED")
  | .aiEndpoint => some (ascii "TESTFORGE_AI_ENDPOINT")
  | .aiModel => some (ascii "TESTFORGE_AI_MODEL")
  | .aiTimeoutMs => some (ascii "TESTFORGE_AI_TIMEOUT_MS")
  | .collectOnFailure => some (ascii "TESTFORGE_DIAG_ON_FAILURE")
  | .includeGpu => some (ascii "TESTFORGE_DIAG_GPU")
  | .serverHost => some (ascii "TESTFORGE_SERVER_HOST")
  | .serverPort => some (ascii "TESTFORGE_SERVER_PORT")
  | _ => none

/-- What a configuration has for a setting, as its JSON form tells it. -/
def value : ConfigKey → Config → Value
  | .workers, config => .int config.execution.workers.toInt
  | .defaultTimeoutMs, config => .int config.execution.defaultTimeoutMs.toInt
  | .cancellationGraceMs, config => .int config.execution.cancellationGraceMs.toInt
  | .failFast, config => .bool config.execution.failFast
  | .retryFailed, config => .int config.execution.retryFailed.toInt
  | .shuffle, config => .bool config.execution.shuffle
  | .shuffleSeed, config => .int config.execution.shuffleSeed.toInt64.toInt
  | .excludeSuitesByDefault, config => stringsToJson config.execution.excludeSuitesByDefault
  | .level, config => .string config.logging.level.toString
  | .json, config => .bool config.logging.json
  | .color, config => .bool config.logging.color
  | .file, config => .string config.logging.file
  | .databaseEnabled, config => .bool config.database.enabled
  | .databasePath, config => .string config.database.path
  | .retentionDays, config => .int config.database.retentionDays.toInt
  | .busyTimeoutMs, config => .int config.database.busyTimeoutMs.toInt
  | .outputDirectory, config => .string config.reporting.outputDirectory
  | .console, config => .bool config.reporting.console
  | .reportJson, config => .bool config.reporting.json
  | .reportHtml, config => .bool config.reporting.html
  | .reportJunit, config => .bool config.reporting.junit
  | .verboseFailures, config => .bool config.reporting.verboseFailures
  | .baseUrl, config => .string config.api.baseUrl
  | .apiTimeoutMs, config => .int config.api.timeoutMs.toInt
  | .slaMs, config => .int config.api.slaMs.toInt
  | .defaultHeaders, config => headersToJson config.api.defaultHeaders
  | .aiEnabled, config => .bool config.ai.enabled
  | .aiEndpoint, config => .string config.ai.endpoint
  | .aiModel, config => .string config.ai.model
  | .aiTimeoutMs, config => .int config.ai.timeoutMs.toInt
  | .maxGeneratedTests, config => .int config.ai.maxGeneratedTests.toInt
  | .maxResponseBytes, config => .int config.ai.maxResponseBytes.toInt
  | .allowedTargetHosts, config => stringsToJson config.ai.allowedTargetHosts
  | .collectOnFailure, config => .bool config.diagnostics.collectOnFailure
  | .includeGpu, config => .bool config.diagnostics.includeGpu
  | .includeProcesses, config => .bool config.diagnostics.includeProcesses
  | .includeSystemLogs, config => .bool config.diagnostics.includeSystemLogs
  | .topProcessCount, config => .int config.diagnostics.topProcessCount.toInt
  | .commandTimeoutMs, config => .int config.diagnostics.commandTimeoutMs.toInt
  | .serverHost, config => .string config.server.host
  | .serverPort, config => .int config.server.port.toInt
  | .serverWorkers, config => .int config.server.workers.toInt
  | .staticDirectory, config => .string config.server.staticDirectory
  | .maxRequestBytes, config => .int config.server.maxRequestBytes.toInt
  | .maxPendingConnections, config => .int config.server.maxPendingConnections.toInt

/-- The JSON form of a configuration has the value of every setting in its place. -/
theorem value_told (setting : ConfigKey) (hardware : UInt32) (config : Config) :
    ((config.toJson hardware).find setting.place.1).bind (·.find setting.place.2) = some (setting.value config) := by
  have top : (config.toJson hardware).find setting.place.1 =
      (Value.objectOf (config.sections hardware)).find setting.place.1 := by
    rw [Config.toJson]
    split
    · rfl
    · have other : ascii "source_path" ≠ setting.place.1 := by cases setting <;> decide
      rw [Value.objectOf,Value.set,Value.find_setMember,if_neg other]
  have execution : (Value.objectOf (config.sections hardware)).find (ascii "execution") =
      some (Value.objectOf (config.execution.members (config.effectiveWorkers hardware))) := by
    rw [Value.find_objectOf]
    rfl
  have logging : (Value.objectOf (config.sections hardware)).find (ascii "logging") =
      some (Value.objectOf config.logging.members) := by
    rw [Value.find_objectOf]
    rfl
  have database : (Value.objectOf (config.sections hardware)).find (ascii "database") =
      some (Value.objectOf config.database.members) := by
    rw [Value.find_objectOf]
    rfl
  have reporting : (Value.objectOf (config.sections hardware)).find (ascii "reporting") =
      some (Value.objectOf config.reporting.members) := by
    rw [Value.find_objectOf]
    rfl
  have api : (Value.objectOf (config.sections hardware)).find (ascii "api") =
      some (Value.objectOf config.api.members) := by
    rw [Value.find_objectOf]
    rfl
  have ai : (Value.objectOf (config.sections hardware)).find (ascii "ai") =
      some (Value.objectOf config.ai.members) := by
    rw [Value.find_objectOf]
    rfl
  have diagnostics : (Value.objectOf (config.sections hardware)).find (ascii "diagnostics") =
      some (Value.objectOf config.diagnostics.members) := by
    rw [Value.find_objectOf]
    rfl
  have server : (Value.objectOf (config.sections hardware)).find (ascii "server") =
      some (Value.objectOf config.server.members) := by
    rw [Value.find_objectOf]
    rfl
  rw [top]
  cases setting
  all_goals
    simp only [place,execution,logging,database,reporting,api,ai,diagnostics,server,Option.bind_some]
    rw [Value.find_objectOf]
    rfl

end ConfigKey

/-- What a document tells; nothing where the key is missing or has a value of another type. -/
def documentLayer (root : Value) : Layer ConfigKey Value := fun setting =>
  (sectionOf root setting.place.1).bind fun members => (members.find setting.place.2).bind setting.kind.ofJson

/-- What the environment tells; nothing where a variable cannot be read. -/
def environmentLayer (env : Environment) : Layer ConfigKey Value
  | .color => if isSet env (ascii "NO_COLOR") then some (.bool false) else none
  | setting => setting.variableName.bind fun name => (get env name).bind setting.kind.ofText

/-- What the options tell. -/
def optionLayer (parsed : ParsedCommand) : Layer ConfigKey Value
  | .level =>
    if parsed.flag (ascii "quiet") then some (.string LogLevel.error.toString)
    else if parsed.flag (ascii "verbose") then some (.string LogLevel.debug.toString)
    else (LogLevel.logLevelFromString (parsed.value (ascii "log-level"))).map fun level => .string level.toString
  | .file => if parsed.has (ascii "log-file") then some (.string (parsed.value (ascii "log-file"))) else none
  | .json => if parsed.flag (ascii "log-json") then some (.bool true) else none
  | .color => if parsed.flag (ascii "no-color") then some (.bool false) else none
  | .databasePath => if parsed.has (ascii "db") then some (.string (parsed.value (ascii "db"))) else none
  | .databaseEnabled =>
    if parsed.flag (ascii "no-db") || parsed.flag (ascii "no-persist") then some (.bool false)
    else if parsed.has (ascii "db") then some (.bool true)
    else none
  | .outputDirectory => if parsed.has (ascii "report-dir") then some (.string (parsed.value (ascii "report-dir"))) else none
  | .reportJson | .reportHtml | .reportJunit => if parsed.flag (ascii "no-report") then some (.bool false) else none
  | .defaultTimeoutMs =>
    if parsed.has (ascii "timeout") then
      match parseDurationMillis (parsed.value (ascii "timeout")) with
      | .millis value => some (.int value.toInt)
      | _ => none
    else none
  | _ => none

/-! ### Each step follows its layer -/

theorem readBool_follows (obj : Value) (key : Bytes) (before : Bool) :
    Value.bool (readBool obj key before) = ((obj.find key).bind ConfigKind.bool.ofJson).getD (.bool before) := by
  rw [readBool]
  cases obj.find key with
  | none => rfl
  | some value => cases value <;> rfl

theorem readInt_follows (obj : Value) (key : Bytes) (before : Int64) :
    Value.int (readInt obj key before).toInt = ((obj.find key).bind ConfigKind.wide.ofJson).getD (.int before.toInt) := by
  rw [readInt]
  cases obj.find key with
  | none => rfl
  | some value => cases value <;> rfl

theorem readIntNarrow_follows (obj : Value) (key : Bytes) (before : Int32) :
    Value.int (readIntNarrow obj key before).toInt =
      ((obj.find key).bind ConfigKind.narrow.ofJson).getD (.int before.toInt) := by
  rw [readIntNarrow,readInt]
  cases obj.find key with
  | none => simp
  | some value => cases value <;> simp [Value.isNumber,ConfigKind.ofJson]

theorem readString_follows (obj : Value) (key before : Bytes) :
    Value.string (readString obj key before) = ((obj.find key).bind ConfigKind.text.ofJson).getD (.string before) := by
  rw [readString]
  cases obj.find key with
  | none => rfl
  | some value => cases value <;> rfl

theorem readStringList_follows (obj : Value) (key : Bytes) (before : List Bytes) :
    stringsToJson (readStringList obj key before) =
      ((obj.find key).bind ConfigKind.texts.ofJson).getD (stringsToJson before) := by
  rw [readStringList]
  cases obj.find key with
  | none => rfl
  | some value => cases value <;> rfl

theorem readLevel_follows (obj : Value) (key : Bytes) (before : LogLevel) :
    Value.string ((LogLevel.logLevelFromString (readString obj key before.toString)).getD before).toString =
      ((obj.find key).bind ConfigKind.level.ofJson).getD (.string before.toString) := by
  rw [readString]
  cases obj.find key with
  | none => simp [LogLevel.logLevelFromString_toString]
  | some value =>
    cases value with
    | string text =>
      simp only [Option.bind_some,ConfigKind.ofJson]
      cases LogLevel.logLevelFromString text <;> rfl
    | _ => simp [LogLevel.logLevelFromString_toString,ConfigKind.ofJson]

theorem readHeaders_follows (obj : Value) (config : ApiTargetConfig) :
    headersToJson (config.read obj).defaultHeaders =
      ((obj.find (ascii "default_headers")).bind ConfigKind.members.ofJson).getD (headersToJson config.defaultHeaders) := by
  simp only [ApiTargetConfig.read]
  cases obj.find (ascii "default_headers") with
  | none => rfl
  | some value => cases value <;> rfl

theorem fromJson_missing (root : Value) (setting : ConfigKey) (missing : sectionOf root setting.place.1 = none) :
    setting.value (Config.fromJson root) = setting.value {} := by
  cases setting <;>
    (simp only [ConfigKey.place] at missing
     simp only [ConfigKey.value,Config.fromJson,missing,Option.map_none,Option.getD_none])

/-- Every setting of a section that is there is read by the reader of its kind. -/
theorem fromJson_section (root obj : Value) (setting : ConfigKey) (found : sectionOf root setting.place.1 = some obj) :
    setting.value (Config.fromJson root) =
      ((obj.find setting.place.2).bind setting.kind.ofJson).getD (setting.value {}) := by
  cases setting
  all_goals
    simp only [ConfigKey.place] at found
    simp only [ConfigKey.value,ConfigKey.place,ConfigKey.kind,Config.fromJson,found,Option.map_some,Option.getD_some]
  case failFast | shuffle | json | color | databaseEnabled | console | reportJson | reportHtml | reportJunit |
      verboseFailures | aiEnabled | collectOnFailure | includeGpu | includeProcesses | includeSystemLogs =>
    exact readBool_follows obj _ _
  case defaultTimeoutMs | cancellationGraceMs | busyTimeoutMs | apiTimeoutMs | slaMs | aiTimeoutMs |
      maxResponseBytes | commandTimeoutMs | maxRequestBytes =>
    exact readInt_follows obj _ _
  case workers | retryFailed | retentionDays | maxGeneratedTests | topProcessCount | serverPort | serverWorkers |
      maxPendingConnections =>
    exact readIntNarrow_follows obj _ _
  case file | databasePath | outputDirectory | baseUrl | aiEndpoint | aiModel | serverHost | staticDirectory =>
    exact readString_follows obj _ _
  case excludeSuitesByDefault | allowedTargetHosts => exact readStringList_follows obj _ _
  case shuffleSeed => simpa [ExecutionConfig.read] using readInt_follows obj (ascii "shuffle_seed") (0 : UInt64).toInt64
  case level => exact readLevel_follows obj _ _
  case defaultHeaders => exact readHeaders_follows obj {}

theorem fromJson_follows (root : Value) : Follows ConfigKey.value (documentLayer root) {} (Config.fromJson root) := by
  intro setting
  rw [documentLayer]
  cases found : sectionOf root setting.place.1 with
  | none => exact fromJson_missing root setting found
  | some obj => exact fromJson_section root obj setting found

theorem getOr_follows (env : Environment) (name before : Bytes) :
    Value.string (getOr env name before) = ((get env name).bind ConfigKind.text.ofText).getD (.string before) := by
  rw [getOr]
  cases get env name <;> rfl

theorem getBool_follows (env : Environment) (name : Bytes) (before : Bool) :
    Value.bool (getBool env name before) = ((get env name).bind ConfigKind.bool.ofText).getD (.bool before) := by
  rw [getBool]
  cases get env name with
  | none => rfl
  | some raw =>
    by_cases empty : raw = []
    · have unread : parseBool [] = none := by decide
      simp [empty,ConfigKind.ofText,unread]
    · simp only [if_neg empty,Option.bind_some,ConfigKind.ofText]
      cases parseBool raw <;> rfl

theorem getInt_follows (env : Environment) (name : Bytes) (before : Int64) :
    Value.int (getInt env name before).toInt = ((get env name).bind ConfigKind.wide.ofText).getD (.int before.toInt) := by
  rw [getInt]
  cases get env name with
  | none => rfl
  | some raw =>
    simp only [Option.bind_some,ConfigKind.ofText]
    cases parseInt raw <;> rfl

theorem getInt_narrow_follows (env : Environment) (name : Bytes) (before : Int32) :
    Value.int (getInt env name before.toInt64).toInt32.toInt =
      ((get env name).bind ConfigKind.narrow.ofText).getD (.int before.toInt) := by
  rw [getInt]
  cases get env name with
  | none => simp
  | some raw =>
    simp only [Option.bind_some,ConfigKind.ofText]
    cases parseInt raw with
    | none => simp
    | some n => rfl

theorem level_follows (env : Environment) (name : Bytes) (before : LogLevel) :
    Value.string (((get env name).bind LogLevel.logLevelFromString).getD before).toString =
      ((get env name).bind ConfigKind.level.ofText).getD (.string before.toString) := by
  cases get env name with
  | none => rfl
  | some raw =>
    simp only [Option.bind_some,ConfigKind.ofText]
    cases LogLevel.logLevelFromString raw <;> rfl

/-- A variable that is missing or cannot be read leaves its setting as it was. -/
theorem applyEnvironmentOverrides_follows (env : Environment) (config : Config) :
    Follows ConfigKey.value (environmentLayer env) config (config.applyEnvironmentOverrides env) := by
  intro setting
  cases setting
  case workers | retryFailed | serverPort => exact getInt_narrow_follows env _ _
  case defaultTimeoutMs | apiTimeoutMs | aiTimeoutMs => exact getInt_follows env _ _
  case failFast | json | databaseEnabled | aiEnabled | collectOnFailure | includeGpu => exact getBool_follows env _ _
  case file | databasePath | outputDirectory | baseUrl | aiEndpoint | aiModel | serverHost => exact getOr_follows env _ _
  case level => exact level_follows env _ _
  case color =>
    simp only [ConfigKey.value,Config.applyEnvironmentOverrides,environmentLayer]
    split <;> rfl
  all_goals rfl

theorem applyOptions_follows (parsed : ParsedCommand) (level : Option LogLevel) (millis : Option Int64) (config : Config)
    (known : level = LogLevel.logLevelFromString (parsed.value (ascii "log-level")))
    (timed : optionLayer parsed .defaultTimeoutMs = millis.map fun value => .int value.toInt) :
    Follows ConfigKey.value (optionLayer parsed) config (applyOptions parsed level millis config) := by
  intro setting
  cases setting
  case defaultTimeoutMs =>
    rw [timed]
    cases millis <;> rfl
  case level =>
    simp only [ConfigKey.value,applyOptions,optionLayer,known]
    split
    · rfl
    · split
      · rfl
      · cases LogLevel.logLevelFromString (parsed.value (ascii "log-level")) <;> rfl
  case databaseEnabled =>
    simp only [ConfigKey.value,applyOptions,optionLayer]
    split
    · rfl
    · split <;> rfl
  case file | json | color | databasePath | outputDirectory | reportJson | reportHtml | reportJunit =>
    simp only [ConfigKey.value,applyOptions,optionLayer]
    split <;> rfl
  all_goals rfl

/-! ### The whole command -/

/-- The document of a path; an empty one where no file is named. -/
inductive DocumentRead (surroundings : Surroundings) (path : Bytes) : Value → Prop
  | unnamed (nothing : path = []) : DocumentRead surroundings path (.object [])
  | file {text : Bytes} {members : List (Bytes × Value)} (named : path ≠ []) (opened : surroundings.files path = some text)
      (read : parse {} text = .ok (.object members)) : DocumentRead surroundings path (.object members)

/-- The environment, and behind it what the `.env` file assigns first. -/
def Surroundings.merged (surroundings : Surroundings) : Environment := fun name =>
  (surroundings.env name).or (Env.first (Env.assigned surroundings.dotEnv) name)

/-- The options are over the environment, this is over the document, and that is over the defaults. -/
def Layered (surroundings : Surroundings) (parsed : ParsedCommand) (config : Config) : Prop :=
  ∃ root, DocumentRead surroundings (configPath surroundings surroundings.merged parsed) root ∧
    Follows ConfigKey.value (stack (optionLayer parsed) (stack (environmentLayer surroundings.merged) (documentLayer root)))
      {} config ∧
    config.custom = (root.find (ascii "custom")).getD (.object []) ∧
    config.sourcePath = configPath surroundings surroundings.merged parsed

/-- What a configuration, a failure and an undefined cast each come from. -/
def BuiltFrom (surroundings : Surroundings) (parsed : ParsedCommand) : Built → Prop
  | .config config => Layered surroundings parsed config ∧ config.problems = [] ∧ ∀ hardware (setting : ConfigKey),
      ((config.toJson hardware).find setting.place.1).bind (·.find setting.place.2) = some (setting.value config)
  | .failed _ => (¬∃ root, DocumentRead surroundings (configPath surroundings surroundings.merged parsed) root) ∨
      (parsed.value (ascii "log-level") ≠ [] ∧ LogLevel.logLevelFromString (parsed.value (ascii "log-level")) = none) ∨
      (parsed.has (ascii "timeout") = true ∧ parseDurationMillis (parsed.value (ascii "timeout")) = .rejected) ∨
      ∃ config, Layered surroundings parsed config ∧ config.problems ≠ []
  | .undefined => parsed.has (ascii "timeout") = true ∧
      parseDurationMillis (parsed.value (ascii "timeout")) = .undefined

theorem merged_eq (surroundings : Surroundings) :
    (loadDotEnv surroundings.dotEnv surroundings.env).2 = surroundings.merged :=
  funext (loadDotEnv_get surroundings.dotEnv surroundings.env).1

theorem loaded_reads (surroundings : Surroundings) (env : Environment) (parsed : ParsedCommand) (config : Config)
    (built : loaded surroundings env parsed = .ok config) :
    ∃ root, DocumentRead surroundings (configPath surroundings env parsed) root ∧
      config = { Config.fromJson root with sourcePath := configPath surroundings env parsed } := by
  rw [loaded] at built
  by_cases unnamed : configPath surroundings env parsed = []
  · rw [if_pos unnamed] at built
    cases built
    refine ⟨.object [],.unnamed unnamed,?_⟩
    rw [unnamed]
    rfl
  · rw [if_neg unnamed,Config.loadFromFile] at built
    cases opened : surroundings.files (configPath surroundings env parsed) with
    | none => simp [opened] at built
    | some text =>
      cases read : parse {} text with
      | error failure => simp [opened,read] at built
      | ok root =>
        cases root with
        | object members =>
          simp only [opened,read,Except.ok.injEq] at built
          exact ⟨.object members,.file unnamed opened read,built.symm⟩
        | _ => simp [opened,read] at built

theorem loaded_unread (surroundings : Surroundings) (env : Environment) (parsed : ParsedCommand) (message : Bytes)
    (failed : loaded surroundings env parsed = .error message) :
    ¬∃ root, DocumentRead surroundings (configPath surroundings env parsed) root := by
  rintro ⟨root,reads⟩
  rw [loaded] at failed
  cases reads with
  | unnamed nothing =>
    rw [if_pos nothing] at failed
    cases failed
  | file named opened read =>
    rw [if_neg named,Config.loadFromFile] at failed
    simp [opened,read] at failed

theorem levelOption_ok (parsed : ParsedCommand) (level : Option LogLevel) (known : levelOption parsed = .ok level) :
    level = LogLevel.logLevelFromString (parsed.value (ascii "log-level")) := by
  rw [levelOption] at known
  by_cases absent : parsed.value (ascii "log-level") = []
  · have nothing : LogLevel.logLevelFromString [] = none := by decide
    simp only [absent,if_true] at known
    cases known
    rw [absent,nothing]
  · simp only [absent,if_false] at known
    cases read : LogLevel.logLevelFromString (parsed.value (ascii "log-level")) with
    | none => simp [read] at known
    | some level => simpa [read] using known.symm

theorem levelOption_error (parsed : ParsedCommand) (message : Bytes) (unknown : levelOption parsed = .error message) :
    parsed.value (ascii "log-level") ≠ [] ∧ LogLevel.logLevelFromString (parsed.value (ascii "log-level")) = none := by
  rw [levelOption] at unknown
  by_cases absent : parsed.value (ascii "log-level") = []
  · simp [absent] at unknown
  · refine ⟨absent,?_⟩
    cases read : LogLevel.logLevelFromString (parsed.value (ascii "log-level")) with
    | none => rfl
    | some level => simp [absent,read] at unknown

theorem checked_from (surroundings : Surroundings) (parsed : ParsedCommand) (config : Config)
    (layered : Layered surroundings parsed config) : BuiltFrom surroundings parsed (checked config) := by
  by_cases fine : config.problems = []
  · have valid : config.validate = .ok () := by rw [Config.validate,if_pos fine]
    rw [checked,valid]
    exact And.intro layered ⟨fine,fun hardware setting => setting.value_told hardware config⟩
  · obtain ⟨message,invalid⟩ : ∃ message, config.validate = .error message := by
      rw [Config.validate,if_neg fine]
      exact ⟨_,rfl⟩
    rw [checked,invalid]
    exact Or.inr (Or.inr (Or.inr ⟨config,layered,fine⟩))

/-- Every setting of a command comes from the uppermost layer that tells it, and what is built is valid;
nothing is built only for a document that cannot be read, an option that cannot, or invalid settings. -/
theorem buildConfig_layers (surroundings : Surroundings) (parsed : ParsedCommand) :
    BuiltFrom surroundings parsed (buildConfig surroundings parsed) := by
  cases document : loaded surroundings surroundings.merged parsed with
  | error message =>
    simp only [buildConfig,merged_eq,document]
    exact Or.inl (loaded_unread surroundings surroundings.merged parsed message document)
  | ok config =>
    obtain ⟨root,reads,rfl⟩ := loaded_reads surroundings surroundings.merged parsed config document
    cases option : levelOption parsed with
    | error message =>
      simp only [buildConfig,merged_eq,document,option]
      exact Or.inr (Or.inl (levelOption_error parsed message option))
    | ok level =>
      have known := levelOption_ok parsed level option
      have layered : ∀ millis : Option Int64,
          optionLayer parsed .defaultTimeoutMs = millis.map (fun value => .int value.toInt) →
          Layered surroundings parsed (applyOptions parsed level millis
            (Config.applyEnvironmentOverrides surroundings.merged
              { Config.fromJson root with sourcePath := configPath surroundings surroundings.merged parsed })) := by
        intro millis timed
        refine ⟨root,reads,?_,rfl,rfl⟩
        have base : Follows ConfigKey.value (documentLayer root) {}
            { Config.fromJson root with sourcePath := configPath surroundings surroundings.merged parsed } := by
          intro setting
          rw [← fromJson_follows root setting]
          cases setting <;> rfl
        exact (base.trans (applyEnvironmentOverrides_follows surroundings.merged _)).trans
          (applyOptions_follows parsed level millis _ known timed)
      by_cases timeout : parsed.has (ascii "timeout") = true
      · cases duration : parseDurationMillis (parsed.value (ascii "timeout")) with
        | rejected =>
          simp only [buildConfig,merged_eq,document,option,timeout,if_true,duration]
          exact Or.inr (Or.inr (Or.inl ⟨timeout,duration⟩))
        | undefined =>
          simp only [buildConfig,merged_eq,document,option,timeout,if_true,duration]
          exact And.intro timeout duration
        | millis value =>
          have told : optionLayer parsed .defaultTimeoutMs = (some value).map fun value => .int value.toInt := by
            simp only [optionLayer,if_pos timeout,duration]
            rfl
          simp only [buildConfig,merged_eq,document,option,timeout,if_true,duration]
          exact checked_from surroundings parsed _ (layered (some value) told)
      · have told : optionLayer parsed .defaultTimeoutMs = (none : Option Int64).map fun value => .int value.toInt := by
          simp only [optionLayer,if_neg timeout]
          rfl
        simp only [buildConfig,merged_eq,document,option,if_neg timeout]
        exact checked_from surroundings parsed _ (layered none told)

end Settings

end TestForge
