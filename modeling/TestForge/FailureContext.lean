import TestForge.FailureClassifier
import TestForge.JsonAccess
import TestForge.Redaction

/-! The evidence package for a failing result. -/
namespace TestForge

open Json Strings

/-- What the category means, for a reader who has not seen the classifier. -/
def FailureClassifier.explain : FailureCategory → Bytes
  | .none => ascii "No failure."
  | .assertionFailure => ascii "The system under test produced " ++
      ascii "the wrong result. Investigate the " ++ ascii "SUT, or the expectation if the " ++
      ascii "behaviour changed on purpose."
  | .timeout => ascii "The test did not finish within " ++ ascii "its deadline. Look for a hung " ++
      ascii "dependency, a deadlock, or a " ++ ascii "budget that is simply too tight."
  | .networkFailure => ascii "The system under test could not " ++
      ascii "be reached. Usually the service " ++ ascii "is not running, or the address or " ++
      ascii "port is wrong."
  | .environmentFailure => ascii "The machine running the test is " ++
      ascii "at fault: permissions, missing " ++ ascii "paths, or a misconfigured host."
  | .resourceFailure => ascii "The machine ran out of something: " ++
      ascii "memory, disk, or file descriptors."
  | .applicationFailure => ascii "The system under test errored " ++
      ascii "internally (5xx or a crash). " ++ ascii "Check its logs rather than the " ++ ascii "test."
  | .dependencyFailure => ascii "A required binary or service is " ++
      ascii "absent. Install it, or let the " ++ ascii "test skip."
  | .configurationFailure => ascii "TestForge was configured " ++
      ascii "incorrectly. Fix the config file, " ++ ascii "flags, or environment variables."
  | .frameworkError => ascii "A defect in TestForge itself. " ++ ascii "This should be reported as a bug."
  | .unknown => ascii "Could not be classified " ++ ascii "automatically. Read the logs and " ++
      ascii "diagnostics."

namespace FailureContext

structure Limits where
  maxLogLines : Nat := 40
  maxLogLineLength : Nat := 300
  maxErrorDetail : Nat := 4000
  maxResponseExcerpt : Nat := 1500
  maxTotalBytes : Nat := 24 * 1024

def kAllowedMetadataKeys : List Bytes :=
  [ascii "http_method",ascii "http_url",ascii "http_status",ascii "http_status_text",ascii "response_time_ms",
    ascii "content_type",ascii "response_bytes",ascii "transport_error",ascii "response_excerpt",
    ascii "timeout_ms",ascii "attempt",ascii "missing_dependency"]

/-! ### Diagnostics -/

def osKeys : List Bytes :=
  [ascii "distribution",ascii "kernel_version",ascii "architecture",ascii "inside_container"]
def cpuKeys : List Bytes := [ascii "logical_cores",ascii "load_average_1m",ascii "utilization_percent"]
def memoryKeys : List Bytes := [ascii "total_kb",ascii "available_kb",ascii "used_percent"]
def gpuKeys : List Bytes :=
  [ascii "available",ascii "is_mock_data",ascii "summary",ascii "unavailable_reason",ascii "driver_version"]

def underPressure (disk : Value) : Bool :=
  match disk.find (ascii "used_percent") with
  | some used => (used.doubleOr ⟨0⟩).atLeast 85
  | none => false

/-- The disks that are short of space, when there are any. -/
def tightDisks (diagnostics : Value) : Option (List Value) :=
  match diagnostics.path (ascii "system.disks") with
  | some (.array disks) =>
    let tight := disks.filter underPressure
    if tight = [] then none else some tight
  | _ => none

def recentSystemLogs (diagnostics : Value) : Option (List Value) :=
  match diagnostics.find (ascii "system_logs") with
  | some (.array lines) => some (lines.drop (lines.length - 10))
  | _ => none

def distillDiagnostics (diagnostics : Value) : Value :=
  let out := Value.object []
  if diagnostics.isEmpty then out
  else
    let out := out.setSome (ascii "os") ((diagnostics.path (ascii "system.os")).map (Value.pick osKeys))
    let out := out.setSome (ascii "cpu") ((diagnostics.path (ascii "system.cpu")).map (Value.pick cpuKeys))
    let out := out.setSome (ascii "memory") ((diagnostics.path (ascii "system.memory")).map (Value.pick memoryKeys))
    let out := out.setSome (ascii "disks_under_pressure") ((tightDisks diagnostics).map .array)
    let out := out.setSome (ascii "gpu") ((diagnostics.find (ascii "gpu")).map (Value.pick gpuKeys))
    out.setSome (ascii "recent_system_logs") ((recentSystemLogs diagnostics).map .array)

/-! ### The document -/

def testSection (result : TestResult) : Value := Value.objectOf [
  (ascii "name",.string result.qualifiedName),
  (ascii "suite",.string result.suiteName),
  (ascii "tags",stringsToJson result.tags)]

/-- Texts among the allowed metadata are redacted and cut; anything else is copied. -/
def metadataEvidence (limits : Limits) (member : Bytes × Value) : Value :=
  match member.2 with
  | .string text =>
    let limit := if member.1 = ascii "response_excerpt" then limits.maxResponseExcerpt else 500
    .string (truncate (redactSecrets text) limit)
  | value => value

def allowedMetadata (limits : Limits) (members : List (Bytes × Value)) : Value :=
  Value.select (fun key => key ∈ kAllowedMetadataKeys) (metadataEvidence limits) members

def logTail (limits : Limits) (logs : List Bytes) : List Bytes :=
  (logs.drop (logs.length - limits.maxLogLines)).map fun line =>
    truncate (redactSecrets line) limits.maxLogLineLength

def outcome (limits : Limits) (result : TestResult) (members : List (Bytes × Value)) : Value := Value.objectOf [
  (ascii "status",.string result.status.toString),
  (ascii "failure_category",.string result.failureCategory.toString),
  (ascii "category_meaning",.string (FailureClassifier.explain result.failureCategory)),
  (ascii "duration_ms",.int result.duration),
  (ascii "attempt",.int result.attempt),
  (ascii "error_message",.string (truncate (redactSecrets result.errorMessage) 1000)),
  (ascii "error_detail",.string (truncate (redactSecrets result.errorDetail) limits.maxErrorDetail)),
  (ascii "metadata",allowedMetadata limits members),
  (ascii "log_tail",stringsToJson (logTail limits result.logs))]

/-- The document before the final guard. -/
def evidence (limits : Limits) (result : TestResult) (members : List (Bytes × Value)) : Value := Value.objectOf [
  (ascii "content_type",.string (ascii "testforge.failure_context")),
  (ascii "trust_level",.string (ascii "untrusted_data")),
  (ascii "test",testSection result),
  (ascii "result",outcome limits result members),
  (ascii "diagnostics",distillDiagnostics result.diagnostics)]

def truncationNote : Bytes :=
  ascii "The log tail and error detail " ++ ascii "were removed because the context " ++
    ascii "exceeded the configured size " ++ ascii "budget."

/-- What the guard does to a document over the budget. -/
def trimmed (context : Value) (errorMessage : Bytes) : Value :=
  let context := match context.find (ascii "result") with
    | some outcome => context.set (ascii "result")
        ((outcome.set (ascii "log_tail") (.array [])).set (ascii "error_detail") (.string (truncate errorMessage 500)))
    | none => context
  (context.set (ascii "truncated") (.bool true)).set (ascii "truncation_note") (.string truncationNote)

/-- Metadata that is no object throws. -/
def build (limits : Limits) (result : TestResult) : Except Bytes Value := do
  let members ← result.metadata.asObject
  let context := evidence limits result members
  if limits.maxTotalBytes < context.dump.length then .ok (trimmed context result.errorMessage) else .ok context

def withHistory (context history : Value) : Value := context.set (ascii "history") history

end FailureContext
end TestForge
