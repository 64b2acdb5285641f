import TestForge.FailureContext

/-! How long the evidence package is, and when it keeps within its budget. -/
namespace TestForge.FailureContext

open Json Strings Value

/-! ### The documents, member by member -/

def outcomeMembers (limits : Limits) (result : TestResult) (members : List (Bytes × Value)) (detail : Bytes)
    (logs : List Bytes) : List (Bytes × Value) := [
  (ascii "status",.string result.status.toString),
  (ascii "failure_category",.string result.failureCategory.toString),
  (ascii "category_meaning",.string (FailureClassifier.explain result.failureCategory)),
  (ascii "duration_ms",.int result.duration),
  (ascii "attempt",.int result.attempt),
  (ascii "error_message",.string (truncate (redactSecrets result.errorMessage) 1000)),
  (ascii "error_detail",.string detail),
  (ascii "metadata",allowedMetadata limits members),
  (ascii "log_tail",stringsToJson logs)]

def evidenceMembers (limits : Limits) (result : TestResult) (members : List (Bytes × Value)) (detail : Bytes)
    (logs : List Bytes) : List (Bytes × Value) := [
  (ascii "content_type",.string (ascii "testforge.failure_context")),
  (ascii "trust_level",.string (ascii "untrusted_data")),
  (ascii "test",.object [
    (ascii "name",.string result.qualifiedName),
    (ascii "suite",.string result.suiteName),
    (ascii "tags",stringsToJson result.tags)]),
  (ascii "result",.object (outcomeMembers limits result members detail logs)),
  (ascii "diagnostics",distillDiagnostics result.diagnostics)]

theorem evidence_eq (limits : Limits) (result : TestResult) (members : List (Bytes × Value)) :
    evidence limits result members = .object (evidenceMembers limits result members
      (truncate (redactSecrets result.errorDetail) limits.maxErrorDetail) (logTail limits result.logs)) := by
  rw [evidence,testSection,outcome]
  rw [objectOf_distinct _ (by simp only [List.map_cons,List.map_nil]; decide),
    objectOf_distinct _ (by simp only [List.map_cons,List.map_nil]; decide),
    objectOf_distinct _ (by simp only [List.map_cons,List.map_nil]; decide)]
  rfl

/-- What the guard adds to a document over the budget. -/
def guardMembers : List (Bytes × Value) :=
  [(ascii "truncated",.bool true),(ascii "truncation_note",.string truncationNote)]

theorem trimmed_eq (limits : Limits) (result : TestResult) (members : List (Bytes × Value)) (message : Bytes) :
    trimmed (evidence limits result members) message = .object (evidenceMembers limits result members
      (truncate message 500) [] ++ guardMembers) := by
  rw [evidence_eq]
  rfl

/-! ### Sizes -/

/-- The bytes of all that the guard leaves alone. -/
def keptSize (limits : Limits) (result : TestResult) (members : List (Bytes × Value)) : Nat :=
  268 + textSize result.qualifiedName + textSize result.suiteName + (stringsToJson result.tags).dump.length +
    textSize result.status.toString + textSize result.failureCategory.toString +
    textSize (FailureClassifier.explain result.failureCategory) + (decimalInt result.duration).length +
    (decimalInt result.attempt).length + textSize (truncate (redactSecrets result.errorMessage) 1000) +
    (allowedMetadata limits members).dump.length + (distillDiagnostics result.diagnostics).dump.length

theorem string_size (text : Bytes) : (Value.string text).dump.length = textSize text := rfl
theorem int_size (z : Int) : (Value.int z).dump.length = (decimalInt z).length := rfl

theorem evidenceMembers_size (limits : Limits) (result : TestResult) (members : List (Bytes × Value)) (detail : Bytes)
    (logs : List Bytes) : (object (evidenceMembers limits result members detail logs)).dump.length =
      keptSize limits result members + textSize detail + (stringsToJson logs).dump.length := by
  have outer : frameSize ((evidenceMembers limits result members detail logs).map (·.1)) = 65 := by
    simp only [evidenceMembers,List.map_cons,List.map_nil]
    decide
  have test : frameSize [ascii "name",ascii "suite",ascii "tags"] = 26 := by decide
  have inner : frameSize ((outcomeMembers limits result members detail logs).map (·.1)) = 134 := by
    simp only [outcomeMembers,List.map_cons,List.map_nil]
    decide
  have labels : textSize (ascii "testforge.failure_context") + textSize (ascii "untrusted_data") = 43 := by decide
  rw [dump_object_length,outer]
  simp only [evidenceMembers,List.map_cons,List.map_nil,List.sum_cons,List.sum_nil,string_size]
  rw [dump_object_length,dump_object_length,inner]
  simp only [outcomeMembers,List.map_cons,List.map_nil,List.sum_cons,List.sum_nil,string_size,int_size,test,keptSize]
  omega

/-- The whole document, before the guard looks at it. -/
def wholeSize (limits : Limits) (result : TestResult) (members : List (Bytes × Value)) : Nat :=
  keptSize limits result members + textSize (truncate (redactSecrets result.errorDetail) limits.maxErrorDetail) +
    (stringsToJson (logTail limits result.logs)).dump.length

/-- What the guard leaves of it: an empty log tail, the message in place of the
detail, and the two members that say so. -/
def restSize (limits : Limits) (result : TestResult) (members : List (Bytes × Value)) : Nat :=
  keptSize limits result members + textSize (truncate result.errorMessage 500) + 2 + 137

theorem evidence_size (limits : Limits) (result : TestResult) (members : List (Bytes × Value)) :
    (evidence limits result members).dump.length = wholeSize limits result members := by
  rw [evidence_eq,evidenceMembers_size,wholeSize]

theorem trimmed_size (limits : Limits) (result : TestResult) (members : List (Bytes × Value)) :
    (trimmed (evidence limits result members) result.errorMessage).dump.length = restSize limits result members := by
  have whole := evidenceMembers_size limits result members (truncate result.errorMessage 500) []
  have frame : frameSize ((evidenceMembers limits result members (truncate result.errorMessage 500) [] ++
      guardMembers).map (·.1)) = 97 := by
    simp only [evidenceMembers,guardMembers,List.map_cons,List.map_nil,List.cons_append,List.nil_append]
    decide
  have outer : frameSize ((evidenceMembers limits result members (truncate result.errorMessage 500) []).map (·.1)) = 65 := by
    simp only [evidenceMembers,List.map_cons,List.map_nil]
    decide
  have note : textSize truncationNote = 101 := by decide
  have flag : (Value.bool true).dump.length = 4 := by decide
  have empty : (stringsToJson []).dump.length = 2 := by decide
  rw [dump_object_length,outer,empty] at whole
  rw [trimmed_eq,dump_object_length,frame,List.map_append,List.sum_append]
  simp only [guardMembers,List.map_cons,List.map_nil,List.sum_cons,List.sum_nil,string_size,note,flag,restSize]
  omega

/-! ### The budget -/

theorem build_object (limits : Limits) (result : TestResult) (members : List (Bytes × Value))
    (metadata : result.metadata = .object members) : build limits result =
      .ok (if limits.maxTotalBytes < wholeSize limits result members then
        trimmed (evidence limits result members) result.errorMessage else evidence limits result members) := by
  rw [build,metadata,← evidence_size]
  simp only [asObject,bind,Except.bind]
  split <;> rfl

theorem build_other (limits : Limits) (result : TestResult) (other : ∀ members, result.metadata ≠ .object members)
    (context : Value) : build limits result ≠ .ok context := by
  intro built
  unfold build asObject at built
  split at built
  · next members metadata => exact other members metadata
  · cases built

/-- The document keeps within its budget exactly when it does as it is, or what the
guard leaves of it does. The names, the tags, allowed metadata that are no text and
the diagnostics are in both, at their full length. -/
theorem build_bounded_iff (limits : Limits) (result : TestResult) :
    (∀ context, build limits result = .ok context → context.dump.length ≤ limits.maxTotalBytes) ↔
      ∀ members, result.metadata = .object members →
        wholeSize limits result members ≤ limits.maxTotalBytes ∨ restSize limits result members ≤ limits.maxTotalBytes := by
  constructor
  · intro bounded members metadata
    have fits := bounded _ (build_object limits result members metadata)
    split at fits
    · rw [trimmed_size] at fits
      exact .inr fits
    · next small => exact .inl (Nat.le_of_not_lt small)
  · intro fits context built
    cases shape : result.metadata with
    | object members =>
      rw [build_object limits result members shape,Except.ok.injEq] at built
      subst built
      split
      · next large =>
        rw [trimmed_size]
        exact (fits members shape).resolve_left (Nat.not_le_of_lt large)
      · next small =>
        rw [evidence_size]
        exact Nat.le_of_not_lt small
    | null | bool | int | double | string | array =>
      exact absurd built (build_other limits result (by simp [shape]) context)

end TestForge.FailureContext
