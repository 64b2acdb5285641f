import TestForge.FailureContextSize

/-! The request for an analysis: what of a failing result and of its history reaches
the model, and what of that has been redacted. -/
namespace TestForge

open Json Strings

structure TestHistoryEntry where
  runId : Bytes
  status : TestStatus
  failureCategory : FailureCategory
  startTime : TimePoint
  duration : Int
  errorMessage : Bytes

def TestHistoryEntry.toJson (entry : TestHistoryEntry) : Value := Value.objectOf [
  (ascii "run_id",.string entry.runId),
  (ascii "status",.string entry.status.toString),
  (ascii "failure_category",.string entry.failureCategory.toString),
  (ascii "start_time",.string (Clock.toIso8601 entry.startTime)),
  (ascii "duration_ms",.int entry.duration),
  (ascii "error_message",.string entry.errorMessage)]

namespace TestForgeService

structure AnalysisRequest where
  context : Value
  testName : Bytes
  failureCategory : Bytes

/-- What the service does with a result: it refuses, or hands a request to the provider. -/
inductive Analysis where
  | refused (message code : Bytes)
  | handed (request : AnalysisRequest)

/-- The history that a repository has of a test, at most so many entries. -/
abbrev History := Bytes → Nat → List TestHistoryEntry

def historyContext (repository : Option History) (result : TestResult) (context : Value) : Value :=
  match repository with
  | some testHistory =>
    FailureContext.withHistory context (.array ((testHistory result.testId 10).map TestHistoryEntry.toJson))
  | none => context

def analyseResult (provider : Bool) (repository : Option History) (result : TestResult) : Except Bytes Analysis :=
  if !provider then .ok (.refused (ascii "no AI provider is configured") (ascii "AI_UNAVAILABLE"))
  else if !result.status.isFailure then
    .ok (.refused (ascii "only failing results can be analysed") (ascii "INVALID_REQUEST"))
  else do
    let context ← FailureContext.build {} result
    .ok (.handed ⟨historyContext repository result context,result.qualifiedName,result.failureCategory.toString⟩)

end TestForgeService

namespace FailureContext

open Value

/-- What redaction makes of some text, perhaps cut. -/
def Redacted (text : Bytes) : Prop :=
  ∃ source, text = redactSecrets source ∨ ∃ n, text = truncate (redactSecrets source) n

theorem redacted_fixed {text : Bytes} (fixed : redactSecrets text = text) : Redacted text := ⟨text,.inl fixed.symm⟩

theorem redacted_truncate (source : Bytes) (n : Nat) : Redacted (truncate (redactSecrets source) n) :=
  ⟨source,.inr ⟨n,rfl⟩⟩

theorem truncate_cases (text : Bytes) (n : Nat) : truncate text n = text ∨
    (truncate text n).length ≤ truncationMarker.length ∨ truncationMarker <:+ truncate text n := by
  unfold truncate
  split
  · exact .inl rfl
  split
  · next short =>
    rw [List.length_take]
    exact .inr (.inl ((Nat.min_le_left _ _).trans short))
  · exact .inr (.inr (List.suffix_append _ _))

/-- A text that is too long for a bare cut and does not end in the marker is redacted
exactly when redaction leaves it as it is. -/
theorem redacted_iff {text : Bytes} (long : truncationMarker.length < text.length)
    (whole : ¬truncationMarker <:+ text) : Redacted text ↔ redactSecrets text = text := by
  refine ⟨?_,redacted_fixed⟩
  rintro ⟨source,same | ⟨n,same⟩⟩
  · rw [same]
    exact redactSecrets_idempotent source
  · rcases truncate_cases (redactSecrets source) n with uncut | short | marked
    · rw [same,uncut]
      exact redactSecrets_idempotent source
    · rw [← same] at short
      exact absurd long (Nat.not_lt_of_le short)
    · rw [← same] at marked
      exact absurd marked whole

/-! ### Texts that are copied -/

def found (keys : List Bytes) (source : Option Value) : List Value :=
  source.toList.flatMap fun value => keys.filterMap value.find

/-- The values of the diagnostics that go into the document. -/
def copiedDiagnostics (diagnostics : Value) : List Value :=
  if diagnostics.isEmpty then []
  else
    found osKeys (diagnostics.path (ascii "system.os")) ++ found cpuKeys (diagnostics.path (ascii "system.cpu")) ++
      found memoryKeys (diagnostics.path (ascii "system.memory")) ++ (tightDisks diagnostics).getD [] ++
      found gpuKeys (diagnostics.find (ascii "gpu")) ++ (recentSystemLogs diagnostics).getD []

def isString (value : Value) : Bool := value.asString?.isSome

/-- The values of allowed metadata that are no text; of one key the last counts. -/
def copiedMetadata (members : List (Bytes × Value)) : List Value :=
  ((lastWins (members.filter fun member => member.1 ∈ kAllowedMetadataKeys)).map (·.2)).filter fun value => !isString value

/-- Every text that reaches the document without redaction. -/
def copiedTexts (result : TestResult) (members : List (Bytes × Value)) (history : List TestHistoryEntry) : List Bytes :=
  result.qualifiedName :: result.suiteName :: (result.tags ++
    (copiedMetadata members ++ copiedDiagnostics result.diagnostics).flatMap texts ++
    history.flatMap fun entry => [entry.runId,entry.errorMessage])

/-! ### Redaction over a document -/

def AllRedacted (value : Value) : Prop := ∀ text ∈ value.texts, Redacted text

@[simp] theorem allRedacted_string (text : Bytes) : AllRedacted (.string text) ↔ Redacted text := by
  simp [AllRedacted]

@[simp] theorem allRedacted_int (z : Int) : AllRedacted (.int z) := by simp [AllRedacted]
@[simp] theorem allRedacted_bool (b : Bool) : AllRedacted (.bool b) := by simp [AllRedacted]

@[simp] theorem allRedacted_array (items : List Value) :
    AllRedacted (.array items) ↔ ∀ item ∈ items, AllRedacted item := by
  simp only [AllRedacted,mem_texts_array]
  constructor
  · exact fun all item member text inside => all text ⟨item,member,inside⟩
  · rintro all text ⟨item,member,inside⟩
    exact all item member text inside

@[simp] theorem allRedacted_object (members : List (Bytes × Value)) :
    AllRedacted (.object members) ↔ ∀ member ∈ members, AllRedacted member.2 := by
  simp only [AllRedacted,mem_texts_object]
  constructor
  · exact fun all item member text inside => all text ⟨item,member,inside⟩
  · rintro all text ⟨item,member,inside⟩
    exact all item member text inside

@[simp] theorem allRedacted_strings (items : List Bytes) :
    AllRedacted (stringsToJson items) ↔ ∀ item ∈ items, Redacted item := by
  simp [stringsToJson]

/-! ### Texts of the source itself -/

/-- A text without a key, `bearer` or the start of a token. -/
def Harmless (text : Bytes) : Prop :=
  (∀ key ∈ ascii "bearer " :: kKeys, ¬key <:+: toLower text) ∧ ∀ start ∈ kPrefixes, ¬start <:+: text

instance (text : Bytes) : Decidable (Harmless text) := inferInstanceAs (Decidable (_ ∧ _))

theorem Harmless.redacted {text : Bytes} (harmless : Harmless text) : Redacted text :=
  redacted_fixed (redactSecrets_clear harmless.1 harmless.2)

/-- Whether one of the keys stands in a text, decided on the numbers of their bytes. -/
def anyOccurs (keys : List Bytes) (text : Bytes) : Bool :=
  let codes := keys.map (·.map UInt8.toNat)
  (text.map UInt8.toNat).tails.any fun rest => codes.any (·.isPrefixOf rest)

theorem not_infix_of_anyOccurs {keys : List Bytes} {text : Bytes} (none : anyOccurs keys text = false) :
    ∀ key ∈ keys, ¬key <:+: text := by
  intro key listed inside
  obtain ⟨rest,begins,ends⟩ := List.infix_iff_prefix_suffix.mp (inside.map UInt8.toNat)
  simp only [anyOccurs,List.any_eq_false,List.mem_tails] at none
  exact none rest ends
    (List.any_eq_true.mpr ⟨_,List.mem_map_of_mem listed,List.isPrefixOf_iff_prefix.mpr begins⟩)

theorem Harmless.of_codes {text : Bytes} (keys : anyOccurs (ascii "bearer " :: kKeys) (toLower text) = false)
    (starts : anyOccurs kPrefixes text = false) : Harmless text :=
  ⟨not_infix_of_anyOccurs keys,not_infix_of_anyOccurs starts⟩

@[simp] theorem status_redacted (status : TestStatus) : Redacted status.toString := by
  refine (Harmless.of_codes ?_ ?_).redacted <;> cases status <;>
    simp only [TestStatus.toString,kKeys,kPrefixes,ascii_eq_literalBytes] <;> decide

@[simp] theorem category_redacted (category : FailureCategory) : Redacted category.toString := by
  refine (Harmless.of_codes ?_ ?_).redacted <;> cases category <;>
    simp only [FailureCategory.toString,kKeys,kPrefixes,ascii_eq_literalBytes] <;> decide

@[simp] theorem explain_redacted (category : FailureCategory) :
    Redacted (FailureClassifier.explain category) := by
  refine (Harmless.of_codes ?_ ?_).redacted <;> cases category <;>
    simp only [FailureClassifier.explain,kKeys,kPrefixes,ascii_eq_literalBytes] <;> decide

@[simp] theorem truncationNote_redacted : Redacted truncationNote := by
  refine (Harmless.of_codes ?_ ?_).redacted <;>
    simp only [truncationNote,kKeys,kPrefixes,ascii_eq_literalBytes] <;> decide

@[simp] theorem contentType_redacted : Redacted (ascii "testforge.failure_context") :=
  Harmless.redacted (by decide)
@[simp] theorem trustLevel_redacted : Redacted (ascii "untrusted_data") := Harmless.redacted (by decide)

/-! ### Times -/

open Clock (isClockByte toIso8601_clock)

theorem clockByte_lowered (c : UInt8) (clock : isClockByte c = true) (letter : isAlpha (lowerAscii c) = true) :
    lowerAscii c = 116 ∨ lowerAscii c = 122 := by
  simp only [isClockByte,isDigit,Bool.or_eq_true,Bool.and_eq_true,decide_eq_true_eq,beq_iff_eq] at clock
  rcases clock with ((((digit | rfl) | rfl) | rfl) | rfl) | rfl
  · simp only [isAlpha,lowerAscii,Bool.or_eq_true,Bool.and_eq_true] at letter
    grind
  · cases letter
  · cases letter
  · cases letter
  · exact .inl rfl
  · exact .inr rfl

theorem clockByte_letter (c : UInt8) (clock : isClockByte c = true) (letter : isAlpha c = true) : c = 84 ∨ c = 90 := by
  simp only [isClockByte,isDigit,Bool.or_eq_true,Bool.and_eq_true,decide_eq_true_eq,beq_iff_eq] at clock
  rcases clock with ((((digit | rfl) | rfl) | rfl) | time) | zone
  · simp only [isAlpha,Bool.or_eq_true,Bool.and_eq_true,decide_eq_true_eq] at letter
    grind
  · cases letter
  · cases letter
  · cases letter
  · exact .inl time
  · exact .inr zone

theorem keys_foreign : ∀ key ∈ ascii "bearer " :: kKeys, ∃ c ∈ key, isAlpha c = true ∧ c ≠ 116 ∧ c ≠ 122 := by
  decide

theorem starts_foreign : ∀ start ∈ kPrefixes, ∃ c ∈ start, isAlpha c = true ∧ c ≠ 84 ∧ c ≠ 90 := by decide

/-- No key and no token is written in digits, signs, `T` and `Z` alone. -/
theorem clock_harmless {text : Bytes} (clock : ∀ c ∈ text, isClockByte c = true) : Harmless text := by
  constructor
  · intro key member inside
    obtain ⟨c,known,letter,notT,notZ⟩ := keys_foreign key member
    obtain ⟨x,listed,rfl⟩ := List.mem_map.mp (inside.subset known)
    exact (clockByte_lowered x (clock x listed) letter).elim notT notZ
  · intro start member inside
    obtain ⟨c,known,letter,notT,notZ⟩ := starts_foreign start member
    exact (clockByte_letter c (clock c (inside.subset known)) letter).elim notT notZ

theorem clock_redacted (instant : TimePoint) : Redacted (Clock.toIso8601 instant) :=
  (clock_harmless (toIso8601_clock instant)).redacted

/-! ### The parts of the document -/

theorem metadata_redacted (limits : Limits) (members : List (Bytes × Value)) :
    AllRedacted (allowedMetadata limits members) ↔ ∀ value ∈ copiedMetadata members, AllRedacted value := by
  rw [allowedMetadata,select_eq,allRedacted_object]
  have one (member : Bytes × Value) : AllRedacted (metadataEvidence limits member) ↔
      (!isString member.2) = true → AllRedacted member.2 := by
    obtain ⟨key,value⟩ := member
    cases value <;> simp [metadataEvidence,isString,asString?,redacted_truncate]
  simp only [copiedMetadata,List.mem_map,List.mem_filter,forall_exists_index,and_imp,forall_apply_eq_imp_iff₂,one]

theorem pick_redacted (keys : List Bytes) (distinct : keys.Nodup) (source : Option Value) :
    (∀ value ∈ source.map (pick keys), AllRedacted value) ↔ ∀ copied ∈ found keys source, AllRedacted copied := by
  cases source with
  | none => simp [found]
  | some source =>
    simp only [Option.map_some,Option.mem_def,Option.some.injEq,forall_eq',pick_eq keys source distinct,
      allRedacted_object,found,Option.toList_some,List.flatMap_singleton,List.mem_filterMap]
    constructor
    · rintro all copied ⟨key,member,known⟩
      exact all (key,copied) ⟨key,member,by simp [known]⟩
    · rintro all entry ⟨key,member,known⟩
      obtain ⟨copied,located,rfl⟩ := Option.map_eq_some_iff.mp known
      exact all copied ⟨key,member,located⟩

theorem array_redacted (items : Option (List Value)) :
    (∀ value ∈ items.map Value.array, AllRedacted value) ↔ ∀ copied ∈ items.getD [], AllRedacted copied := by
  cases items <;> simp

theorem sections_redacted (sections : List (Bytes × Option Value)) :
    AllRedacted (.object (sections.filterMap fun entry => entry.2.map (entry.1,·))) ↔
      ∀ entry ∈ sections, ∀ value ∈ entry.2, AllRedacted value := by
  simp only [allRedacted_object,List.mem_filterMap]
  constructor
  · intro all entry member value known
    exact all (entry.1,value) ⟨entry,member,by rw [Option.mem_def.mp known]; rfl⟩
  · rintro all member ⟨entry,listed,known⟩
    obtain ⟨value,located,rfl⟩ := Option.map_eq_some_iff.mp known
    exact all entry listed value located

theorem distillDiagnostics_eq (diagnostics : Value) (filled : diagnostics.isEmpty = false) :
    distillDiagnostics diagnostics = .object ([
      (ascii "os",(diagnostics.path (ascii "system.os")).map (pick osKeys)),
      (ascii "cpu",(diagnostics.path (ascii "system.cpu")).map (pick cpuKeys)),
      (ascii "memory",(diagnostics.path (ascii "system.memory")).map (pick memoryKeys)),
      (ascii "disks_under_pressure",(tightDisks diagnostics).map .array),
      (ascii "gpu",(diagnostics.find (ascii "gpu")).map (pick gpuKeys)),
      (ascii "recent_system_logs",(recentSystemLogs diagnostics).map .array)].filterMap fun entry =>
        entry.2.map (entry.1,·)) := by
  rw [← foldl_setSome _ (by simp only [List.map_cons,List.map_nil]; decide),distillDiagnostics]
  dsimp only
  rw [filled]
  rfl

theorem diagnostics_redacted (diagnostics : Value) : AllRedacted (distillDiagnostics diagnostics) ↔
    ∀ value ∈ copiedDiagnostics diagnostics, AllRedacted value := by
  cases empty : diagnostics.isEmpty with
  | true => simp [distillDiagnostics,copiedDiagnostics,empty]
  | false =>
    rw [distillDiagnostics_eq diagnostics empty,sections_redacted]
    simp only [List.forall_mem_cons,List.not_mem_nil,false_implies,implies_true,and_true,
      pick_redacted osKeys (by decide),pick_redacted cpuKeys (by decide),
      pick_redacted memoryKeys (by decide),pick_redacted gpuKeys (by decide),array_redacted,
      copiedDiagnostics,empty,Bool.false_eq_true,if_false,List.forall_mem_append,and_assoc]

theorem evidence_redacted (limits : Limits) (result : TestResult) (members : List (Bytes × Value)) (detail : Bytes)
    (logs : List Bytes) (logs_redacted : ∀ line ∈ logs, Redacted line) :
    AllRedacted (.object (evidenceMembers limits result members detail logs)) ↔
      Redacted result.qualifiedName ∧ Redacted result.suiteName ∧ (∀ tag ∈ result.tags, Redacted tag) ∧
        Redacted detail ∧ (∀ value ∈ copiedMetadata members, AllRedacted value) ∧
        ∀ value ∈ copiedDiagnostics result.diagnostics, AllRedacted value := by
  have logs_all : (∀ line ∈ logs, Redacted line) ↔ True := iff_true_intro logs_redacted
  simp only [evidenceMembers,outcomeMembers,allRedacted_object,List.forall_mem_cons,List.not_mem_nil,false_implies,
    implies_true,and_true,true_and,allRedacted_string,allRedacted_int,allRedacted_strings,contentType_redacted,
    trustLevel_redacted,status_redacted,category_redacted,explain_redacted,redacted_truncate,metadata_redacted,
    diagnostics_redacted,logs_all,and_assoc]

theorem entry_redacted (entry : TestHistoryEntry) :
    AllRedacted entry.toJson ↔ Redacted entry.runId ∧ Redacted entry.errorMessage := by
  rw [TestHistoryEntry.toJson,objectOf_distinct _ (by simp only [List.map_cons,List.map_nil]; decide)]
  simp only [allRedacted_object,List.forall_mem_cons,List.not_mem_nil,false_implies,implies_true,and_true,true_and,
    allRedacted_string,allRedacted_int,status_redacted,category_redacted,clock_redacted]

theorem logTail_redacted (limits : Limits) (logs : List Bytes) : ∀ line ∈ logTail limits logs, Redacted line := by
  intro line member
  obtain ⟨source,-,rfl⟩ := List.mem_map.mp member
  exact redacted_truncate source _

/-! ### The whole request -/

def historyOf (repository : Option TestForgeService.History) (result : TestResult) : List TestHistoryEntry :=
  match repository with
  | some testHistory => testHistory result.testId 10
  | none => []

theorem history_redacted (repository : Option TestForgeService.History) (result : TestResult)
    (members : List (Bytes × Value)) (fresh : ascii "history" ∉ members.map (·.1)) :
    AllRedacted (TestForgeService.historyContext repository result (.object members)) ↔
      AllRedacted (.object members) ∧
        ∀ entry ∈ historyOf repository result, Redacted entry.runId ∧ Redacted entry.errorMessage := by
  cases repository with
  | none => simp [TestForgeService.historyContext,historyOf]
  | some testHistory =>
    simp only [TestForgeService.historyContext,withHistory,historyOf]
    rw [set_fresh _ _ _ fresh]
    simp only [allRedacted_object,List.forall_mem_append,List.forall_mem_singleton,allRedacted_array,
      List.forall_mem_map,entry_redacted]

theorem copiedTexts_redacted (result : TestResult) (members : List (Bytes × Value)) (history : List TestHistoryEntry) :
    (∀ text ∈ copiedTexts result members history, Redacted text) ↔
      (Redacted result.qualifiedName ∧ Redacted result.suiteName ∧ (∀ tag ∈ result.tags, Redacted tag) ∧
        (∀ value ∈ copiedMetadata members, AllRedacted value) ∧
        ∀ value ∈ copiedDiagnostics result.diagnostics, AllRedacted value) ∧
      ∀ entry ∈ history, Redacted entry.runId ∧ Redacted entry.errorMessage := by
  have values (items : List Value) : (∀ text ∈ items.flatMap texts, Redacted text) ↔
      ∀ item ∈ items, AllRedacted item := by
    simp only [List.mem_flatMap,AllRedacted,forall_exists_index,and_imp]
    exact ⟨fun all item member text inside => all text item member inside,
      fun all text item member inside => all item member text inside⟩
  have entries : (∀ text ∈ history.flatMap fun entry => [entry.runId,entry.errorMessage], Redacted text) ↔
      ∀ entry ∈ history, Redacted entry.runId ∧ Redacted entry.errorMessage := by
    simp only [List.mem_flatMap,forall_exists_index,and_imp,List.mem_cons,List.not_mem_nil,or_false]
    exact ⟨fun all entry member => ⟨all _ entry member (.inl rfl),all _ entry member (.inr rfl)⟩,
      fun all text entry member shape => shape.elim (fun same => same ▸ (all entry member).1)
        fun same => same ▸ (all entry member).2⟩
  simp only [copiedTexts,List.forall_mem_cons,List.forall_mem_append,values,entries,and_assoc]

theorem evidence_fresh (limits : Limits) (result : TestResult) (members : List (Bytes × Value)) (detail : Bytes)
    (logs : List Bytes) :
    ascii "history" ∉ (evidenceMembers limits result members detail logs ++ guardMembers).map (·.1) := by
  simp only [evidenceMembers,guardMembers,List.cons_append,List.nil_append,List.map_cons,List.map_nil]
  decide

theorem small_redacted (limits : Limits) (repository : Option TestForgeService.History) (result : TestResult)
    (members : List (Bytes × Value)) :
    AllRedacted (TestForgeService.historyContext repository result (evidence limits result members)) ↔
      ∀ text ∈ copiedTexts result members (historyOf repository result), Redacted text := by
  have fresh := evidence_fresh limits result members
    (truncate (redactSecrets result.errorDetail) limits.maxErrorDetail) (logTail limits result.logs)
  rw [List.map_append,List.mem_append,not_or] at fresh
  rw [evidence_eq,history_redacted _ _ _ fresh.1,evidence_redacted _ _ _ _ _ (logTail_redacted _ _),
    copiedTexts_redacted,and_iff_right (redacted_truncate result.errorDetail limits.maxErrorDetail)]

theorem large_redacted (limits : Limits) (repository : Option TestForgeService.History) (result : TestResult)
    (members : List (Bytes × Value)) :
    AllRedacted (TestForgeService.historyContext repository result
      (trimmed (evidence limits result members) result.errorMessage)) ↔
      (∀ text ∈ copiedTexts result members (historyOf repository result), Redacted text) ∧
        Redacted (truncate result.errorMessage 500) := by
  have guard : AllRedacted (.object guardMembers) := by simp [guardMembers]
  have split := allRedacted_object
    (evidenceMembers limits result members (truncate result.errorMessage 500) [] ++ guardMembers)
  rw [List.forall_mem_append,← allRedacted_object,← allRedacted_object,and_iff_left guard,
    evidence_redacted _ _ _ _ _ (by simp)] at split
  rw [trimmed_eq,history_redacted _ _ _ (evidence_fresh _ _ _ _ _),split,copiedTexts_redacted]
  constructor
  · rintro ⟨⟨name,suite,tags,message,values⟩,entries⟩
    exact ⟨⟨⟨name,suite,tags,values⟩,entries⟩,message⟩
  · rintro ⟨⟨⟨name,suite,tags,values⟩,entries⟩,message⟩
    exact ⟨⟨name,suite,tags,message,values⟩,entries⟩

theorem analyseResult_built (repository : Option TestForgeService.History) {result : TestResult} {context : Value}
    (failing : result.status.isFailure = true) (built : build {} result = .ok context) :
    TestForgeService.analyseResult true repository result = .ok (.handed
      ⟨TestForgeService.historyContext repository result context,result.qualifiedName,
        result.failureCategory.toString⟩) := by
  simp only [TestForgeService.analyseResult,failing,built,bind,Except.bind]
  rfl

/-- Only a failing result with an object for metadata is handed over. -/
theorem analyseResult_handed {repository : Option TestForgeService.History} {result : TestResult}
    {request : TestForgeService.AnalysisRequest}
    (handed : TestForgeService.analyseResult true repository result = .ok (.handed request)) :
    result.status.isFailure = true ∧ ∃ members, result.metadata = .object members := by
  cases failing : result.status.isFailure with
  | false => simp [TestForgeService.analyseResult,failing] at handed
  | true =>
    refine ⟨rfl,?_⟩
    cases shape : result.metadata with
    | object members => exact ⟨members,rfl⟩
    | null | bool | int | double | string | array =>
      simp [TestForgeService.analyseResult,failing,build,shape,asObject,bind,Except.bind] at handed

/-- Every text of the document that is handed to the provider is redacted exactly when
the texts that are copied into it are, and, where the document is over the budget, the
cut message that the guard puts in place of the detail. -/
theorem analysis_redacted_iff (repository : Option TestForgeService.History) (result : TestResult) :
    (∀ request, TestForgeService.analyseResult true repository result = .ok (.handed request) →
      ∀ text ∈ request.context.texts, Redacted text) ↔
    (result.status.isFailure = true → ∀ members, result.metadata = .object members →
      (∀ text ∈ copiedTexts result members (historyOf repository result), Redacted text) ∧
      (24 * 1024 < wholeSize {} result members → Redacted (truncate result.errorMessage 500))) := by
  constructor
  · intro redacted failing members metadata
    have all := redacted _ (analyseResult_built repository failing (build_object {} result members metadata))
    by_cases large : 24 * 1024 < wholeSize {} result members
    · rw [if_pos large] at all
      obtain ⟨copied,message⟩ := (large_redacted {} repository result members).mp all
      exact ⟨copied,fun _ => message⟩
    · rw [if_neg large] at all
      exact ⟨(small_redacted {} repository result members).mp all,fun given => absurd given large⟩
  · intro copied request handed
    obtain ⟨failing,members,metadata⟩ := analyseResult_handed handed
    obtain ⟨texts,message⟩ := copied failing members metadata
    rw [analyseResult_built repository failing (build_object {} result members metadata)] at handed
    obtain rfl := TestForgeService.Analysis.handed.inj (Except.ok.inj handed)
    by_cases large : 24 * 1024 < wholeSize {} result members
    · rw [if_pos large]
      exact (large_redacted {} repository result members).mpr ⟨texts,message large⟩
    · rw [if_neg large]
      exact (small_redacted {} repository result members).mpr texts

/-- A test name reaches the document as it is. -/
theorem testName_leaks : ¬∀ (repository : Option TestForgeService.History) (result : TestResult)
    (request : TestForgeService.AnalysisRequest),
    TestForgeService.analyseResult true repository result = .ok (.handed request) →
      ∀ text ∈ request.context.texts, Redacted text := by
  intro redacted
  let result : TestResult := { testName := ascii "login password=hunter2",status := .failed }
  have all := redacted none result _ (analyseResult_built none rfl (build_object {} result [] rfl))
  have name : Redacted (ascii "login password=hunter2") := by
    split at all
    · exact ((large_redacted {} none result []).mp all).1 _ (List.mem_cons_self)
    · exact (small_redacted {} none result []).mp all _ (List.mem_cons_self)
  rw [redacted_iff (by decide) (by decide)] at name
  revert name
  decide

end FailureContext
end TestForge
