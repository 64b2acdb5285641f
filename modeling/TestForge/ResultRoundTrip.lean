import TestForge.JsonAccess
import TestForge.ResultStore
import Mathlib.Data.Multiset.ZeroCons

/-! What a saved result looks like when it is loaded again. -/
namespace TestForge.SqliteResultRepository

open Json Strings Clock

/-- What is left of a value when some of its elements are. -/
def PartOf (part whole : Value) : Prop :=
  match part,whole with
  | .array kept,.array items => kept.Sublist items
  | .object kept,.object members => kept.Sublist members
  | .string kept,.string text => kept <:+: text
  | _,_ => False

/-- Equal to what was saved or, where the cap applied, a part of it that is not empty. -/
def Kept (cap : Nat) (loaded saved : Value) : Prop :=
  loaded = saved ∨ cap < saved.dump.length ∧ loaded.isEmpty = false ∧ PartOf loaded saved

structure Matches (saved loaded : TestResult) : Prop where
  runId : loaded.runId = saved.runId
  testId : loaded.testId = saved.testId
  testName : loaded.testName = saved.testName
  suiteName : loaded.suiteName = saved.suiteName
  status : loaded.status = saved.status
  failureCategory : loaded.failureCategory = saved.failureCategory
  startTime : toEpochMillis loaded.startTime = toEpochMillis saved.startTime
  endTime : toEpochMillis loaded.endTime = toEpochMillis saved.endTime
  duration : loaded.duration = saved.duration
  errorMessage : ∃ limit, loaded.errorMessage = truncate saved.errorMessage limit
  errorDetail : ∃ limit, loaded.errorDetail = truncate saved.errorDetail limit
  logs : Kept 64000 (stringsToJson loaded.logs) (stringsToJson saved.logs)
  tags : loaded.tags = saved.tags
  metadata : Kept 64000 loaded.metadata saved.metadata
  diagnostics : Kept 128000 loaded.diagnostics saved.diagnostics
  attempt : loaded.attempt = saved.attempt
  flakyCandidate : loaded.flakyCandidate = saved.flakyCandidate
  worker : loaded.worker = saved.worker

/-- A document a column holds as a whole and the parser reads back. -/
structure Storable (cap : Nat) (value : Value) : Prop where
  short : value.dump.length ≤ cap
  shallow : value.depth ≤ 64
  faithful : ∀ u ∈ value.subvalues, u.Faithful

structure Fits (result : TestResult) : Prop where
  logs : (dumpStringArray result.logs).length ≤ 64000
  tags : (dumpStringArray result.tags).length ≤ 16 * 1024 * 1024
  metadata : Storable 64000 result.metadata
  diagnostics : Storable 128000 result.diagnostics
  /-- An `int` in the source. -/
  attempt : -2^31 ≤ result.attempt ∧ result.attempt < 2^31

/-! ### Columns -/

theorem parseJsonColumn_eq (text : Bytes) (fallback : Value) :
    parseJsonColumn text fallback = (tryParse {} text).getD fallback := by
  have empty : tryParse {} [] = none := rfl
  rw [parseJsonColumn]
  split
  · next blank => rw [blank,empty]; rfl
  · rfl

theorem capped_long (text : Bytes) (limit : Nat) (roomy : truncationMarker.length < limit)
    (long : limit < text.length) :
    capped text limit = text.take (limit - truncationMarker.length) ++ truncationMarker := by
  rw [capped,if_neg (Nat.not_le.mpr long),truncate,if_neg (Nat.not_le.mpr long),if_neg (Nat.not_le.mpr roomy)]

theorem capped_truncates (text : Bytes) (limit : Nat) : ∃ n, capped text limit = truncate text n := by
  refine ⟨limit,?_⟩
  rw [capped]
  split
  · next short => rw [truncate,if_pos short]
  · rfl

/-- The fallbacks of the readers. -/
def Fallback (fallback : Value) : Prop := fallback = .array [] ∨ fallback = .object []

theorem Fallback.dump_length {fallback : Value} (blank : Fallback fallback) : fallback.dump.length = 2 := by
  rcases blank with rfl | rfl <;> rfl

theorem Fallback.read {fallback : Value} (blank : Fallback fallback) : tryParse {} fallback.dump = some fallback := by
  rcases blank with rfl | rfl <;> rfl

/-- A capped column is no JSON text any more, so that the fallback stands for it. -/
theorem column_lost (cap : Nat) (roomy : truncationMarker.length < cap) (value fallback : Value)
    (long : cap < value.dump.length) : parseJsonColumn (capped value.dump cap) fallback = fallback := by
  rw [parseJsonColumn_eq,capped_long _ _ roomy long,tryParse_marked]
  rfl

theorem column_kept_iff (cap : Nat) (roomy : truncationMarker.length < cap) (room : cap ≤ 16 * 1024 * 1024)
    (value fallback : Value) (blank : Fallback fallback) :
    Kept cap (parseJsonColumn (capped value.dump cap) fallback) value ↔ Storable cap value := by
  by_cases short : value.dump.length ≤ cap
  · have read : parseJsonColumn (capped value.dump cap) fallback = (tryParse {} value.dump).getD fallback := by
      rw [parseJsonColumn_eq,capped,if_pos short]
    have exact_read : (tryParse {} value.dump).getD fallback = value ↔ tryParse {} value.dump = some value := by
      cases parsed : tryParse {} value.dump with
      | some other => simp
      | none =>
        have differs : fallback ≠ value := by
          rintro rfl
          rw [blank.read] at parsed
          cases parsed
        simpa using differs
    have uncapped : ¬cap < value.dump.length := Nat.not_lt.mpr short
    rw [Kept,read,exact_read,tryParse_dump_iff]
    constructor
    · rintro (⟨-,shallow,faithful⟩ | ⟨over_cap,-⟩)
      · exact ⟨short,shallow,faithful⟩
      · exact absurd over_cap uncapped
    · intro storable
      exact .inl ⟨Nat.le_trans short room,storable.shallow,storable.faithful⟩
  · have long : cap < value.dump.length := Nat.not_le.mp short
    rw [column_lost cap roomy value fallback long]
    constructor
    · rintro (rfl | ⟨-,filled,-⟩)
      · rw [blank.dump_length] at long
        have marker : truncationMarker.length = 15 := rfl
        omega
      · rcases blank with rfl | rfl <;> cases filled
    · intro storable
      exact absurd storable.short short

/-! ### Lists of strings -/

theorem strings_storable (items : List Bytes) : (stringsToJson items).depth ≤ 64 ∧
    ∀ u ∈ (stringsToJson items).subvalues, u.Faithful := by
  constructor
  · rw [stringsToJson,Value.depth,Value.itemDepth_le]
    intro item listed
    obtain ⟨text,-,rfl⟩ := List.mem_map.mp listed
    exact Nat.zero_lt_succ _
  · intro u inside
    rcases (Value.subvalues_array _ _).mp inside with rfl | ⟨item,listed,inside⟩
    · trivial
    · obtain ⟨text,-,rfl⟩ := List.mem_map.mp listed
      rw [List.mem_singleton.mp inside]
      trivial

theorem strings_read (items : List Bytes) (short : (dumpStringArray items).length ≤ 16 * 1024 * 1024) :
    tryParse {} (dumpStringArray items) = some (stringsToJson items) :=
  (tryParse_dump_iff {} (stringsToJson items)).mpr ⟨short,strings_storable items⟩

/-- Behind the column is always a list of strings: the saved one or none. -/
theorem parseStringArray_capped (items : List Bytes) (cap : Nat) (roomy : truncationMarker.length < cap)
    (room : cap ≤ 16 * 1024 * 1024) : stringsToJson (parseStringArray (capped (dumpStringArray items) cap)) =
      parseJsonColumn (capped (stringsToJson items).dump cap) (.array []) := by
  by_cases short : (dumpStringArray items).length ≤ cap
  · have column : parseJsonColumn (capped (stringsToJson items).dump cap) (.array []) = stringsToJson items := by
      have whole : capped (stringsToJson items).dump cap = dumpStringArray items := if_pos short
      rw [parseJsonColumn_eq,whole,strings_read items (Nat.le_trans short room)]
      rfl
    rw [parseStringArray,dumpStringArray,column,stringsFromJson_stringsToJson]
  · have column := column_lost cap roomy (stringsToJson items) (.array []) (Nat.not_le.mp short)
    rw [parseStringArray,dumpStringArray,column]
    rfl

theorem logs_kept_iff (items : List Bytes) :
    Kept 64000 (stringsToJson (parseStringArray (capped (dumpStringArray items) 64000))) (stringsToJson items) ↔
      (dumpStringArray items).length ≤ 64000 := by
  rw [parseStringArray_capped items 64000 (by decide) (by decide),
    column_kept_iff 64000 (by decide) (by decide) _ _ (.inl rfl)]
  constructor
  · exact Storable.short
  · intro short
    obtain ⟨shallow,faithful⟩ := strings_storable items
    exact ⟨short,shallow,faithful⟩

theorem tags_kept_iff (items : List Bytes) :
    parseStringArray (dumpStringArray items) = items ↔ (dumpStringArray items).length ≤ 16 * 1024 * 1024 := by
  rw [parseStringArray,parseJsonColumn_eq]
  constructor
  · intro same
    cases parsed : tryParse {} (dumpStringArray items) with
    | none =>
      rw [parsed] at same
      have empty : items = [] := same.symm
      rw [empty]
      decide
    | some value =>
      have document := parsed
      rw [tryParse] at document
      cases read : parse {} (dumpStringArray items) with
      | error failure => rw [read] at document; cases document
      | ok other => exact ((parse_iff _ _ _).mp read).1
  · intro short
    rw [strings_read items short]
    exact stringsFromJson_stringsToJson items

/-! ### Whole results -/

theorem toEpochMillis_fromEpochMillis (millis : Int) : toEpochMillis (fromEpochMillis millis) = millis :=
  Int.mul_tdiv_cancel_left _ (by decide)

/-- The result of a row matches the saved one exactly when the columns hold it. -/
theorem readResultRow_matches_iff (result : TestResult) :
    Matches result (readResultRow (resultRow result)) ↔ Fits result := by
  constructor
  · intro matched
    exact {
      logs := (logs_kept_iff _).mp matched.logs
      tags := (tags_kept_iff _).mp matched.tags
      metadata := (column_kept_iff 64000 (by decide) (by decide) _ _ (.inr rfl)).mp matched.metadata
      diagnostics := (column_kept_iff 128000 (by decide) (by decide) _ _ (.inr rfl)).mp matched.diagnostics
      attempt := (toInt32_eq_iff _).mp matched.attempt }
  · intro fits
    exact {
      runId := rfl
      testId := rfl
      testName := rfl
      suiteName := rfl
      status := by simp [readResultRow,resultRow,TestStatus.fromString_toString]
      failureCategory := by simp [readResultRow,resultRow,FailureCategory.fromString_toString]
      startTime := toEpochMillis_fromEpochMillis _
      endTime := toEpochMillis_fromEpochMillis _
      duration := rfl
      errorMessage := capped_truncates _ _
      errorDetail := capped_truncates _ _
      logs := (logs_kept_iff _).mpr fits.logs
      tags := (tags_kept_iff _).mpr fits.tags
      metadata := (column_kept_iff 64000 (by decide) (by decide) _ _ (.inr rfl)).mpr fits.metadata
      diagnostics := (column_kept_iff 128000 (by decide) (by decide) _ _ (.inr rfl)).mpr fits.diagnostics
      attempt := (toInt32_eq_iff _).mpr fits.attempt
      flakyCandidate := by cases h : result.flakyCandidate <;> simp [readResultRow,resultRow,h]
      worker := rfl }

theorem loadResults_perm (tables : Tables) (runId : Bytes) : (loadResults tables runId).Perm
    ((tables.testResults.filter (·.runId = runId)).map readResultRow) :=
  (List.mergeSort_perm _ _).map _

/-- Loading shows the saved result, as its row tells it, beside what there was. -/
theorem loadResults_saved (tables after : Tables) (result : TestResult)
    (saved : saveResult tables result = some after) : (loadResults after result.runId).Perm
      (readResultRow (resultRow result) :: loadResults tables result.runId) := by
  unfold saveResult at saved
  split at saved
  · simp only [Option.some.injEq] at saved
    subst saved
    refine (loadResults_perm _ _).trans ?_
    have same : (resultRow result).runId = result.runId := rfl
    simp only [List.filter_append,List.map_append]
    refine (List.perm_append_comm).trans ?_
    simpa [same] using ((loadResults_perm tables result.runId).symm)
  · cases saved

/-- What loading shows beside the earlier results matches the saved result. -/
def RoundTrips (tables after : Tables) (result : TestResult) : Prop :=
  ∃ loaded, (loadResults after result.runId).Perm (loaded :: loadResults tables result.runId) ∧
    Matches result loaded

theorem roundTrips_row (tables after : Tables) (result : TestResult)
    (saved : saveResult tables result = some after) :
    RoundTrips tables after result ↔ Matches result (readResultRow (resultRow result)) := by
  have loads := loadResults_saved tables after result saved
  constructor
  · rintro ⟨loaded,found,matched⟩
    have both := Multiset.coe_eq_coe.mpr (found.symm.trans loads)
    rw [← Multiset.cons_coe,← Multiset.cons_coe] at both
    have only : loaded = readResultRow (resultRow result) := (Multiset.cons_inj_left _).mp both
    rwa [only] at matched
  · intro matched
    exact ⟨_,loads,matched⟩

/-- A saved result comes back as promised exactly when no cap applies to its documents
and JSON can tell them. -/
theorem saved_roundTrips_iff (tables after : Tables) (result : TestResult)
    (saved : saveResult tables result = some after) : RoundTrips tables after result ↔ Fits result := by
  rw [roundTrips_row tables after result saved,readResultRow_matches_iff]

/-- A database in which one run has begun. -/
def begun : Tables := beginRun {} { runId := ascii "r" }

def smallResult : TestResult :=
  { runId := ascii "r", logs := [ascii "GET /"], metadata := .object [(ascii "http_status",.int 500)] }

theorem saved_roundTrips_small : ∃ after, saveResult begun smallResult = some after ∧
    RoundTrips begun after smallResult := by
  have saved : saveResult begun smallResult = some { begun with testResults := [resultRow smallResult] } := rfl
  have fits : Fits smallResult := {
    logs := by decide
    tags := by decide
    metadata := ⟨by decide,by decide,by decide⟩
    diagnostics := ⟨by decide,by decide,by decide⟩
    attempt := by decide }
  exact ⟨_,saved,(saved_roundTrips_iff _ _ _ saved).mpr fits⟩

/-- Logs over the cap do not come back at all. -/
theorem logs_lost (result : TestResult) (long : 64000 < (dumpStringArray result.logs).length) :
    (readResultRow (resultRow result)).logs = [] := by
  have lost := column_lost 64000 (by decide) (stringsToJson result.logs) (.array []) long
  exact congrArg (fun column => stringsFromJson (some column)) lost

/-- A result with one log line. -/
def oneLine (line : Bytes) : TestResult := { runId := ascii "r", logs := [line] }

theorem oneLine_length (line : Bytes) (long : 64000 ≤ line.length) :
    64000 < (dumpStringArray (oneLine line).logs).length := by
  have shape : dumpStringArray (oneLine line).logs = 91 :: escape line ++ [93] := rfl
  have size := Value.textSize_ge line
  unfold Value.textSize at size
  rw [shape,List.length_append,List.length_cons]
  omega

/-- A log line of 64000 bytes, and no log comes back. -/
theorem longLine_lost : ∃ after, saveResult begun (oneLine (List.replicate 64000 97)) = some after ∧
    (∀ loaded ∈ loadResults after (ascii "r"), loaded.logs = []) ∧
      ¬RoundTrips begun after (oneLine (List.replicate 64000 97)) := by
  have width : (List.replicate 64000 (97 : UInt8)).length = 64000 := List.length_replicate
  have long := oneLine_length _ (Nat.le_of_eq width.symm)
  clear width
  generalize List.replicate 64000 (97 : UInt8) = line at long ⊢
  refine ⟨_,rfl,?_,?_⟩
  · intro loaded listed
    have known := (loadResults_saved begun _ (oneLine line) rfl).mem_iff.mp listed
    have nothing : loadResults begun (oneLine line).runId = [] := by simp [loadResults,begun,beginRun]
    rw [nothing,List.mem_singleton] at known
    rw [known]
    exact logs_lost _ long
  · rw [roundTrips_row _ _ _ rfl,readResultRow_matches_iff]
    intro fits
    exact absurd fits.logs (Nat.not_le.mpr long)

end TestForge.SqliteResultRepository
