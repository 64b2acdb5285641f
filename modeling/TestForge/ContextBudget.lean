import Mathlib.Algebra.Order.BigOperators.Group.List
import Mathlib.Data.List.Perm.Subperm
import TestForge.AnalysisContext

/-! When the evidence package keeps within its budget, by the sizes of what the result holds. -/
namespace TestForge

open Json Strings

namespace Json.Value

theorem frameSize_subperm {keys others : List Bytes} (among : keys.Subperm others) : frameSize keys ≤ frameSize others := by
  obtain ⟨between,perm,sub⟩ := among
  have number : keys.length ≤ others.length := perm.length_eq ▸ sub.length_le
  have total : (keys.map fun key => textSize key + 1).sum ≤ (others.map fun key => textSize key + 1).sum := by
    rw [← (perm.map _).sum_eq]
    exact (sub.map _).sum_le_sum fun _ _ => Nat.zero_le _
  rw [frameSize,frameSize]
  omega

def sizes (values : List Value) : Nat := (values.map (·.dump.length)).sum

def optionSize (value : Option Value) : Nat := sizes value.toList

@[simp] theorem sizes_append (front back : List Value) : sizes (front ++ back) = sizes front + sizes back := by
  rw [sizes,List.map_append,List.sum_append,sizes,sizes]

theorem sizes_filterMap (find : Bytes → Option Value) (keys : List Bytes) :
    sizes (keys.filterMap find) = (keys.map fun key => optionSize (find key)).sum := by
  induction keys with
  | nil => rfl
  | cons key rest ih => cases known : find key <;> simp_all [optionSize,sizes]

/-- An object of those sections that there are takes their sizes, and at most the frame of all. -/
theorem sections_size (sections : List (Bytes × Option Value)) :
    (sections.map fun entry => optionSize entry.2).sum ≤
      (object (sections.filterMap fun entry => entry.2.map (entry.1,·))).dump.length ∧
    (object (sections.filterMap fun entry => entry.2.map (entry.1,·))).dump.length ≤
      frameSize (sections.map (·.1)) + (sections.map fun entry => optionSize entry.2).sum := by
  have values : ((sections.filterMap fun entry => entry.2.map (entry.1,·)).map fun member => member.2.dump.length).sum =
      (sections.map fun entry => optionSize entry.2).sum := by
    induction sections with
    | nil => rfl
    | cons entry rest ih => cases known : entry.2 <;> simp_all [optionSize,sizes]
  have keys : ((sections.filterMap fun entry => entry.2.map (entry.1,·)).map (·.1)).Sublist (sections.map (·.1)) := by
    clear values
    induction sections with
    | nil => exact .slnil
    | cons entry rest ih =>
      cases known : entry.2 with
      | none => simpa [known] using ih.cons entry.1
      | some value => simpa [known] using ih
  rw [dump_object_length,values]
  exact ⟨Nat.le_add_left _ _,Nat.add_le_add_right (frameSize_subperm keys.subperm) _⟩

end Json.Value

namespace FailureContext

open Value

/-! ### What a result asks for -/

/-- The allowed metadata; of one key the last counts. -/
def allowedMembers (members : List (Bytes × Value)) : List (Bytes × Value) :=
  lastWins (members.filter fun member => member.1 ∈ kAllowedMetadataKeys)

/-- The bytes of all that is copied as it is. -/
def copiedSize (result : TestResult) (members : List (Bytes × Value)) : Nat :=
  textSize result.qualifiedName + textSize result.suiteName + (result.tags.map textSize).sum +
    sizes (copiedMetadata members) + sizes (copiedDiagnostics result.diagnostics)

/-- The most that a text takes which is cut. -/
def cutRoom (text : Bytes) (limit : Nat) : Nat := if text.length ≤ limit then textSize text else 6 * limit + 2

/-- The most that a text takes which is redacted before. -/
def redactedRoom (text : Bytes) (limit : Nat) : Nat :=
  if redactSecrets text = text then cutRoom text limit else 6 * limit + 2

def memberRoom (limits : Limits) (member : Bytes × Value) : Nat :=
  match member.2 with
  | .string text => redactedRoom text (if member.1 = ascii "response_excerpt" then limits.maxResponseExcerpt else 500)
  | _ => 0

/-- Room for what is not copied: the frame, a comma for every tag and every value of the diagnostics, the numbers,
and the texts that are redacted or cut. -/
def room (limits : Limits) (result : TestResult) (members : List (Bytes × Value)) : Nat :=
  1105 + result.tags.length + (copiedDiagnostics result.diagnostics).length + (decimalInt result.duration).length +
    (decimalInt result.attempt).length + redactedRoom result.errorMessage 1000 + cutRoom result.errorMessage 500 +
    ((allowedMembers members).map (memberRoom limits)).sum

/-! ### What the parts take -/

theorem cut_size (text : Bytes) (limit : Nat) : textSize (truncate text limit) ≤ cutRoom text limit := by
  rw [cutRoom]
  split
  · next short => rw [truncate,if_pos short]
  · exact (textSize_le _).trans (by have := truncate_length text limit; omega)

theorem redacted_size (text : Bytes) (limit : Nat) :
    textSize (truncate (redactSecrets text) limit) ≤ redactedRoom text limit := by
  rw [redactedRoom]
  split
  · next fixed =>
    rw [fixed]
    exact cut_size text limit
  · exact (textSize_le _).trans (by have := truncate_length (redactSecrets text) limit; omega)

theorem tags_size (tags : List Bytes) : (tags.map textSize).sum ≤ (stringsToJson tags).dump.length ∧
    (stringsToJson tags).dump.length ≤ (tags.map textSize).sum + tags.length + 2 := by
  have total : (stringsToJson tags).dump.length = (tags.map textSize).sum + (tags.length - 1) + 2 := by
    rw [stringsToJson,dump_array_length,List.map_map,List.length_map]
    rfl
  omega

theorem metadata_size (limits : Limits) (members : List (Bytes × Value)) :
    sizes (copiedMetadata members) ≤ (allowedMetadata limits members).dump.length ∧
    (allowedMetadata limits members).dump.length ≤
      203 + sizes (copiedMetadata members) + ((allowedMembers members).map (memberRoom limits)).sum := by
  have frame : frameSize ((allowedMembers members).map (·.1)) ≤ 203 := by
    have among : ((allowedMembers members).map (·.1)).Subperm kAllowedMetadataKeys := by
      refine (lastWins_keys _).subperm fun key member => ?_
      obtain ⟨kept,listed,rfl⟩ := List.mem_map.mp member
      exact of_decide_eq_true (List.mem_filter.mp (lastWins_subset listed)).2
    exact (frameSize_subperm among).trans (by decide)
  have shape : (allowedMetadata limits members).dump.length = frameSize ((allowedMembers members).map (·.1)) +
      ((allowedMembers members).map fun member => (metadataEvidence limits member).dump.length).sum := by
    rw [allowedMetadata,select_eq,dump_object_length,List.map_map,List.map_map]
    rfl
  have values : ∀ listed : List (Bytes × Value),
      sizes ((listed.map (·.2)).filter fun value => !isString value) ≤
        (listed.map fun member => (metadataEvidence limits member).dump.length).sum ∧
      (listed.map fun member => (metadataEvidence limits member).dump.length).sum ≤
        sizes ((listed.map (·.2)).filter fun value => !isString value) + (listed.map (memberRoom limits)).sum := by
    intro listed
    induction listed with
    | nil => exact ⟨Nat.le_refl _,Nat.le_refl _⟩
    | cons member rest ih =>
      obtain ⟨key,value⟩ := member
      cases value with
      | string text =>
        have cut := redacted_size text (if key = ascii "response_excerpt" then limits.maxResponseExcerpt else 500)
        simp only [List.map_cons,List.sum_cons,metadataEvidence,memberRoom,string_size,isString,asString?,Option.isSome_some,
          Bool.not_true,List.filter_cons,Bool.false_eq_true,if_false] at ih ⊢
        omega
      | null | bool | int | double | array | object =>
        simp only [List.map_cons,List.sum_cons,metadataEvidence,memberRoom,isString,asString?,Option.isSome_none,
          Bool.not_false,List.filter_cons,if_true,sizes] at ih ⊢
        omega
  have bounds := values (allowedMembers members)
  rw [shape]
  exact ⟨bounds.1.trans (Nat.le_add_left _ _),by have := bounds.2; unfold copiedMetadata; unfold allowedMembers at *; omega⟩

theorem found_size (keys : List Bytes) (distinct : keys.Nodup) (source : Option Value) :
    sizes (found keys source) ≤ optionSize (source.map (pick keys)) ∧
    optionSize (source.map (pick keys)) ≤ frameSize keys + sizes (found keys source) := by
  cases source with
  | none => exact ⟨Nat.le_refl _,Nat.zero_le _⟩
  | some source =>
    have bounds := sections_size (keys.map fun key => (key,source.find key))
    rw [List.filterMap_map,List.map_map,List.map_map] at bounds
    have values : sizes (found keys (some source)) = (keys.map fun key => optionSize (source.find key)).sum := by
      rw [← sizes_filterMap,found,Option.toList_some,List.flatMap_singleton]
    have object : optionSize ((some source).map (pick keys)) =
        (object (keys.filterMap fun key => (source.find key).map (key,·))).dump.length := by
      rw [Option.map_some,pick_eq keys source distinct,optionSize,Option.toList_some,sizes,List.map_singleton,
        List.sum_singleton]
    rw [values,object]
    simpa [Function.comp_def] using bounds

theorem items_size (items : Option (List Value)) : sizes (items.getD []) ≤ optionSize (items.map .array) ∧
    optionSize (items.map .array) ≤ sizes (items.getD []) + (items.getD []).length + 2 := by
  cases items with
  | none => exact ⟨Nat.le_refl _,Nat.zero_le _⟩
  | some items =>
    have total : optionSize ((some items).map .array) = sizes items + (items.length - 1) + 2 := by
      rw [Option.map_some,optionSize,Option.toList_some,sizes,List.map_singleton,List.sum_singleton,dump_array_length]
      rfl
    rw [total,Option.getD_some]
    omega

theorem diagnostics_size (diagnostics : Value) :
    sizes (copiedDiagnostics diagnostics) ≤ (distillDiagnostics diagnostics).dump.length ∧
    (distillDiagnostics diagnostics).dump.length ≤
      338 + sizes (copiedDiagnostics diagnostics) + (copiedDiagnostics diagnostics).length := by
  cases empty : diagnostics.isEmpty with
  | true =>
    have shape : (distillDiagnostics diagnostics).dump.length = 2 := by
      simp only [distillDiagnostics,empty,if_true]
      rfl
    rw [copiedDiagnostics,if_pos empty,shape]
    exact ⟨Nat.zero_le _,by simp [sizes]⟩
  | false =>
    have os := found_size osKeys (by decide) (diagnostics.path (ascii "system.os"))
    have cpu := found_size cpuKeys (by decide) (diagnostics.path (ascii "system.cpu"))
    have memory := found_size memoryKeys (by decide) (diagnostics.path (ascii "system.memory"))
    have gpu := found_size gpuKeys (by decide) (diagnostics.find (ascii "gpu"))
    have disks := items_size (tightDisks diagnostics)
    have lines := items_size (recentSystemLogs diagnostics)
    have frames : frameSize osKeys = 71 ∧ frameSize cpuKeys = 60 ∧ frameSize memoryKeys = 45 ∧ frameSize gpuKeys = 81 := by
      decide
    have outer : frameSize [ascii "os",ascii "cpu",ascii "memory",ascii "disks_under_pressure",ascii "gpu",
        ascii "recent_system_logs"] = 77 := by decide
    rw [distillDiagnostics_eq diagnostics empty,copiedDiagnostics,empty]
    have bounds := sections_size [
      (ascii "os",(diagnostics.path (ascii "system.os")).map (pick osKeys)),
      (ascii "cpu",(diagnostics.path (ascii "system.cpu")).map (pick cpuKeys)),
      (ascii "memory",(diagnostics.path (ascii "system.memory")).map (pick memoryKeys)),
      (ascii "disks_under_pressure",(tightDisks diagnostics).map .array),
      (ascii "gpu",(diagnostics.find (ascii "gpu")).map (pick gpuKeys)),
      (ascii "recent_system_logs",(recentSystemLogs diagnostics).map .array)]
    simp only [List.map_cons,List.map_nil,List.sum_cons,List.sum_nil,outer] at bounds
    simp only [Bool.false_eq_true,if_false,sizes_append,List.length_append]
    omega

/-- Status, category and its explanation. -/
theorem labels_size (status : TestStatus) (category : FailureCategory) :
    textSize status.toString + textSize category.toString + textSize (FailureClassifier.explain category) ≤ 155 := by
  have first : textSize status.toString ≤ 9 := by cases status <;> decide
  have second : textSize category.toString + textSize (FailureClassifier.explain category) ≤ 146 := by
    cases category <;> decide +kernel
  omega

/-! ### The bound -/

theorem copied_le_kept (limits : Limits) (result : TestResult) (members : List (Bytes × Value)) :
    copiedSize result members ≤ keptSize limits result members := by
  have tags := tags_size result.tags
  have metadata := metadata_size limits members
  have diagnostics := diagnostics_size result.diagnostics
  rw [copiedSize,keptSize]
  omega

theorem rest_le_room (limits : Limits) (result : TestResult) (members : List (Bytes × Value)) :
    restSize limits result members ≤ copiedSize result members + room limits result members := by
  have tags := tags_size result.tags
  have metadata := metadata_size limits members
  have diagnostics := diagnostics_size result.diagnostics
  have labels := labels_size result.status result.failureCategory
  have message := redacted_size result.errorMessage 1000
  have short := cut_size result.errorMessage 500
  rw [restSize,keptSize,copiedSize,room]
  omega

/-- A failure with an excerpt of the response, metadata that is no text and one process-wide diagnostic. -/
def shortFailure : TestResult where
  testName := ascii "lists"
  suiteName := ascii "users"
  status := .failed
  failureCategory := .assertionFailure
  errorMessage := ascii "expected 200"
  tags := [ascii "smoke"]
  metadata := .object [(ascii "http_status",.int 500),(ascii "response_excerpt",.string (ascii "oops"))]
  diagnostics := .object [(ascii "gpu",.object [(ascii "available",.bool false)])]

end FailureContext
end TestForge
