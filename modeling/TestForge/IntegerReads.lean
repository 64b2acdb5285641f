import TestForge.Config
import TestForge.DoubleRange
import TestForge.SpecVerdict
import TestForge.TestSpecJson

/-! Every place that reads integers from a document with `asInt`, `intOr` or `intAt`, the
doubles it converts there, and the literals of the text that these come from. -/
namespace TestForge

open Json Strings

/-! ### The conversions -/

namespace Json.Value

/-- A member that is read with `asInt` behind `isNumber`. -/
def numberConversion (value : Value) (key : Bytes) : List Double :=
  match value.find key with
  | some found => if found.isNumber then found.conversion else []
  | none => []

def intAtConversion (value : Value) (dotted : Bytes) : List Double :=
  match value.path dotted with
  | some found => found.conversion
  | none => []

end Json.Value

namespace Settings.Config

/-- The sections with the members that `readInt` and `readIntNarrow` are called for. -/
def integerKeys : List (Bytes × List Bytes) := [
  (ascii "execution",[ascii "workers",ascii "default_timeout_ms",ascii "cancellation_grace_ms",ascii "retry_failed",
    ascii "shuffle_seed"]),
  (ascii "database",[ascii "retention_days",ascii "busy_timeout_ms"]),
  (ascii "api",[ascii "timeout_ms",ascii "sla_ms"]),
  (ascii "ai",[ascii "timeout_ms",ascii "max_generated_tests",ascii "max_response_bytes"]),
  (ascii "diagnostics",[ascii "top_process_count",ascii "command_timeout_ms"]),
  (ascii "server",[ascii "port",ascii "workers",ascii "max_request_bytes",ascii "max_pending_connections"])]

def sectionConversions (root : Value) (name : Bytes) (keys : List Bytes) : List Double :=
  match sectionOf root name with
  | some obj => keys.flatMap obj.numberConversion
  | none => []

def conversions (root : Value) : List Double :=
  integerKeys.flatMap fun members => sectionConversions root members.1 members.2

end Settings.Config

def TestResult.conversions (value : Value) : List Double :=
  value.numberConversion (ascii "duration_ms") ++ value.numberConversion (ascii "attempt")

def TestRun.conversions (value : Value) : List Double :=
  value.numberConversion (ascii "duration_ms") ++ value.numberConversion (ascii "workers") ++
    (TestSpec.itemsAt value (ascii "results")).flatMap TestResult.conversions

/-- The second name of the status is tried when the first is no number. -/
def TestSpec.conversions (value : Value) : List Double :=
  if !value.isObject || trim (readString value (ascii "name")) = [] || readEndpoint value = [] then []
  else
    (if (value.numberAt (ascii "expected_status")).isSome then value.numberConversion (ascii "expected_status")
      else value.numberConversion (ascii "expectedStatus")) ++
    (statusEntries value).flatMap Value.conversion ++ value.numberConversion (ascii "max_response_time_ms")

namespace TestSpecSuite

/-- The tests up to the first that cannot be read. -/
def reached : List Value → List Value
  | [] => []
  | item :: rest =>
    match TestSpec.fromJson item with
    | .ok _ => item :: reached rest
    | .error _ => [item]

def conversions (value : Value) : List Double :=
  if !value.isObject || trim (readString value (ascii "suite")) = [] then []
  else (reached (TestSpec.itemsAt value (ascii "tests"))).flatMap TestSpec.conversions

end TestSpecSuite

/-- `SpecValidator::validateOne` at one assertion. -/
def SpecValidator.conversions (a : SpecAssertion) : List Double :=
  if a.kind == .responseTimeUnder && a.expected.isNumber then a.expected.conversion else []

/-- `evaluate` of one assertion. -/
def SpecTestCase.conversions (a : SpecAssertion) : List Double :=
  match a.kind with
  | .statusCode | .responseTimeUnder => a.expected.conversion
  | .statusCodeIn => (a.expected.items.filter (·.isNumber)).flatMap Value.conversion
  | _ => []

/-- `!ok->boolOr(true)`. -/
def Json.Value.isFalse : Value → Bool
  | .bool false => true
  | _ => false

/-- The usage that a reply of the sidecar reports, unless it reports a failure. -/
def HttpAiProvider.usageConversions (document : Value) : List Double :=
  if (document.find (ascii "ok")).any Value.isFalse then []
  else
    match document.find (ascii "usage") with
    | some usage =>
      (usage.find (ascii "prompt_tokens")).elim [] Value.conversion ++
        (usage.find (ascii "completion_tokens")).elim [] Value.conversion
    | none => []

/-- The first read decides whether the status is read twice more. -/
def MockAiProvider.conversions (context : Value) : List Double :=
  if ((context.path (ascii "result.metadata.transport_error")).bind Value.asString?).isSome then []
  else
    match context.path (ascii "result.metadata.http_status") with
    | some status =>
      status.conversion ++ if status.intOr 0 ≥ 500 then status.conversion ++ status.conversion else []
    | none => []

/-- Where integers are read from a document that came out of a text. -/
inductive Place where
  | configuration
  | testResult
  | testRun
  | specification
  /-- An assertion that is validated, and one that is evaluated. -/
  | validated
  | evaluated
  | runRequest
  | generateRequest
  | generationReply
  /-- `ai status` prints the members of the provider's health; `sidecar` is what the sidecar answered. -/
  | health
  | failureMetadata
  | consoleReport
  | mockAnalysis
  /-- The sample tests read `total` and `id` of a response. -/
  | response (key : Bytes)

def Place.conversions : Place → Value → List Double
  | configuration, root => Settings.Config.conversions root
  | testResult, value => TestResult.conversions value
  | testRun, value => TestRun.conversions value
  | specification, value => TestSpecSuite.conversions value
  | validated, value => (SpecAssertion.fromJson value).toOption.elim [] SpecValidator.conversions
  | evaluated, value => (SpecAssertion.fromJson value).toOption.elim [] SpecTestCase.conversions
  | runRequest, body => body.numberConversion (ascii "workers") ++ body.numberConversion (ascii "retry_failed")
  | generateRequest, body =>
    if (body.find (ascii "max_tests")).isSome then body.intAtConversion (ascii "max_tests") else []
  | generationReply, document => HttpAiProvider.usageConversions document
  | health, sidecar => if sidecar.isNumber then sidecar.conversion else []
  | failureMetadata, metadata => metadata.numberConversion (ascii "http_status")
  | consoleReport, metadata =>
    if (metadata.find (ascii "http_status")).isSome then metadata.intAtConversion (ascii "http_status") else []
  | mockAnalysis, context => MockAiProvider.conversions context
  | response key, body => (body.find key).elim [] Value.conversion

/-! ### Addresses -/

namespace Json

/-- One step into a document. -/
inductive Step where
  | key (name : Bytes)
  | index (i : Nat)

namespace Value

def step : Step → Value → Option Value
  | .key name, value => value.find name
  | .index i, .array items => items[i]?
  | .index _, _ => none

def follow : List Step → Value → Option Value
  | [], value => some value
  | step :: rest, value => (value.step step).bind (follow rest)

/-- What is converted when the integer at the address is read. -/
def conversionAt (value : Value) (address : List Step) : List Double := (value.follow address).elim [] conversion

end Value

namespace Node

/-- The last member of a name is the one that counts. -/
def step : Step → Node → Option Node
  | .key name, .object members => (members.reverse.find? (StringUnit.denote ·.1 = name)).map (·.2)
  | .index i, .array items => items[i]?
  | _, _ => none

def follow : List Step → Node → Option Node
  | [], node => some node
  | step :: rest, node => (node.step step).bind (follow rest)

theorem value_step (node : Node) (step : Step) : node.value.step step = (node.step step).map value := by
  cases step with
  | key name =>
    cases node with
    | object members =>
      rw [Value.step,value,← Value.objectOf_eq,Value.find_objectOf,memberValues_eq,← List.map_reverse,List.find?_map,step]
      simp [Function.comp_def]
    | number n =>
      rw [value,Numeral.value]
      split <;> rfl
    | _ => rfl
  | index i =>
    cases node with
    | array items => rw [value,itemValues_eq,Value.step,step,List.getElem?_map]
    | number n =>
      rw [value,Numeral.value]
      split <;> rfl
    | _ => rfl

theorem value_follow (address : List Step) (node : Node) :
    node.value.follow address = (node.follow address).map value := by
  induction address generalizing node with
  | nil => rfl
  | cons step rest ih =>
    rw [Value.follow,follow,value_step]
    cases node.step step with
    | none => rfl
    | some inner => exact ih inner

theorem follow_append (before behind : List Step) (node : Node) :
    node.follow (before ++ behind) = (node.follow before).bind (follow behind) := by
  induction before generalizing node with
  | nil => rfl
  | cons step rest ih =>
    rw [List.cons_append,follow,follow]
    cases node.step step with
    | none => rfl
    | some inner => exact ih inner

/-- The conversion at an address is defined exactly when the literal there allows it. -/
theorem conversionAt_iff (node : Node) (address : List Step) :
    (∀ d ∈ node.value.conversionAt address, d.inInt64 = true) ↔
      ∀ n, node.follow address = some (.number n) → n.Convertible := by
  rw [Value.conversionAt,value_follow]
  cases node.follow address with
  | none => simp
  | some found =>
    cases found with
    | number n => simpa [value] using n.convertible_iff
    | _ => simp [value,Value.conversion]

end Node
end Json

/-! ### The addresses that are read -/

namespace Json.Value

theorem conversionAt_key (value : Value) (key : Bytes) :
    value.conversionAt [.key key] = (value.find key).elim [] conversion := by
  rw [conversionAt,follow,step]
  cases value.find key <;> rfl

theorem conversion_of_not_number {value : Value} (other : value.isNumber = false) : value.conversion = [] := by
  cases value with
  | double d => cases other
  | null | bool | int | string | array | object => rfl

theorem numberConversion_eq (value : Value) (key : Bytes) : value.numberConversion key = value.conversionAt [.key key] := by
  rw [conversionAt_key,numberConversion]
  cases value.find key with
  | none => rfl
  | some found =>
    cases number : found.isNumber with
    | true => simp [number]
    | false => simp [number,conversion_of_not_number number]

theorem conversionAt_cons (value : Value) (first : Step) (rest : List Step) :
    value.conversionAt (first :: rest) = (value.step first).elim [] (·.conversionAt rest) := by
  rw [conversionAt,follow]
  cases value.step first <;> rfl

/-- The addresses of the items of an array, each with what is read in the item. -/
def itemAddresses (addresses : Value → List (List Step)) : Nat → List Value → List (List Step)
  | _, [] => []
  | i, item :: rest => (addresses item).map (.index i :: ·) ++ itemAddresses addresses (i + 1) rest

theorem mem_itemAddresses (addresses : Value → List (List Step)) (items : List Value) (i : Nat) (address : List Step) :
    address ∈ itemAddresses addresses i items ↔
      ∃ j item, items[j]? = some item ∧ ∃ inner ∈ addresses item, address = .index (i + j) :: inner := by
  induction items generalizing i with
  | nil => simp [itemAddresses]
  | cons first rest ih =>
    rw [itemAddresses,List.mem_append,ih,List.mem_map]
    constructor
    · rintro (⟨inner,listed,rfl⟩ | ⟨j,item,here,inner,listed,rfl⟩)
      · exact ⟨0,first,rfl,inner,listed,rfl⟩
      · exact ⟨j + 1,item,here,inner,listed,by rw [Nat.add_right_comm,Nat.add_assoc]⟩
    · rintro ⟨j,item,here,inner,listed,rfl⟩
      cases j with
      | zero =>
        cases here
        exact .inl ⟨inner,listed,rfl⟩
      | succ j => exact .inr ⟨j,item,here,inner,listed,by rw [Nat.add_right_comm,Nat.add_assoc]⟩

/-- What is converted is what stands at the addresses. -/
def Reads (value : Value) (addresses : List (List Step)) (converted : List Double) : Prop :=
  ∀ d, d ∈ converted ↔ ∃ address ∈ addresses, d ∈ value.conversionAt address

namespace Reads

variable {value : Value}

theorem none : Reads value [] [] := by simp [Reads]

theorem append {addresses others : List (List Step)} {converted rest : List Double}
    (first : Reads value addresses converted) (second : Reads value others rest) :
    Reads value (addresses ++ others) (converted ++ rest) := by
  intro d
  simp only [List.mem_append,first d,second d,or_and_right,exists_or]

theorem at_address (address : List Step) : Reads value [address] (value.conversionAt address) := by
  simp [Reads]

theorem key (key : Bytes) : Reads value [[.key key]] ((value.find key).elim [] conversion) := by
  rw [← conversionAt_key]
  exact at_address _

theorem number (key : Bytes) : Reads value [[.key key]] (value.numberConversion key) := by
  rw [numberConversion_eq]
  exact at_address _

theorem step {first : Step} {inner : Value} {addresses : List (List Step)} {converted : List Double}
    (found : value.step first = some inner) (reads : Reads inner addresses converted) :
    Reads value (addresses.map (first :: ·)) converted := by
  intro d
  rw [reads d]
  simp only [List.mem_map,exists_exists_and_eq_and,conversionAt_cons,found,Option.elim_some]

theorem flatMap {items : List α} {addresses : α → List (List Step)} {converted : α → List Double}
    (each : ∀ item ∈ items, Reads value (addresses item) (converted item)) :
    Reads value (items.flatMap addresses) (items.flatMap converted) := by
  induction items with
  | nil => exact none
  | cons item rest ih =>
    rw [List.flatMap_cons,List.flatMap_cons]
    exact (each item (List.mem_cons_self ..)).append (ih fun item listed => each item (List.mem_cons_of_mem _ listed))

/-- The first items of an array, read one after the other. -/
theorem items {all items : List Value} {addresses : Value → List (List Step)} {converted : Value → List Double}
    (front : items <+: all) (each : ∀ item ∈ items, Reads item (addresses item) (converted item)) :
    Reads (.array all) (itemAddresses addresses 0 items) (items.flatMap converted) := by
  intro d
  have stands : ∀ (j : Nat) (item : Value), items[j]? = some item → (array all).step (.index (0 + j)) = some item := by
    intro j item here
    obtain ⟨behind,rfl⟩ := front
    obtain ⟨bound,-⟩ := List.getElem?_eq_some_iff.mp here
    rw [Value.step,Nat.zero_add,List.getElem?_append_left bound,here]
  simp only [List.mem_flatMap,mem_itemAddresses]
  constructor
  · rintro ⟨item,listed,inside⟩
    obtain ⟨address,known,inside⟩ := (each item listed d).mp inside
    obtain ⟨j,here⟩ := List.mem_iff_getElem?.mp listed
    refine ⟨_,⟨j,item,here,address,known,rfl⟩,?_⟩
    rw [conversionAt_cons,stands j item here]
    exact inside
  · rintro ⟨_,⟨j,item,here,address,known,rfl⟩,inside⟩
    have listed := List.mem_of_getElem? here
    rw [conversionAt_cons,stands j item here] at inside
    exact ⟨item,listed,(each item listed d).mpr ⟨address,known,inside⟩⟩

end Reads
end Json.Value

/-- A path of plain names. -/
def keys (names : List Bytes) : List Json.Step := names.map .key

def Settings.Config.addresses : List (List Json.Step) :=
  integerKeys.flatMap fun members => members.2.flatMap fun key => [keys [members.1,key]]

def TestResult.addresses (_ : Value) : List (List Json.Step) :=
  [keys [ascii "duration_ms"],keys [ascii "attempt"]]

def TestRun.addresses (value : Value) : List (List Json.Step) :=
  [keys [ascii "duration_ms"],keys [ascii "workers"]] ++
    (Value.itemAddresses TestResult.addresses 0 (TestSpec.itemsAt value (ascii "results"))).map
      (.key (ascii "results") :: ·)

def TestSpec.addresses (value : Value) : List (List Json.Step) :=
  if !value.isObject || trim (readString value (ascii "name")) = [] || readEndpoint value = [] then []
  else
    [keys [if (value.numberAt (ascii "expected_status")).isSome then ascii "expected_status" else ascii "expectedStatus"]] ++
    (Value.itemAddresses (fun _ => [[]]) 0 (itemsAt value (ascii "acceptable_statuses"))).map
      (.key (ascii "acceptable_statuses") :: ·) ++
    [keys [ascii "max_response_time_ms"]]

def TestSpecSuite.addresses (value : Value) : List (List Json.Step) :=
  if !value.isObject || trim (readString value (ascii "suite")) = [] then []
  else
    (Value.itemAddresses TestSpec.addresses 0 (reached (TestSpec.itemsAt value (ascii "tests")))).map
      (.key (ascii "tests") :: ·)

def SpecTestCase.addresses (a : SpecAssertion) : List (List Json.Step) :=
  match a.kind with
  | .statusCode | .responseTimeUnder => [keys [ascii "expected"]]
  | .statusCodeIn => (Value.itemAddresses (fun _ => [[]]) 0 a.expected.items).map (.key (ascii "expected") :: ·)
  | _ => []

def HttpAiProvider.usageAddresses (document : Value) : List (List Json.Step) :=
  if (document.find (ascii "ok")).any Value.isFalse then []
  else [keys [ascii "usage",ascii "prompt_tokens"],keys [ascii "usage",ascii "completion_tokens"]]

/-- Where the place reads an integer in the document. -/
def Place.addresses : Place → Value → List (List Json.Step)
  | configuration, _ => Settings.Config.addresses
  | testResult, value => TestResult.addresses value
  | testRun, value => TestRun.addresses value
  | specification, value => TestSpecSuite.addresses value
  | validated, value =>
    if ((SpecAssertion.fromJson value).toOption.any (·.kind == .responseTimeUnder)) then [keys [ascii "expected"]] else []
  | evaluated, value => (SpecAssertion.fromJson value).toOption.elim [] SpecTestCase.addresses
  | runRequest, _ => [keys [ascii "workers"],keys [ascii "retry_failed"]]
  | generateRequest, _ => [keys [ascii "max_tests"]]
  | generationReply, document => HttpAiProvider.usageAddresses document
  | health, _ => [[]]
  | failureMetadata, _ => [keys [ascii "http_status"]]
  | consoleReport, _ => [keys [ascii "http_status"]]
  | mockAnalysis, context =>
    if ((context.path (ascii "result.metadata.transport_error")).bind Value.asString?).isSome then []
    else [keys [ascii "result",ascii "metadata",ascii "http_status"]]
  | response key, _ => [keys [key]]

open Json.Value

theorem Json.Value.Reads.nested {value : Value} (name key : Bytes) :
    Reads value [keys [name,key]] ((value.find name).elim [] (·.numberConversion key)) := by
  have same : (value.find name).elim [] (·.numberConversion key) = value.conversionAt (keys [name,key]) := by
    rw [keys,List.map_cons,conversionAt_cons,Value.step]
    cases value.find name with
    | none => rfl
    | some found => exact found.numberConversion_eq key
  rw [same]
  exact Reads.at_address _

theorem Settings.Config.reads (root : Value) : Reads root addresses (conversions root) := by
  apply Reads.flatMap
  rintro ⟨name,members⟩ -
  have whole : sectionConversions root name members =
      members.flatMap fun key => (root.find name).elim [] (·.numberConversion key) := by
    rw [sectionConversions,sectionOf]
    cases root.find name with
    | none => simp
    | some found =>
      cases found with
      | object => rfl
      | _ => simp [numberConversion,find]
  dsimp only
  rw [whole]
  exact Reads.flatMap fun key _ => Reads.nested name key

theorem TestResult.reads (value : Value) : Reads value (TestResult.addresses value) (TestResult.conversions value) :=
  (Reads.number _).append (Reads.number _)

/-- The first items of an array member. -/
theorem Json.Value.Reads.member {value : Value} (key : Bytes) {addresses : Value → List (List Json.Step)}
    {converted : Value → List Double} (front : List Value) (prefixed : front <+: TestSpec.itemsAt value key)
    (each : ∀ item ∈ front, Reads item (addresses item) (converted item)) :
    Reads value ((itemAddresses addresses 0 front).map (.key key :: ·)) (front.flatMap converted) := by
  cases found : value.find key with
  | none =>
    rw [TestSpec.itemsAt,found] at prefixed
    rw [List.prefix_nil.mp prefixed]
    exact Reads.none
  | some member =>
    rw [TestSpec.itemsAt,found] at prefixed
    cases member with
    | array items => exact Reads.step found (Reads.items prefixed each)
    | _ =>
      rw [List.prefix_nil.mp prefixed]
      exact Reads.none

theorem TestRun.reads (value : Value) : Reads value (TestRun.addresses value) (TestRun.conversions value) :=
  ((Reads.number _).append (Reads.number _)).append
    (Reads.member (ascii "results") _ List.prefix_rfl fun item _ => TestResult.reads item)

/-- Items that are no numbers convert nothing. -/
theorem Json.Value.numbers_conversion (items : List Value) :
    (items.filter (·.isNumber)).flatMap conversion = items.flatMap conversion := by
  induction items with
  | nil => rfl
  | cons item rest ih =>
    cases number : item.isNumber with
    | true => rw [List.filter_cons_of_pos number,List.flatMap_cons,List.flatMap_cons,ih]
    | false =>
      rw [List.filter_cons_of_neg (by simp [number]),List.flatMap_cons,conversion_of_not_number number,ih]
      rfl

theorem Json.Value.Reads.whole (value : Value) : Reads value [[]] value.conversion :=
  Reads.at_address []

theorem TestSpec.statusEntries_eq (value : Value) :
    statusEntries value = (itemsAt value (ascii "acceptable_statuses")).filter (·.isNumber) := by
  rw [statusEntries,itemsAt]
  split
  · rfl
  · rfl

theorem TestSpec.reads (value : Value) : Reads value (TestSpec.addresses value) (TestSpec.conversions value) := by
  rw [TestSpec.addresses,TestSpec.conversions]
  split
  · exact Reads.none
  · have status : Reads value
        [keys [if (value.numberAt (ascii "expected_status")).isSome then ascii "expected_status" else ascii "expectedStatus"]]
        (if (value.numberAt (ascii "expected_status")).isSome then value.numberConversion (ascii "expected_status")
          else value.numberConversion (ascii "expectedStatus")) := by
      split
      · exact Reads.number _
      · exact Reads.number _
    rw [TestSpec.statusEntries_eq,numbers_conversion]
    exact (status.append (Reads.member _ _ List.prefix_rfl fun item _ => Reads.whole item)).append (Reads.number _)

theorem TestSpecSuite.reached_front (items : List Value) : reached items <+: items := by
  induction items with
  | nil => exact List.prefix_rfl
  | cons item rest ih =>
    rw [reached]
    split
    · exact (List.prefix_cons_inj item).mpr ih
    · exact ⟨rest,rfl⟩

theorem TestSpecSuite.reads (value : Value) :
    Reads value (TestSpecSuite.addresses value) (TestSpecSuite.conversions value) := by
  rw [TestSpecSuite.addresses,TestSpecSuite.conversions]
  split
  · exact Reads.none
  · exact Reads.member _ _ (reached_front _) fun item _ => TestSpec.reads item

theorem SpecAssertion.expected_of_fromJson {value : Value} {a : SpecAssertion} (read : fromJson value = .ok a) :
    a.expected = (value.find (ascii "expected")).getD .null := by
  rw [fromJson] at read
  split at read
  · cases read
  · dsimp only at read
    split at read
    · cases read
    · split at read
      · cases read
      · cases read
        rfl

theorem SpecAssertion.expected_reads {value : Value} {a : SpecAssertion} (read : fromJson value = .ok a) :
    Reads value [keys [ascii "expected"]] a.expected.conversion := by
  have same : a.expected.conversion = (value.find (ascii "expected")).elim [] conversion := by
    rw [expected_of_fromJson read]
    cases value.find (ascii "expected") <;> rfl
  rw [same]
  exact Reads.key _

theorem SpecAssertion.items_reads {value : Value} {a : SpecAssertion} (read : fromJson value = .ok a) :
    Reads value ((itemAddresses (fun _ => [[]]) 0 a.expected.items).map (.key (ascii "expected") :: ·))
      (a.expected.items.flatMap conversion) := by
  have same : a.expected.items = TestSpec.itemsAt value (ascii "expected") := by
    rw [expected_of_fromJson read,TestSpec.itemsAt]
    cases value.find (ascii "expected") with
    | none => rfl
    | some found => cases found <;> rfl
  rw [same]
  exact Reads.member _ _ List.prefix_rfl fun item _ => Reads.whole item

theorem Place.reads_validated (value : Value) :
    Reads value (addresses validated value) (conversions validated value) := by
  rw [addresses,conversions]
  cases read : SpecAssertion.fromJson value with
  | error message => exact Reads.none
  | ok a =>
    change Reads value (if (a.kind == .responseTimeUnder) = true then [keys [ascii "expected"]] else [])
      (SpecValidator.conversions a)
    rw [SpecValidator.conversions]
    cases a.kind == .responseTimeUnder with
    | false => exact Reads.none
    | true =>
      have same : (if (true && a.expected.isNumber) = true then a.expected.conversion else []) = a.expected.conversion := by
        cases number : a.expected.isNumber with
        | true => rfl
        | false => exact (conversion_of_not_number number).symm
      rw [same,if_pos rfl]
      exact SpecAssertion.expected_reads read

theorem Place.reads_evaluated (value : Value) :
    Reads value (addresses evaluated value) (conversions evaluated value) := by
  rw [addresses,conversions]
  cases read : SpecAssertion.fromJson value with
  | error message => exact Reads.none
  | ok a =>
    change Reads value (SpecTestCase.addresses a) (SpecTestCase.conversions a)
    rw [SpecTestCase.addresses,SpecTestCase.conversions]
    split
    · exact SpecAssertion.expected_reads read
    · exact SpecAssertion.expected_reads read
    · rw [numbers_conversion]
      exact SpecAssertion.items_reads read
    · exact Reads.none

theorem HttpAiProvider.reads (document : Value) :
    Reads document (usageAddresses document) (usageConversions document) := by
  rw [usageAddresses,usageConversions]
  split
  · exact Reads.none
  · cases found : document.find (ascii "usage") with
    | none =>
      have nothing : ∀ key, document.conversionAt (keys [ascii "usage",key]) = [] := by
        intro key
        rw [keys,List.map_cons,conversionAt_cons,Value.step,found]
        rfl
      simp [Reads,nothing]
    | some usage =>
      have inside : document.step (.key (ascii "usage")) = some usage := found
      exact Reads.step inside ((Reads.key (ascii "prompt_tokens")).append (Reads.key (ascii "completion_tokens")))

/-- A path of names without dots. -/
theorem Json.Value.path_eq (value : Value) (dotted : Bytes) (names : List Bytes) (parts : split dotted 46 false = names)
    (plain : [] ∉ names) : value.path dotted = value.follow (keys names) := by
  rw [path,parts]
  clear parts
  induction names generalizing value with
  | nil => rfl
  | cons name rest ih =>
    rw [List.mem_cons,not_or] at plain
    rw [List.foldlM_cons,if_neg (Ne.symm plain.1),keys,List.map_cons,follow,step]
    cases value.find name with
    | none => rfl
    | some inner => exact ih inner plain.2

theorem Json.Value.conversionAt_path (value : Value) (dotted : Bytes) (names : List Bytes)
    (parts : split dotted 46 false = names) (plain : [] ∉ names) :
    value.conversionAt (keys names) = (value.path dotted).elim [] conversion := by
  rw [value.path_eq dotted names parts plain,conversionAt]

theorem Json.Value.Reads.intAt {value : Value} (key : Bytes) (parts : split key 46 false = [key]) (named : key ≠ []) :
    Reads value [keys [key]] (if (value.find key).isSome then value.intAtConversion key else []) := by
  have path := value.conversionAt_path key [key] parts (by simpa using named.symm)
  have same : (if (value.find key).isSome then value.intAtConversion key else []) = value.conversionAt (keys [key]) := by
    split
    · rw [path,intAtConversion]
      cases value.path key <;> rfl
    · next absent =>
      rw [keys,List.map_cons,List.map_nil,conversionAt_key,Option.not_isSome_iff_eq_none.mp absent]
      rfl
  rw [same]
  exact Reads.at_address _

theorem MockAiProvider.reads (context : Value) :
    Reads context (Place.addresses .mockAnalysis context) (conversions context) := by
  have path := context.conversionAt_path (ascii "result.metadata.http_status")
    [ascii "result",ascii "metadata",ascii "http_status"] rfl (by decide)
  rw [Place.addresses,conversions]
  split
  · exact Reads.none
  · intro d
    simp only [List.mem_singleton,exists_eq_left,path]
    cases context.path (ascii "result.metadata.http_status") with
    | none => rfl
    | some status =>
      dsimp only [Option.elim_some]
      split <;> simp

/-- What a place converts is what stands at its addresses. -/
theorem Place.reads (place : Place) (value : Value) : Reads value (place.addresses value) (place.conversions value) := by
  cases place with
  | configuration => exact Settings.Config.reads value
  | testResult => exact TestResult.reads value
  | testRun => exact TestRun.reads value
  | specification => exact TestSpecSuite.reads value
  | validated => exact reads_validated value
  | evaluated => exact reads_evaluated value
  | runRequest => exact (Reads.number _).append (Reads.number _)
  | generateRequest => exact Reads.intAt _ rfl (by decide)
  | generationReply => exact HttpAiProvider.reads value
  | health =>
    have same : conversions health value = value.conversion := by
      rw [conversions]
      split
      · rfl
      · next other => exact (conversion_of_not_number (by simpa using other)).symm
    rw [same]
    exact Reads.whole value
  | failureMetadata => exact Reads.number _
  | consoleReport => exact Reads.intAt _ rfl (by decide)
  | mockAnalysis => exact MockAiProvider.reads value
  | response key => exact Reads.key key

/-- At every place and in every part of an accepted text the conversions are defined exactly
when the literals that are read there are integers of 64 bits or lie between the bounds. -/
theorem Place.conversions_defined_iff (place : Place) (limits : ParseLimits) (text : Bytes) (document : Value)
    (accepted : parse limits text = .ok document) :
    ∃ node, Document node text ∧ node.value = document ∧ ∀ base part, document.follow base = some part →
      ((∀ d ∈ place.conversions part, d.inInt64 = true) ↔
        ∀ address ∈ place.addresses part, ∀ n, node.follow (base ++ address) = some (.number n) → n.Convertible) := by
  obtain ⟨-,node,spelled,-,rfl⟩ := (parse_iff _ _ _).mp accepted
  refine ⟨node,spelled,rfl,fun base part found => ?_⟩
  rw [Node.value_follow] at found
  obtain ⟨inner,reached,rfl⟩ := Option.map_eq_some_iff.mp found
  have here : ∀ address, node.follow (base ++ address) = inner.follow address := by
    intro address
    rw [Node.follow_append,reached,Option.bind_some]
  simp only [here,← Node.conversionAt_iff,place.reads inner.value _]
  exact ⟨fun each address listed d inside => each d ⟨address,listed,inside⟩,
    fun each d ⟨address,listed,inside⟩ => each address listed d inside⟩

theorem Place.conversions_defined_metadata : ∃ document,
    parse {} (ascii "\x7b\"http_status\":503.0\x7d") = .ok document ∧
    ∃ node, Document node (ascii "\x7b\"http_status\":503.0\x7d") ∧ node.value = document ∧
      ∀ base part, document.follow base = some part →
      ((∀ d ∈ failureMetadata.conversions part, d.inInt64 = true) ↔
        ∀ address ∈ failureMetadata.addresses part, ∀ n, node.follow (base ++ address) = some (.number n) →
          n.Convertible) := by
  have read : (parse {} (ascii "\x7b\"http_status\":503.0\x7d")).toOption.isSome = true := by decide +kernel
  obtain ⟨document,parsed⟩ := Option.isSome_iff_exists.mp read
  have accepted := Value.parse_of_toOption parsed
  exact ⟨document,accepted,Place.conversions_defined_iff failureMetadata {} _ document accepted⟩

/-- Metadata with a status that no 64-bit integer holds, and with an infinite one. -/
theorem Place.refine_converts_beyond :
    (∃ metadata, parse {} (ascii "\x7b\"http_status\":1e19\x7d") = .ok metadata ∧
      ∃ d ∈ failureMetadata.conversions metadata, d.inInt64 = false) ∧
    ∃ metadata, parse {} (ascii "\x7b\"http_status\":1e400\x7d") = .ok metadata ∧
      ∃ d ∈ failureMetadata.conversions metadata, d.inInt64 = false := by
  have told : ∀ text, (parse {} text).toOption.any (fun metadata =>
      (failureMetadata.conversions metadata).any fun d => !d.inInt64) = true →
        ∃ metadata, parse {} text = .ok metadata ∧ ∃ d ∈ failureMetadata.conversions metadata, d.inInt64 = false := by
    intro text read
    obtain ⟨metadata,parsed,beyond⟩ := (Option.any_eq_true _ _).mp read
    obtain ⟨d,converted,outside⟩ := List.any_eq_true.mp beyond
    exact ⟨metadata,Value.parse_of_toOption parsed,d,converted,by simpa using outside⟩
  exact ⟨told _ (by decide +kernel),told _ (by decide +kernel)⟩

end TestForge
