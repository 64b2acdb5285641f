import TestForge.CommandLine
import TestForge.IntegerText
import TestForge.JsonAccess

/-! The same selection request given to `testforge run` and to `POST /api/runs`. -/

/-! The run options that `POST /api/runs` makes of its body. -/
namespace TestForge.RestApiServer

open Json Strings

/-- A list, or one string with commas; other values are ignored. -/
def collect (body : Value) (key : Bytes) : List Bytes :=
  match body.find key with
  | some (.string raw) => (split raw 44 true).map trim
  | some (.array items) => items.filterMap Value.asString?
  | _ => []

def filterFromBody (body : Value) : TestFilter where
  suites := collect body (ascii "suite")
  names := collect body (ascii "test")
  tags := collect body (ascii "tag")
  excludeTags := collect body (ascii "exclude_tag")
  excludeSuites := collect body (ascii "exclude_suite")

/-- `static_cast<int>` of a number, held between two bounds. -/
def boundedNumber (body : Value) (key : Bytes) (fallback low high : Int32) : Int32 :=
  match body.find key with
  | some value => if value.isNumber then max low (min (Int64.ofInt (value.intOr 0)).toInt32 high) else fallback
  | none => fallback

def readFlag (body : Value) (key : Bytes) : Bool :=
  match body.find key with
  | some (.bool value) => value
  | _ => false

def runOptions (body : Value) : RunOptions where
  filter := filterFromBody body
  selection := { shuffle := readFlag body (ascii "shuffle") }
  workers := boundedNumber body (ascii "workers") 0 1 128
  failFast := readFlag body (ascii "fail_fast")
  retryFailed := boundedNumber body (ascii "retry_failed") 0 0 5
  label := if (body.find (ascii "label")).isSome then ((body.path (ascii "label")).bind Value.asString?).getD [] else []

/-- The body of a request as JSON; nothing when it is no JSON, which is answered 400. -/
def requestBody (text : Bytes) : Option Value := if text = [] then some (.object []) else tryParse {} text

end TestForge.RestApiServer

namespace TestForge

open Json Strings Settings

/-- What a caller asks for, whichever front end it goes to. -/
structure SelectionRequest where
  suites : List Bytes := []
  tests : List Bytes := []
  tags : List Bytes := []
  excludeTags : List Bytes := []
  excludeSuites : List Bytes := []
  failFast : Option Bool := none
  retryFailed : Option Int32 := none

namespace SelectionRequest

def groups (request : SelectionRequest) : List (Bytes × List Bytes) := [
  (ascii "suite",request.suites),
  (ascii "test",request.tests),
  (ascii "tag",request.tags),
  (ascii "exclude-tag",request.excludeTags),
  (ascii "exclude-suite",request.excludeSuites),
  (ascii "fail-fast",request.failFast.toList.map fun b => if b then ascii "true" else ascii "false"),
  (ascii "retry-failed",request.retryFailed.toList.map fun n => decimalInt n.toInt)]

/-- `--name=item`, the form that takes every item. -/
def occurrence (name item : Bytes) : Bytes := ascii "--" ++ name ++ 61 :: item

/-- `testforge run` with one occurrence for each item. -/
def arguments (request : SelectionRequest) : List Bytes :=
  ascii "run" :: request.groups.flatMap fun group => group.2.map (occurrence group.1)

def lists (request : SelectionRequest) : List (Bytes × List Bytes) := [
  (ascii "suite",request.suites),
  (ascii "test",request.tests),
  (ascii "tag",request.tags),
  (ascii "exclude_tag",request.excludeTags),
  (ascii "exclude_suite",request.excludeSuites)]

def listMember (group : Bytes × List Bytes) : List (Bytes × Value) :=
  if group.2 = [] then [] else [(group.1,stringsToJson group.2)]

def optionMembers (request : SelectionRequest) : List (Bytes × Value) :=
  request.failFast.toList.map (fun b => (ascii "fail_fast",.bool b)) ++
    request.retryFailed.toList.map fun n => (ascii "retry_failed",.int n.toInt)

/-- The JSON body: a member for each list that has items and for each option given. -/
def body (request : SelectionRequest) : Value := .object (request.lists.flatMap listMember ++ request.optionMembers)

end SelectionRequest

/-! ### The command line -/

namespace ParsedCommand

theorem find_append_self (name : Bytes) (more : List Bytes) (options : List (Bytes × List Bytes)) :
    ((append name more options).find? (·.1 = name)).map (·.2) =
      some (((options.find? (·.1 = name)).map (·.2)).getD [] ++ more) := by
  induction options with
  | nil => simp [append]
  | cons entry rest ih =>
    by_cases same : entry.1 = name
    · simp [append,same]
    · simp [append,same,ih]

theorem find_append_other {name other : Bytes} (distinct : other ≠ name) (more : List Bytes)
    (options : List (Bytes × List Bytes)) :
    (append name more options).find? (·.1 = other) = options.find? (·.1 = other) := by
  induction options with
  | nil => simp [append,distinct.symm]
  | cons entry rest ih =>
    by_cases same : entry.1 = name
    · simp [append,same,distinct.symm]
    · simp [append,same,List.find?_cons,ih]

/-- The options behind some occurrences of one name. -/
def appendAll (name : Bytes) (items : List Bytes) (options : List (Bytes × List Bytes)) : List (Bytes × List Bytes) :=
  items.foldl (fun options item => append name [item] options) options

theorem find_appendAll_other {name other : Bytes} (distinct : other ≠ name) (items : List Bytes)
    (options : List (Bytes × List Bytes)) :
    (appendAll name items options).find? (·.1 = other) = options.find? (·.1 = other) := by
  unfold appendAll
  induction items generalizing options with
  | nil => rfl
  | cons item items ih => rw [List.foldl_cons,ih,find_append_other distinct]

theorem find_appendAll_self (name : Bytes) (items : List Bytes) (options : List (Bytes × List Bytes))
    (fresh : options.find? (·.1 = name) = none) :
    ((appendAll name items options).find? (·.1 = name)).map (·.2) = if items = [] then none else some items := by
  unfold appendAll
  induction items using List.reverseRecOn with
  | nil => simp [fresh]
  | append_singleton items item ih =>
    rw [List.foldl_append,List.foldl_cons,List.foldl_nil,find_append_self,ih]
    by_cases first : items = [] <;> simp [first]

end ParsedCommand

open ParsedCommand SelectionRequest

/-- A name that an argument `--name=item` can carry for a command. -/
def Carried (command name : Bytes) : Prop :=
  61 ∉ name ∧ name ≠ ascii "help" ∧ name ≠ ascii "version" ∧ CommandLine.isKnown command name = true

instance (command name : Bytes) : Decidable (Carried command name) :=
  inferInstanceAs (Decidable (_ ∧ _ ∧ _ ∧ _))

theorem parse_occurrence (parsed : ParsedCommand) (name item : Bytes) (rest : List Bytes)
    (carried : Carried parsed.command name) :
    CommandLine.parseArguments parsed (occurrence name item :: rest) =
      CommandLine.parseArguments { parsed with options := append name [item] parsed.options } rest := by
  obtain ⟨plain,help,version,known⟩ := carried
  have long : occurrence name item = 45 :: 45 :: (name ++ 61 :: item) := rfl
  have word : (name ++ 61 :: item).takeWhile (· ≠ 61) = name := by
    rw [List.takeWhile_append_of_pos]
    · simp
    · intro c inside
      simpa using fun same : c = 61 => plain (same ▸ inside)
  have value : (name ++ 61 :: item).drop (name.length + 1) = item := by simp [List.drop_append]
  rw [CommandLine.parseArguments,long]
  simp only [List.drop_succ_cons,List.drop_zero,word,value,help,version,known,if_false,Bool.not_true,
    Bool.false_eq_true]
  simp [ascii,startsWith]

theorem parse_occurrences (parsed : ParsedCommand) (name : Bytes) (items rest : List Bytes)
    (carried : Carried parsed.command name) :
    CommandLine.parseArguments parsed (items.map (occurrence name) ++ rest) =
      CommandLine.parseArguments { parsed with options := appendAll name items parsed.options } rest := by
  induction items generalizing parsed with
  | nil => rfl
  | cons item items ih =>
    rw [List.map_cons,List.cons_append,parse_occurrence _ _ _ _ carried]
    exact ih _ carried

/-- The options behind all groups of a request. -/
def optionsOf (groups : List (Bytes × List Bytes)) (options : List (Bytes × List Bytes)) : List (Bytes × List Bytes) :=
  groups.foldl (fun options group => appendAll group.1 group.2 options) options

theorem parse_groups (parsed : ParsedCommand) (groups : List (Bytes × List Bytes))
    (carried : ∀ group ∈ groups, Carried parsed.command group.1) :
    CommandLine.parseArguments parsed (groups.flatMap fun group => group.2.map (occurrence group.1)) =
      .ok { parsed with options := optionsOf groups parsed.options } := by
  induction groups generalizing parsed with
  | nil => rfl
  | cons group rest ih =>
    rw [List.flatMap_cons,parse_occurrences _ _ _ _ (carried group (by simp))]
    exact ih _ fun other listed => carried other (by simp [listed])

theorem find_optionsOf_other (name : Bytes) (groups : List (Bytes × List Bytes)) (options : List (Bytes × List Bytes))
    (absent : name ∉ groups.map (·.1)) :
    (optionsOf groups options).find? (·.1 = name) = options.find? (·.1 = name) := by
  induction groups generalizing options with
  | nil => rfl
  | cons group rest ih =>
    simp only [List.map_cons,List.mem_cons,not_or] at absent
    unfold optionsOf at ih ⊢
    rw [List.foldl_cons,ih _ absent.2,find_appendAll_other absent.1]

theorem find_optionsOf (groups : List (Bytes × List Bytes)) (distinct : (groups.map (·.1)).Nodup)
    (group : Bytes × List Bytes) (listed : group ∈ groups) (options : List (Bytes × List Bytes))
    (fresh : options.find? (·.1 = group.1) = none) :
    ((optionsOf groups options).find? (·.1 = group.1)).map (·.2) = if group.2 = [] then none else some group.2 := by
  induction groups generalizing options with
  | nil => cases listed
  | cons first rest ih =>
    rw [List.map_cons,List.nodup_cons] at distinct
    unfold optionsOf at ih ⊢
    rw [List.foldl_cons]
    rcases List.mem_cons.mp listed with rfl | later
    · have unchanged := find_optionsOf_other group.1 rest (appendAll group.1 group.2 options) distinct.1
      unfold optionsOf at unchanged
      rw [unchanged,find_appendAll_self _ _ _ fresh]
    · have other : group.1 ≠ first.1 := fun same => distinct.1 (same ▸ List.mem_map_of_mem later)
      exact ih distinct.2 later _ (by rw [find_appendAll_other other,fresh])

namespace SelectionRequest

/-- What the parser makes of the arguments. -/
def parsed (request : SelectionRequest) : ParsedCommand where
  command := ascii "run"
  options := optionsOf request.groups []

theorem parse_arguments (request : SelectionRequest) : CommandLine.parse request.arguments = request.parsed := by
  have carried : ∀ name ∈ request.groups.map (·.1), Carried (ascii "run") name := by
    simp only [groups,List.map_cons,List.map_nil]
    decide
  have options := parse_groups { command := ascii "run" } request.groups
    fun group listed => carried _ (List.mem_map_of_mem listed)
  have leading : CommandLine.leadingFlags {} request.arguments = ({},request.arguments) := by
    simp [CommandLine.leadingFlags,arguments,ascii]
  have command : CommandLine.bareWord request.arguments =
      (ascii "run",request.groups.flatMap fun group => group.2.map (occurrence group.1)) := rfl
  have plain : ¬(ascii "run" = ascii "ai" ∨ ascii "run" = ascii "db") := by decide
  unfold CommandLine.parse
  simp only [leading,command,if_neg plain,options]
  simp [parsed,ascii,CommandLine.commands]

theorem find_group (request : SelectionRequest) (group : Bytes × List Bytes) (listed : group ∈ request.groups) :
    request.parsed.find group.1 = if group.2 = [] then none else some group.2 := by
  refine find_optionsOf request.groups ?_ group listed [] rfl
  simp only [groups,List.map_cons,List.map_nil]
  decide

theorem find_absent (request : SelectionRequest) (name : Bytes) (absent : name ∉ request.groups.map (·.1)) :
    request.parsed.find name = none := by
  unfold ParsedCommand.find
  rw [parsed,find_optionsOf_other name request.groups [] absent]
  rfl

theorem values_group (request : SelectionRequest) (group : Bytes × List Bytes) (listed : group ∈ request.groups) :
    request.parsed.values group.1 = group.2.flatMap pieces := by
  rw [ParsedCommand.values,request.find_group group listed]
  by_cases empty : group.2 = [] <;> simp [empty]

theorem flag_failFast (request : SelectionRequest) (fallback : Bool) :
    request.parsed.flag (ascii "fail-fast") fallback = request.failFast.getD fallback := by
  have found := request.find_group
    (ascii "fail-fast",request.failFast.toList.map fun b => if b then ascii "true" else ascii "false") (by simp [groups])
  rw [ParsedCommand.flag,found]
  cases request.failFast with
  | none => rfl
  | some b => cases b <;> rfl

theorem int64Value_retryFailed (request : SelectionRequest) (fallback : Int64) :
    request.parsed.int64Value (ascii "retry-failed") fallback = (request.retryFailed.map Int32.toInt64).getD fallback := by
  have found := request.find_group
    (ascii "retry-failed",request.retryFailed.toList.map fun n => decimalInt n.toInt) (by simp [groups])
  rw [ParsedCommand.int64Value,ParsedCommand.value,found]
  cases request.retryFailed with
  | none => rfl
  | some n =>
    have nonempty : decimalInt n.toInt ≠ [] := by
      unfold decimalInt
      split
      · simp
      · exact decimal_ne_nil _
    have low := n.le_toInt
    have high := n.toInt_lt
    simp only [Option.toList_some,List.map_cons,List.map_nil,reduceCtorEq,if_false,List.getLast?_singleton,
      Option.getD_some,if_neg nonempty,parseInt_decimalInt n.toInt (by omega) (by omega),Option.map_some]
    rw [← n.toInt_toInt64,Int64.ofInt_toInt]

theorem intValue_retryFailed (request : SelectionRequest) (fallback : Int32) :
    request.parsed.intValue (ascii "retry-failed") fallback = request.retryFailed.getD fallback := by
  rw [ParsedCommand.intValue,int64Value_retryFailed]
  cases request.retryFailed <;> simp

/-- The five lists as they were given. -/
def listed (request : SelectionRequest) : TestFilter where
  suites := request.suites
  names := request.tests
  tags := request.tags
  excludeTags := request.excludeTags
  excludeSuites := request.excludeSuites

/-- The five lists cut at the commas, without blanks around the pieces and without
empty pieces. -/
def divided (request : SelectionRequest) : TestFilter where
  suites := request.suites.flatMap pieces
  names := request.tests.flatMap pieces
  tags := request.tags.flatMap pieces
  excludeTags := request.excludeTags.flatMap pieces
  excludeSuites := request.excludeSuites.flatMap pieces

theorem filterFrom_parsed (request : SelectionRequest) : CommandLine.filterFrom request.parsed = request.divided := by
  have suites := request.values_group (ascii "suite",request.suites) (by simp [groups])
  have tests := request.values_group (ascii "test",request.tests) (by simp [groups])
  have tags := request.values_group (ascii "tag",request.tags) (by simp [groups])
  have excludeTags := request.values_group (ascii "exclude-tag",request.excludeTags) (by simp [groups])
  have excludeSuites := request.values_group (ascii "exclude-suite",request.excludeSuites) (by simp [groups])
  have disabled := request.find_absent (ascii "include-disabled")
    (by simp only [groups,List.map_cons,List.map_nil]; decide)
  have positionals : request.parsed.positionals = [] := rfl
  simp only [CommandLine.filterFrom,suites,tests,tags,excludeTags,excludeSuites,positionals,List.append_nil,
    ParsedCommand.flag,disabled]
  rfl

theorem selectionFrom_parsed (request : SelectionRequest) : CommandLine.selectionFrom request.parsed = {} := by
  have absent (name : Bytes) (unknown : name ∈ [ascii "shuffle",ascii "seed",ascii "shards",ascii "shard"]) :
      request.parsed.find name = none := by
    refine request.find_absent name ?_
    revert name
    simp only [groups,List.map_cons,List.map_nil]
    decide
  simp only [CommandLine.selectionFrom,ParsedCommand.flag,ParsedCommand.intValue,ParsedCommand.int64Value,
    ParsedCommand.value,absent (ascii "shuffle") (by simp),absent (ascii "seed") (by simp),
    absent (ascii "shards") (by simp),absent (ascii "shard") (by simp)]
  rfl

/-! ### The body -/

theorem find_lists_other (lists : List (Bytes × List Bytes)) (rest : List (Bytes × Value)) (key : Bytes)
    (absent : key ∉ lists.map (·.1)) :
    (lists.flatMap listMember ++ rest).find? (·.1 = key) = rest.find? (·.1 = key) := by
  induction lists with
  | nil => rfl
  | cons first others ih =>
    simp only [List.map_cons,List.mem_cons,not_or] at absent
    rw [List.flatMap_cons,List.append_assoc,List.find?_append,ih absent.2]
    unfold listMember
    split
    · rfl
    · simp [Ne.symm absent.1]

theorem find_lists (lists : List (Bytes × List Bytes)) (rest : List (Bytes × Value))
    (distinct : (lists.map (·.1)).Nodup) (group : Bytes × List Bytes) (listed : group ∈ lists)
    (fresh : rest.find? (·.1 = group.1) = none) :
    ((lists.flatMap listMember ++ rest).find? (·.1 = group.1)).map (·.2) =
      if group.2 = [] then none else some (stringsToJson group.2) := by
  induction lists with
  | nil => cases listed
  | cons first others ih =>
    rw [List.map_cons,List.nodup_cons] at distinct
    rw [List.flatMap_cons,List.append_assoc,List.find?_append]
    rcases List.mem_cons.mp listed with rfl | later
    · rw [find_lists_other others rest group.1 distinct.1,fresh]
      unfold listMember
      split <;> simp
    · have other : group.1 ≠ first.1 := fun same => distinct.1 (same ▸ List.mem_map_of_mem later)
      rw [← ih distinct.2 later]
      unfold listMember
      split
      · rfl
      · simp [other.symm]

theorem lists_distinct (request : SelectionRequest) : (request.lists.map (·.1)).Nodup := by
  simp only [lists,List.map_cons,List.map_nil]
  decide

theorem collect_group (request : SelectionRequest) (group : Bytes × List Bytes) (listed : group ∈ request.lists) :
    RestApiServer.collect request.body group.1 = group.2 := by
  have fresh : request.optionMembers.find? (·.1 = group.1) = none := by
    have foreign : ∀ key ∈ request.lists.map (·.1), key ≠ ascii "fail_fast" ∧ key ≠ ascii "retry_failed" := by
      simp only [lists,List.map_cons,List.map_nil]
      decide
    obtain ⟨notFlag,notRetry⟩ := foreign _ (List.mem_map_of_mem listed)
    simp [optionMembers,notFlag.symm,notRetry.symm]
  have found := find_lists request.lists request.optionMembers request.lists_distinct group listed fresh
  unfold RestApiServer.collect
  rw [show request.body.find group.1 = _ from found]
  by_cases empty : group.2 = []
  · rw [if_pos empty]
    exact empty.symm
  · rw [if_neg empty]
    exact stringsFromJson_stringsToJson group.2

theorem filterFromBody_body (request : SelectionRequest) :
    RestApiServer.filterFromBody request.body = request.listed := by
  have suites := request.collect_group (ascii "suite",request.suites) (by simp [lists])
  have tests := request.collect_group (ascii "test",request.tests) (by simp [lists])
  have tags := request.collect_group (ascii "tag",request.tags) (by simp [lists])
  have excludeTags := request.collect_group (ascii "exclude_tag",request.excludeTags) (by simp [lists])
  have excludeSuites := request.collect_group (ascii "exclude_suite",request.excludeSuites) (by simp [lists])
  simp only [RestApiServer.filterFromBody,suites,tests,tags,excludeTags,excludeSuites,listed]

/-- A key that names no list is looked up among the options. -/
theorem find_option (request : SelectionRequest) (key : Bytes) (absent : key ∉ request.lists.map (·.1)) :
    request.body.find key = (request.optionMembers.find? (·.1 = key)).map (·.2) :=
  congrArg (Option.map _) (find_lists_other request.lists request.optionMembers key absent)

theorem readFlag_failFast (request : SelectionRequest) :
    RestApiServer.readFlag request.body (ascii "fail_fast") = request.failFast.getD false := by
  have found := request.find_option (ascii "fail_fast") (by simp only [lists,List.map_cons,List.map_nil]; decide)
  rw [RestApiServer.readFlag,found,optionMembers]
  cases request.failFast <;> cases request.retryFailed <;> rfl

theorem boundedNumber_retryFailed (request : SelectionRequest) :
    RestApiServer.boundedNumber request.body (ascii "retry_failed") 0 0 5 =
      (request.retryFailed.map fun n => max 0 (min n 5)).getD 0 := by
  have found := request.find_option (ascii "retry_failed") (by simp only [lists,List.map_cons,List.map_nil]; decide)
  rw [RestApiServer.boundedNumber,found,optionMembers]
  cases request.failFast <;> cases request.retryFailed <;>
    simp [ascii,Value.isNumber,Value.intOr]

theorem readFlag_shuffle (request : SelectionRequest) :
    RestApiServer.readFlag request.body (ascii "shuffle") = false := by
  have found := request.find_option (ascii "shuffle") (by simp only [lists,List.map_cons,List.map_nil]; decide)
  rw [RestApiServer.readFlag,found,optionMembers]
  cases request.failFast <;> cases request.retryFailed <;> rfl

/-! ### The two runs -/

/-- Both front ends run the same tests with the same two settings. -/
def SameRun (shuffled : UInt64 → List TestMetadata → List TestMetadata) (registry : List TestMetadata)
    (config : Config) (request : SelectionRequest) : Prop :=
  let cli := Commands.runOptions config (CommandLine.parse request.arguments)
  let rest := RestApiServer.runOptions request.body
  TestSelector.select shuffled registry cli.filter cli.selection =
      TestSelector.select shuffled registry rest.filter rest.selection ∧
    cli.failFast = rest.failFast ∧ cli.retryFailed = rest.retryFailed

instance (shuffled : UInt64 → List TestMetadata → List TestMetadata) (registry : List TestMetadata)
    (config : Config) (request : SelectionRequest) : Decidable (request.SameRun shuffled registry config) :=
  inferInstanceAs (Decidable (_ ∧ _ ∧ _))

theorem select_eq_iff (shuffled : UInt64 → List TestMetadata → List TestMetadata) (registry : List TestMetadata)
    (first second : TestFilter) : TestSelector.select shuffled registry first {} =
      TestSelector.select shuffled registry second {} ↔
        ∀ metadata ∈ registry, first.accepts metadata = second.accepts metadata := by
  have member (filter : TestFilter) (metadata : TestMetadata) :
      metadata ∈ TestSelector.select shuffled registry filter {} ↔ metadata ∈ registry ∧ filter.accepts metadata := by
    simp only [TestSelector.select,TestSelector.shard,Bool.false_eq_true,if_false]
    rw [if_neg (by decide),List.mem_mergeSort,List.mem_filter]
  constructor
  · intro same metadata registered
    have both := member first metadata
    rw [same,member second metadata] at both
    rw [Bool.eq_iff_iff]
    simpa [registered] using both.symm
  · intro same
    have kept : registry.filter first.accepts = registry.filter second.accepts := List.filter_congr same
    simp only [TestSelector.select,kept]

/-- The filter of `testforge run`: the default exclusions stand in for a filter
without a criterion. -/
def effective (config : Config) (request : SelectionRequest) : TestFilter :=
  if request.divided.empty then
    { request.divided with excludeSuites := config.execution.excludeSuitesByDefault }
  else request.divided

theorem clamped_iff (n : Int32) : n = max 0 (min n 5) ↔ 0 ≤ n ∧ n ≤ 5 := by
  have unfolded : max 0 (min n 5) = if 0 ≤ (if n ≤ 5 then n else 5) then (if n ≤ 5 then n else 5) else 0 := rfl
  rw [unfolded]
  by_cases high : n ≤ 5
  · by_cases low : 0 ≤ n
    · simp [high,low]
    · simp only [high,low,if_true,if_false,and_true,iff_false]
      rintro rfl
      exact low (by decide)
  · rw [if_neg high,if_pos (by decide)]
    simp only [high,and_false,iff_false]
    rintro rfl
    exact high (by decide)

/-- The settings agree, and so do the filters on every registered test. -/
theorem sameRun_iff_accepts (shuffled : UInt64 → List TestMetadata → List TestMetadata) (registry : List TestMetadata)
    (config : Config) (request : SelectionRequest) : request.SameRun shuffled registry config ↔
      (request.failFast = none → config.execution.failFast = false) ∧
      (request.retryFailed = none → config.execution.retryFailed = 0) ∧
      (∀ n ∈ request.retryFailed, 0 ≤ n ∧ n ≤ 5) ∧
      ∀ metadata ∈ registry, (request.effective config).accepts metadata = request.listed.accepts metadata := by
  have selected := select_eq_iff shuffled registry (request.effective config) request.listed
  unfold SameRun Commands.runOptions RestApiServer.runOptions
  simp only [parse_arguments,filterFrom_parsed,selectionFrom_parsed,filterFromBody_body,flag_failFast,
    intValue_retryFailed,readFlag_failFast,boundedNumber_retryFailed,readFlag_shuffle]
  unfold effective at selected ⊢
  rw [selected]
  cases request.failFast <;> cases request.retryFailed <;> simp [clamped_iff]
  all_goals tauto

/-- An item that neither a comma nor a blank end gives away. -/
def Plain (item : Bytes) : Prop := item ≠ [] ∧ 44 ∉ item ∧ trim item = item

instance (item : Bytes) : Decidable (Plain item) := inferInstanceAs (Decidable (_ ∧ _ ∧ _))

theorem pieces_plain {item : Bytes} (plain : Plain item) : pieces item = [item] := by
  obtain ⟨nonempty,comma,trimmed⟩ := plain
  simp [pieces,split,List.splitOn_eq_singleton comma,nonempty,trimmed]

theorem flatMap_pieces_plain {items : List Bytes} (plain : ∀ item ∈ items, Plain item) : items.flatMap pieces = items := by
  induction items with
  | nil => rfl
  | cons item rest ih =>
    rw [List.flatMap_cons,pieces_plain (plain item (by simp)),ih fun other later => plain other (by simp [later])]
    rfl

theorem divided_plain (request : SelectionRequest) (plain : ∀ group ∈ request.lists, ∀ item ∈ group.2, Plain item) :
    request.divided = request.listed := by
  simp only [lists,List.forall_mem_cons] at plain
  obtain ⟨suites,tests,tags,excludeTags,excludeSuites,-⟩ := plain
  simp only [divided,listed,flatMap_pieces_plain suites,flatMap_pieces_plain tests,flatMap_pieces_plain tags,
    flatMap_pieces_plain excludeTags,flatMap_pieces_plain excludeSuites]

/-- The default exclusions of the configuration concern none of the registered tests. -/
def Spared (config : Config) (registry : List TestMetadata) : Prop :=
  ∀ metadata ∈ registry, metadata.enabled = true →
    matchesAnyGlob config.execution.excludeSuitesByDefault metadata.suite = false

/-- A filter without a criterion passes every enabled test, and with exclusions all but these. -/
theorem accepts_bare {filter : TestFilter} (bare : filter.empty = true) (enabled : filter.includeDisabled = false)
    (excluded : List Bytes) (metadata : TestMetadata) :
    filter.accepts metadata = metadata.enabled ∧
      { filter with excludeSuites := excluded }.accepts metadata =
        (metadata.enabled && !matchesAnyGlob excluded metadata.suite) := by
  obtain ⟨suites,names,tags,excludeTags,excludeSuites,includeDisabled⟩ := filter
  simp only [TestFilter.empty,Bool.and_eq_true,List.isEmpty_iff] at bare enabled
  obtain ⟨⟨⟨⟨rfl,rfl⟩,rfl⟩,rfl⟩,rfl⟩ := bare
  subst enabled
  cases enabled : metadata.enabled with
  | false => simp [TestFilter.accepts,enabled]
  | true =>
    cases hit : matchesAnyGlob excluded metadata.suite with
    | false => simp [TestFilter.accepts,enabled,hit]
    | true =>
      have nonempty : excluded ≠ [] := by
        rintro rfl
        cases hit
      simp [TestFilter.accepts,enabled,hit,nonempty]

/-- With plain items the filters part only over the default exclusions. -/
theorem accepts_plain_iff (registry : List TestMetadata) (config : Config) (request : SelectionRequest)
    (plain : ∀ group ∈ request.lists, ∀ item ∈ group.2, Plain item) :
    (∀ metadata ∈ registry, (request.effective config).accepts metadata = request.listed.accepts metadata) ↔
      request.listed.empty = false ∨ Spared config registry := by
  unfold effective
  rw [request.divided_plain plain]
  cases bare : request.listed.empty with
  | false => simp
  | true =>
    have known := accepts_bare bare rfl config.execution.excludeSuitesByDefault
    simp only [if_true,reduceCtorEq,false_or]
    refine forall₂_congr fun metadata _ => ?_
    rw [(known metadata).1,(known metadata).2]
    cases metadata.enabled <;> simp

/-- Where no item is cut up, the front ends run the same exactly when the options that are left out
are off in the configuration, the retries are in bounds, and a request without a criterion meets no
test of an excluded suite. -/
theorem sameRun_iff (shuffled : UInt64 → List TestMetadata → List TestMetadata) (registry : List TestMetadata)
    (config : Config) (request : SelectionRequest)
    (plain : ∀ group ∈ request.lists, ∀ item ∈ group.2, Plain item) : request.SameRun shuffled registry config ↔
      (request.failFast = none → config.execution.failFast = false) ∧
      (request.retryFailed = none → config.execution.retryFailed = 0) ∧
      (∀ n ∈ request.retryFailed, 0 ≤ n ∧ n ≤ 5) ∧
      (request.listed.empty = false ∨ Spared config registry) := by
  rw [sameRun_iff_accepts,accepts_plain_iff registry config request plain]

/-- Two suites without the slow tests. -/
def apiRequest : SelectionRequest where
  suites := [ascii "api",ascii "db*"]
  excludeTags := [ascii "slow"]
  retryFailed := some 2

def apiTests : List TestMetadata :=
  [{ name := ascii "login", suite := ascii "api" },{ name := ascii "dump", suite := ascii "db", tags := [ascii "slow"] }]

theorem sameRun_apiRequest : apiRequest.SameRun (fun _ tests => tests) apiTests {} ∧
    (TestSelector.select (fun _ tests => tests) apiTests apiRequest.listed {}).length = 1 := by
  refine ⟨(sameRun_iff _ apiTests {} apiRequest ?_).mpr ⟨fun _ => rfl,fun _ => rfl,?_,.inl rfl⟩,by decide +kernel⟩
  · simp only [apiRequest,lists,List.forall_mem_cons,List.not_mem_nil,false_implies,implies_true,and_true,true_and]
    exact ⟨⟨by decide,by decide⟩,by decide⟩
  · rintro n found
    cases found
    decide

/-- A bare run against an empty body, with the default configuration. -/
theorem bareRuns_differ : ¬SameRun (fun _ tests => tests)
    [{ name := ascii "always_fails", suite := ascii "failure_injection" }] {} {} := by
  decide +kernel

end SelectionRequest

end TestForge
