import TestForge.RunCounts
import TestForge.RunJson
import TestForge.Sharding

/-! The tool that rolls reports into one. Over the reports that the shards of a selection have
written it counts what the report of the whole selection would have counted, and finds the same
failures. Reports that no engine has written are left out where the tool would throw on them. -/
namespace Sequence

variable {ι α : Type} [DecidableEq ι] (key : α → ι) (items : List α)

/-- The members of a list that have a place in the drawers, one drawer after the other. -/
theorem flatMap_filter_perm_filter (drawers : List ι) (distinct : drawers.Nodup) :
    (drawers.flatMap fun drawer => items.filter (key · = drawer)).Perm (items.filter (key · ∈ drawers)) := by
  induction drawers with
  | nil => simp
  | cons drawer rest ih =>
    obtain ⟨fresh,others⟩ := List.nodup_cons.mp distinct
    have first : (items.filter (key · ∈ drawer :: rest)).filter (key · = drawer) = items.filter (key · = drawer) := by
      rw [List.filter_filter]
      apply List.filter_congr
      intro x _
      by_cases here : key x = drawer <;> simp [here]
    have later : (items.filter (key · ∈ drawer :: rest)).filter (fun x => !decide (key x = drawer)) =
        items.filter (key · ∈ rest) := by
      rw [List.filter_filter]
      apply List.filter_congr
      intro x _
      by_cases here : key x = drawer
      · simp [here,fresh]
      · simp [here]
    have split := List.filter_append_perm (fun x => decide (key x = drawer)) (items.filter (key · ∈ drawer :: rest))
    rw [first,later] at split
    exact ((ih others).append_left _).trans split

/-- Every member has its place. -/
theorem flatMap_filter_perm (drawers : List ι) (distinct : drawers.Nodup) (placed : ∀ x ∈ items, key x ∈ drawers) :
    (drawers.flatMap fun drawer => items.filter (key · = drawer)).Perm items := by
  have all : items.filter (key · ∈ drawers) = items := List.filter_eq_self.mpr fun x member => by simp [placed x member]
  simpa only [all] using flatMap_filter_perm_filter key items drawers distinct

end Sequence

namespace TestForge

open Json Strings

namespace SummarizeReports

/-- A `Counter` over texts; what was never counted is 0. -/
abbrev Counter := Bytes → Nat

def Counter.increment (totals : Counter) (key : Bytes) : Counter :=
  fun other => totals other + if other = key then 1 else 0

/-- What counts as true. -/
def truthy : Value → Bool
  | .null => false
  | .bool value => value
  | .int value => value ≠ 0
  | .double value => value.units ≠ 0 || !value.isFinite
  | .string value => value ≠ []
  | .array items => items ≠ []
  | .object members => members ≠ []

structure Merged where
  totals : Counter := fun _ => 0
  failures : List Value := []

def failing : List Bytes := [ascii "FAILED",ascii "ERROR",ascii "TIMEOUT"]

/-- One turn over the results; nothing for what is no object, and for a status that is no text. -/
def Merged.add (merged : Merged) (result : Value) : Option Merged :=
  match result with
  | .object _ =>
    match (result.find (ascii "status")).getD (.string (ascii "ERROR")) with
    | .string status =>
      let totals := (merged.totals.increment status).increment (ascii "TOTAL")
      some {
        failures := if status ∈ failing then merged.failures ++ [result] else merged.failures
        totals :=
          if truthy ((result.find (ascii "flaky_candidate")).getD .null) then totals.increment (ascii "FLAKY") else totals }
    | _ => none
  | _ => none

def results (report : Value) : Option (List Value) :=
  match report with
  | .object _ =>
    match report.find (ascii "results") with
    | none => some []
    | some (.array items) => some items
    | some _ => none
  | _ => none

def merge (reports : List Value) : Option Merged :=
  reports.foldlM (fun merged report => (results report).bind fun items => items.foldlM Merged.add merged) {}

def successRate (totals : Counter) : Double :=
  let considered : Int := totals (ascii "TOTAL") - totals (ascii "SKIPPED")
  if considered ≤ 0 then Double.ofInt 0
  else ((Double.ofInt 100).mul (Double.ofInt (totals (ascii "PASSED")))).div (Double.ofInt considered)

/-- What `main` returns behind the reports it could read. -/
def exitCode (reports : List Value) (failOnFailures : Bool) : Option Nat :=
  if reports = [] then some 2
  else (merge reports).map fun merged => if failOnFailures && merged.failures ≠ [] then 1 else 0

/-- What a reader of the report of a run has in hand. -/
def reportOf (run : TestRun) : Value := run.toJson.reread

def told (result : TestResult) : Value := result.toJson.reread

/-- What is counted under a key for some results. -/
def counted (items : List TestResult) (key : Bytes) : Nat :=
  (items.countP fun result => result.status.toString = key) + (if key = ascii "TOTAL" then items.length else 0) +
    if key = ascii "FLAKY" then items.countP (·.flakyCandidate) else 0

def summary (items : List TestResult) : Merged where
  totals := counted items
  failures := (items.filter (·.status.isFailure)).map told

/-! ### The reports of runs -/

theorem told_eq (result : TestResult) :
    told result = .object (result.members.map fun member => (member.1,member.2.reread)) := by
  rw [told,TestResult.toJson_eq,Value.reread_object _ result.members_distinct]

theorem find_status (result : TestResult) :
    (told result).find (ascii "status") = some (.string result.status.toString) := by
  rw [told_eq]
  rfl

theorem find_flaky (result : TestResult) :
    (told result).find (ascii "flaky_candidate") = some (.bool result.flakyCandidate) := by
  rw [told_eq]
  rfl

theorem failing_toString (status : TestStatus) : status.toString ∈ failing ↔ status.isFailure = true := by
  cases status <;> decide

theorem counted_append (items : List TestResult) (result : TestResult) :
    counted (items ++ [result]) =
      if result.flakyCandidate then
        Counter.increment (Counter.increment (Counter.increment (counted items) result.status.toString) (ascii "TOTAL"))
          (ascii "FLAKY")
      else Counter.increment (Counter.increment (counted items) result.status.toString) (ascii "TOTAL") := by
  funext key
  have same : (key = result.status.toString) = (result.status.toString = key) := propext eq_comm
  cases flaky : result.flakyCandidate <;>
    simp only [Counter.increment,counted,List.countP_append,List.countP_singleton,List.length_append,
      List.length_singleton,flaky,same,decide_eq_true_eq,if_true,if_false,Bool.false_eq_true] <;>
    split <;> split <;> split <;> omega

/-- One more result counts. -/
theorem add_told (items : List TestResult) (result : TestResult) :
    (summary items).add (told result) = some (summary (items ++ [result])) := by
  obtain ⟨members,form⟩ : ∃ members, told result = .object members := ⟨_,told_eq result⟩
  have status := find_status result
  have flaky := find_flaky result
  have failures : (if result.status.toString ∈ failing then (summary items).failures ++ [told result]
      else (summary items).failures) = (summary (items ++ [result])).failures := by
    cases red : result.status.isFailure <;> simp [failing_toString,red,summary]
  rw [form] at status flaky failures
  simp only [form,Merged.add,status,flaky,Option.getD_some,failures,truthy]
  rw [summary,summary,counted_append]

theorem foldlM_told (items others : List TestResult) :
    (others.map told).foldlM Merged.add (summary items) = some (summary (items ++ others)) := by
  induction others generalizing items with
  | nil => simp
  | cons result rest ih =>
    rw [List.map_cons,List.foldlM_cons,add_told]
    simpa using ih (items ++ [result])

theorem results_reportOf (run : TestRun) : results (reportOf run) = some (run.results.map told) := by
  have distinct : ((run.summaryMembers ++ [(ascii "environment",run.environment),
      (ascii "results",Value.array (run.results.map TestResult.toJson))]).map (·.1)).Nodup := by
    simp only [TestRun.summaryMembers,List.map_append,List.map_cons,List.map_nil]
    decide
  have read := Value.reread_object _ distinct
  rw [← run.toJson_eq] at read
  have items : (Value.array (run.results.map TestResult.toJson)).reread = .array (run.results.map told) := by
    rw [Value.reread,Value.rereadItems_eq,List.map_map]
    rfl
  have found : (reportOf run).find (ascii "results") = some (.array (run.results.map told)) := by
    rw [reportOf,read,← items]
    rfl
  obtain ⟨members,form⟩ : ∃ members, reportOf run = .object members := ⟨_,read⟩
  rw [form] at found
  simp only [form,results,found]

/-- The reports of runs are never refused, and they count as all their results together. -/
theorem merge_reports (runs : List TestRun) : merge (runs.map reportOf) = some (summary (runs.flatMap (·.results))) := by
  have folded : ∀ items, (runs.map reportOf).foldlM
      (fun merged report => (results report).bind fun items => items.foldlM Merged.add merged) (summary items) =
        some (summary (items ++ runs.flatMap (·.results))) := by
    induction runs with
    | nil => simp
    | cons run rest ih =>
      intro items
      rw [List.map_cons,List.foldlM_cons,results_reportOf,Option.bind_some,foldlM_told]
      simpa using ih (items ++ run.results)
  have empty : ({} : Merged) = summary [] := by
    rw [summary]
    congr 1
    funext key
    simp [counted]
  rw [merge,empty]
  exact folded []

/-! ### What the summary depends on -/

theorem counted_perm {a b : List TestResult} (perm : a.Perm b) : counted a = counted b := by
  funext key
  simp only [counted,perm.countP_eq,perm.length_eq]

/-- The key of all results and that of the flaky ones are no status. -/
theorem counted_total (items : List TestResult) : counted items (ascii "TOTAL") = items.length := by
  have none : (items.countP fun result => result.status.toString = ascii "TOTAL") = 0 := by
    apply List.countP_eq_zero.mpr
    intro result _
    cases result.status <;> decide
  have apart : ascii "TOTAL" ≠ ascii "FLAKY" := by decide
  simp [counted,none,apart]

theorem counted_status (items : List TestResult) (status : TestStatus) :
    counted items status.toString = items.countP fun result => result.status = status := by
  have apart : status.toString ≠ ascii "TOTAL" ∧ status.toString ≠ ascii "FLAKY" := by cases status <;> decide
  have same : (fun result : TestResult => decide (result.status.toString = status.toString)) =
      fun result => decide (result.status = status) := by
    funext result
    cases result.status <;> cases status <;> rfl
  simp [counted,apart,same]

/-- The tool and the engine compute one success rate. -/
theorem successRate_counted (items : List TestResult) (wall : Int) :
    successRate (counted items) = (RunStatistics.compute items wall).successRate := by
  have passed := RunStatistics.compute_count items wall .passed
  have skipped := RunStatistics.compute_count items wall .skipped
  rw [← counted_status] at passed skipped
  simp only [RunStatistics.count] at passed skipped
  simp only [successRate,RunStatistics.successRate,counted_total,RunStatistics.compute_total,passed,skipped]
  rfl

/-! ### The shards -/

open TestSelector

variable {Factory : Type} (shuffled : UInt64 → List TestMetadata → List TestMetadata) (filter : TestFilter)

theorem shardSelection_filter (registry : TestRegistry Factory) (seed : UInt64) {count : Int32} (positive : 1 ≤ count)
    (index : Int32) (low : 0 ≤ index) (high : index < count) :
    shardSelection shuffled filter registry seed count index =
      (wholeSelection shuffled filter registry seed).filter fun test => Int32.ofNat (residue count test) = index := by
  have zero : (0 : Int32).toInt = 0 := by decide
  have unit : (1 : Int32).toInt = 1 := by decide
  have one := Int32.le_iff_toInt_le.mp positive
  have low := Int32.le_iff_toInt_le.mp low
  have high := Int32.lt_iff_toInt_lt.mp high
  have wide := count.toInt_lt
  have small : index.toInt.toNat % count.toInt.toNat = index.toInt.toNat := Nat.mod_eq_of_lt (by omega)
  have drawer (test : TestMetadata) : Int32.ofNat (residue count test) = index ↔ residue count test = index.toInt.toNat := by
    have below : residue count test < count.toInt.toNat := Nat.mod_lt _ (by omega)
    rw [← Int32.toInt_inj,Int32.toInt_ofNat_of_lt (by omega)]
    omega
  rw [shardSelection_eq,wholeSelection_eq,shard]
  simp only [drawer]
  split
  · simp only [small]
    rfl
  · next single =>
    have upper : ¬(1 : Int32).toInt < count.toInt := fun many => single (Int32.lt_iff_toInt_lt.mpr many)
    refine (List.filter_eq_self.mpr fun test _ => ?_).symm
    have below : residue count test < count.toInt.toNat := Nat.mod_lt _ (by omega)
    exact decide_eq_true (by omega)

/-- Every index once, in any order. -/
structure AllShards (count : Int32) (indices : List Int32) : Prop where
  distinct : indices.Nodup
  all : ∀ index, index ∈ indices ↔ 0 ≤ index ∧ index < count

theorem shards_perm (registry : TestRegistry Factory) (seed : UInt64) {count : Int32} (positive : 1 ≤ count)
    {indices : List Int32} (shards : AllShards count indices) :
    (indices.flatMap (shardSelection shuffled filter registry seed count)).Perm
      (wholeSelection shuffled filter registry seed) := by
  have unit : (1 : Int32).toInt = 1 := by decide
  have zero : (0 : Int32).toInt = 0 := by decide
  have one := Int32.le_iff_toInt_le.mp positive
  have wide := count.toInt_lt
  have drawers : (indices.flatMap (shardSelection shuffled filter registry seed count)) = indices.flatMap fun index =>
      (wholeSelection shuffled filter registry seed).filter fun test => Int32.ofNat (residue count test) = index := by
    apply List.flatMap_congr
    intro index listed
    obtain ⟨low,high⟩ := (shards.all index).mp listed
    exact shardSelection_filter shuffled filter registry seed positive index low high
  rw [drawers]
  apply Sequence.flatMap_filter_perm _ _ _ shards.distinct
  intro test _
  have below : residue count test < count.toInt.toNat := Nat.mod_lt _ (by omega)
  have number : (Int32.ofNat (residue count test)).toInt = residue count test := Int32.toInt_ofNat_of_lt (by omega)
  exact (shards.all _).mpr ⟨Int32.le_iff_toInt_le.mpr (by omega),Int32.lt_iff_toInt_lt.mpr (by omega)⟩

/-- The reports of all shards, whatever their order and that of the results in them, are summed up
to what the report of the whole selection is summed up to. -/
theorem merge_shards (registry : TestRegistry Factory) (seed : UInt64) (count : Int32) (positive : 1 ≤ count)
    (outcome : TestMetadata → TestResult) (shards : List (Int32 × TestRun)) (complete : AllShards count (shards.map (·.1)))
    (ran : ∀ shard ∈ shards,
      shard.2.results.Perm ((shardSelection shuffled filter registry seed count shard.1).map outcome))
    (whole : TestRun) (wholeRan : whole.results.Perm ((wholeSelection shuffled filter registry seed).map outcome)) :
    ∃ merged alone, merge (shards.map (reportOf ·.2)) = some merged ∧ merge [reportOf whole] = some alone ∧
      merged.totals = alone.totals ∧ merged.failures.Perm alone.failures ∧
      successRate merged.totals = whole.statistics.successRate ∧
      ∀ failOnFailures, exitCode (shards.map (reportOf ·.2)) failOnFailures = exitCode [reportOf whole] failOnFailures := by
  have together : ((shards.map (·.2)).flatMap (·.results)).Perm whole.results := by
    calc ((shards.map (·.2)).flatMap (·.results)).Perm
          (shards.flatMap fun shard => (shardSelection shuffled filter registry seed count shard.1).map outcome) := by
          rw [List.flatMap_map]
          exact List.Perm.flatMap_left _ ran
      _ = ((shards.map (·.1)).flatMap (shardSelection shuffled filter registry seed count)).map outcome := by
          rw [List.flatMap_map,List.map_flatMap]
      List.Perm _ ((wholeSelection shuffled filter registry seed).map outcome) :=
          (shards_perm shuffled filter registry seed positive complete).map outcome
      List.Perm _ whole.results := wholeRan.symm
  have merged : merge (shards.map (reportOf ·.2)) = some (summary ((shards.map (·.2)).flatMap (·.results))) := by
    rw [← merge_reports,List.map_map]
    rfl
  have alone : merge [reportOf whole] = some (summary whole.results) := by
    simpa using merge_reports [whole]
  have failures : (summary ((shards.map (·.2)).flatMap (·.results))).failures.Perm (summary whole.results).failures :=
    (together.filter _).map told
  have present : shards.map (reportOf ·.2) ≠ [] := by
    have first : (0 : Int32) ∈ shards.map (·.1) :=
      (complete.all 0).mpr ⟨by decide,Int32.lt_iff_toInt_lt.mpr (by
        have unit : (1 : Int32).toInt = 1 := by decide
        have zero : (0 : Int32).toInt = 0 := by decide
        have one := Int32.le_iff_toInt_le.mp positive
        omega)⟩
    intro empty
    rw [List.map_eq_nil_iff] at empty
    simp [empty] at first
  refine ⟨_,_,merged,alone,counted_perm together,failures,?_,fun failOnFailures => ?_⟩
  · rw [summary,counted_perm together]
    exact successRate_counted whole.results whole.duration
  · have green : (summary ((shards.map (·.2)).flatMap (·.results))).failures = [] ↔ (summary whole.results).failures = [] :=
      ⟨fun none => List.perm_nil.mp (none ▸ failures.symm),fun none => List.perm_nil.mp (none ▸ failures)⟩
    simp [exitCode,present,merged,alone,green]

/-- The first of three tests fails; there are two shards, and their reports come in reverse. -/
def failingFirst (test : TestMetadata) : TestResult where
  testName := test.name
  status := if test.name = ascii "a" then .failed else .passed

def shardRun (index : Int32) : TestRun where
  results := (shardSelection (fun _ tests => tests) {} threeTests 0 2 index).map failingFirst

theorem merge_shards_threeTests : ∃ merged alone,
    merge ([(1,shardRun 1),(0,shardRun 0)].map (reportOf ·.2) : List Value) = some merged ∧
    merge [reportOf { results := (wholeSelection (fun _ tests => tests) {} threeTests 0).map failingFirst }] = some alone ∧
    merged.totals = alone.totals := by
  have complete : AllShards 2 ([((1 : Int32),shardRun 1),(0,shardRun 0)].map (·.1)) := by
    have zero : (0 : Int32).toInt = 0 := by decide
    have unit : (1 : Int32).toInt = 1 := by decide
    have two : (2 : Int32).toInt = 2 := by decide
    refine ⟨by decide,fun index => ?_⟩
    simp only [List.map_cons,List.map_nil,List.mem_cons,List.not_mem_nil,or_false,← Int32.toInt_inj,
      Int32.le_iff_toInt_le,Int32.lt_iff_toInt_lt,zero,unit,two]
    omega
  obtain ⟨merged,alone,first,second,same,-⟩ := merge_shards (fun _ tests => tests) {} threeTests 0 2 (by decide) failingFirst
    [(1,shardRun 1),(0,shardRun 0)] complete (by simp [shardRun]) { results := _ } (.refl _)
  exact ⟨merged,alone,first,second,same⟩

end SummarizeReports
end TestForge
