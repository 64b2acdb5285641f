import TestForge.JUnitReporter
import TestForge.RunCounts
import TestForge.XmlCharacters

/-! The JUnit report read as XML: one tree, in which every text of the run is the value of its own attribute
or the content of its own element. -/
namespace TestForge.JUnitReporter

open Markup (Attributes Dialect Node Shape Spells)
open Strings

/-! ### What the tree counts -/

structure Counts where
  tests : Nat := 0
  failures : Nat := 0
  errors : Nat := 0
  skipped : Nat := 0

namespace Counts

instance : Zero Counts := ⟨{}⟩

instance : Add Counts where
  add a b := ⟨a.tests + b.tests,a.failures + b.failures,a.errors + b.errors,a.skipped + b.skipped⟩

def of (results : List TestResult) : Counts where
  tests := results.length
  failures := results.countP (·.status = .failed)
  errors := results.countP fun result => result.status = .error ∨ result.status = .timeout
  skipped := results.countP (·.status = .skipped)

def attributes (counts : Counts) : Attributes := [
  (ascii "tests",decimal counts.tests),
  (ascii "failures",decimal counts.failures),
  (ascii "errors",decimal counts.errors),
  (ascii "skipped",decimal counts.skipped)]

theorem of_append (front back : List TestResult) : of (front ++ back) = of front + of back := by
  have parts : of front + of back = ⟨(of front).tests + (of back).tests,(of front).failures + (of back).failures,
    (of front).errors + (of back).errors,(of front).skipped + (of back).skipped⟩ := rfl
  rw [parts]
  simp only [of,List.length_append,List.countP_append]

theorem of_perm {a b : List TestResult} (perm : a.Perm b) : of a = of b := by
  simp only [of,perm.length_eq,perm.countP_eq]

theorem of_flatMap (groups : List (Bytes × List TestResult)) :
    of (groups.flatMap (·.2)) = (groups.map fun group => of group.2).sum := by
  induction groups with
  | nil => rfl
  | cons group rest ih => rw [List.flatMap_cons,of_append,ih,List.map_cons,List.sum_cons]

/-- The counts of the suites add up to the counts of the run. -/
theorem of_bySuite (results : List TestResult) :
    of results = ((bySuite results).map fun suite => of suite.2).sum := by
  rw [← of_flatMap]
  exact of_perm (SortedTable.perm_gather results).symm

end Counts

theorem foldl_add (results : List TestResult) (counts : SuiteCounts) :
    results.foldl SuiteCounts.add counts = {
      failures := counts.failures + (Counts.of results).failures
      errors := counts.errors + (Counts.of results).errors
      skipped := counts.skipped + (Counts.of results).skipped
      totalMs := counts.totalMs + (results.map (·.duration)).sum } := by
  induction results generalizing counts with
  | nil => simp [Counts.of]
  | cons result rest ih =>
    rw [List.foldl_cons,ih]
    cases status : result.status <;>
      simp [SuiteCounts.add,Counts.of,status] <;> omega

theorem statistics_counts (run : TestRun) :
    (⟨run.statistics.total,run.statistics.failed,run.statistics.errors + run.statistics.timeouts,
      run.statistics.skipped⟩ : Counts) = Counts.of run.results := by
  have count := RunStatistics.compute_count run.results run.duration
  have failed := count .failed
  have errors := count .error
  have timeouts := count .timeout
  have skipped := count .skipped
  have both : run.results.countP (fun result => result.status = .error ∨ result.status = .timeout) =
      run.results.countP (fun result => result.status = .error) +
        run.results.countP (fun result => result.status = .timeout) := by
    induction run.results with
    | nil => rfl
    | cons result rest ih =>
      rw [List.countP_cons,List.countP_cons,List.countP_cons,ih]
      cases result.status <;> simp <;> omega
  have total := RunStatistics.compute_total run.results run.duration
  simp only [RunStatistics.count] at failed errors timeouts skipped
  simp only [Counts.of,TestRun.statistics,total,failed,errors,timeouts,skipped,both]

/-! ### The tree -/

def characters (text : Bytes) : List Node := text.map .character

def detail (result : TestResult) : Bytes := if result.errorDetail = [] then result.errorMessage else result.errorDetail

def failureNode (tag : Bytes) (result : TestResult) : Node :=
  .element tag [
    (ascii "type",xmlText result.failureCategory.toString),
    (ascii "message",xmlText result.errorMessage)] (characters (xmlText (detail result)))

/-- The element for the status, by itself on a line. -/
def statusNode (result : TestResult) : Option Node :=
  match result.status with
  | .failed => some (failureNode (ascii "failure") result)
  | .error | .timeout => some (failureNode (ascii "error") result)
  | .skipped => some (.element (ascii "skipped") [(ascii "message",xmlText result.errorMessage)] [])
  | .passed => none

def logsNode (result : TestResult) : Option Node :=
  if result.logs = [] then none
  else some (.element (ascii "system-out") [] (characters (result.logs.flatMap fun line => xmlText line ++ [10])))

/-- An element on a line of its own. -/
def onLine (indent : String) (node : Node) : List Node := characters (ascii indent) ++ [node] ++ characters [10]

def caseNode (suiteName : Bytes) (result : TestResult) : Node :=
  .element (ascii "testcase") [
    (ascii "name",xmlText result.testName),
    (ascii "classname",xmlText suiteName),
    (ascii "time",seconds result.duration)]
    (characters [10] ++ (statusNode result).toList.flatMap (onLine "      ") ++
      (logsNode result).toList.flatMap (onLine "      ") ++ characters (ascii "    "))

def suiteNode (run : TestRun) (suite : Bytes × List TestResult) : Node :=
  .element (ascii "testsuite") ((ascii "name",xmlText suite.1) :: (Counts.of suite.2).attributes ++ [
    (ascii "time",seconds (suite.2.map (·.duration)).sum),
    (ascii "timestamp",xmlText (Clock.toIso8601 run.startedAt)),
    (ascii "hostname",xmlText run.hostname)])
    (characters [10] ++ (suite.2.map (caseNode suite.1)).flatMap (onLine "    ") ++ characters (ascii "  "))

def report (run : TestRun) : Node :=
  .element (ascii "testsuites") ((ascii "name",ascii "TestForge") :: (Counts.of run.results).attributes ++ [
    (ascii "time",seconds run.duration)])
    (characters [10] ++ ((bySuite run.results).map (suiteNode run)).flatMap (onLine "  "))

/-! ### The report is written as that tree -/

theorem means_decimal (n : Nat) : Dialect.Means xml (decimal n) (decimal n) :=
  Dialect.means_plain fun c member => plain_number permits_xml_above (number_decimal n c member)

theorem means_seconds (duration : Int) : Dialect.Means xml (seconds duration) (seconds duration) :=
  Dialect.means_plain fun c member => plain_number permits_xml_above (number_fixed 3 _ c member)

theorem spells_literal (text : Bytes) (plain : text.all (fun c => c != 60 && c != 38 && xml.permits c) = true) :
    Spells xml text (characters text) :=
  Spells.plain (Dialect.plain_of_all plain)

/-- An element on its line, when the element is spelled. -/
theorem spells_onLine (indent : String) {text : Bytes} {node : Node}
    (plain : (ascii indent).all (fun c => c != 60 && c != 38 && xml.permits c) = true) (spells : Spells xml text [node]) :
    Spells xml (ascii indent ++ text ++ [10]) (onLine indent node) :=
  ((spells_literal _ plain).append spells).append (spells_literal [10] rfl)

theorem spells_failure (tag : Bytes) (named : Dialect.isName tag = true) (result : TestResult) :
    Spells xml (60 :: tag ++ Dialect.attributesText [
      (ascii "type",escapeXml result.failureCategory.toString),(ascii "message",escapeXml result.errorMessage)] ++ [62] ++
      escapeXml (detail result) ++ (60 :: 47 :: tag ++ [62])) [failureNode tag result] := by
  refine Spells.element named rfl ?_ ?_ (spells_escapeXml _)
  · exact .cons ⟨rfl,rfl,means_escapeXml _⟩ (.cons ⟨rfl,rfl,means_escapeXml _⟩ .nil)
  · exact (by decide : [ascii "type",ascii "message"].Nodup)

theorem spells_status (result : TestResult) :
    Spells xml (renderStatus result) ((statusNode result).toList.flatMap (onLine "      ")) := by
  have line : ∀ {text : Bytes} {node : Node}, Spells xml text [node] → renderStatus result = ascii "      " ++ text ++ [10] →
      statusNode result = some node →
        Spells xml (renderStatus result) ((statusNode result).toList.flatMap (onLine "      ")) := by
    intro text node spells rendered known
    rw [rendered,known,Option.toList_some,List.flatMap_singleton]
    exact spells_onLine _ rfl spells
  cases status : result.status with
  | passed =>
    have none : renderStatus result = [] ∧ statusNode result = none := by
      simp only [renderStatus,statusNode,status,and_self]
    rw [none.1,none.2]
    exact Spells.nil
  | failed =>
    refine line (spells_failure (ascii "failure") rfl result) ?_ (by simp only [statusNode,status])
    simp only [renderStatus,status,Dialect.attributesText,List.flatMap_cons,List.flatMap_nil,List.append_assoc,
      List.cons_append,List.append_nil,List.nil_append]
    rfl
  | error =>
    refine line (spells_failure (ascii "error") rfl result) ?_ (by simp only [statusNode,status])
    simp only [renderStatus,status,Dialect.attributesText,List.flatMap_cons,List.flatMap_nil,List.append_assoc,
      List.cons_append,List.append_nil,List.nil_append]
    rfl
  | timeout =>
    refine line (spells_failure (ascii "error") rfl result) ?_ (by simp only [statusNode,status])
    simp only [renderStatus,status,Dialect.attributesText,List.flatMap_cons,List.flatMap_nil,List.append_assoc,
      List.cons_append,List.append_nil,List.nil_append]
    rfl
  | skipped =>
    have spells : Spells xml (60 :: ascii "skipped" ++ Dialect.attributesText
        [(ascii "message",escapeXml result.errorMessage)] ++
        [47,62]) [.element (ascii "skipped") [(ascii "message",xmlText result.errorMessage)] []] :=
      Spells.single rfl (.cons ⟨rfl,rfl,means_escapeXml _⟩ .nil) (List.nodup_singleton _)
    refine line spells ?_ (by simp only [statusNode,status])
    simp only [renderStatus,status,Dialect.attributesText,List.flatMap_cons,List.flatMap_nil,List.append_assoc,
      List.cons_append,List.append_nil,List.nil_append]
    rfl

theorem spells_logs (result : TestResult) :
    Spells xml (renderLogs result) ((logsNode result).toList.flatMap (onLine "      ")) := by
  rw [renderLogs,logsNode]
  split
  · exact Spells.nil
  · have lines : Spells xml (result.logs.flatMap fun line => escapeXml line ++ [10])
        (characters (result.logs.flatMap fun line => xmlText line ++ [10])) := by
      rw [characters,List.map_flatMap]
      refine Spells.flatMap fun line _ => ?_
      rw [List.map_append]
      exact (spells_escapeXml line).append (spells_literal [10] rfl)
    have spells : Spells xml (60 :: ascii "system-out" ++ Dialect.attributesText [] ++ [62] ++
        (result.logs.flatMap fun line => escapeXml line ++ [10]) ++ (60 :: 47 :: ascii "system-out" ++ [62]))
        [.element (ascii "system-out") [] (characters (result.logs.flatMap fun line => xmlText line ++ [10]))] :=
      Spells.element rfl rfl .nil List.nodup_nil lines
    rw [Option.toList_some,List.flatMap_singleton]
    have whole := spells_onLine "      " rfl spells
    simp only [List.append_assoc,List.cons_append] at whole ⊢
    exact whole

/-- The tags of a test case as the report writes them. -/
theorem case_text (name classname time status logs : Bytes) :
    ascii "    <testcase name=\"" ++ name ++ ascii "\" classname=\"" ++ classname ++ ascii "\" time=\"" ++ time ++
      ascii "\">\n" ++ status ++ logs ++ ascii "    </testcase>\n" =
    ascii "    " ++ (60 :: ascii "testcase" ++ Dialect.attributesText [
      (ascii "name",name),(ascii "classname",classname),(ascii "time",time)] ++ [62] ++
      ([10] ++ status ++ logs ++ ascii "    ") ++ (60 :: 47 :: ascii "testcase" ++ [62])) ++ [10] := by
  simp only [Dialect.attributesText,List.flatMap_cons,List.flatMap_nil,List.append_assoc,List.cons_append,
    List.append_nil,List.nil_append]
  rfl

theorem spells_case (suiteName : Bytes) (result : TestResult) :
    Spells xml (renderCase suiteName result) (onLine "    " (caseNode suiteName result)) := by
  have inside := (((spells_literal [10] rfl).append (spells_status result)).append (spells_logs result)).append
    (spells_literal (ascii "    ") rfl)
  have element : Spells xml (60 :: ascii "testcase" ++ Dialect.attributesText [
      (ascii "name",escapeXml result.testName),(ascii "classname",escapeXml suiteName),
      (ascii "time",seconds result.duration)] ++ [62] ++
      ([10] ++ renderStatus result ++ renderLogs result ++ ascii "    ") ++ (60 :: 47 :: ascii "testcase" ++ [62]))
      [caseNode suiteName result] := by
    refine Spells.element rfl rfl ?_ ?_ inside
    · exact .cons ⟨rfl,rfl,means_escapeXml _⟩ (.cons ⟨rfl,rfl,means_escapeXml _⟩ (.cons ⟨rfl,rfl,means_seconds _⟩ .nil))
    · exact (by decide : [ascii "name",ascii "classname",ascii "time"].Nodup)
  rw [renderCase,case_text]
  exact spells_onLine "    " rfl element

theorem suite_text (name tests failures errors skipped time timestamp hostname cases : Bytes) :
    ascii "  <testsuite name=\"" ++ name ++ ascii "\" tests=\"" ++ tests ++ ascii "\" failures=\"" ++ failures ++
      ascii "\" errors=\"" ++ errors ++ ascii "\" skipped=\"" ++ skipped ++ ascii "\" time=\"" ++ time ++
      ascii "\" timestamp=\"" ++ timestamp ++ ascii "\" hostname=\"" ++ hostname ++ ascii "\">\n" ++ cases ++
      ascii "  </testsuite>\n" =
    ascii "  " ++ (60 :: ascii "testsuite" ++ Dialect.attributesText [
      (ascii "name",name),(ascii "tests",tests),(ascii "failures",failures),(ascii "errors",errors),
      (ascii "skipped",skipped),(ascii "time",time),(ascii "timestamp",timestamp),(ascii "hostname",hostname)] ++ [62] ++
      ([10] ++ cases ++ ascii "  ") ++ (60 :: 47 :: ascii "testsuite" ++ [62])) ++ [10] := by
  simp only [Dialect.attributesText,List.flatMap_cons,List.flatMap_nil,List.append_assoc,List.cons_append,
    List.append_nil,List.nil_append]
  rfl

theorem spells_suite (run : TestRun) (suite : Bytes × List TestResult) :
    Spells xml (renderSuite run suite) (onLine "  " (suiteNode run suite)) := by
  have cases : Spells xml (suite.2.flatMap (renderCase suite.1))
      ((suite.2.map (caseNode suite.1)).flatMap (onLine "    ")) := by
    rw [List.flatMap_map]
    exact Spells.flatMap fun result _ => spells_case suite.1 result
  have inside := ((spells_literal [10] rfl).append cases).append (spells_literal (ascii "  ") rfl)
  have counted : suite.2.foldl SuiteCounts.add {} = {
      failures := (Counts.of suite.2).failures
      errors := (Counts.of suite.2).errors
      skipped := (Counts.of suite.2).skipped
      totalMs := (suite.2.map (·.duration)).sum } := by
    rw [foldl_add,Nat.zero_add,Nat.zero_add,Nat.zero_add,Int.zero_add]
  have element : Spells xml (60 :: ascii "testsuite" ++ Dialect.attributesText [
      (ascii "name",escapeXml suite.1),(ascii "tests",decimal suite.2.length),
      (ascii "failures",decimal (Counts.of suite.2).failures),(ascii "errors",decimal (Counts.of suite.2).errors),
      (ascii "skipped",decimal (Counts.of suite.2).skipped),(ascii "time",seconds (suite.2.map (·.duration)).sum),
      (ascii "timestamp",escapeXml (Clock.toIso8601 run.startedAt)),(ascii "hostname",escapeXml run.hostname)] ++ [62] ++
      ([10] ++ suite.2.flatMap (renderCase suite.1) ++ ascii "  ") ++ (60 :: 47 :: ascii "testsuite" ++ [62]))
      [suiteNode run suite] := by
    refine Spells.element rfl rfl ?_ ?_ inside
    · exact .cons ⟨rfl,rfl,means_escapeXml _⟩ (.cons ⟨rfl,rfl,means_decimal _⟩ (.cons ⟨rfl,rfl,means_decimal _⟩
        (.cons ⟨rfl,rfl,means_decimal _⟩ (.cons ⟨rfl,rfl,means_decimal _⟩ (.cons ⟨rfl,rfl,means_seconds _⟩
          (.cons ⟨rfl,rfl,means_escapeXml _⟩ (.cons ⟨rfl,rfl,means_escapeXml _⟩ .nil)))))))
    · exact (by decide : [ascii "name",ascii "tests",ascii "failures",ascii "errors",ascii "skipped",ascii "time",
        ascii "timestamp",ascii "hostname"].Nodup)
  delta renderSuite
  rw [counted,suite_text]
  exact spells_onLine "  " rfl element

theorem report_text (tests failures errors skipped time suites : Bytes) :
    ascii "<?xml version=\"1.0\" encoding=\"UTF-8\"?>\n" ++ ascii "<testsuites name=\"TestForge\"" ++
      ascii " tests=\"" ++ tests ++ ascii "\" failures=\"" ++ failures ++ ascii "\" errors=\"" ++ errors ++
      ascii "\" skipped=\"" ++ skipped ++ ascii "\" time=\"" ++ time ++ ascii "\">\n" ++ suites ++ ascii "</testsuites>\n" =
    ascii "<?xml version=\"1.0\" encoding=\"UTF-8\"?>" ++ [10] ++ (60 :: ascii "testsuites" ++ Dialect.attributesText [
      (ascii "name",ascii "TestForge"),(ascii "tests",tests),(ascii "failures",failures),(ascii "errors",errors),
      (ascii "skipped",skipped),(ascii "time",time)] ++ [62] ++ ([10] ++ suites) ++
      (60 :: 47 :: ascii "testsuites" ++ [62])) ++ [10] := by
  have header : ascii "<?xml version=\"1.0\" encoding=\"UTF-8\"?>\n" =
    ascii "<?xml version=\"1.0\" encoding=\"UTF-8\"?>" ++ [10] := by decide
  rw [header]
  simp only [Dialect.attributesText,List.flatMap_cons,List.flatMap_nil,List.append_assoc,List.cons_append,
    List.append_nil,List.nil_append]
  rfl

/-- The whole report is the tree, whatever bytes the texts of the run hold. -/
theorem parse_render (run : TestRun) : Markup.parse xml (render run) = some (report run) := by
  have suites : Spells xml ((bySuite run.results).flatMap (renderSuite run))
      (((bySuite run.results).map (suiteNode run)).flatMap (onLine "  ")) := by
    rw [List.flatMap_map]
    exact Spells.flatMap fun suite _ => spells_suite run suite
  have inside := (spells_literal [10] rfl).append suites
  have header : Spells xml (ascii "<?xml version=\"1.0\" encoding=\"UTF-8\"?>") [] := Spells.instruction rfl
  have counted := statistics_counts run
  have element : Spells xml (60 :: ascii "testsuites" ++ Dialect.attributesText [
      (ascii "name",ascii "TestForge"),(ascii "tests",decimal run.statistics.total),
      (ascii "failures",decimal run.statistics.failed),
      (ascii "errors",decimal (run.statistics.errors + run.statistics.timeouts)),
      (ascii "skipped",decimal run.statistics.skipped),(ascii "time",seconds run.duration)] ++ [62] ++
      ([10] ++ (bySuite run.results).flatMap (renderSuite run)) ++ (60 :: 47 :: ascii "testsuites" ++ [62]))
      [report run] := by
    have named : Dialect.Means xml (ascii "TestForge") (ascii "TestForge") := fun _ _ _ => rfl
    rw [report,← counted]
    refine Spells.element rfl rfl ?_ ?_ inside
    · exact .cons ⟨rfl,rfl,named⟩ (.cons ⟨rfl,rfl,means_decimal _⟩ (.cons ⟨rfl,rfl,means_decimal _⟩
        (.cons ⟨rfl,rfl,means_decimal _⟩ (.cons ⟨rfl,rfl,means_decimal _⟩ (.cons ⟨rfl,rfl,means_seconds _⟩ .nil)))))
    · exact (by decide : [ascii "name",ascii "tests",ascii "failures",ascii "errors",ascii "skipped",ascii "time"].Nodup)
  have whole := ((header.append (spells_literal [10] rfl)).append element).append (spells_literal [10] rfl)
  rw [render,report_text]
  exact Spells.parse_element [10] [10] rfl whole

/-! ### The report has only characters of XML -/

structure LegibleResult (result : TestResult) : Prop where
  suiteName : Legible result.suiteName
  testName : Legible result.testName
  errorMessage : Legible result.errorMessage
  errorDetail : Legible result.errorDetail
  logs : ∀ line ∈ result.logs, Legible line

/-- The texts of the run that the report has are UTF-8 without U+FFFE and U+FFFF. -/
structure LegibleRun (run : TestRun) : Prop where
  hostname : Legible run.hostname
  results : ∀ result ∈ run.results, LegibleResult result

theorem legal_number {text : Bytes} (number : ∀ c ∈ text, isNumberByte c = true) : XmlLegal text := by
  refine .plain (List.all_eq_true.mpr fun c member => ?_)
  have known := number c member
  simp only [isNumberByte,Bool.or_eq_true,beq_iff_eq] at known
  rcases known with (digit | rfl) | rfl
  · obtain ⟨low,high⟩ := digit_range c digit
    have printable : 32 ≤ c ∧ c < 128 := ⟨UInt8.le_trans (by decide) low,UInt8.lt_of_le_of_lt high (by decide)⟩
    simp [isXmlAscii,printable.1,printable.2]
  · rfl
  · rfl

theorem legal_decimal (n : Nat) : XmlLegal (decimal n) := legal_number (number_decimal n)

theorem legal_seconds (duration : Int) : XmlLegal (seconds duration) := legal_number (number_fixed 3 _)

theorem legal_timestamp (instant : TimePoint) : XmlLegal (escapeXml (Clock.toIso8601 instant)) := by
  refine .escaped fun c member => ?_
  have known := Clock.toIso8601_clock instant c member
  simp only [Clock.isClockByte,Bool.or_eq_true,beq_iff_eq] at known
  rcases known with ((((digit | rfl) | rfl) | rfl) | rfl) | rfl
  · exact UInt8.lt_of_le_of_lt (digit_range c digit).2 (by decide)
  all_goals decide

theorem legal_category (category : FailureCategory) : XmlLegal (escapeXml category.toString) := by
  cases category <;> exact .plain rfl

theorem legal_status {result : TestResult} (legible : LegibleResult result) : XmlLegal (renderStatus result) := by
  have message := legible.errorMessage.escapeXml
  have detail : XmlLegal (escapeXml (if result.errorDetail = [] then result.errorMessage else result.errorDetail)) := by
    split
    · exact message
    · exact legible.errorDetail.escapeXml
  have failure {opening closing : Bytes} (opens : XmlLegal opening) (closes : XmlLegal closing) :
      XmlLegal (opening ++ escapeXml result.failureCategory.toString ++ ascii "\" message=\"" ++
        escapeXml result.errorMessage ++ ascii "\">" ++
        escapeXml (if result.errorDetail = [] then result.errorMessage else result.errorDetail) ++ closing) :=
    ((((((opens.append (legal_category _)).append (.plain rfl)).append message).append (.plain rfl)).append detail).append
      closes)
  cases status : result.status with
  | failed =>
    simp only [renderStatus,status]
    exact failure (.plain rfl) (.plain rfl)
  | error =>
    simp only [renderStatus,status]
    exact failure (.plain rfl) (.plain rfl)
  | timeout =>
    simp only [renderStatus,status]
    exact failure (.plain rfl) (.plain rfl)
  | skipped =>
    simp only [renderStatus,status]
    exact ((XmlLegal.plain rfl).append message).append (.plain rfl)
  | passed =>
    simp only [renderStatus,status]
    exact .nil

theorem legal_logs {result : TestResult} (legible : LegibleResult result) : XmlLegal (renderLogs result) := by
  rw [renderLogs]
  split
  · exact .nil
  · refine ((XmlLegal.plain rfl).append (.flatMap fun line member => ?_)).append (.plain rfl)
    exact (legible.logs line member).escapeXml.append (.plain rfl)

theorem legal_case {suiteName : Bytes} {result : TestResult} (named : XmlLegal (escapeXml suiteName))
    (legible : LegibleResult result) : XmlLegal (renderCase suiteName result) := by
  have name := legible.testName.escapeXml
  have heading : XmlLegal (ascii "    <testcase name=\"" ++ escapeXml result.testName ++
      ascii "\" classname=\"" ++ escapeXml suiteName ++ ascii "\" time=\"" ++ seconds result.duration ++ ascii "\">\n") :=
    ((((((XmlLegal.plain rfl).append name).append (.plain rfl)).append named).append (.plain rfl)).append
      (legal_seconds _)).append (.plain rfl)
  rw [renderCase]
  exact ((heading.append (legal_status legible)).append (legal_logs legible)).append (.plain rfl)

theorem legal_suite {run : TestRun} (legible : LegibleRun run) {suite : Bytes × List TestResult}
    (member : suite ∈ bySuite run.results) : XmlLegal (renderSuite run suite) := by
  obtain ⟨⟨result,among,named⟩,group⟩ := SortedTable.mem_gather.mp member
  have name : XmlLegal (escapeXml suite.1) := by
    rw [← named,suiteKey]
    split
    · exact .plain rfl
    · exact (legible.results result among).suiteName.escapeXml
  have cases : XmlLegal (suite.2.flatMap (renderCase suite.1)) := by
    refine .flatMap fun other inside => legal_case name ?_
    rw [group] at inside
    exact legible.results other (List.mem_filter.mp inside).1
  have hostname := legible.hostname.escapeXml
  delta renderSuite
  generalize suite.2.foldl SuiteCounts.add {} = counts
  dsimp only
  exact ((((((((((((((((((XmlLegal.plain rfl).append name).append (.plain rfl)).append (legal_decimal _)).append
    (.plain rfl)).append (legal_decimal _)).append (.plain rfl)).append (legal_decimal _)).append (.plain rfl)).append
    (legal_decimal _)).append (.plain rfl)).append (legal_seconds _)).append (.plain rfl)).append
    (legal_timestamp _)).append (.plain rfl)).append hostname).append (.plain rfl)).append cases).append (.plain rfl)

theorem legal_render {run : TestRun} (legible : LegibleRun run) : XmlLegal (render run) := by
  have suites : XmlLegal ((bySuite run.results).flatMap (renderSuite run)) :=
    .flatMap fun _ member => legal_suite legible member
  have heading : XmlLegal (ascii "<?xml version=\"1.0\" encoding=\"UTF-8\"?>\n" ++
      ascii "<testsuites name=\"TestForge\"" ++ ascii " tests=\"") := .plain rfl
  rw [render]
  exact (((((((((((heading.append (legal_decimal _)).append (.plain rfl)).append (legal_decimal _)).append
    (.plain rfl)).append (legal_decimal _)).append (.plain rfl)).append (legal_decimal _)).append (.plain rfl)).append
    (legal_seconds _)).append (.plain rfl)).append suites).append (.plain rfl)

theorem readXml_render {run : TestRun} (legible : LegibleRun run) : readXml (render run) = some (report run) := by
  rw [readXml,if_pos (legal_render legible),parse_render]

/-! ### The shape of the report -/

def statusShape : TestStatus → List Shape
  | .failed => [.element (ascii "failure") [ascii "type",ascii "message"] []]
  | .error | .timeout => [.element (ascii "error") [ascii "type",ascii "message"] []]
  | .skipped => [.element (ascii "skipped") [ascii "message"] []]
  | .passed => []

/-- A test case by its status and whether it has logs. -/
def caseShape (result : TestStatus × Bool) : Shape :=
  .element (ascii "testcase") [ascii "name",ascii "classname",ascii "time"]
    (statusShape result.1 ++ if result.2 then [.element (ascii "system-out") [] []] else [])

def suiteShape (results : List (TestStatus × Bool)) : Shape :=
  .element (ascii "testsuite") [ascii "name",ascii "tests",ascii "failures",ascii "errors",ascii "skipped",ascii "time",
    ascii "timestamp",ascii "hostname"] (results.map caseShape)

def runShape (suites : List (List (TestStatus × Bool))) : Shape :=
  .element (ascii "testsuites") [ascii "name",ascii "tests",ascii "failures",ascii "errors",ascii "skipped",ascii "time"]
    (suites.map suiteShape)

@[simp] theorem shapes_onLine (indent : String) (node : Node) : Markup.shapes (onLine indent node) = node.shape := by
  rw [onLine,Markup.shapes_append,Markup.shapes_append,characters,characters,Markup.shapes_characters,
    Markup.shapes_characters,List.append_nil,List.nil_append]
  exact List.append_nil _

theorem shape_case (suiteName : Bytes) (result : TestResult) :
    (caseNode suiteName result).shape = [caseShape (result.status,!result.logs.isEmpty)] := by
  have status : (statusNode result).toList.flatMap Node.shape = statusShape result.status := by
    cases known : result.status <;>
      simp [statusNode,known,statusShape,failureNode,Node.shape,characters,Markup.shapes]
  have logs : (logsNode result).toList.flatMap Node.shape =
      if !result.logs.isEmpty then [.element (ascii "system-out") [] []] else [] := by
    cases known : result.logs <;> simp [logsNode,known,Node.shape,characters,-List.map_append]
  rw [caseNode,Node.shape]
  simp only [Markup.shapes_append,Markup.shapes_flatMap,shapes_onLine,status,logs,characters,Markup.shapes_characters,
    List.append_nil,List.nil_append,caseShape]
  rfl

theorem shape_suite (run : TestRun) (suite : Bytes × List TestResult) : (suiteNode run suite).shape =
    [suiteShape (suite.2.map fun result => (result.status,!result.logs.isEmpty))] := by
  have cases : (suite.2.map (caseNode suite.1)).flatMap Node.shape =
      (suite.2.map fun result => (result.status,!result.logs.isEmpty)).map caseShape := by
    simp only [List.flatMap_map,shape_case,List.map_map]
    exact List.flatMap_pure_eq_map _ _
  rw [suiteNode,Node.shape]
  simp only [Markup.shapes_append,Markup.shapes_flatMap,shapes_onLine,characters,Markup.shapes_characters,cases,
    List.append_nil,List.nil_append,suiteShape]
  rfl

theorem shape_report (run : TestRun) : (report run).shape =
    [runShape ((bySuite run.results).map fun suite => suite.2.map fun result => (result.status,!result.logs.isEmpty))] := by
  have suites : ((bySuite run.results).map (suiteNode run)).flatMap Node.shape =
      ((bySuite run.results).map fun suite => suite.2.map fun result => (result.status,!result.logs.isEmpty)
        ).map suiteShape := by
    simp only [List.flatMap_map,shape_suite,List.map_map]
    exact List.flatMap_pure_eq_map _ _
  rw [report,Node.shape]
  simp only [Markup.shapes_append,Markup.shapes_flatMap,shapes_onLine,characters,Markup.shapes_characters,suites,
    List.nil_append,runShape]
  rfl

/-! ### The report as a whole -/

theorem elements_lines (indent : String) (nodes : List Node) (known : ∀ node ∈ nodes, node.isElement = true) :
    (nodes.flatMap (onLine indent)).filter Node.isElement = nodes := by
  induction nodes with
  | nil => rfl
  | cons node rest ih =>
    have tail := ih fun other member => known other (List.mem_cons_of_mem _ member)
    rw [List.flatMap_cons,List.filter_append,tail,onLine,List.filter_append,List.filter_append,characters,characters,
      Node.filter_characters,Node.filter_characters,List.filter_cons_of_pos (known node List.mem_cons_self)]
    rfl

theorem elements_report (run : TestRun) : (report run).elements = (bySuite run.results).map (suiteNode run) := by
  rw [Node.elements,report,Node.children,List.filter_append,characters,Node.filter_characters,List.nil_append]
  refine elements_lines _ _ fun node member => ?_
  obtain ⟨suite,_,rfl⟩ := List.mem_map.mp member
  rfl

theorem elements_suite (run : TestRun) (suite : Bytes × List TestResult) :
    (suiteNode run suite).elements = suite.2.map (caseNode suite.1) := by
  rw [Node.elements,suiteNode,Node.children,List.filter_append,List.filter_append,characters,characters,
    Node.filter_characters,Node.filter_characters,List.nil_append,List.append_nil]
  refine elements_lines _ _ fun node member => ?_
  obtain ⟨result,_,rfl⟩ := List.mem_map.mp member
  rfl

/-- The report reads as one `testsuites` element with one `testsuite` for every suite name, an empty one being
`default`, and in there one `testcase` for every result of the suite. The shape of the tree depends on the
statuses and on which logs are present alone: every text is the value of its own attribute or the content of its
own element. The counts of the suites add up to those of the whole. -/
theorem report_faithful (run : TestRun) (legible : LegibleRun run) :
    readXml (render run) = some (report run) ∧
    (report run).shape = [runShape
      ((bySuite run.results).map fun suite => suite.2.map fun result => (result.status,!result.logs.isEmpty))] ∧
    ((bySuite run.results).map (·.1)).Nodup ∧
    (∀ name group, (name,group) ∈ bySuite run.results ↔
      (∃ result ∈ run.results, suiteKey result = name) ∧ group = run.results.filter (suiteKey · = name)) ∧
    (report run).elements = (bySuite run.results).map (suiteNode run) ∧
    (∀ suite, (suiteNode run suite).elements = suite.2.map (caseNode suite.1)) ∧
    (report run).attributes = (ascii "name",ascii "TestForge") ::
      ((bySuite run.results).map fun suite => Counts.of suite.2).sum.attributes ++ [(ascii "time",seconds run.duration)] ∧
    ∀ suite, (suiteNode run suite).attributes = (ascii "name",xmlText suite.1) :: (Counts.of suite.2).attributes ++ [
      (ascii "time",seconds (suite.2.map (·.duration)).sum),
      (ascii "timestamp",xmlText (Clock.toIso8601 run.startedAt)),
      (ascii "hostname",xmlText run.hostname)] := by
  refine ⟨readXml_render legible,shape_report run,(SortedTable.sorted_gather _).keys_nodup,
    fun name group => SortedTable.mem_gather,elements_report run,elements_suite run,?_,fun _ => rfl⟩
  rw [← Counts.of_bySuite]
  rfl

/-- A failure whose message closes the element, and a suite whose name has a character of two bytes. -/
def hostileRun : TestRun where
  hostname := ascii "\"/>"
  results := [
    { testName := ascii "a&b", status := .failed, errorMessage := ascii "</failure><x>" },
    { suiteName := [195,169], testName := [9], status := .passed, logs := [ascii "]]>",[27]] }]

theorem report_faithful_hostile : readXml (render hostileRun) = some (report hostileRun) ∧
    (report hostileRun).elements.length = 2 := by
  have legible : LegibleRun hostileRun := by
    refine ⟨legible_encode ['"','/','>'] rfl,?_⟩
    rw [hostileRun,List.forall_mem_cons,List.forall_mem_singleton]
    refine ⟨⟨legible_encode [] rfl,legible_encode ['a','&','b'] rfl,legible_encode "</failure><x>".toList rfl,
      legible_encode [] rfl,?_⟩,
      ⟨legible_encode ['é'] rfl,legible_encode ['\t'] rfl,legible_encode [] rfl,legible_encode [] rfl,?_⟩⟩
    · exact List.forall_mem_nil _
    · rw [List.forall_mem_cons,List.forall_mem_singleton]
      exact ⟨legible_encode [']',']','>'] rfl,legible_encode ['\x1b'] rfl⟩
  obtain ⟨reads,-,-,-,suites,-⟩ := report_faithful hostileRun legible
  exact ⟨reads,by rw [suites,List.length_map]; decide⟩

/-- The report has the bytes of every name between two quotes. -/
theorem testName_infix {run : TestRun} {result : TestResult} (member : result ∈ run.results) :
    34 :: (escapeXml result.testName ++ [34]) <:+: render run := by
  have inCase : 34 :: (escapeXml result.testName ++ [34]) <:+: renderCase (suiteKey result) result := by
    have opening : ascii "    <testcase name=\"" = ascii "    <testcase name=" ++ [34] := by decide
    refine ⟨ascii "    <testcase name=",ascii " classname=\"" ++ escapeXml (suiteKey result) ++ ascii "\" time=\"" ++
      seconds result.duration ++ ascii "\">\n" ++ renderStatus result ++ renderLogs result ++ ascii "    </testcase>\n",?_⟩
    rw [renderCase,opening]
    simp only [List.append_assoc,List.cons_append,List.nil_append]
    rfl
  obtain ⟨suite,listed,known,inside⟩ : ∃ suite ∈ bySuite run.results, suiteKey result = suite.1 ∧ result ∈ suite.2 := by
    refine ⟨(suiteKey result,run.results.filter (suiteKey · = suiteKey result)),?_,rfl,?_⟩
    · exact SortedTable.mem_gather.mpr ⟨⟨result,member,rfl⟩,rfl⟩
    · exact List.mem_filter.mpr ⟨member,by simp⟩
  have inSuite : renderCase (suiteKey result) result <:+: renderSuite run suite := by
    have among : renderCase suite.1 result <:+: suite.2.flatMap (renderCase suite.1) :=
      List.infix_of_mem_flatten (List.mem_map_of_mem inside)
    rw [known]
    delta renderSuite
    generalize suite.2.foldl SuiteCounts.add {} = counts
    dsimp only
    exact List.infix_append_of_infix_left (List.infix_append_of_infix_right among)
  have inReport : renderSuite run suite <:+: render run := by
    have among : renderSuite run suite <:+: (bySuite run.results).flatMap (renderSuite run) :=
      List.infix_of_mem_flatten (List.mem_map_of_mem listed)
    rw [render]
    exact List.infix_append_of_infix_left (List.infix_append_of_infix_right among)
  exact inCase.trans (inSuite.trans inReport)

/-- Of two suites, the one without a name and the one named `default`, the report makes one. -/
def twoSuites : TestRun where
  results := [{},{ suiteName := ascii "default" }]

/-- A name that is not UTF-8. -/
def brokenName : TestRun where
  results := [{ testName := [255] }]

theorem twoSuites_merged :
    (∃ root, readXml (render twoSuites) = some root ∧ root.elements.length = 1 ∧
      (twoSuites.results.map (·.suiteName)).dedup.length = 2) ∧
    readXml (render brokenName) = none := by
  constructor
  · have legible : LegibleRun twoSuites := by
      refine ⟨legible_encode [] rfl,?_⟩
      rw [twoSuites,List.forall_mem_cons,List.forall_mem_singleton]
      exact ⟨⟨legible_encode [] rfl,legible_encode [] rfl,legible_encode [] rfl,legible_encode [] rfl,List.forall_mem_nil _⟩,
        ⟨legible_encode "default".toList rfl,legible_encode [] rfl,legible_encode [] rfl,
          legible_encode [] rfl,List.forall_mem_nil _⟩⟩
    refine ⟨report twoSuites,readXml_render legible,?_,by decide⟩
    rw [elements_report,List.length_map]
    decide
  · refine if_neg fun ⟨characters,encoded,_⟩ => ?_
    have named : ({ testName := [255] } : TestResult) ∈ brokenName.results := List.mem_singleton_self _
    obtain ⟨front,back,shape⟩ := testName_infix named
    have quoted : front ++ 34 :: (255 :: 34 :: back) = Utf8.encode characters := by
      rw [encoded,← shape,List.append_assoc]
      rfl
    have behind := (Utf8.isUtf8_cut front _ 34 (by decide)).mp ⟨characters,quoted.symm⟩
    have broken := ((Utf8.isUtf8_cut [255] back 34 (by decide)).mp behind.2).1
    exact absurd (broken.head 255 rfl) (by decide)

end TestForge.JUnitReporter
