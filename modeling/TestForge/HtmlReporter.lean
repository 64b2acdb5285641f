import TestForge.Escaping
import TestForge.FailureContext
import TestForge.JsonDump
import TestForge.TestResult
import Mathlib.Data.List.Sort

/-! The HTML report of a run, as the sequence of what is inserted into its stream. -/
namespace TestForge

open Json Strings

structure HtmlReporterOptions where
  title : Bytes := ascii "TestForge Report"
  includeLogs : Bool := true
  includeDiagnostics : Bool := true
  maxLogLines : Int := 60

namespace HtmlReporter

/-- A literal or a number, and a text that goes through `esc`. -/
inductive Piece where
  | markup (text : Bytes)
  | field (text : Bytes)

def Piece.bytes : Piece → Bytes
  | .markup text => text
  | .field text => escapeHtml text

/-- The lines of the style sheet. -/
def kStyleLines : List Bytes := [
  ascii "",
  ascii ":root\x7b--bg:#0f1116;--panel:#171a21;--line:#262b36;--fg:#e6e8ee;--muted:#9aa3b2;",
  ascii "--pass:#3fb950;--fail:#f85149;--skip:#8b949e;--err:#bc8cff;--time:#d29922;--accent:#58a6ff\x7d",
  ascii "@media (prefers-color-scheme: light)\x7b",
  ascii ":root\x7b--bg:#f6f8fa;--panel:#fff;--line:#d8dee4;--fg:#1f2328;--muted:#59636e;",
  ascii "--pass:#1a7f37;--fail:#cf222e;--skip:#6e7781;--err:#8250df;--time:#9a6700;--accent:#0969da\x7d\x7d",
  ascii "*\x7bbox-sizing:border-box\x7d",
  ascii "body\x7bmargin:0;background:var(--bg);color:var(--fg);",
  ascii "font:14px/1.55 ui-sans-serif,-apple-system,\"Segoe UI\",Roboto,Helvetica,Arial,sans-serif\x7d",
  ascii ".wrap\x7bmax-width:1100px;margin:0 auto;padding:32px 20px 80px\x7d",
  ascii "h1\x7bfont-size:24px;margin:0 0 4px\x7d",
  ascii "h2\x7bfont-size:17px;margin:36px 0 12px;padding-bottom:6px;border-bottom:1px solid var(--line)\x7d",
  ascii ".sub\x7bcolor:var(--muted);font-size:13px;margin-bottom:24px\x7d",
  ascii ".cards\x7bdisplay:grid;grid-template-columns:repeat(auto-fit,minmax(120px,1fr));gap:12px\x7d",
  ascii ".card\x7bbackground:var(--panel);border:1px solid var(--line);border-radius:8px;padding:14px 16px\x7d",
  ascii ".card .n\x7bfont-size:26px;font-weight:650;line-height:1.1\x7d",
  ascii ".card .l\x7bcolor:var(--muted);font-size:12px;text-transform:uppercase;letter-spacing:.04em;",
  ascii "margin-top:4px\x7d",
  ascii ".pass\x7bcolor:var(--pass)\x7d.fail\x7bcolor:var(--fail)\x7d.skip\x7bcolor:var(--skip)\x7d",
  ascii ".err\x7bcolor:var(--err)\x7d.time\x7bcolor:var(--time)\x7d",
  ascii ".bar\x7bheight:10px;border-radius:5px;background:var(--line);overflow:hidden;margin:14px 0 6px;",
  ascii "display:flex\x7d",
  ascii ".bar>span\x7bdisplay:block;height:100%\x7d",
  ascii "table\x7bwidth:100%;border-collapse:collapse;font-size:13px\x7d",
  ascii "th,td\x7btext-align:left;padding:7px 10px;border-bottom:1px solid var(--line);vertical-align:top\x7d",
  ascii "th\x7bcolor:var(--muted);font-weight:600;font-size:12px;text-transform:uppercase;",
  ascii "letter-spacing:.04em\x7d",
  ascii "td.num\x7btext-align:right;font-variant-numeric:tabular-nums;white-space:nowrap\x7d",
  ascii ".badge\x7bdisplay:inline-block;padding:1px 8px;border-radius:11px;font-size:11px;font-weight:650;",
  ascii "border:1px solid currentColor\x7d",
  ascii "details\x7bbackground:var(--panel);border:1px solid var(--line);border-radius:8px;padding:10px 14px;",
  ascii "margin-bottom:10px\x7d",
  ascii "details>summary\x7bcursor:pointer;font-weight:600\x7d",
  ascii "pre\x7bbackground:var(--bg);border:1px solid var(--line);border-radius:6px;padding:10px;",
  ascii "overflow-x:auto;font:12px/1.5 ui-monospace,SFMono-Regular,Menlo,Consolas,monospace;",
  ascii "white-space:pre-wrap;word-break:break-word\x7d",
  ascii ".kv\x7bdisplay:grid;grid-template-columns:130px 1fr;gap:2px 12px;margin:10px 0;font-size:13px\x7d",
  ascii ".kv dt\x7bcolor:var(--muted)\x7d",
  ascii ".kv dd\x7bmargin:0\x7d",
  ascii ".note\x7bcolor:var(--muted);font-size:12px;font-style:italic\x7d",
  ascii "footer\x7bmargin-top:48px;color:var(--muted);font-size:12px;border-top:1px solid var(--line);",
  ascii "padding-top:14px\x7d"]

open Piece (field markup)

def kStyle : Bytes := kStyleLines.flatMap fun line => line ++ [10]

def statusClass : TestStatus → Bytes
  | .passed => ascii "pass"
  | .failed => ascii "fail"
  | .skipped => ascii "skip"
  | .error => ascii "err"
  | .timeout => ascii "time"

def percentText (value : Double) (precision : Nat) : Bytes := value.fixed precision ++ ascii "%"

def writeCard (value : Nat) (label cssClass : Bytes) : List Piece := [
  markup (ascii "<div class=\"card\"><div class=\"n " ++ cssClass ++ ascii "\">"),
  markup (decimal value),
  markup (ascii "</div><div class=\"l\">"),
  markup label,
  markup (ascii "</div></div>")]

def slice (stats : RunStatistics) (count : Nat) (color : Bytes) : List Piece :=
  if count = 0 then []
  else
    let width := ((Double.ofInt 100).mul (Double.ofInt count)).div (Double.ofInt stats.total)
    [markup (ascii "<span style=\"width:" ++ percentText width 2 ++ ascii ";background:var(--" ++ color ++ ascii ")\"></span>")]

def writeStatusBar (stats : RunStatistics) : List Piece :=
  if stats.total = 0 then []
  else
    [markup (ascii "<div class=\"bar\">")] ++ slice stats stats.passed (ascii "pass") ++
      slice stats stats.failed (ascii "fail") ++ slice stats stats.timeouts (ascii "time") ++
      slice stats stats.errors (ascii "err") ++ slice stats stats.skipped (ascii "skip") ++ [markup (ascii "</div>")]

def head (options : HtmlReporterOptions) (run : TestRun) : List Piece := [
  markup (ascii "<!doctype html>\n<html lang=\"en\">\n<head>\n<meta charset=\"utf-8\">\n" ++
    ascii "<meta name=\"viewport\" content=\"width=device-width,initial-scale=1\">\n" ++ ascii "<title>"),
  field options.title,
  markup (ascii " - "),
  field run.runId,
  markup (ascii "</title>\n" ++ ascii "<style>" ++ kStyle ++ ascii "</style>\n</head>\n<body>\n<div class=\"wrap\">\n"),
  markup (ascii "<h1>"),
  field options.title,
  markup (ascii "</h1>\n"),
  markup (ascii "<div class=\"sub\">run <code>"),
  field run.runId,
  markup (ascii "</code>")] ++
  (if run.label = [] then [] else [markup (ascii " &middot; "),field run.label]) ++ [
  markup (ascii " &middot; "),
  field (Clock.toIso8601 run.startedAt),
  markup (ascii " &middot; "),
  field (formatDuration run.duration),
  markup (ascii " on "),
  markup (decimalInt run.workers),
  markup (ascii " worker"),
  markup (if run.workers = 1 then [] else ascii "s"),
  markup (ascii "</div>\n")]

def summary (stats : RunStatistics) : List Piece :=
  [markup (ascii "<div class=\"cards\">")] ++ writeCard stats.total (ascii "Total") [] ++
    writeCard stats.passed (ascii "Passed") (ascii "pass") ++ writeCard stats.failed (ascii "Failed") (ascii "fail") ++
    writeCard stats.timeouts (ascii "Timeouts") (ascii "time") ++ writeCard stats.errors (ascii "Errors") (ascii "err") ++
    writeCard stats.skipped (ascii "Skipped") (ascii "skip") ++ [markup (ascii "</div>\n")] ++
    writeStatusBar stats ++ [
    markup (ascii "<div class=\"sub\">success rate <strong>"),
    markup (percentText stats.successRate 1),
    markup (ascii "</strong>")] ++
    (if stats.skipped > 0 then [markup (ascii " <span class=\"note\">(skipped tests excluded)</span>")] else []) ++
    [markup (ascii "</div>\n")]

def parallelGain (run : TestRun) (stats : RunStatistics) : List Piece :=
  if run.workers > 1 ∧ stats.wallDuration > 0 then [
    markup (ascii "<dt>Parallel gain</dt><dd>"),
    markup (stats.parallelEfficiency.fixed 2 ++ ascii "x"),
    markup (ascii " <span class=\"note\">sum of test durations divided by wall clock</span></dd>")]
  else []

def context (run : TestRun) (stats : RunStatistics) : List Piece := [
  markup (ascii "<h2>Run context</h2>\n<dl class=\"kv\">"),
  markup (ascii "<dt>Filter</dt><dd><code>"),field run.filterDescription,markup (ascii "</code></dd>"),
  markup (ascii "<dt>Host</dt><dd>"),field run.hostname,markup (ascii "</dd>")] ++
  (if run.gitCommit = [] then []
    else [markup (ascii "<dt>Commit</dt><dd><code>"),field run.gitCommit,markup (ascii "</code></dd>")]) ++ [
  markup (ascii "<dt>Started</dt><dd>"),field (Clock.toIso8601 run.startedAt),markup (ascii "</dd>"),
  markup (ascii "<dt>Finished</dt><dd>"),field (Clock.toIso8601 run.finishedAt),markup (ascii "</dd>"),
  markup (ascii "<dt>Average</dt><dd>"),field (formatDuration stats.averageDuration),markup (ascii "</dd>"),
  markup (ascii "<dt>Median / p95</dt><dd>"),field (formatDuration stats.medianDuration),markup (ascii " / "),
  field (formatDuration stats.p95Duration),markup (ascii "</dd>")] ++
  (if stats.slowestTest = [] then []
    else [markup (ascii "<dt>Slowest</dt><dd>"),field stats.slowestTest,markup (ascii " ("),
      field (formatDuration stats.maxDuration),markup (ascii ")</dd>")]) ++
  parallelGain run stats ++ [markup (ascii "</dl>\n")]

/-- The entries of the map, the most frequent first; `std::sort` leaves open in which order equal counts come. -/
def ranked (stats : RunStatistics) : List (FailureCategory × Nat) :=
  ((FailureCategory.allFailureCategories.filter (stats.failureCategoryCounts · ≠ 0)).map fun category =>
    (category,stats.failureCategoryCounts category)).insertionSort fun a b => a.2 ≥ b.2

def categoryRow (entry : FailureCategory × Nat) : List Piece := [
  markup (ascii "<tr><td><span class=\"badge fail\">"),field entry.1.toString,
  markup (ascii "</span></td><td class=\"num\">"),markup (decimal entry.2),markup (ascii "</td><td class=\"note\">"),
  field (FailureClassifier.explain entry.1),markup (ascii "</td></tr>")]

def categories (stats : RunStatistics) : List Piece :=
  if ranked stats = [] then []
  else [
    markup (ascii "<h2>Failure categories</h2>\n<table><thead><tr><th>Category</th>" ++
      ascii "<th class=\"num\">Count</th><th>What it means</th></tr></thead><tbody>")] ++
    (ranked stats).flatMap categoryRow ++ [markup (ascii "</tbody></table>\n")]

/-- The diagnostics say that their numbers are no readings. -/
def isMockData (result : TestResult) : Bool :=
  match result.diagnostics.path (ascii "gpu.is_mock_data") with
  | some (.bool mock) => mock
  | _ => false

def message (result : TestResult) : List Piece :=
  if result.errorMessage = [] then []
  else [markup (ascii "<pre>"),field result.errorMessage] ++
    (if result.errorDetail = [] then [] else [markup [10],field result.errorDetail]) ++ [markup (ascii "</pre>")]

def recordedFacts (result : TestResult) : List Piece :=
  if result.metadata.isEmpty then []
  else [
    markup (ascii "<details><summary>Recorded facts</summary><pre>"),
    field (Value.dumpInto 2 0 result.metadata),
    markup (ascii "</pre></details>")]

def logTail (options : HtmlReporterOptions) (result : TestResult) : List Piece :=
  if options.includeLogs ∧ result.logs ≠ [] then
    -- `static_cast<std::size_t>` makes a huge limit of a negative one
    let limit := (options.maxLogLines % 2^64).toNat
    let start := if result.logs.length > limit then result.logs.length - limit else 0
    [markup (ascii "<details><summary>Log tail ("),markup (decimal result.logs.length),
      markup (ascii " lines)</summary><pre>")] ++
      ((result.logs.drop start).flatMap fun line => [field line,markup [10]]) ++ [markup (ascii "</pre></details>")]
  else []

def diagnostics (options : HtmlReporterOptions) (result : TestResult) : List Piece :=
  if options.includeDiagnostics ∧ result.diagnostics.isEmpty = false then
    [markup (ascii "<details><summary>System diagnostics at failure time</summary>")] ++
      (if isMockData result then
        [markup (ascii "<p class=\"note\"><strong>Note:</strong> the GPU section below is " ++
          ascii "MOCK TEST DATA, not a reading from real hardware.</p>")]
      else []) ++
      [markup (ascii "<pre>"),field (Value.dumpInto 2 0 result.diagnostics),markup (ascii "</pre></details>")]
  else []

def failure (options : HtmlReporterOptions) (result : TestResult) : List Piece := [
  markup (ascii "<details open><summary><span class=\"badge " ++ statusClass result.status ++ ascii "\">"),
  field result.status.toString,markup (ascii "</span> "),field result.qualifiedName,markup (ascii "</summary>\n"),
  markup (ascii "<dl class=\"kv\">"),
  markup (ascii "<dt>Category</dt><dd>"),field result.failureCategory.toString,markup (ascii "</dd>"),
  markup (ascii "<dt>Meaning</dt><dd class=\"note\">"),field (FailureClassifier.explain result.failureCategory),
  markup (ascii "</dd>"),
  markup (ascii "<dt>Duration</dt><dd>"),field (formatDuration result.duration),markup (ascii "</dd>"),
  markup (ascii "<dt>Worker</dt><dd>"),field result.worker,markup (ascii "</dd>")] ++
  (if result.attempt > 1 then
    [markup (ascii "<dt>Attempt</dt><dd>"),markup (decimalInt result.attempt),markup (ascii "</dd>")]
  else []) ++ [markup (ascii "</dl>")] ++ message result ++ recordedFacts result ++ logTail options result ++
  diagnostics options result ++ [markup (ascii "</details>\n")]

def failures (options : HtmlReporterOptions) (results : List TestResult) : List Piece :=
  let failures := results.filter (·.status.isFailure)
  if failures = [] then []
  else [markup (ascii "<h2>Failures ("),markup (decimal failures.length),markup (ascii ")</h2>\n")] ++
    failures.flatMap (failure options)

def resultRow (result : TestResult) : List Piece := [
  markup (ascii "<tr><td><span class=\"badge " ++ statusClass result.status ++ ascii "\">"),
  field result.status.toString,markup (ascii "</span></td>"),
  markup (ascii "<td>"),field result.qualifiedName,markup (ascii "</td>"),
  markup (ascii "<td>"),
  if result.failureCategory = .none then markup (ascii "&mdash;") else field result.failureCategory.toString,
  markup (ascii "</td>"),
  markup (ascii "<td class=\"num\">"),field (formatDuration result.duration),markup (ascii "</td>"),
  markup (ascii "<td>"),field (truncate result.errorMessage 160),markup (ascii "</td></tr>")]

def allResults (results : List TestResult) : List Piece :=
  [markup (ascii "<h2>All results</h2>\n<table><thead><tr><th>Status</th><th>Test</th>" ++
    ascii "<th>Category</th><th class=\"num\">Duration</th><th>Message</th></tr></thead><tbody>")] ++
  results.flatMap resultRow ++ [markup (ascii "</tbody></table>\n")]

def footer (now : TimePoint) : List Piece := [
  markup (ascii "<footer>Generated by TestForge &middot; "),field (Clock.toIso8601 now),
  markup (ascii "<br>Failure categories and flaky-test flags are heuristics; see " ++
    ascii "docs/limitations.md.</footer>\n"),
  markup (ascii "</div>\n</body>\n</html>\n")]

/-- What is inserted into the stream; the clock reads `now`. -/
def pieces (options : HtmlReporterOptions) (run : TestRun) (now : TimePoint) : List Piece :=
  let stats := run.statistics
  head options run ++ summary stats ++ context run stats ++ categories stats ++ failures options run.results ++
    allResults run.results ++ footer now

def render (options : HtmlReporterOptions) (run : TestRun) (now : TimePoint) : Bytes :=
  (pieces options run now).flatMap Piece.bytes

end HtmlReporter
end TestForge
