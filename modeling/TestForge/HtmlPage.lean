import TestForge.HtmlReporter
import TestForge.RunCounts

/-! The HTML report read as markup: every text of the run is shown as it is, and the tags of the page are those of
the literals alone. -/
namespace TestForge.HtmlReporter

open Markup (Dialect Token)
open Strings
open Piece (field markup)

/-! ### Pieces between tokens -/

def Piece.tokens : Piece → List Token
  | .markup text => (html.run .text text).2
  | .field text => text.map .character

/-- The literal leaves the reader between two tokens. -/
def Whole (text : Bytes) : Prop := (html.run .text text).1 = .text

instance (text : Bytes) : Decidable (Whole text) := inferInstanceAs (Decidable (_ = _))

def Closed (pieces : List Piece) : Prop := ∀ text, markup text ∈ pieces → Whole text

theorem closed_nil : Closed [] := fun _ member => absurd member List.not_mem_nil

theorem closed_field {text : Bytes} {rest : List Piece} : Closed (field text :: rest) ↔ Closed rest := by
  simp [Closed]

theorem closed_markup {text : Bytes} {rest : List Piece} : Closed (markup text :: rest) ↔ Whole text ∧ Closed rest := by
  simp [Closed,or_imp,forall_and]

theorem closed_append {first second : List Piece} : Closed (first ++ second) ↔ Closed first ∧ Closed second := by
  simp only [Closed,List.mem_append,or_imp,forall_and]

theorem closed_flatMap {α : Type} {items : List α} {pieces : α → List Piece} (each : ∀ item ∈ items, Closed (pieces item)) :
    Closed (items.flatMap pieces) := by
  intro text member
  obtain ⟨item,listed,inside⟩ := List.mem_flatMap.mp member
  exact each item listed text inside

theorem run_pieces {pieces : List Piece} (closed : Closed pieces) :
    html.run .text (pieces.flatMap Piece.bytes) = (.text,pieces.flatMap Piece.tokens) := by
  induction pieces with
  | nil => rfl
  | cons piece rest ih =>
    rw [List.flatMap_cons,List.flatMap_cons]
    cases piece with
    | field text => exact Dialect.run_trans (run_escapeHtml text) (ih (closed_field.mp closed))
    | markup text =>
      obtain ⟨whole,others⟩ := closed_markup.mp closed
      exact Dialect.run_trans (Prod.ext whole rfl) (ih others)

/-- The tags, comments and declarations of a literal. -/
def literalMarks (text : Bytes) : List Token := (html.run .text text).2.filter Token.isMark

def marks (pieces : List Piece) : List Token := (pieces.flatMap Piece.tokens).filter Token.isMark

theorem marks_nil : marks [] = [] := rfl

theorem marks_append (first second : List Piece) : marks (first ++ second) = marks first ++ marks second := by
  rw [marks,List.flatMap_append,List.filter_append]
  rfl

theorem filter_characters (text : Bytes) : (text.map Token.character).filter Token.isMark = [] := by
  rw [List.filter_eq_nil_iff]
  intro token member
  obtain ⟨c,_,rfl⟩ := List.mem_map.mp member
  exact Bool.false_ne_true

/-- No text has a tag. -/
theorem marks_field (text : Bytes) (rest : List Piece) : marks (field text :: rest) = marks rest := by
  rw [marks,List.flatMap_cons,List.filter_append,Piece.tokens,filter_characters]
  rfl

theorem marks_markup (text : Bytes) (rest : List Piece) : marks (markup text :: rest) = literalMarks text ++ marks rest := by
  rw [marks,List.flatMap_cons,List.filter_append]
  rfl

theorem marks_flatMap {α : Type} {first second : List α} {pieces others : α → List Piece}
    (same : List.Forall₂ (fun one other => marks (pieces one) = marks (others other)) first second) :
    marks (first.flatMap pieces) = marks (second.flatMap others) := by
  induction same with
  | nil => rfl
  | cons equal _ ih => rw [List.flatMap_cons,List.flatMap_cons,marks_append,marks_append,equal,ih]

/-- Text without markup. -/
theorem plain_literal {text : Bytes} (plain : ∀ c ∈ text, Dialect.Plain html c) : Whole text ∧ literalMarks text = [] := by
  have reads := Dialect.run_text_plain plain
  rw [Whole,literalMarks,reads]
  exact ⟨rfl,filter_characters text⟩

theorem plain_numbers {text : Bytes} (number : ∀ c ∈ text, isNumberByte c = true) : Whole text ∧ literalMarks text = [] :=
  plain_literal fun c member => (plain_number (fun _ _ => rfl) (number c member)).1

theorem whole_decimal (n : Nat) : Whole (decimal n) := (plain_numbers (number_decimal n)).1
theorem whole_decimalInt (z : Int) : Whole (decimalInt z) := (plain_numbers (number_decimalInt z)).1
theorem marks_decimal (n : Nat) : literalMarks (decimal n) = [] := (plain_numbers (number_decimal n)).2
theorem marks_decimalInt (z : Int) : literalMarks (decimalInt z) = [] := (plain_numbers (number_decimalInt z)).2

/-- A number with a unit. -/
theorem plain_fixed (places : Nat) (value : Double) (unit : UInt8) (plain : Dialect.Plain html unit) :
    Whole (value.fixed places ++ [unit]) ∧ literalMarks (value.fixed places ++ [unit]) = [] := by
  refine plain_literal fun c member => ?_
  rcases List.mem_append.mp member with inside | inside
  · exact (plain_number (fun _ _ => rfl) (number_fixed places value c inside)).1
  · exact (List.mem_singleton.mp inside) ▸ plain

/-! ### The literals of the page -/

theorem quiet_kStyle : ∀ c ∈ kStyle, c ≠ 60 := by
  have all : kStyleLines.all (fun line => line.all (· != 60)) = true := by
    simp only [kStyleLines,ascii_eq_literalBytes]
    decide
  intro c member
  obtain ⟨line,listed,inside⟩ := List.mem_flatMap.mp member
  rcases List.mem_append.mp inside with inside | inside
  · simpa using List.all_eq_true.mp (List.all_eq_true.mp all line listed) c inside
  · rw [List.mem_singleton.mp inside]
    decide

theorem whole_style :
    Whole (ascii "</title>\n" ++ ascii "<style>" ++ kStyle ++ ascii "</style>\n</head>\n<body>\n<div class=\"wrap\">\n") := by
  have opens : html.run .text (ascii "</title>\n" ++ ascii "<style>") =
      (.raw (ascii "style") [],[.stop (ascii "title"),.character 10,.start (ascii "style") [] false]) := by
    simp only [ascii_eq_literalBytes]
    decide
  have closes : (html.run (.raw (ascii "style") []) (ascii "</style>\n</head>\n<body>\n<div class=\"wrap\">\n")).1 = .text := by
    simp only [ascii_eq_literalBytes]
    decide
  have inside := Dialect.run_trans opens (Dialect.run_raw quiet_kStyle (ascii "style"))
  rw [Whole,Dialect.run_append,inside]
  exact closes

theorem closed_head (options : HtmlReporterOptions) (run : TestRun) : Closed (head options run) := by
  have plural : Whole (if run.workers = 1 then [] else ascii "s") := by split <;> decide
  have label : Closed (if run.label = [] then [] else [markup (ascii " &middot; "),field run.label]) := by
    split
    · exact closed_nil
    · simp only [closed_markup,closed_field,closed_nil]
      decide
  simp only [head,closed_append,closed_markup,closed_field,closed_nil,label,plural,whole_style,whole_decimalInt,
    and_true,true_and]
  simp only [ascii_eq_literalBytes]
  decide

/-- The text stays inside the quotes of a value. -/
def Inside (text : Bytes) : Prop := ∀ c ∈ text, Dialect.Plain html c ∧ c ≠ 34

theorem inside_append {first second : Bytes} (front : Inside first) (back : Inside second) : Inside (first ++ second) :=
  fun c member => (List.mem_append.mp member).elim (front c) (back c)

theorem inside_of_all {text : Bytes} (all : text.all (fun c => c != 60 && c != 38 && c != 34) = true) : Inside text := by
  intro c member
  have known := List.all_eq_true.mp all c member
  simp only [Bool.and_eq_true,bne_iff_ne] at known
  exact ⟨⟨known.1.1,known.1.2,rfl⟩,known.2⟩

theorem inside_percentText (value : Double) (precision : Nat) : Inside (percentText value precision) :=
  inside_append (fun c member => plain_number (fun _ _ => rfl) (number_fixed precision value c member))
    (inside_of_all rfl)

theorem whole_slice (width : Double) {color : Bytes} (inside : Inside color) :
    Whole (ascii "<span style=\"width:" ++ percentText width 2 ++ ascii ";background:var(--" ++ color ++
      ascii ")\"></span>") := by
  have style : Inside (ascii "width:" ++ percentText width 2 ++ ascii ";background:var(--" ++ color ++ ascii ")") := by
    refine inside_append (inside_append (inside_append (inside_append ?_ (inside_percentText _ _)) ?_) inside) ?_
    all_goals exact inside_of_all rfl
  generalize percentText width 2 = percent at style ⊢
  have mean : Dialect.AllMean html
      [(ascii "style",ascii "width:" ++ percent ++ ascii ";background:var(--" ++ color ++ ascii ")")]
      [(ascii "style",ascii "width:" ++ percent ++ ascii ";background:var(--" ++ color ++ ascii ")")] :=
    .cons ⟨rfl,rfl,Dialect.means_plain style⟩ .nil
  have element := Dialect.run_trans (Dialect.run_start (rfl : Dialect.isName (ascii "span") = true) rfl mean)
    (Dialect.run_closing (rfl : Dialect.isName (ascii "span") = true))
  have text : ascii "<span style=\"width:" ++ percent ++ ascii ";background:var(--" ++ color ++ ascii ")\"></span>" =
      60 :: ascii "span" ++ Dialect.attributesText [(ascii "style",ascii "width:" ++ percent ++
        ascii ";background:var(--" ++ color ++ ascii ")")] ++ [62] ++ (60 :: 47 :: ascii "span" ++ [62]) := by
    simp only [Dialect.attributesText,List.flatMap_cons,List.flatMap_nil,List.append_assoc,List.cons_append,
      List.append_nil,List.nil_append]
    rfl
  rw [Whole,text,element]

theorem closed_slice (stats : RunStatistics) (count : Nat) {color : Bytes} (inside : Inside color) :
    Closed (slice stats count color) := by
  rw [slice]
  split
  · exact closed_nil
  · exact closed_markup.mpr ⟨whole_slice _ inside,closed_nil⟩

theorem closed_statusBar (stats : RunStatistics) : Closed (writeStatusBar stats) := by
  rw [writeStatusBar]
  split
  · exact closed_nil
  · have slices : ∀ count, Closed (slice stats count (ascii "pass")) ∧ Closed (slice stats count (ascii "fail")) ∧
        Closed (slice stats count (ascii "time")) ∧ Closed (slice stats count (ascii "err")) ∧
        Closed (slice stats count (ascii "skip")) := fun count =>
      ⟨closed_slice stats count (inside_of_all rfl),closed_slice stats count (inside_of_all rfl),
        closed_slice stats count (inside_of_all rfl),closed_slice stats count (inside_of_all rfl),
        closed_slice stats count (inside_of_all rfl)⟩
    simp only [closed_append,closed_markup,closed_nil,slices,and_true]
    simp only [ascii_eq_literalBytes]
    decide

theorem closed_summary (stats : RunStatistics) : Closed (summary stats) := by
  have skipped : Closed (if stats.skipped > 0 then
      [markup (ascii " <span class=\"note\">(skipped tests excluded)</span>")] else []) := by
    split
    · simp only [closed_markup,closed_nil,ascii_eq_literalBytes]
      decide
    · exact closed_nil
  have rate : Whole (percentText stats.successRate 1) :=
    (plain_literal fun c member => (inside_percentText stats.successRate 1 c member).1).1
  simp only [summary,writeCard,closed_append,closed_markup,closed_nil,closed_statusBar,skipped,rate,whole_decimal,
    and_true,true_and]
  simp only [ascii_eq_literalBytes]
  decide

theorem closed_context (run : TestRun) (stats : RunStatistics) : Closed (context run stats) := by
  have commit : Closed (if run.gitCommit = [] then []
      else [markup (ascii "<dt>Commit</dt><dd><code>"),field run.gitCommit,markup (ascii "</code></dd>")]) := by
    split
    · exact closed_nil
    · simp only [closed_markup,closed_field,closed_nil,ascii_eq_literalBytes]
      decide
  have slowest : Closed (if stats.slowestTest = [] then []
      else [markup (ascii "<dt>Slowest</dt><dd>"),field stats.slowestTest,markup (ascii " ("),
        field (formatDuration stats.maxDuration),markup (ascii ")</dd>")]) := by
    split
    · exact closed_nil
    · simp only [closed_markup,closed_field,closed_nil,ascii_eq_literalBytes]
      decide
  have gain : Closed (parallelGain run stats) := by
    rw [parallelGain]
    split
    · have ratio := (plain_fixed 2 stats.parallelEfficiency 120 ⟨by decide,by decide,rfl⟩).1
      refine closed_markup.mpr ⟨?_,closed_markup.mpr ⟨ratio,closed_markup.mpr ⟨?_,closed_nil⟩⟩⟩ <;>
      · rw [ascii_eq_literalBytes]
        decide
    · exact closed_nil
  simp only [context,closed_append,closed_markup,closed_field,closed_nil,commit,slowest,gain,and_true]
  simp only [ascii_eq_literalBytes]
  decide

theorem closed_categories (stats : RunStatistics) : Closed (categories stats) := by
  have row : ∀ entry : FailureCategory × Nat, Closed (categoryRow entry) := by
    intro entry
    simp only [categoryRow,closed_markup,closed_field,closed_nil,whole_decimal,and_true,true_and]
    simp only [ascii_eq_literalBytes]
    decide
  rw [categories]
  split
  · exact closed_nil
  · simp only [closed_append,closed_markup,closed_nil,closed_flatMap fun entry _ => row entry,and_true]
    simp only [ascii_eq_literalBytes]
    decide

theorem whole_badges (status : TestStatus) :
    Whole (ascii "<details open><summary><span class=\"badge " ++ statusClass status ++ ascii "\">") ∧
    Whole (ascii "<tr><td><span class=\"badge " ++ statusClass status ++ ascii "\">") := by
  cases status <;>
  · simp only [statusClass,ascii_eq_literalBytes]
    decide

theorem closed_message (result : TestResult) : Closed (message result) := by
  have detail : Closed (if result.errorDetail = [] then [] else [markup [10],field result.errorDetail]) := by
    split
    · exact closed_nil
    · simp only [closed_markup,closed_field,closed_nil]
      decide
  rw [message]
  split
  · exact closed_nil
  · simp only [closed_append,closed_markup,closed_field,closed_nil,detail,and_true]
    simp only [ascii_eq_literalBytes]
    decide

theorem closed_recordedFacts (result : TestResult) : Closed (recordedFacts result) := by
  rw [recordedFacts]
  split
  · exact closed_nil
  · simp only [closed_markup,closed_field,closed_nil,ascii_eq_literalBytes]
    decide

theorem closed_logTail (options : HtmlReporterOptions) (result : TestResult) : Closed (logTail options result) := by
  have line : ∀ line : Bytes, Closed [field line,markup [10]] := by
    intro line
    simp only [closed_markup,closed_field,closed_nil]
    decide
  rw [logTail]
  split
  · simp only [closed_append,closed_markup,closed_nil,closed_flatMap fun text _ => line text,whole_decimal,and_true,true_and]
    simp only [ascii_eq_literalBytes]
    decide
  · exact closed_nil

theorem closed_diagnostics (options : HtmlReporterOptions) (result : TestResult) : Closed (diagnostics options result) := by
  have note : Closed (if isMockData result then
      [markup (ascii "<p class=\"note\"><strong>Note:</strong> the GPU section below is " ++
        ascii "MOCK TEST DATA, not a reading from real hardware.</p>")] else []) := by
    split
    · simp only [closed_markup,closed_nil,ascii_eq_literalBytes]
      decide
    · exact closed_nil
  rw [diagnostics]
  split
  · simp only [closed_append,closed_markup,closed_field,closed_nil,note,and_true]
    simp only [ascii_eq_literalBytes]
    decide
  · exact closed_nil

theorem closed_failure (options : HtmlReporterOptions) (result : TestResult) : Closed (failure options result) := by
  have attempt : Closed (if result.attempt > 1 then
      [markup (ascii "<dt>Attempt</dt><dd>"),markup (decimalInt result.attempt),markup (ascii "</dd>")] else []) := by
    split
    · simp only [closed_markup,closed_nil,whole_decimalInt,true_and]
      simp only [ascii_eq_literalBytes]
      decide
    · exact closed_nil
  simp only [failure,closed_append,closed_markup,closed_field,closed_nil,(whole_badges result.status).1,attempt,
    closed_message,closed_recordedFacts,closed_logTail,closed_diagnostics,and_true,true_and]
  simp only [ascii_eq_literalBytes]
  decide

theorem closed_failures (options : HtmlReporterOptions) (results : List TestResult) : Closed (failures options results) := by
  rw [failures]
  split
  · exact closed_nil
  · simp only [closed_append,closed_markup,closed_nil,whole_decimal,closed_flatMap fun result _ => closed_failure options result,
      and_true,true_and]
    simp only [ascii_eq_literalBytes]
    decide

theorem closed_allResults (results : List TestResult) : Closed (allResults results) := by
  have row : ∀ result : TestResult, Closed (resultRow result) := by
    intro result
    by_cases none : result.failureCategory = .none <;>
    · simp only [resultRow,none,if_true,if_false,closed_markup,closed_field,closed_nil,(whole_badges result.status).2,and_true,
        true_and]
      simp only [ascii_eq_literalBytes]
      decide
  simp only [allResults,closed_append,closed_markup,closed_nil,closed_flatMap fun result _ => row result,and_true]
  simp only [ascii_eq_literalBytes]
  decide +kernel

theorem closed_footer (now : TimePoint) : Closed (footer now) := by
  simp only [footer,closed_markup,closed_field,closed_nil,ascii_eq_literalBytes]
  decide

theorem closed_pieces (options : HtmlReporterOptions) (run : TestRun) (now : TimePoint) : Closed (pieces options run now) := by
  simp only [pieces,closed_append,closed_head,closed_summary,closed_context,closed_categories,closed_failures,
    closed_allResults,closed_footer,and_self]

/-- Whatever bytes the texts hold, the page is read as its literals with every text shown between them. -/
theorem scan_render (options : HtmlReporterOptions) (run : TestRun) (now : TimePoint) :
    html.scan (render options run now) = some ((pieces options run now).flatMap Piece.tokens) :=
  Dialect.scan_of_run (run_pieces (closed_pieces options run now))

end TestForge.HtmlReporter
