import TestForge.ClockRoundTrip
import TestForge.Config
import TestForge.HtmlReporter
import TestForge.JUnitReporter
import TestForge.TestResult

/-! The report files of a run. Every step that touches the file system may fail on its own, and what
it leaves behind then is arbitrary; paths are joined as on a system whose separator is the slash. -/
namespace TestForge

open Json Sequence Strings Clock

/-- What is in the files that are there. -/
abbrev FileSystem := Bytes → Option Bytes

structure Reporter where
  name : Bytes
  fileExtension : Bytes
  /-- Nothing when it throws. -/
  render : TestRun → Option Bytes

/-- What becomes of a report from the opening of its file on. -/
inductive Fate where
  | unopened
  /-- The stream fails, with so many bytes in the file. -/
  | broken (kept : Nat)
  /-- The stream is good; a flush on closing may still have kept bytes out of the file. -/
  | closed (kept : Option Nat := none)

/-- What becomes of a copy. -/
inductive Copying where
  | copied
  | failed (left : Option Bytes)

structure ReportWriter where
  config : Settings.ReportingConfig := {}
  extra : List Reporter := []

namespace ReportWriter

/-- The file system and the clock, during one `write`. -/
structure Occasion where
  run : TestRun
  now : TimePoint := 0
  /-- The directory is there, or can be made. -/
  directory : Bool := true
  fate : Nat → Fate := fun _ => .closed
  copying : Nat → Copying := fun _ => .copied

def jsonReporter : Reporter where
  name := ascii "json"
  fileExtension := ascii "json"
  render run := some (Value.dumpInto 2 0 ((run.toJson.set (ascii "report_format") (.string (ascii "testforge.run"))).set
    (ascii "report_version") (.int 1)))

def htmlReporter (title : Bytes) (now : TimePoint) : Reporter where
  name := ascii "html"
  fileExtension := ascii "html"
  render run := some (HtmlReporter.render { title } run now)

def junitReporter : Reporter where
  name := ascii "junit"
  fileExtension := ascii "xml"
  render run := some (JUnitReporter.render run)

/-- Between the two words stands a dash of three bytes. -/
def title (run : TestRun) : Bytes :=
  if run.label = [] then ascii "TestForge Report"
  else ascii "TestForge " ++ [0xE2,0x80,0x94] ++ ascii " " ++ run.label

def reporters (writer : ReportWriter) (occasion : Occasion) : List Reporter :=
  (if writer.config.json then [jsonReporter] else []) ++
    (if writer.config.html then [htmlReporter (title occasion.run) occasion.now] else []) ++
    (if writer.config.junit then [junitReporter] else []) ++ writer.extra

def separates (c : UInt8) : Bool := c = 58 || c = 45 || c = 46

/-- `replaceAll` with nothing, for each of three bytes. -/
def filenameTimestamp (when : TimePoint) : Bytes := (toIso8601 when).filter fun c => !separates c

/-- `path / name` -/
def join (directory name : Bytes) : Bytes :=
  if directory = [] ∨ directory.getLast? = some 47 then directory ++ name else directory ++ 47 :: name

def reportName (run : TestRun) (extension : Bytes) : Bytes :=
  ascii "run-" ++ run.runId.take 8 ++ ascii "-" ++ filenameTimestamp run.startedAt ++ ascii "." ++ extension

def pathFor (writer : ReportWriter) (run : TestRun) (reporter : Reporter) : Bytes :=
  join writer.config.outputDirectory (reportName run reporter.fileExtension)

def aliasFor (writer : ReportWriter) (reporter : Reporter) : Bytes :=
  join writer.config.outputDirectory (ascii "latest." ++ reporter.fileExtension)

/-- The file is truncated when it is opened. -/
def save (files : FileSystem) (path content : Bytes) : Fate → FileSystem × Bool
  | .unopened => (files,false)
  | .broken kept => (Function.update files path (some (content.take kept)),false)
  | .closed kept => (Function.update files path (some (content.take (kept.getD content.length))),true)

/-- One turn of the first loop. -/
def writeOne (writer : ReportWriter) (run : TestRun) (s : FileSystem × List Bytes) (job : Reporter × Fate) :
    FileSystem × List Bytes :=
  match job.1.render run with
  | none => s
  | some content =>
    let path := writer.pathFor run job.1
    let saved := save s.1 path content job.2
    (saved.1,if saved.2 then s.2 ++ [path] else s.2)

/-- One turn of the second. -/
def aliasOne (writer : ReportWriter) (run : TestRun) (files : FileSystem) (job : Reporter × Copying) : FileSystem :=
  match files (writer.pathFor run job.1) with
  | none => files
  | some content => Function.update files (writer.aliasFor job.1) (match job.2 with
    | .copied => some content
    | .failed left => left)

/-- Each reporter with what happens at its place. -/
def jobs {β : Type} (reporters : List Reporter) (f : Nat → β) : List (Reporter × β) :=
  reporters.zipIdx.map fun entry => (entry.1,f entry.2)

def write (writer : ReportWriter) (files : FileSystem) (occasion : Occasion) : FileSystem × List Bytes :=
  let reporters := writer.reporters occasion
  if reporters = [] ∨ writer.config.outputDirectory = [] ∨ !occasion.directory then (files,[])
  else
    let written := (jobs reporters occasion.fate).foldl (writer.writeOne occasion.run) (files,[])
    if written.2 = [] then written
    else ((jobs reporters occasion.copying).foldl (writer.aliasOne occasion.run) written.1,written.2)

/-- The reports of one run after the other. -/
def writes (writer : ReportWriter) (files : FileSystem) (occasions : List Occasion) : FileSystem :=
  occasions.foldl (fun files occasion => (writer.write files occasion).1) files

/-! ### Paths -/

theorem join_injective (directory : Bytes) {one other : Bytes} (same : join directory one = join directory other) :
    one = other := by
  unfold join at same
  split at same
  · exact List.append_cancel_left same
  · exact List.tail_eq_of_cons_eq (List.append_cancel_left same)

theorem pathFor_extension (writer : ReportWriter) (run : TestRun) {one other : Reporter}
    (same : writer.pathFor run one = writer.pathFor run other) : one.fileExtension = other.fileExtension :=
  List.append_cancel_left (join_injective _ same)

theorem aliasFor_extension (writer : ReportWriter) {one other : Reporter}
    (same : writer.aliasFor one = writer.aliasFor other) : one.fileExtension = other.fileExtension :=
  List.append_cancel_left (join_injective _ same)

theorem pathFor_ne_aliasFor (writer : ReportWriter) (run : TestRun) (one other : Reporter) :
    writer.pathFor run one ≠ writer.aliasFor other := by
  intro same
  have heads := congrArg List.head? (join_injective _ same)
  simp [reportName,ascii] at heads

/-! ### One run -/

section Loops

variable (writer : ReportWriter) (run : TestRun)

theorem writeOne_other (s : FileSystem × List Bytes) (job : Reporter × Fate) (path : Bytes)
    (other : path ≠ writer.pathFor run job.1) : (writer.writeOne run s job).1 path = s.1 path := by
  unfold writeOne
  cases job.1.render run with
  | none => rfl
  | some content => cases job.2 <;> simp [save,Function.update_of_ne other]

theorem writeAll_other (jobs : List (Reporter × Fate)) (path : Bytes)
    (other : ∀ job ∈ jobs, path ≠ writer.pathFor run job.1) :
    ∀ s : FileSystem × List Bytes, (jobs.foldl (writer.writeOne run) s).1 path = s.1 path := by
  induction jobs with
  | nil => exact fun s => rfl
  | cons job rest ih =>
    intro s
    rw [List.foldl_cons,ih fun later member => other later (.tail _ member)]
    exact writeOne_other writer run s job path (other job (.head _))

theorem aliasOne_other (files : FileSystem) (job : Reporter × Copying) (path : Bytes) (other : path ≠ writer.aliasFor job.1) :
    writer.aliasOne run files job path = files path := by
  unfold aliasOne
  cases files (writer.pathFor run job.1) with
  | none => rfl
  | some content => exact Function.update_of_ne other ..

theorem aliasAll_other (jobs : List (Reporter × Copying)) (path : Bytes)
    (other : ∀ job ∈ jobs, path ≠ writer.aliasFor job.1) :
    ∀ files : FileSystem, jobs.foldl (writer.aliasOne run) files path = files path := by
  induction jobs with
  | nil => exact fun files => rfl
  | cons job rest ih =>
    intro files
    rw [List.foldl_cons,ih fun later member => other later (.tail _ member)]
    exact aliasOne_other writer run files job path (other job (.head _))

/-- What is returned is what was there before and the reports whose stream is good at the end. -/
theorem mem_writeAll (jobs : List (Reporter × Fate)) (path : Bytes) :
    ∀ s : FileSystem × List Bytes, path ∈ (jobs.foldl (writer.writeOne run) s).2 ↔ path ∈ s.2 ∨
      ∃ job ∈ jobs, path = writer.pathFor run job.1 ∧ (job.1.render run).isSome = true ∧ ∃ kept, job.2 = .closed kept := by
  induction jobs with
  | nil => simp
  | cons job rest ih =>
    intro s
    rw [List.foldl_cons,ih]
    unfold writeOne
    cases rendered : job.1.render run with
    | none => simp [rendered]
    | some content =>
      cases fate : job.2 with
      | unopened => simp [save,rendered,fate]
      | broken kept => simp [save,rendered,fate]
      | closed kept => simp [save,rendered,fate,or_assoc]

/-- With one reporter for an extension no later report gets into the way. -/
theorem writeAll_whole (jobs : List (Reporter × Fate)) (distinct : (jobs.map (·.1.fileExtension)).Nodup)
    (reporter : Reporter) (member : (reporter,.closed) ∈ jobs) (content : Bytes) (rendered : reporter.render run = some content)
    (s : FileSystem × List Bytes) : (jobs.foldl (writer.writeOne run) s).1 (writer.pathFor run reporter) = some content := by
  obtain ⟨front,back,rfl⟩ := List.append_of_mem member
  rw [List.map_append,List.map_cons] at distinct
  have apart := (List.nodup_cons.mp (List.nodup_append.mp distinct).2.1).1
  rw [List.foldl_append,List.foldl_cons,writeAll_other]
  · simp [writeOne,rendered,save]
  · intro job later same
    exact apart (List.mem_map.mpr ⟨job,later,(pathFor_extension writer run same).symm⟩)

theorem aliasAll_copied (jobs : List (Reporter × Copying)) (distinct : (jobs.map (·.1.fileExtension)).Nodup)
    (reporter : Reporter) (member : (reporter,.copied) ∈ jobs) (content : Bytes) (files : FileSystem)
    (there : files (writer.pathFor run reporter) = some content) :
    jobs.foldl (writer.aliasOne run) files (writer.aliasFor reporter) = some content := by
  obtain ⟨front,back,rfl⟩ := List.append_of_mem member
  rw [List.map_append,List.map_cons] at distinct
  have apart := (List.nodup_cons.mp (List.nodup_append.mp distinct).2.1).1
  have still : front.foldl (writer.aliasOne run) files (writer.pathFor run reporter) = some content := by
    rw [aliasAll_other,there]
    exact fun job _ => pathFor_ne_aliasFor writer run reporter job.1
  rw [List.foldl_append,List.foldl_cons,aliasAll_other]
  · simp [aliasOne,still]
  · intro job later same
    exact apart (List.mem_map.mpr ⟨job,later,(aliasFor_extension writer same).symm⟩)

end Loops

/-! ### One write -/

def extensions (writer : ReportWriter) : List Bytes :=
  (if writer.config.json then [ascii "json"] else []) ++ (if writer.config.html then [ascii "html"] else []) ++
    (if writer.config.junit then [ascii "xml"] else []) ++ writer.extra.map (·.fileExtension)

theorem reporters_extensions (writer : ReportWriter) (occasion : Occasion) :
    (writer.reporters occasion).map (·.fileExtension) = writer.extensions := by
  unfold reporters extensions
  cases writer.config.json <;> cases writer.config.html <;> cases writer.config.junit <;>
    simp [jsonReporter,htmlReporter,junitReporter]

/-- The reporter's place, its report, and a stream and a file that keep all of it. -/
structure Whole (writer : ReportWriter) (occasion : Occasion) (reporter : Reporter) (i : Nat) (content : Bytes) : Prop where
  placed : (reporter,i) ∈ (writer.reporters occasion).zipIdx
  directory : occasion.directory = true
  rendered : reporter.render occasion.run = some content
  closed : occasion.fate i = .closed

section Write

variable (writer : ReportWriter) (files : FileSystem) (occasion : Occasion)

theorem jobs_extensions {β : Type} (f : Nat → β) :
    (jobs (writer.reporters occasion) f).map (·.1.fileExtension) = writer.extensions := by
  have firsts : (jobs (writer.reporters occasion) f).map (·.1) = writer.reporters occasion := by
    rw [jobs,List.map_map]
    exact List.zipIdx_map_fst 0 _
  calc (jobs (writer.reporters occasion) f).map (·.1.fileExtension)
      = ((jobs (writer.reporters occasion) f).map (·.1)).map (·.fileExtension) := by simp [Function.comp_def]
    _ = writer.extensions := by rw [firsts,reporters_extensions]

theorem mem_jobs {β : Type} (f : Nat → β) (job : Reporter × β) (member : job ∈ jobs (writer.reporters occasion) f) :
    job.1 ∈ writer.reporters occasion := by
  obtain ⟨entry,placed,rfl⟩ := List.mem_map.mp member
  exact List.fst_mem_of_mem_zipIdx placed

theorem write_other (path : Bytes) (report : ∀ reporter ∈ writer.reporters occasion, path ≠ writer.pathFor occasion.run reporter)
    (latest : ∀ reporter ∈ writer.reporters occasion, path ≠ writer.aliasFor reporter) :
    (writer.write files occasion).1 path = files path := by
  have first := writeAll_other writer occasion.run (jobs (writer.reporters occasion) occasion.fate) path
    (fun job member => report job.1 (mem_jobs writer occasion _ job member)) (files,[])
  have second := aliasAll_other writer occasion.run (jobs (writer.reporters occasion) occasion.copying) path
    (fun job member => latest job.1 (mem_jobs writer occasion _ job member))
  unfold write
  simp only
  split
  · rfl
  split
  · exact first
  · exact (second _).trans first

/-- What is returned are the reports whose stream was good to the end, whether or not all of it
reached the file. -/
theorem mem_write (path : Bytes) : path ∈ (writer.write files occasion).2 ↔
    writer.config.outputDirectory ≠ [] ∧ occasion.directory = true ∧
      ∃ entry ∈ (writer.reporters occasion).zipIdx, path = writer.pathFor occasion.run entry.1 ∧
        (entry.1.render occasion.run).isSome = true ∧ ∃ kept, occasion.fate entry.2 = .closed kept := by
  have told := mem_writeAll writer occasion.run (jobs (writer.reporters occasion) occasion.fate) path (files,[])
  unfold write
  simp only
  split
  · next idle =>
    rcases idle with nobody | unnamed | missing
    · simp [nobody]
    · simp [unnamed]
    · simp only [Bool.not_eq_true'] at missing
      simp [missing]
  · next ready =>
    simp only [not_or,Bool.not_eq_true',Bool.not_eq_false] at ready
    split <;> exact told.trans (by simp [ready,jobs])

variable {writer occasion}

/-- A whole report is there and told of, and the alias is a copy of it when it could be copied. -/
theorem write_whole (distinct : writer.extensions.Nodup) (named : writer.config.outputDirectory ≠ [])
    {reporter : Reporter} {i : Nat} {content : Bytes} (whole : Whole writer occasion reporter i content) :
    (writer.write files occasion).1 (writer.pathFor occasion.run reporter) = some content ∧
      writer.pathFor occasion.run reporter ∈ (writer.write files occasion).2 ∧
      (occasion.copying i = .copied → (writer.write files occasion).1 (writer.aliasFor reporter) = some content) := by
  have job {β : Type} (f : Nat → β) : (reporter,f i) ∈ jobs (writer.reporters occasion) f :=
    List.mem_map.mpr ⟨_,whole.placed,rfl⟩
  have closing := job occasion.fate
  rw [whole.closed] at closing
  have reported := writeAll_whole writer occasion.run (jobs (writer.reporters occasion) occasion.fate)
    (by rwa [jobs_extensions]) reporter closing content whole.rendered (files,[])
  have told := (mem_writeAll writer occasion.run (jobs (writer.reporters occasion) occasion.fate)
    (writer.pathFor occasion.run reporter) (files,[])).mpr
      (.inr ⟨_,closing,rfl,by simp [whole.rendered],none,rfl⟩)
  have present : writer.reporters occasion ≠ [] := List.ne_nil_of_mem (List.fst_mem_of_mem_zipIdx whole.placed)
  have filled := List.ne_nil_of_mem told
  unfold write
  simp only [whole.directory,present,named,Bool.not_true,Bool.false_eq_true,or_self,if_false,if_neg filled]
  refine ⟨?_,told,fun copies => ?_⟩
  · rw [aliasAll_other,reported]
    exact fun job _ => pathFor_ne_aliasFor writer occasion.run reporter job.1
  · have copying := job occasion.copying
    rw [copies] at copying
    exact aliasAll_copied writer occasion.run _ (by rwa [jobs_extensions]) reporter copying content _ reported

end Write

/-! ### The names of reports -/

/-- So many digits. -/
structure Field (width : Nat) (text : Bytes) : Prop where
  width : text.length = width
  digits : ∀ c ∈ text, isDigit c = true

theorem field_padTo (width : Nat) (z : Int) (positive : 0 < width) (low : 0 ≤ z) (high : z < 10^width) :
    Field width (padTo width (decimalInt z)) := by
  obtain ⟨n,rfl⟩ := Int.eq_ofNat_of_zero_le low
  rw [decimalInt_natCast]
  have padded := padTo_decimal width n positive (by exact_mod_cast high)
  exact ⟨padded.1,padded.2.1⟩

theorem toIso8601_fields (instant : Int) (low : 0 ≤ instant) (high : instant < 253402300800000000000) :
    ∃ year month day hour minute second millis : Bytes,
      toIso8601 instant = year ++ 45 :: month ++ 45 :: day ++ 84 :: hour ++ 58 :: minute ++ 58 :: second ++
        46 :: millis ++ [90] ∧ Field 4 year ∧ Field 2 month ∧ Field 2 day ∧ Field 2 hour ∧ Field 2 minute ∧
        Field 2 second ∧ Field 3 millis := by
  have seconds : instant.tdiv 1000000000 = instant / 1000000000 := Int.tdiv_eq_ediv_of_nonneg low
  have millis : (instant - 1000000000 * (instant / 1000000000)).tdiv 1000000 = instant % 1000000000 / 1000000 := by
    rw [Int.tdiv_eq_ediv_of_nonneg (by omega)]
    omega
  have bounds := civil_bounds (instant / 1000000000 / 86400) (by omega) (by omega)
  unfold toIso8601
  simp only [seconds,millis]
  revert bounds
  generalize civil (instant / 1000000000 / 86400) = date
  obtain ⟨year,month,day⟩ := date
  rintro ⟨yearLow,yearHigh,monthLow,monthHigh,dayLow,dayHigh⟩
  refine ⟨decimalInt year,padTo 2 (decimalInt month),padTo 2 (decimalInt day),_,_,_,_,rfl,?_,
    field_padTo 2 _ (by decide) (by omega) (by omega),field_padTo 2 _ (by decide) (by omega) (by omega),
    field_padTo 2 _ (by decide) (by omega) (by omega),
    field_padTo 2 _ (by decide) (by omega) (by omega),field_padTo 2 _ (by decide) (by omega) (by omega),
    field_padTo 3 _ (by decide) (by omega) (by omega)⟩
  obtain ⟨n,rfl⟩ := Int.eq_ofNat_of_zero_le (by omega : 0 ≤ year)
  rw [decimalInt_natCast]
  exact ⟨Double.decimal_length n 3 (by omega) (by omega),isDigit_decimal n⟩

theorem Field.kept {width : Nat} {text : Bytes} (field : Field width text) :
    text.filter (fun c => !separates c) = text := by
  apply List.filter_eq_self.mpr
  intro c member
  have digit := field.digits c member
  have apart (sign : UInt8) (foreign : isDigit sign = false) : c ≠ sign := fun same => by simp [← same,digit] at foreign
  simp [separates,apart 58 rfl,apart 45 rfl,apart 46 rfl]

/-- Without its separators the time still has one length, and tells the millisecond. -/
theorem filenameTimestamp_fields (instant : Int) (low : 0 ≤ instant) (high : instant < 253402300800000000000) :
    (filenameTimestamp instant).length = 19 ∧ ∀ other : Int, 0 ≤ other → other < 253402300800000000000 →
      filenameTimestamp instant = filenameTimestamp other → toMillis instant = toMillis other := by
  have compact (instant : Int) (low : 0 ≤ instant) (high : instant < 253402300800000000000) :
      ∃ year month day hour minute second millis : Bytes, toIso8601 instant = year ++ 45 :: month ++ 45 :: day ++
          84 :: hour ++ 58 :: minute ++ 58 :: second ++ 46 :: millis ++ [90] ∧
        filenameTimestamp instant = year ++ (month ++ (day ++ 84 :: (hour ++ (minute ++ (second ++ (millis ++ [90])))))) ∧
        Field 4 year ∧ Field 2 month ∧ Field 2 day ∧ Field 2 hour ∧ Field 2 minute ∧ Field 2 second ∧ Field 3 millis := by
    obtain ⟨year,month,day,hour,minute,second,millis,shape,y,m,d,h,i,s,f⟩ := toIso8601_fields instant low high
    refine ⟨year,month,day,hour,minute,second,millis,shape,?_,y,m,d,h,i,s,f⟩
    rw [filenameTimestamp,shape]
    have signs : separates 45 = true ∧ separates 58 = true ∧ separates 46 = true ∧ separates 84 = false ∧
        separates 90 = false := by decide
    simp [List.filter_append,y.kept,m.kept,d.kept,h.kept,i.kept,s.kept,f.kept,signs]
  obtain ⟨year,month,day,hour,minute,second,millis,shape,stamp,y,m,d,h,i,s,f⟩ := compact instant low high
  refine ⟨?_,fun other otherLow otherHigh same => ?_⟩
  · rw [stamp]
    simp [y.width,m.width,d.width,h.width,i.width,s.width,f.width]
  · obtain ⟨year',month',day',hour',minute',second',millis',shape',stamp',y',m',d',h',i',s',f'⟩ :=
      compact other otherLow otherHigh
    rw [stamp,stamp'] at same
    obtain ⟨years,months⟩ := List.append_inj same (y.width.trans y'.width.symm)
    obtain ⟨months,days⟩ := List.append_inj months (m.width.trans m'.width.symm)
    obtain ⟨days,hours⟩ := List.append_inj days (d.width.trans d'.width.symm)
    obtain ⟨hours,minutes⟩ := List.append_inj (List.tail_eq_of_cons_eq hours) (h.width.trans h'.width.symm)
    obtain ⟨minutes,seconds⟩ := List.append_inj minutes (i.width.trans i'.width.symm)
    obtain ⟨seconds,fractions⟩ := List.append_inj seconds (s.width.trans s'.width.symm)
    obtain ⟨fractions,_⟩ := List.append_inj fractions (f.width.trans f'.width.symm)
    rw [← fromIso8601_toIso8601 instant low high,← fromIso8601_toIso8601 other otherLow otherHigh,shape,shape',years,
      months,days,hours,minutes,seconds,fractions]

/-- A run as the engine starts it: its id is long enough, and the year has four digits. -/
structure Dated (run : TestRun) : Prop where
  runId : 8 ≤ run.runId.length
  started : 0 ≤ run.startedAt
  ends : run.startedAt < 253402300800000000000

/-- What the name of a report tells of its run. -/
def stamp (run : TestRun) : Bytes × TimePoint := (run.runId.take 8,toMillis run.startedAt)

theorem pathFor_stamp (writer : ReportWriter) {one other : TestRun} (dated : Dated one) (alsoDated : Dated other)
    (reporter another : Reporter) (same : writer.pathFor one reporter = writer.pathFor other another) :
    stamp one = stamp other := by
  have names := join_injective _ same
  simp only [reportName,List.append_assoc] at names
  have long (run : TestRun) (dated : Dated run) : (run.runId.take 8).length = 8 := by
    rw [List.length_take]
    exact Nat.min_eq_left dated.runId
  obtain ⟨ids,names⟩ := List.append_inj (List.append_cancel_left names) ((long one dated).trans (long other alsoDated).symm)
  obtain ⟨width,tells⟩ := filenameTimestamp_fields one.startedAt dated.started dated.ends
  have alsoWidth := (filenameTimestamp_fields other.startedAt alsoDated.started alsoDated.ends).1
  obtain ⟨times,_⟩ := List.append_inj (List.append_cancel_left names) (width.trans alsoWidth.symm)
  exact Prod.ext ids (tells other.startedAt alsoDated.started alsoDated.ends times)

/-! ### Run after run -/

theorem writes_other (writer : ReportWriter) (run : TestRun) (dated : Dated run) (reporter : Reporter)
    (occasions : List Occasion) (others : ∀ occasion ∈ occasions, Dated occasion.run ∧ stamp run ≠ stamp occasion.run) :
    ∀ files : FileSystem, writer.writes files occasions (writer.pathFor run reporter) = files (writer.pathFor run reporter) := by
  induction occasions with
  | nil => exact fun files => rfl
  | cons occasion rest ih =>
    intro files
    obtain ⟨alsoDated,apart⟩ := others occasion (.head _)
    have later := ih (fun other member => others other (.tail _ member)) (writer.write files occasion).1
    rw [writes,List.foldl_cons,← writes,later,write_other]
    · exact fun another _ same => apart (pathFor_stamp writer dated alsoDated reporter another same)
    · exact fun another _ => pathFor_ne_aliasFor writer run reporter another

/-- Whatever fails in between: what was written whole stays, and the alias is the latest report. -/
theorem reports_kept (writer : ReportWriter) (distinct : writer.extensions.Nodup)
    (named : writer.config.outputDirectory ≠ []) (files : FileSystem) (before after : List Occasion) (occasion : Occasion)
    (dated : Dated occasion.run) (others : ∀ other ∈ after, Dated other.run ∧ stamp occasion.run ≠ stamp other.run)
    (reporter : Reporter) (i : Nat) (content : Bytes) (whole : Whole writer occasion reporter i content) :
    writer.writes files (before ++ occasion :: after) (writer.pathFor occasion.run reporter) = some content ∧
      writer.pathFor occasion.run reporter ∈ (writer.write (writer.writes files before) occasion).2 ∧
      (occasion.copying i = .copied →
        writer.writes files (before ++ [occasion]) (writer.aliasFor reporter) = some content) := by
  obtain ⟨report,told,copy⟩ := write_whole (writer.writes files before) distinct named whole
  have split (last : List Occasion) : writer.writes files (before ++ occasion :: last) =
      writer.writes (writer.write (writer.writes files before) occasion).1 last := by
    simp [writes]
  refine ⟨?_,told,fun copies => ?_⟩
  · rw [split,writes_other writer occasion.run dated reporter after others]
    exact report
  · rw [split]
    exact copy copies

/-- Two runs of one day, the second of which meets a full disk. -/
def junitOnly : ReportWriter := { config := { json := false, html := false, junit := true } }

def firstRun : Occasion := { run := { runId := ascii "00112233aabbccdd", startedAt := 1714564800000000000 } }

def fullDisk : Occasion where
  run := { runId := ascii "44556677aabbccdd", startedAt := 1714564801000000000 }
  fate := fun _ => .broken 100
  copying := fun _ => .failed none

theorem reports_kept_fullDisk : junitOnly.writes (fun _ => none) [firstRun,fullDisk]
    (junitOnly.pathFor firstRun.run junitReporter) = some (JUnitReporter.render firstRun.run) := by
  refine (reports_kept junitOnly (by decide) (by decide) (fun _ => none) [] [fullDisk] firstRun
    ⟨by decide,by decide,by decide⟩ ?_ junitReporter 0 (JUnitReporter.render firstRun.run) ⟨?_,rfl,rfl,rfl⟩).1
  · intro other member
    rw [List.mem_singleton.mp member]
    exact ⟨⟨by decide,by decide,by decide⟩,by decide⟩
  · exact .head _

end ReportWriter
end TestForge
