import TestForge.KeyedRows
import TestForge.ResultRoundTrip

/-! What the database is for: an archive that knows of each run how it was begun and completed,
its results and its events. Every sequence of calls of the repository, those that throw
included, leaves the tables that stand for the archive; and a run in it depends on the calls
about that run alone. -/
namespace TestForge.SqliteResultRepository

open Clock Json Strings KeyedRows

/-! ### The tables with events -/

structure EventRow where
  runId : Bytes
  createdMs : Int
  eventType : Bytes
  payloadJson : Bytes
  deriving DecidableEq, Repr

structure Database extends Tables where
  testEvents : List EventRow := []

def eventRow (now : TimePoint) (runId type : Bytes) (payload : Value) : EventRow where
  runId
  createdMs := toEpochMillis now
  eventType := type
  payloadJson := capped payload.dump 128000

/-- Like a result, an event of a run that is not there breaks the foreign key. -/
def recordEvent (db : Database) (now : TimePoint) (runId type : Bytes) (payload : Value) : Option Database :=
  if runId ∈ db.testRuns.map (·.runId) then
    some { db with testEvents := db.testEvents ++ [eventRow now runId type payload] }
  else none

def cutoff (now : TimePoint) (days : Int) : Int := toEpochMillis now - days * 86400000

/-- The database and the number of runs removed; their results and events go with them. -/
def pruneOlderThan (db : Database) (now : TimePoint) (days : Int) : Database × Int :=
  if days ≤ 0 then (db,0)
  else
    let removed := (db.testRuns.filter (·.startedAtMs < cutoff now days)).map (·.runId)
    ({ testRuns := db.testRuns.filter fun row => ¬row.startedAtMs < cutoff now days
       testResults := db.testResults.filter fun row => row.runId ∉ removed
       testEvents := db.testEvents.filter fun row => row.runId ∉ removed },removed.length)

inductive Call where
  | beginRun (run : TestRun)
  | saveResult (result : TestResult)
  | completeRun (run : TestRun)
  | recordEvent (now : TimePoint) (runId type : Bytes) (payload : Value)
  | pruneOlderThan (now : TimePoint) (days : Int)

/-- Nothing when the call throws. -/
def Database.call (db : Database) : Call → Option Database
  | .beginRun run => some {
      SqliteResultRepository.beginRun db.toTables run with
      testEvents := db.testEvents.filter (·.runId ≠ run.runId) }
  | .saveResult result => (SqliteResultRepository.saveResult db.toTables result).map fun tables => { db with toTables := tables }
  | .completeRun run => some { db with toTables := SqliteResultRepository.completeRun db.toTables run }
  | .recordEvent now runId type payload => SqliteResultRepository.recordEvent db now runId type payload
  | .pruneOlderThan now days => some (SqliteResultRepository.pruneOlderThan db now days).1

/-- A call that throws changes nothing. -/
def Database.perform (db : Database) (call : Call) : Database := (db.call call).getD db

def database (calls : List Call) : Database := calls.foldl Database.perform {}

/-! ### The archive -/

structure Event where
  createdAt : TimePoint
  type : Bytes
  payload : Value

/-- What is known of a run. -/
structure Record where
  begun : TestRun
  completed : Option TestRun := none
  results : List TestResult := []
  events : List Event := []

abbrev Archive := Bytes → Option Record

def Archive.change (archive : Archive) (runId : Bytes) (f : Record → Record) : Archive :=
  Function.update archive runId ((archive runId).map f)

def Archive.perform (archive : Archive) : Call → Archive
  | .beginRun run => Function.update archive run.runId (some { begun := run })
  | .saveResult result => archive.change result.runId fun record => { record with results := record.results ++ [result] }
  | .completeRun run => archive.change run.runId fun record => { record with completed := some run }
  | .recordEvent createdAt runId type payload => archive.change runId fun record =>
      { record with events := record.events ++ [{ createdAt, type, payload }] }
  | .pruneOlderThan now days => fun runId => (archive runId).filter fun record =>
      days ≤ 0 ∨ cutoff now days ≤ toEpochMillis record.begun.startedAt

def archived (calls : List Call) : Archive := calls.foldl Archive.perform fun _ => none

namespace Record

/-- The row of a run that was begun. -/
def beginRow (run : TestRun) : RunRow where
  runId := run.runId
  label := run.label
  startedAtMs := toEpochMillis run.startedAt
  workers := run.workers
  filter := run.filterDescription
  gitCommit := run.gitCommit
  hostname := run.hostname
  environmentJson := run.environment.dump

def row (record : Record) : RunRow :=
  match record.completed with
  | none => beginRow record.begun
  | some run => (beginRow record.begun).complete run

def eventRows (runId : Bytes) (record : Record) : List EventRow :=
  record.events.map fun event => eventRow event.createdAt runId event.type event.payload

/-- The run as it is given back. -/
def loaded (record : Record) : TestRun :=
  { readRunRow record.row with
    results := ((record.results.map resultRow).mergeSort ResultRow.inOrder).map readResultRow }

end Record

/-- The tables stand for the archive. -/
structure Refines (db : Database) (archive : Archive) : Prop where
  unique : Unique RunRow.runId db.testRuns
  runs : ∀ runId, lookup RunRow.runId db.testRuns runId = (archive runId).map Record.row
  results : ∀ runId, ofOwner ResultRow.runId db.testResults runId =
    (archive runId).elim [] fun record => record.results.map resultRow
  events : ∀ runId, ofOwner EventRow.runId db.testEvents runId = (archive runId).elim [] (Record.eventRows runId)

/-! ### Each call -/

theorem row_started (record : Record) : record.row.startedAtMs = toEpochMillis record.begun.startedAt := by
  rw [Record.row]
  split <;> rfl

namespace Archive

variable (archive : Archive) (runId other : Bytes) (f : Record → Record)

@[simp] theorem change_same : archive.change runId f runId = (archive runId).map f := Function.update_self _ _ _

theorem change_other (different : other ≠ runId) : archive.change runId f other = archive other :=
  Function.update_of_ne different _ _

theorem change_unknown (unknown : archive runId = none) : archive.change runId f = archive := by
  funext other
  by_cases mine : other = runId
  · rw [mine,change_same,unknown]
    rfl
  · exact change_other archive runId other f mine

/-- What the change leaves alone. -/
theorem change_frame (g : Record → β) (frame : ∀ record, g (f record) = g record) :
    (archive.change runId f other).map g = (archive other).map g := by
  by_cases mine : other = runId
  · subst mine
    rw [change_same,Option.map_map]
    exact congrArg (Option.map · (archive other)) (funext frame)
  · rw [change_other archive runId other f mine]

theorem elim_change_frame (g : Record → List β) (frame : ∀ record, g (f record) = g record) :
    (archive.change runId f other).elim [] g = (archive other).elim [] g := by
  have same := congrArg (Option.elim · [] id) (change_frame archive runId other f g frame)
  simpa [Option.elim_map] using same

end Archive

section

variable {db : Database} {archive : Archive} (refines : Refines db archive)
include refines

theorem Refines.known (runId : Bytes) : runId ∈ db.testRuns.map RunRow.runId ↔ (archive runId).isSome := by
  have missing := lookup_none RunRow.runId db.testRuns runId
  rw [refines.runs,Option.map_eq_none_iff] at missing
  rw [Option.isSome_iff_ne_none,Ne,missing,not_not]

theorem Refines.beginRun (run : TestRun) : Refines (db.perform (.beginRun run)) (archive.perform (.beginRun run)) where
  unique := refines.unique.put RunRow.runId (Record.beginRow run)
  runs := by
    intro runId
    have found := lookup_put RunRow.runId db.testRuns (Record.beginRow run) runId
    rw [refines.runs] at found
    refine found.trans ?_
    by_cases mine : runId = run.runId
    · subst mine
      exact (if_pos rfl).trans (by simp [Archive.perform,Record.row])
    · exact (if_neg mine).trans (by simp [Archive.perform,mine])
  results := by
    intro runId
    have kept := ofOwner_filter ResultRow.runId db.testResults (· ≠ run.runId) runId
    rw [refines.results] at kept
    refine kept.trans ?_
    by_cases mine : runId = run.runId <;> simp [Archive.perform,mine]
  events := by
    intro runId
    have kept := ofOwner_filter EventRow.runId db.testEvents (· ≠ run.runId) runId
    rw [refines.events] at kept
    refine kept.trans ?_
    by_cases mine : runId = run.runId <;> simp [Archive.perform,mine,Record.eventRows]

theorem Refines.completeRun (run : TestRun) :
    Refines (db.perform (.completeRun run)) (archive.perform (.completeRun run)) where
  unique := refines.unique.change RunRow.runId run.runId (RunRow.complete · run) fun _ => rfl
  runs := by
    intro runId
    have found := lookup_change RunRow.runId db.testRuns run.runId runId (RunRow.complete · run) fun _ => rfl
    rw [refines.runs] at found
    refine found.trans ?_
    by_cases mine : runId = run.runId
    · subst mine
      rw [if_pos rfl,Archive.perform,Archive.change_same,Option.map_map,Option.map_map]
      congr 1
      funext record
      simp only [Function.comp,Record.row]
      cases record.completed <;> rfl
    · rw [if_neg mine,Archive.perform,Archive.change_other _ _ _ _ mine]
  results := by
    intro runId
    rw [Archive.perform,Archive.elim_change_frame]
    · exact refines.results runId
    · exact fun _ => rfl
  events := by
    intro runId
    rw [Archive.perform,Archive.elim_change_frame]
    · exact refines.events runId
    · exact fun _ => rfl

theorem Refines.saveResult (result : TestResult) :
    Refines (db.perform (.saveResult result)) (archive.perform (.saveResult result)) := by
  by_cases present : result.runId ∈ db.testRuns.map RunRow.runId
  · obtain ⟨record,found⟩ := Option.isSome_iff_exists.mp ((refines.known result.runId).mp present)
    have after : db.perform (.saveResult result) =
        { db with testResults := db.testResults ++ [resultRow result] } := by
      simp only [Database.perform,Database.call,SqliteResultRepository.saveResult,if_pos present]
      rfl
    rw [after]
    refine ⟨refines.unique,fun other => ?_,fun other => ?_,fun other => ?_⟩
    · rw [Archive.perform,Archive.change_frame]
      · exact refines.runs other
      · exact fun _ => rfl
    · rw [ofOwner_add,refines.results]
      by_cases mine : other = result.runId
      · subst mine
        rw [Archive.perform,Archive.change_same,found]
        simp [resultRow]
      · rw [Archive.perform,Archive.change_other _ _ _ _ mine]
        exact (congrArg _ (if_neg mine)).trans (List.append_nil _)
    · rw [Archive.perform,Archive.elim_change_frame]
      · exact refines.events other
      · exact fun _ => rfl
  · have after : db.perform (.saveResult result) = db := by
      simp only [Database.perform,Database.call,SqliteResultRepository.saveResult,if_neg present]
      rfl
    rw [refines.known,Option.not_isSome_iff_eq_none] at present
    rw [after,Archive.perform,Archive.change_unknown archive _ _ present]
    exact refines

theorem Refines.recordEvent (now : TimePoint) (runId type : Bytes) (payload : Value) :
    Refines (db.perform (.recordEvent now runId type payload)) (archive.perform (.recordEvent now runId type payload)) := by
  by_cases present : runId ∈ db.testRuns.map RunRow.runId
  · obtain ⟨record,found⟩ := Option.isSome_iff_exists.mp ((refines.known runId).mp present)
    have after : db.perform (.recordEvent now runId type payload) =
        { db with testEvents := db.testEvents ++ [eventRow now runId type payload] } := by
      simp only [Database.perform,Database.call,SqliteResultRepository.recordEvent,if_pos present]
      rfl
    rw [after]
    refine ⟨refines.unique,fun other => ?_,fun other => ?_,fun other => ?_⟩
    · rw [Archive.perform,Archive.change_frame]
      · exact refines.runs other
      · exact fun _ => rfl
    · rw [Archive.perform,Archive.elim_change_frame]
      · exact refines.results other
      · exact fun _ => rfl
    · rw [ofOwner_add,refines.events]
      by_cases mine : other = runId
      · subst mine
        rw [Archive.perform,Archive.change_same,found]
        simp [Record.eventRows,eventRow]
      · rw [Archive.perform,Archive.change_other _ _ _ _ mine]
        exact (congrArg _ (if_neg mine)).trans (List.append_nil _)
  · have after : db.perform (.recordEvent now runId type payload) = db := by
      simp only [Database.perform,Database.call,SqliteResultRepository.recordEvent,if_neg present]
      rfl
    rw [refines.known,Option.not_isSome_iff_eq_none] at present
    rw [after,Archive.perform,Archive.change_unknown archive _ _ present]
    exact refines

/-- The runs that are removed, by their ids. -/
theorem Refines.removed (bound : Int) (runId : Bytes) :
    runId ∈ (db.testRuns.filter fun row => row.startedAtMs < bound).map RunRow.runId ↔
      ∃ record, archive runId = some record ∧ toEpochMillis record.begun.startedAt < bound := by
  have found := refines.unique.lookup_filter RunRow.runId (fun row => decide (row.startedAtMs < bound)) runId
  rw [refines.runs] at found
  rw [← not_iff_not,← lookup_none,found]
  cases archive runId with
  | none => simp
  | some record => simp [Option.filter_some,row_started]

/-- The rows of a run stay or go with it. -/
theorem Refines.cascade (bound : Int) (owner : γ → Bytes) (children : List γ) (g : Record → List γ) (runId : Bytes)
    (stored : ofOwner owner children runId = (archive runId).elim [] g) :
    ofOwner owner (children.filter fun child =>
        owner child ∉ (db.testRuns.filter fun row => row.startedAtMs < bound).map RunRow.runId) runId =
      ((archive runId).filter fun record => bound ≤ toEpochMillis record.begun.startedAt).elim [] g := by
  have gone := refines.removed bound runId
  generalize (db.testRuns.filter fun row => row.startedAtMs < bound).map RunRow.runId = removed at gone ⊢
  have kept := ofOwner_filter owner children (fun id => decide (id ∉ removed)) runId
  rw [stored] at kept
  refine kept.trans ?_
  cases found : archive runId with
  | none => simp
  | some record =>
    rw [found] at gone
    by_cases old : toEpochMillis record.begun.startedAt < bound
    · have listed := gone.mpr ⟨record,rfl,old⟩
      simp [Option.filter_some,listed,not_le.mpr old]
    · have missing : runId ∉ removed := fun listed => by
        obtain ⟨other,same,early⟩ := gone.mp listed
        obtain rfl := Option.some.inj same
        exact old early
      simp [Option.filter_some,missing,not_lt.mp old]

theorem Refines.pruneOlderThan (now : TimePoint) (days : Int) :
    Refines (db.perform (.pruneOlderThan now days)) (archive.perform (.pruneOlderThan now days)) := by
  rw [Database.perform,Database.call,Option.getD_some,SqliteResultRepository.pruneOlderThan,Archive.perform]
  by_cases never : days ≤ 0
  · have all (runId : Bytes) : ((archive runId).filter fun record =>
        decide (days ≤ 0 ∨ cutoff now days ≤ toEpochMillis record.begun.startedAt)) = archive runId := by
      cases archive runId <;> simp [Option.filter_some,never]
    simp only [if_pos never,all]
    exact refines
  · rw [if_neg never]
    simp only [never,false_or]
    refine ⟨refines.unique.filter _ _,fun runId => ?_,fun runId => ?_,fun runId => ?_⟩
    · rw [refines.unique.lookup_filter,refines.runs]
      cases archive runId with
      | none => rfl
      | some record => simp [Option.filter_some,row_started,apply_ite (Option.map Record.row)]
    · exact refines.cascade _ _ _ _ runId (refines.results runId)
    · exact refines.cascade _ _ _ _ runId (refines.events runId)

end

theorem Refines.perform (refines : Refines db archive) (call : Call) : Refines (db.perform call) (archive.perform call) := by
  cases call with
  | beginRun run => exact refines.beginRun run
  | saveResult result => exact refines.saveResult result
  | completeRun run => exact refines.completeRun run
  | recordEvent now runId type payload => exact refines.recordEvent now runId type payload
  | pruneOlderThan now days => exact refines.pruneOlderThan now days

theorem database_refines (calls : List Call) : Refines (database calls) (archived calls) := by
  induction calls using List.reverseRecOn with
  | nil => exact ⟨List.nodup_nil,fun _ => rfl,fun _ => rfl,fun _ => rfl⟩
  | append_singleton calls call ih =>
    have step := ih.perform call
    simpa [database,archived,List.foldl_append] using step

/-! ### Runs apart from each other -/

/-- Calls about a run; pruning is about all of them. -/
def Call.concerns (runId : Bytes) : Call → Bool
  | .beginRun run => run.runId = runId
  | .saveResult result => result.runId = runId
  | .completeRun run => run.runId = runId
  | .recordEvent _ other _ _ => other = runId
  | .pruneOlderThan _ _ => true

theorem perform_apart (archive : Archive) (call : Call) (runId : Bytes) (apart : call.concerns runId = false) :
    archive.perform call runId = archive runId := by
  cases call with
  | beginRun run => exact Function.update_of_ne (Ne.symm (of_decide_eq_false apart)) _ _
  | saveResult result => exact Archive.change_other _ _ _ _ (Ne.symm (of_decide_eq_false apart))
  | completeRun run => exact Archive.change_other _ _ _ _ (Ne.symm (of_decide_eq_false apart))
  | recordEvent now other type payload => exact Archive.change_other _ _ _ _ (Ne.symm (of_decide_eq_false apart))
  | pruneOlderThan now days => cases apart

theorem perform_same (a b : Archive) (call : Call) (runId : Bytes) (same : a runId = b runId) :
    a.perform call runId = b.perform call runId := by
  have changed (other : Bytes) (f : Record → Record) : a.change other f runId = b.change other f runId := by
    by_cases mine : runId = other
    · subst mine
      rw [Archive.change_same,Archive.change_same,same]
    · rw [Archive.change_other _ _ _ _ mine,Archive.change_other _ _ _ _ mine,same]
  cases call with
  | beginRun run =>
    by_cases mine : runId = run.runId
    · simp [Archive.perform,mine]
    · simp [Archive.perform,mine,same]
  | saveResult result => exact changed _ _
  | completeRun run => exact changed _ _
  | recordEvent now other type payload => exact changed _ _
  | pruneOlderThan now days => simp only [Archive.perform,same]

/-- In any interleaving of calls, a run is what the calls about it make of it. -/
theorem archived_local (calls : List Call) (runId : Bytes) :
    archived calls runId = archived (calls.filter (·.concerns runId)) runId := by
  induction calls using List.reverseRecOn with
  | nil => rfl
  | append_singleton calls call ih =>
    simp only [archived,List.foldl_append,List.foldl_cons,List.foldl_nil,List.filter_append] at ih ⊢
    cases concerned : call.concerns runId with
    | false =>
      rw [perform_apart _ _ _ concerned,ih]
      simp [concerned]
    | true =>
      rw [perform_same _ _ call runId ih]
      simp [concerned]

/-! ### What is given back -/

section

variable {db : Database} {archive : Archive} (refines : Refines db archive)
include refines

theorem Refines.loadResults (runId : Bytes) : loadResults db.toTables runId = (archive runId).elim [] (·.loaded.results) := by
  rw [SqliteResultRepository.loadResults]
  have rows := refines.results runId
  rw [ofOwner] at rows
  rw [rows]
  cases archive runId with
  | none => simp
  | some record => rfl

theorem Refines.loadRun (runId : Bytes) : loadRun db.toTables runId = (archive runId).map Record.loaded := by
  rw [SqliteResultRepository.loadRun,refines.loadResults]
  have row := refines.runs runId
  rw [lookup] at row
  rw [row]
  cases archive runId with
  | none => rfl
  | some record => rfl

theorem Refines.referential : (∀ row ∈ db.testResults, row.runId ∈ db.testRuns.map RunRow.runId) ∧
    ∀ row ∈ db.testEvents, row.runId ∈ db.testRuns.map RunRow.runId := by
  constructor
  · intro row member
    have mine := mem_ofOwner ResultRow.runId db.testResults row member
    rw [refines.results] at mine
    rw [refines.known]
    cases found : archive row.runId with
    | none => simp [found] at mine
    | some record => rfl
  · intro row member
    have mine := mem_ofOwner EventRow.runId db.testEvents row member
    rw [refines.events] at mine
    rw [refines.known]
    cases found : archive row.runId with
    | none => simp [found] at mine
    | some record => rfl

end

/-- What the repository gives back of a run. -/
structure GivesBack (db : Database) (runId : Bytes) (record : Option Record) : Prop where
  run : loadRun db.toTables runId = record.map Record.loaded
  results : loadResults db.toTables runId = record.elim [] (·.loaded.results)
  events : db.testEvents.filter (·.runId = runId) = record.elim [] (Record.eventRows runId)

/-- After any calls, each run comes back as the calls about it alone have left it; no run is
there twice, and there are no results or events without their run. -/
theorem database_sound (calls : List Call) :
    (∀ runId, GivesBack (database calls) runId (archived (calls.filter (·.concerns runId)) runId)) ∧
      ((database calls).testRuns.map (·.runId)).Nodup ∧
        (∀ row ∈ (database calls).testResults, row.runId ∈ (database calls).testRuns.map (·.runId)) ∧
          ∀ row ∈ (database calls).testEvents, row.runId ∈ (database calls).testRuns.map (·.runId) := by
  have refines := database_refines calls
  refine ⟨fun runId => ?_,refines.unique,refines.referential⟩
  rw [← archived_local]
  exact ⟨refines.loadRun runId,refines.loadResults runId,refines.events runId⟩

/-! ### Pruning -/

/-- What pruning leaves of a database, and what it reports. -/
structure Pruned (before : Database) (now : TimePoint) (days : Int) (after : Database) (removed : Int) : Prop where
  runs : ∀ runId, loadRun after.toTables runId = (loadRun before.toTables runId).filter fun run =>
    days ≤ 0 ∨ cutoff now days ≤ toEpochMillis run.startedAt
  results : after.testResults = before.testResults.filter (·.runId ∈ after.testRuns.map (·.runId))
  events : after.testEvents = before.testEvents.filter (·.runId ∈ after.testRuns.map (·.runId))
  counted : after.testRuns.length + removed = before.testRuns.length
  settled : 0 < days → ∀ later more, cutoff later more ≤ cutoff now days → pruneOlderThan after later more = (after,0)

theorem loaded_started (record : Record) : toEpochMillis record.loaded.startedAt = toEpochMillis record.begun.startedAt := by
  rw [← row_started]
  exact toEpochMillis_fromEpochMillis _

/-- A run stays exactly when it is not among those that go. -/
theorem Refines.stays (refines : Refines db archive) (bound : Int) (runId : Bytes)
    (known : runId ∈ db.testRuns.map RunRow.runId) :
    runId ∉ (db.testRuns.filter fun row => row.startedAtMs < bound).map RunRow.runId ↔
      runId ∈ (db.testRuns.filter fun row => ¬row.startedAtMs < bound).map RunRow.runId := by
  have gone := refines.unique.lookup_filter RunRow.runId (fun row => decide (row.startedAtMs < bound)) runId
  have kept := refines.unique.lookup_filter RunRow.runId (fun row => decide ¬row.startedAtMs < bound) runId
  rw [← lookup_none,← not_iff_not,← lookup_none,gone,kept]
  cases found : lookup RunRow.runId db.testRuns runId with
  | none => exact absurd known ((lookup_none RunRow.runId db.testRuns runId).mp found)
  | some row => by_cases early : row.startedAtMs < bound <;> simp [Option.filter_some,early]

theorem pruneOlderThan_nothing (db : Database) (now : TimePoint) (days : Int)
    (none : ∀ row ∈ db.testRuns, ¬row.startedAtMs < cutoff now days) : pruneOlderThan db now days = (db,0) := by
  have removed : (db.testRuns.filter fun row => row.startedAtMs < cutoff now days) = [] :=
    List.filter_eq_nil_iff.mpr fun row member => by simpa using none row member
  have kept : (db.testRuns.filter fun row => ¬row.startedAtMs < cutoff now days) = db.testRuns :=
    List.filter_eq_self.mpr fun row member => decide_eq_true (none row member)
  rw [pruneOlderThan]
  split
  · rfl
  · rw [kept,removed]
    simp

/-- Pruning removes exactly the runs that started too early, with all that belongs to them, says
how many they were, and finds nothing more to remove at the same bound. -/
theorem pruneOlderThan_pruned (calls : List Call) (now : TimePoint) (days : Int) :
    Pruned (database calls) now days (pruneOlderThan (database calls) now days).1
      (pruneOlderThan (database calls) now days).2 := by
  have refines := database_refines calls
  generalize database calls = db at refines ⊢
  have after := refines.pruneOlderThan now days
  have performed : db.perform (.pruneOlderThan now days) = (pruneOlderThan db now days).1 := rfl
  rw [performed] at after
  have owned := refines.referential
  refine ⟨fun runId => ?_,?_,?_,?_,fun positive later more earlier => ?_⟩
  · rw [after.loadRun,refines.loadRun]
    simp only [Archive.perform]
    cases archived calls runId with
    | none => rfl
    | some record => simp [Option.filter_some,loaded_started,apply_ite (Option.map Record.loaded)]
  · rw [pruneOlderThan]
    split
    · exact (List.filter_eq_self.mpr fun row member => decide_eq_true (owned.1 row member)).symm
    · exact List.filter_congr fun row member => decide_eq_decide.mpr (refines.stays _ _ (owned.1 row member))
  · rw [pruneOlderThan]
    split
    · exact (List.filter_eq_self.mpr fun row member => decide_eq_true (owned.2 row member)).symm
    · exact List.filter_congr fun row member => decide_eq_decide.mpr (refines.stays _ _ (owned.2 row member))
  · rw [pruneOlderThan]
    split
    · simp
    · have parts := List.length_eq_length_filter_add (l := db.testRuns) fun row => decide (row.startedAtMs < cutoff now days)
      simp only [decide_not,List.length_map]
      omega
  · apply pruneOlderThan_nothing
    intro row member
    rw [pruneOlderThan,if_neg (not_le.mpr positive)] at member
    have late := (List.mem_filter.mp member).2
    simp only [decide_eq_true_eq] at late
    omega

end TestForge.SqliteResultRepository
