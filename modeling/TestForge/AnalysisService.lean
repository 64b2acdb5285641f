import TestForge.AnalysisReply
import TestForge.Generation
import TestForge.ResultArchive

/-! Analyses of stored failures between the other calls of the repository. The provider says what it
likes, a different thing every time; the runs and their results are what they would be without it. -/
namespace TestForge.TestForgeService

open Json Strings SqliteResultRepository

/-! ### The service -/

def verdict (result : TestResult) : Value := .object [
  (ascii "status",.string result.status.toString),
  (ascii "failure_category",.string result.failureCategory.toString),
  (ascii "decided_by",.string (ascii "testforge-engine"))]

/-- The reply: the verdict stands beside the opinion. -/
def opinion (result : TestResult) (analysis : AnalysisResult) : Value := .object ([
  (ascii "ok",.bool analysis.ok),
  (ascii "test",.string result.qualifiedName),
  (ascii "verdict",verdict result),
  (ascii "analysis",analysis.toJson)] ++
  if analysis.ok then [] else [(ascii "error",.string analysis.error)])

def eventType : Bytes := ascii "ai_analysis"

/-- What the provider answers and the repository tells of a test; nothing without a provider. -/
structure Setting where
  ask : Option (AnalysisRequest → AnalysisResult)
  history : History
  now : TimePoint

/-- The whole of `analyseResult` with a repository; an event that cannot be recorded is not missed. -/
def analyseStored (setting : Setting) (db : Database) (result : TestResult) : Except Bytes (Value × Database) := do
  match ← analyseResult setting.ask.isSome (some setting.history) result, setting.ask with
  | .handed request,some ask =>
    let analysis := ask request
    let reply := opinion result analysis
    return (reply,if analysis.ok ∧ result.runId ≠ [] then
      (recordEvent db setting.now result.runId eventType reply).getD db else db)
  | .refused message code,_ => return (errorObject message code,db)
  -- not reached: nothing is handed over without a provider
  | .handed _,none => return (.null,db)

/-- The named result, or else the first failure. -/
def chosen (results : List TestResult) (testName : Bytes) : Option TestResult :=
  results.find? fun result =>
    if testName ≠ [] then result.qualifiedName = testName ∨ result.testName = testName else result.status.isFailure

def noDatabase : Bytes :=
  ascii "no results database is available (database.enabled is false, or the file could not be opened)"

def notChosen (runId testName : Bytes) : Bytes :=
  if testName = [] then ascii "run '" ++ runId ++ ascii "' contains no failures to analyse"
  else ascii "run '" ++ runId ++ ascii "' has no test named '" ++ testName ++ ascii "'"

def analyseFailure (setting : Setting) (repository : Option Database) (runId testName : Bytes) :
    Except Bytes (Value × Option Database) :=
  match repository with
  | none => .ok (errorObject noDatabase (ascii "NO_DATABASE"),none)
  | some db =>
    let results := loadResults db.toTables runId
    if results = [] then .ok (errorObject (ascii "no results for run '" ++ runId ++ ascii "'") (ascii "NOT_FOUND"),some db)
    else
      match chosen results testName with
      | none => .ok (errorObject (notChosen runId testName) (ascii "NOT_FOUND"),some db)
      | some result => (analyseStored setting db result).map fun told => (told.1,some told.2)

inductive Action where
  | keep (call : Call)
  | analyse (setting : Setting) (runId testName : Bytes)

namespace Action

def perform (db : Database) : Action → Database
  | .keep call => db.perform call
  | .analyse setting runId testName =>
    match analyseFailure setting (some db) runId testName with
    | .ok (_,some after) => after
    | _ => db

/-- What is left when there is no provider. -/
def kept? : Action → Option Call
  | .keep call => some call
  | .analyse _ _ _ => none

end Action

def advised (actions : List Action) : Database := actions.foldl Action.perform {}
def calls (actions : List Action) : List Call := actions.filterMap Action.kept?

/-! ### One analysis -/

theorem find_verdict (result : TestResult) (analysis : AnalysisResult) :
    (opinion result analysis).find (ascii "verdict") = some (verdict result) := rfl

/-- What an analysis can do: nothing but to add one event to the run of the result it is about. -/
inductive Analysed (setting : Setting) (db : Database) (runId testName : Bytes) : Value → Database → Prop where
  | refused (message code : Bytes) : Analysed setting db runId testName (errorObject message code) db
  | told (result : TestResult) (analysis : AnalysisResult)
      (found : chosen (loadResults db.toTables runId) testName = some result) (failing : result.status.isFailure = true)
      (after : Database) (kept : after = db ∨ analysis.ok = true ∧
        after = db.perform (.recordEvent setting.now result.runId eventType (opinion result analysis))) :
      Analysed setting db runId testName (opinion result analysis) after

theorem analyseStored_told (setting : Setting) (db : Database) (runId testName : Bytes) {result : TestResult}
    (found : chosen (loadResults db.toTables runId) testName = some result) {reply : Value} {after : Database}
    (done : analyseStored setting db result = .ok (reply,after)) : Analysed setting db runId testName reply after := by
  cases asked : setting.ask with
  | none =>
    simp only [analyseStored,analyseResult,asked,Option.isSome_none,Bool.not_false,if_true] at done
    obtain ⟨rfl,rfl⟩ := Prod.mk.inj (Except.ok.inj done)
    exact .refused _ _
  | some ask =>
    cases told : analyseResult true (some setting.history) result with
    | error error => simp [analyseStored,asked,told,bind,Except.bind] at done
    | ok answer =>
      simp only [analyseStored,asked,Option.isSome_some,told,bind,Except.bind] at done
      cases answer with
      | refused message code =>
        obtain ⟨rfl,rfl⟩ := Prod.mk.inj (Except.ok.inj done)
        exact .refused _ _
      | handed request =>
        obtain ⟨rfl,rfl⟩ := Prod.mk.inj (Except.ok.inj done)
        apply Analysed.told result (ask request) found (FailureContext.analyseResult_handed told).1
        split
        · next good => exact .inr ⟨good.1,rfl⟩
        · exact .inl rfl

theorem analyseFailure_told (setting : Setting) (db : Database) (runId testName : Bytes)
    {reply : Value} {after : Option Database}
    (done : analyseFailure setting (some db) runId testName = .ok (reply,after)) :
    ∃ next, after = some next ∧ Analysed setting db runId testName reply next := by
  simp only [analyseFailure] at done
  split at done
  · obtain ⟨rfl,rfl⟩ := Prod.mk.inj (Except.ok.inj done)
    exact ⟨db,rfl,.refused _ _⟩
  split at done
  · obtain ⟨rfl,rfl⟩ := Prod.mk.inj (Except.ok.inj done)
    exact ⟨db,rfl,.refused _ _⟩
  next result found =>
    cases told : analyseStored setting db result with
    | error error => simp [told,Except.map] at done
    | ok both =>
      rw [told] at done
      obtain ⟨rfl,rfl⟩ := Prod.mk.inj (Except.ok.inj done)
      exact ⟨both.2,rfl,analyseStored_told setting db runId testName found told⟩

/-! ### Any number of analyses -/

/-- A record without what analyses have left in it. -/
def unadvised (record : Record) : Record := { record with events := record.events.filter (·.type ≠ eventType) }

/-- Two archives that differ by analyses. -/
def Alike (a b : Archive) : Prop := ∀ runId, (a runId).map unadvised = (b runId).map unadvised

/-- A change that goes through to the records without analyses. -/
theorem Alike.change {a b : Archive} (alike : Alike a b) (runId : Bytes) (f g : Record → Record)
    (through : ∀ record, unadvised (f record) = g (unadvised record)) : Alike (a.change runId f) (b.change runId f) := by
  intro other
  by_cases mine : other = runId
  · subst mine
    have same := congrArg (Option.map g) (alike other)
    simp only [Option.map_map] at same
    have composed : unadvised ∘ f = g ∘ unadvised := funext through
    simpa [Option.map_map,composed] using same
  · rw [Archive.change_other _ _ _ _ mine,Archive.change_other _ _ _ _ mine]
    exact alike other

theorem Alike.perform {a b : Archive} (alike : Alike a b) (call : Call) : Alike (a.perform call) (b.perform call) := by
  cases call with
  | beginRun run =>
    intro other
    by_cases mine : other = run.runId
    · subst mine
      simp [Archive.perform]
    · simpa [Archive.perform,mine] using alike other
  | saveResult result =>
    exact alike.change _ _ (fun record => { record with results := record.results ++ [result] }) fun _ => rfl
  | completeRun run => exact alike.change _ _ (fun record => { record with completed := some run }) fun _ => rfl
  | recordEvent createdAt runId type payload =>
    refine alike.change _ _ (fun record => { record with
      events := record.events ++ [{ createdAt, type, payload : Event }].filter (·.type ≠ eventType) }) fun record => ?_
    simp only [unadvised,List.filter_append]
  | pruneOlderThan now days =>
    intro runId
    have same := congrArg (Option.filter fun record : Record =>
      days ≤ 0 ∨ cutoff now days ≤ Clock.toEpochMillis record.begun.startedAt) (alike runId)
    simpa [Archive.perform,Option.filter_map,Function.comp_def,unadvised] using same

theorem alike_advised (archive : Archive) (now : TimePoint) (runId : Bytes) (payload : Value) :
    Alike (archive.perform (.recordEvent now runId eventType payload)) archive := by
  intro other
  exact Archive.change_frame archive runId other _ unadvised fun record => by simp [unadvised]

theorem perform_analyse (db : Database) (setting : Setting) (runId testName : Bytes) :
    (Action.analyse setting runId testName).perform db = db ∨ ∃ own payload,
      (Action.analyse setting runId testName).perform db = db.perform (.recordEvent setting.now own eventType payload) := by
  simp only [Action.perform]
  split
  · next reply after done =>
    obtain ⟨next,same,analysed⟩ := analyseFailure_told setting db runId testName done
    obtain rfl := Option.some.inj same
    cases analysed with
    | refused => exact .inl rfl
    | told result analysis found failing after kept =>
      rcases kept with rfl | ⟨-,rfl⟩
      · exact .inl rfl
      · exact .inr ⟨_,_,rfl⟩
  · exact .inl rfl

theorem session_alike (actions : List Action) :
    ∃ archive, Refines (advised actions) archive ∧ Alike archive (archived (calls actions)) := by
  induction actions using List.reverseRecOn with
  | nil => exact ⟨_,database_refines [],fun _ => rfl⟩
  | append_singleton actions action ih =>
    obtain ⟨archive,refines,alike⟩ := ih
    have next : advised (actions ++ [action]) = action.perform (advised actions) := by simp [advised]
    rw [next]
    cases action with
    | keep call =>
      have others : archived (calls (actions ++ [.keep call])) = (archived (calls actions)).perform call := by
        simp [calls,archived,Action.kept?]
      rw [others]
      exact ⟨_,refines.perform call,alike.perform call⟩
    | analyse setting runId testName =>
      have others : calls (actions ++ [.analyse setting runId testName]) = calls actions := by simp [calls,Action.kept?]
      rw [others]
      rcases perform_analyse (advised actions) setting runId testName with same | ⟨own,payload,same⟩
      · rw [same]
        exact ⟨archive,refines,alike⟩
      · rw [same]
        refine ⟨_,refines.perform (.recordEvent setting.now own eventType payload),fun other => ?_⟩
        exact (alike_advised archive setting.now own payload other).trans (alike other)

/-- What a function of records without analyses tells is the same of both archives. -/
theorem Alike.map_eq {a b : Archive} (alike : Alike a b) (runId : Bytes) (f : Record → α)
    (blind : ∀ record, f (unadvised record) = f record) : (a runId).map f = (b runId).map f := by
  have same := congrArg (Option.map f) (alike runId)
  have composed : f ∘ unadvised = f := funext blind
  simpa [Option.map_map,composed] using same

/-- The events of a run but for the analyses. -/
def otherEvents (db : Database) (runId : Bytes) : List EventRow :=
  (db.testEvents.filter (·.runId = runId)).filter (·.eventType ≠ eventType)

theorem otherEvents_refines {db : Database} {archive : Archive} (refines : Refines db archive) (runId : Bytes) :
    otherEvents db runId = ((archive runId).map fun record => Record.eventRows runId (unadvised record)).getD [] := by
  have mine : db.testEvents.filter (·.runId = runId) = (archive runId).elim [] (Record.eventRows runId) := refines.events runId
  rw [otherEvents,mine]
  cases archive runId with
  | none => rfl
  | some record => simp [Record.eventRows,unadvised,eventRow,List.filter_map,Function.comp_def]

/-- With and without the analyses every run, its results and its other events are the same; and the
verdict that is told of a test is the one that is stored, of a failure. -/
theorem session_advisory (actions : List Action) :
    (∀ runId, loadRun (advised actions).toTables runId = loadRun (database (calls actions)).toTables runId ∧
      loadResults (advised actions).toTables runId = loadResults (database (calls actions)).toTables runId ∧
        otherEvents (advised actions) runId = otherEvents (database (calls actions)) runId) ∧
    ∀ setting runId testName reply after,
      analyseFailure setting (some (advised actions)) runId testName = .ok (reply,after) →
        ∀ told ∈ reply.find (ascii "verdict"), ∃ result,
          chosen (loadResults (database (calls actions)).toTables runId) testName = some result ∧
            result.status.isFailure = true ∧ told = verdict result := by
  obtain ⟨archive,refines,alike⟩ := session_alike actions
  have plain := database_refines (calls actions)
  have results (runId : Bytes) : loadResults (advised actions).toTables runId =
      loadResults (database (calls actions)).toTables runId := by
    rw [refines.loadResults,plain.loadResults]
    have same := congrArg (Option.getD · []) (alike.map_eq runId (·.loaded.results) fun _ => rfl)
    cases left : archive runId <;> cases right : archived (calls actions) runId <;> simp_all
  refine ⟨fun runId => ⟨?_,results runId,?_⟩,?_⟩
  · rw [refines.loadRun,plain.loadRun]
    exact alike.map_eq runId Record.loaded fun _ => rfl
  · rw [otherEvents_refines refines,otherEvents_refines plain]
    rw [alike.map_eq runId (fun record => Record.eventRows runId (unadvised record)) fun record => by simp [unadvised]]
  · intro setting runId testName reply after done told verdictTold
    obtain ⟨next,-,analysed⟩ := analyseFailure_told setting _ runId testName done
    cases analysed with
    | refused message code => cases verdictTold
    | told result analysis found failing =>
      rw [results] at found
      exact ⟨result,found,failing,(Option.some.inj verdictTold).symm⟩

/-- One failure is stored, and the provider knows better. -/
def oneFailure : List Action := [
  .keep (.beginRun { runId := ascii "r1" }),
  .keep (.saveResult { runId := ascii "r1", testName := ascii "t", status := .failed })]

def confident : Setting where
  ask := some fun _ => { ok := true, probableCause := ascii "the test passed" }
  history := fun _ _ => []
  now := 0

def storedFailure : TestResult := readResultRow (resultRow { runId := ascii "r1", testName := ascii "t", status := .failed })

theorem session_advisory_oneFailure : ∃ result, chosen (loadResults (database (calls oneFailure)).toTables (ascii "r1")) [] =
    some result ∧ result.status.isFailure = true ∧ verdict storedFailure = verdict result := by
  have stored : loadResults (advised oneFailure).toTables (ascii "r1") = [storedFailure] := by
    simp [loadResults,advised,oneFailure,Action.perform,Database.perform,Database.call,SqliteResultRepository.beginRun,
      SqliteResultRepository.saveResult,resultRow,storedFailure]
  have failing : storedFailure.status.isFailure = true := rfl
  have first : chosen [storedFailure] [] = some storedFailure := by simp [chosen,failing]
  have handed := FailureContext.analyseResult_built (some confident.history) failing
    (FailureContext.build_object {} storedFailure [] rfl)
  obtain ⟨reply,after,done,told⟩ : ∃ reply after, analyseFailure confident (some (advised oneFailure)) (ascii "r1") [] =
      .ok (reply,after) ∧ reply.find (ascii "verdict") = some (verdict storedFailure) := by
    have asked : confident.ask = some fun _ => { ok := true, probableCause := ascii "the test passed" } := rfl
    simp only [analyseFailure,stored,first,analyseStored,asked,Option.isSome_some,handed,bind,Except.bind,Except.map,
      List.cons_ne_nil,if_false]
    exact ⟨_,_,rfl,find_verdict storedFailure _⟩
  exact (session_advisory oneFailure).2 confident (ascii "r1") [] reply after done _ told

end TestForge.TestForgeService
