import TestForge.ResultRoundTrip
import TestForge.RunCounts
import TestForge.RunnerRecords

/-! A run that is recorded in the result database as it goes on, where every write
succeeds. The database may hold anything before. -/
namespace TestForge.Runner

open Json Strings SqliteResultRepository

variable {plan : Plan} {i : Nat}

/-! ### The run with its database -/

/-- `unsaved` are the calls of `saveResult` under way, each by the thread of the test
it is named after. -/
structure Persisted where
  runner : State := initial
  tables : Tables
  unsaved : List (Nat × TestResult) := []

inductive StoreAction where
  | runner (action : Action)
  | save (i : Nat)

/-- The record `beginRun` is called with. -/
def begun (plan : Plan) : TestRun :=
  { plan.opened with label := plan.options.label, workers := plan.workers }

/-- The result of an attempt that is tried again. -/
def retriedResult (plan : Plan) (s : State) (i : Nat) (action : TaskAction) : Option TestResult :=
  match s.tasks i,action with
  | .returned k result,.conclude => if retried plan k result then some result else none
  | _,_ => none

/-- The result of a test. -/
def recordedResult (plan : Plan) (s : State) (i : Nat) (action : TaskAction) : Option TestResult :=
  match s.tasks i,action with
  | .handling result,.record diagnostics => some (diagnosed plan diagnostics result)
  | _,_ => none

/-- The result that a step hands to `saveResult`. -/
def savedResult (plan : Plan) (s : State) (i : Nat) (action : TaskAction) : Option TestResult :=
  (retriedResult plan s i action).or (recordedResult plan s i action)

/-- What the thread that called `run` writes next to a step of its own. -/
def writing (plan : Plan) (s : State) (action : Action) (tables : Tables) : Tables :=
  match action with
  | .start _ => beginRun tables (begun plan)
  | .collect finishedAt duration => completeRun tables (collected plan s finishedAt duration)
  | _ => tables

/-- The thread of a test goes on when its call of `saveResult` is over. -/
def storeStep (plan : Plan) (action : StoreAction) (s : Persisted) : Option Persisted :=
  match action with
  | .runner (.task i action) =>
    if i ∈ s.unsaved.map (·.1) then none
    else (step plan (.task i action) s.runner).map fun runner =>
      { s with runner, unsaved := s.unsaved ++ (savedResult plan s.runner i action).toList.map (i,·) }
  | .runner action =>
    (step plan action s.runner).map fun runner =>
      { s with runner, tables := writing plan s.runner action s.tables }
  | .save i =>
    match s.unsaved.find? (·.1 = i) with
    | some (_,result) => (saveResult s.tables result).map fun tables =>
      { s with tables, unsaved := s.unsaved.filter (·.1 ≠ i) }
    | none => none

/-! ### Whose results they are -/

def Owned (plan : Plan) (result : TestResult) : Prop := result.runId = plan.opened.runId

theorem verdict_runId (base : TestResult) (record : BodyRecord) (late byRun : Bool) (timeoutMs : Int)
    (reason : Bytes) (attempt : Nat) : (verdict base record late byRun timeoutMs reason attempt).runId = base.runId := by
  have body : (executeBody base record.outcome).runId = base.runId := by
    cases record.outcome with
    | returned => rfl
    | threw inSetUp thrown =>
      simp only [executeBody]
      split <;> rfl
  simp only [verdict,refineFailure,applyContextOutput,overrideVerdictForCancellation]
  split <;> split <;> (try split) <;> exact body

theorem flagged_runId (k : Nat) (result : TestResult) : (flagged k result).runId = result.runId := by
  unfold flagged
  split <;> rfl

theorem diagnosed_runId (diagnostics : Value) (result : TestResult) :
    (diagnosed plan diagnostics result).runId = result.runId := by
  unfold diagnosed
  split <;> rfl

variable {s next : State} {source phase : Phase} {action : TaskAction} {effect : Effect}

theorem TaskMove.owned (move : TaskMove plan s i source action phase effect)
    (carried : ∀ result ∈ source.result?, Owned plan result) : ∀ result ∈ phase.result?, Owned plan result := by
  have same (moved carried : TestResult) (equal : moved ∈ some carried) : moved = carried :=
    (Option.some.inj equal).symm
  intro result member
  cases move <;> simp only [Phase.result?] at member carried <;>
    first
    | contradiction
    | exact carried result member
    | obtain rfl := same _ _ member
  case verdict k record watch stamp => exact verdict_runId _ _ _ _ _ _ _
  case settle k result last => exact (flagged_runId k result).trans (carried result rfl)
  case record result diagnostics => exact (diagnosed_runId diagnostics result).trans (carried result rfl)
  all_goals rfl

theorem TaskMove.saves (move : TaskMove plan s i (s.tasks i) action phase effect) :
    (s.apply i effect).results = s.results ++ (recordedResult plan s i action).toList.map (i,·) ∧
    (savedResult plan s i action).toList = (retriedResult plan s i action).toList ++ (recordedResult plan s i action).toList ∧
    ((∀ result ∈ (s.tasks i).result?, Owned plan result) → ∀ result ∈ savedResult plan s i action,
      Owned plan result ∧ phase.active = true) := by
  generalize here : s.tasks i = source at move
  cases move with
  | retry k result again =>
    simpa [savedResult,retriedResult,recordedResult,here,again,State.apply,Phase.result?] using fun owned => ⟨owned,rfl⟩
  | record result diagnostics =>
    simpa [savedResult,retriedResult,recordedResult,here,State.apply,Phase.result?] using fun owned =>
      ⟨(diagnosed_runId diagnostics result).trans owned,rfl⟩
  | settle k result last => simp [savedResult,retriedResult,recordedResult,here,last,State.apply]
  | _ => simp [savedResult,retriedResult,recordedResult,here,State.apply,State.cancelSource]

/-! ### What is in the database -/

theorem perm_of_find (i : Nat) (entry : Nat × α) (entries : List (Nat × α)) (keys : (entries.map (·.1)).Nodup)
    (found : entries.find? (·.1 = i) = some entry) : entries.Perm (entry :: entries.filter (·.1 ≠ i)) := by
  induction entries with
  | nil => cases found
  | cons first rest ih =>
    rw [List.map_cons,List.nodup_cons] at keys
    by_cases mine : first.1 = i
    · have others : rest.filter (·.1 ≠ i) = rest := by
        apply List.filter_eq_self.mpr
        intro other listed
        have apart : other.1 ≠ first.1 := fun same => keys.1 (List.mem_map.mpr ⟨other,listed,same⟩)
        simpa [mine] using apart
      simp only [List.find?_cons,mine,decide_true] at found
      obtain rfl : first = entry := Option.some.inj found
      rw [List.filter_cons_of_neg (by simp [mine]),others]
    · simp only [List.find?_cons,mine,decide_false] at found
      have rest_perm := (ih keys.2 found).cons first
      simp only [List.filter_cons,mine,ne_eq,not_false_eq_true,decide_true,if_true]
      exact rest_perm.trans (List.Perm.swap _ _ _)

theorem beginRun_row (tables : Tables) (run : TestRun) : run.runId ∈ (beginRun tables run).testRuns.map (·.runId) := by
  simp [beginRun]

theorem beginRun_results (tables : Tables) (run : TestRun) :
    (beginRun tables run).testResults.filter (·.runId = run.runId) = [] := by
  rw [List.filter_eq_nil_iff]
  intro row listed
  simpa [beginRun] using (List.mem_filter.mp listed).2

theorem completeRun_runIds (tables : Tables) (run : TestRun) :
    (completeRun tables run).testRuns.map (·.runId) = tables.testRuns.map (·.runId) := by
  simp only [completeRun,List.map_map]
  apply List.map_congr_left
  intro row _
  simp only [Function.comp_apply]
  split <;> rfl

theorem saveResult_some {tables after : Tables} {result : TestResult} (saved : saveResult tables result = some after) :
    after = { tables with testResults := tables.testResults ++ [resultRow result] } := by
  unfold saveResult at saved
  split at saved
  · exact (Option.some.inj saved).symm
  · cases saved

/-- The calls of `saveResult` under way are by different threads, which wait for them. -/
structure Pending (plan : Plan) (s : Persisted) : Prop where
  keys : (s.unsaved.map (·.1)).Nodup
  waiting : ∀ entry ∈ s.unsaved, (s.runner.tasks entry.1).active = true
  unsaved : ∀ entry ∈ s.unsaved, Owned plan entry.2
  carried : ∀ i, ∀ result ∈ (s.runner.tasks i).result?, Owned plan result

/-- The rows of the run are the recorded results and those of the retried attempts, as
far as they are saved. -/
structure Rows (plan : Plan) (s : Persisted) (retries : List TestResult) : Prop where
  fresh : s.runner.main = .created → s.unsaved = [] ∧ s.runner.results = [] ∧ retries = []
  row : s.runner.main ≠ .created → plan.opened.runId ∈ s.tables.testRuns.map (·.runId)
  rows : s.runner.main ≠ .created → ∃ saved : List TestResult,
    s.tables.testResults.filter (·.runId = plan.opened.runId) = saved.map resultRow ∧
      (saved ++ s.unsaved.map (·.2)).Perm (s.runner.results.map (·.2) ++ retries)

/-! ### One step -/

/-- The steps behind which the stored run can still tell the same: no attempt is tried
again, and no run is closed that was cancelled without anything going wrong. -/
def Tells (plan : Plan) (s : Persisted) : StoreAction → Prop
  | .runner (.task i action) => retriedResult plan s.runner i action = none
  | .runner (.collect _ _) => s.runner.runCancellation.getD [] = [] ∨
      ∃ entry ∈ s.runner.results, TestRun.Spoiling entry.2
  | _ => True

/-- What a step adds to the retried attempts. -/
def retriedBy (plan : Plan) (s : Persisted) : StoreAction → List TestResult
  | .runner (.task i action) => (retriedResult plan s.runner i action).toList
  | _ => []

/-- The steps of the run with its database. -/
inductive StoreMove (plan : Plan) (s : Persisted) : StoreAction → Persisted → Prop where
  | task (i : Nat) (action : TaskAction) (runner : State) (free : i ∉ s.unsaved.map (·.1))
      (taken : step plan (.task i action) s.runner = some runner) :
      StoreMove plan s (.runner (.task i action))
        { s with runner, unsaved := s.unsaved ++ (savedResult plan s.runner i action).toList.map (i,·) }
  | other (action : Action) (runner : State) (apart : ∀ i task, action ≠ .task i task)
      (taken : step plan action s.runner = some runner) :
      StoreMove plan s (.runner action) { s with runner, tables := writing plan s.runner action s.tables }
  | save (i : Nat) (entry : Nat × TestResult) (tables : Tables)
      (found : s.unsaved.find? (·.1 = i) = some entry) (saved : saveResult s.tables entry.2 = some tables) :
      StoreMove plan s (.save i) { s with tables, unsaved := s.unsaved.filter (·.1 ≠ i) }

theorem storeStep_move {s next : Persisted} {action : StoreAction} (taken : storeStep plan action s = some next) :
    StoreMove plan s action next := by
  unfold storeStep at taken
  split at taken
  · split at taken
    · cases taken
    · next free =>
      obtain ⟨runner,moved,rfl⟩ := Option.map_eq_some_iff.mp taken
      exact .task _ _ runner free moved
  · next action apart =>
    obtain ⟨runner,moved,rfl⟩ := Option.map_eq_some_iff.mp taken
    exact .other action runner apart moved
  · split at taken
    · next found =>
      obtain ⟨tables,saved,rfl⟩ := Option.map_eq_some_iff.mp taken
      exact .save _ _ tables found saved
    · cases taken

theorem other_tasks {s next : State} {action : Action} (control : Control plan s)
    (apart : ∀ i task, action ≠ .task i task) (taken : step plan action s = some next) :
    next.results = s.results ∧ ∀ j, next.tasks j = s.tasks j ∨ s.tasks j = .waiting ∧ next.tasks j = .taken := by
  have update : ∀ i, s.tasks i = .waiting → ∀ j, Function.update s.tasks i .taken j = s.tasks j ∨
      s.tasks j = .waiting ∧ Function.update s.tasks i .taken j = .taken := by
    intro i waits j
    by_cases mine : j = i
    · subst mine
      exact .inr ⟨waits,Function.update_self _ _ _⟩
    · exact .inl (Function.update_of_ne mine _ _)
  cases step_move taken with
  | task i action phase effect move => exact absurd rfl (apart i action)
  | take worker i rest queued free => exact ⟨rfl,update i (control.queued i (by simp [queued])).2⟩
  | call j here waits => exact ⟨rfl,update j waits⟩
  | _ => exact ⟨rfl,fun _ => .inl rfl⟩

theorem Pending.step {s next : Persisted} (control : Control plan s.runner) (pending : Pending plan s)
    {action : StoreAction} (taken : storeStep plan action s = some next) : Pending plan next := by
  cases storeStep_move taken with
  | task i action runner free moved =>
    cases step_move moved with
    | main _ main move => cases move
    | task _ _ phase effect move =>
    obtain ⟨results,split,owned⟩ := move.saves
    have mine := owned (pending.carried i)
    refine ⟨?_,?_,?_,?_⟩
    · cases h : savedResult plan s.runner i action with
      | none => simpa using pending.keys
      | some result =>
        simp only [Option.toList_some,List.map_cons,List.map_nil,List.map_append,List.nodup_append]
        refine ⟨pending.keys,by simp,fun a listed b last equal => ?_⟩
        rw [List.mem_singleton.mp last] at equal
        exact free (equal ▸ listed)
    · intro entry listed
      rcases List.mem_append.mp listed with earlier | last
      · have other : entry.1 ≠ i := fun same => free (List.mem_map.mpr ⟨entry,earlier,same⟩)
        simpa [Function.update_of_ne other] using pending.waiting entry earlier
      · obtain ⟨result,known,rfl⟩ := List.mem_map.mp last
        simpa using (mine result (by simpa using known)).2
    · intro entry listed
      rcases List.mem_append.mp listed with earlier | last
      · exact pending.unsaved entry earlier
      · obtain ⟨result,known,rfl⟩ := List.mem_map.mp last
        exact (mine result (by simpa using known)).1
    · intro j
      by_cases same : j = i
      · subst same
        simpa using move.owned (pending.carried j)
      · simpa [Function.update_of_ne same] using pending.carried j
  | other action runner apart moved =>
    obtain ⟨-,tasks⟩ := other_tasks control apart moved
    refine ⟨pending.keys,fun entry listed => ?_,pending.unsaved,fun j => ?_⟩
    · have active := pending.waiting entry listed
      rcases tasks entry.1 with same | ⟨waits,-⟩
      · rwa [same]
      · rw [waits] at active
        cases active
    · rcases tasks j with same | ⟨-,fresh⟩
      · rw [same]
        exact pending.carried j
      · rw [fresh]
        intro result impossible
        cases impossible
  | save i entry tables found saved =>
    have sub : (s.unsaved.filter (·.1 ≠ i)).Sublist s.unsaved := List.filter_sublist
    exact ⟨(sub.map _).nodup pending.keys,fun entry listed => pending.waiting entry (sub.subset listed),
      fun entry listed => pending.unsaved entry (sub.subset listed),pending.carried⟩

theorem Rows.of_same {s : Persisted} {retries : List TestResult} (rows : Rows plan s retries) {runner : State}
    {tables : Tables} (created : runner.main = .created ↔ s.runner.main = .created)
    (results : runner.results = s.runner.results)
    (runIds : tables.testRuns.map (·.runId) = s.tables.testRuns.map (·.runId))
    (kept : tables.testResults = s.tables.testResults) : Rows plan { s with runner, tables } retries where
  fresh := by
    rw [created,results]
    exact rows.fresh
  row := by
    rw [Ne,created,runIds]
    exact rows.row
  rows := by
    rw [Ne,created,results,kept]
    exact rows.rows

theorem main_created {s next : State} {action : Action} (taken : step plan action s = some next) :
    (∃ escape, action = .start escape ∧ s.main = .created ∧ next.main ≠ .created) ∨
      (∀ escape, action ≠ .start escape) ∧ (next.main = .created ↔ s.main = .created) := by
  have inline : ∀ j, inlineFrom plan j ≠ .created := by
    intro j
    unfold inlineFrom
    split <;> simp
  have drain : ∀ j, drainFrom plan j ≠ .created := by
    intro j
    unfold drainFrom
    split <;> simp
  cases step_move taken with
  | main action main move =>
    cases move with
    | startThrew escape here => exact .inl ⟨_,rfl,here,by simp⟩
    | startInline here single => exact .inl ⟨_,rfl,here,inline 0⟩
    | startPool here pooled => exact .inl ⟨_,rfl,here,by simp⟩
    | advance j here done => exact .inr ⟨by simp,by simp [here,inline]⟩
    | await j here done => exact .inr ⟨by simp,by simp [here,drain]⟩
    | advanceThrew j escape here threw => exact .inr ⟨by simp,by simp [here]⟩
    | awaitThrew j here threw => exact .inr ⟨by simp,by simp [here]⟩
    | unwind escape here past => exact .inr ⟨by simp,by simp [here]⟩
    | collect finishedAt duration here => exact .inr ⟨by simp,by simp [here]⟩
    | close run here => exact .inr ⟨by simp,by simp [here]⟩
    | closeThrew run escape here => exact .inr ⟨by simp,by simp [here]⟩
  | submit j here =>
    refine .inr ⟨by simp,?_⟩
    dsimp only
    split <;> simp [here]
  | task i action phase effect move => exact .inr ⟨by simp,by simp [State.setPhase]⟩
  | _ => exact .inr ⟨by simp,Iff.rfl⟩

theorem Rows.task {s : Persisted} {retries : List TestResult} (control : Control plan s.runner)
    (rows : Rows plan s retries) (move : TaskMove plan s.runner i (s.runner.tasks i) action phase effect) :
    Rows plan { s with
        runner := (s.runner.apply i effect).setPhase i phase,
        unsaved := s.unsaved ++ (savedResult plan s.runner i action).toList.map (i,·) }
      (retries ++ retriedBy plan s (.runner (.task i action))) := by
  obtain ⟨results,split,-⟩ := move.saves
  have open_main : s.runner.main ≠ .created := by
    intro here
    have stage := control.stage
    rw [here] at stage
    have active := move.source_active
    rw [stage.2 i] at active
    cases active
  have same_main : ((s.runner.apply i effect).setPhase i phase).main = s.runner.main := State.apply_main _ _ _
  refine ⟨fun here => absurd (same_main.symm.trans here) open_main,fun _ => rows.row open_main,fun _ => ?_⟩
  obtain ⟨saved,listed,counted⟩ := rows.rows open_main
  refine ⟨saved,listed,?_⟩
  have values : ∀ l : List TestResult, (l.map (i,·)).map Prod.snd = l := by simp [Function.comp_def]
  have recorded : ((s.runner.apply i effect).setPhase i phase).results = s.runner.results ++ _ := results
  rw [recorded]
  simp only [List.map_append,values,split,retriedBy]
  rw [← Multiset.coe_eq_coe] at counted ⊢
  simp only [← Multiset.coe_add] at counted ⊢
  rw [← add_assoc,counted]
  ac_rfl

theorem Rows.step {s next : Persisted} {retries : List TestResult} (control : Control plan s.runner)
    (pending : Pending plan s) (rows : Rows plan s retries) {action : StoreAction}
    (taken : storeStep plan action s = some next) : Rows plan next (retries ++ retriedBy plan s action) := by
  cases storeStep_move taken with
  | task i action runner free moved =>
    cases step_move moved with
    | main _ main move => cases move
    | task _ _ phase effect move => exact rows.task control move
  | other action runner apart moved =>
    obtain ⟨results,-⟩ := other_tasks control apart moved
    have none_retried : retriedBy plan s (.runner action) = [] := by
      cases action with
      | task i task => exact absurd rfl (apart i task)
      | _ => rfl
    rw [none_retried,List.append_nil]
    rcases main_created moved with ⟨escape,rfl,here,left⟩ | ⟨later,created⟩
    · obtain ⟨unsaved,nothing,rfl⟩ := rows.fresh here
      refine ⟨fun back => absurd back left,fun _ => beginRun_row s.tables (begun plan),fun _ => ⟨[],?_,?_⟩⟩
      · exact beginRun_results s.tables (begun plan)
      · rw [results,nothing,unsaved]
        exact List.Perm.refl _
    · cases action with
      | start escape => exact absurd rfl (later escape)
      | collect finishedAt duration =>
        exact rows.of_same created results (completeRun_runIds _ _) rfl
      | _ => exact rows.of_same created results rfl rfl
  | save i entry tables found saved =>
    obtain rfl := saveResult_some saved
    have open_main : s.runner.main ≠ .created := by
      intro here
      rw [(rows.fresh here).1] at found
      cases found
    have mine : Owned plan entry.2 := pending.unsaved entry (List.mem_of_find?_eq_some found)
    have pulled := perm_of_find i entry s.unsaved pending.keys found
    have none_retried : retriedBy plan s (.save i) = [] := rfl
    rw [none_retried,List.append_nil]
    refine ⟨fun here => absurd here open_main,fun _ => rows.row open_main,fun _ => ?_⟩
    obtain ⟨before,listed,counted⟩ := rows.rows open_main
    refine ⟨before ++ [entry.2],?_,?_⟩
    · have kept : (resultRow entry.2).runId = plan.opened.runId := mine
      simp [listed,kept]
    · refine List.Perm.trans ?_ counted
      have front := ((pulled.map (·.2)).symm).append_left before
      simpa using front

/-! ### Whole runs -/

/-- The record is closed or returned. -/
def Main.Ending (run : TestRun) (main : Main) : Prop := main = .closing run ∨ main = .returned run

/-- The calling thread closes the record with `collect`, and keeps it unless an
exception comes out. -/
theorem main_ending {s next : State} {action : Action} (taken : step plan action s = some next)
    (calm : ∀ escape, next.main ≠ .threw escape) :
    (∀ escape, s.main ≠ .threw escape) ∧
      ((∃ finishedAt duration, action = .collect finishedAt duration ∧ s.main = .collecting ∧
        next.main = .closing (collected plan s finishedAt duration)) ∨
      (∀ finishedAt duration, action ≠ .collect finishedAt duration) ∧
        ∀ run, next.main.Ending run ↔ s.main.Ending run) := by
  have inline : ∀ j run, ¬(inlineFrom plan j).Ending run := by
    intro j run
    unfold inlineFrom Main.Ending
    split <;> simp
  have drain : ∀ j run, ¬(drainFrom plan j).Ending run := by
    intro j run
    unfold drainFrom Main.Ending
    split <;> simp
  cases step_move taken with
  | main action main move =>
    cases move with
    | startThrew escape here => exact absurd rfl (calm escape)
    | advanceThrew j escape here threw => exact absurd rfl (calm escape)
    | unwind escape here past => exact absurd rfl (calm escape)
    | closeThrew run escape here => exact absurd rfl (calm escape)
    | collect finishedAt duration here => exact ⟨by simp [here],.inl ⟨_,_,rfl,here,rfl⟩⟩
    | startInline here single =>
      exact ⟨by simp [here],.inr ⟨by simp,fun run => iff_of_false (inline 0 run) (by simp [here,Main.Ending])⟩⟩
    | startPool here pooled => exact ⟨by simp [here],.inr ⟨by simp,by simp [here,Main.Ending]⟩⟩
    | advance j here done =>
      exact ⟨by simp [here],.inr ⟨by simp,fun run => iff_of_false (inline _ run) (by simp [here,Main.Ending])⟩⟩
    | await j here done =>
      exact ⟨by simp [here],.inr ⟨by simp,fun run => iff_of_false (drain _ run) (by simp [here,Main.Ending])⟩⟩
    | awaitThrew j here threw => exact ⟨by simp [here],.inr ⟨by simp,by simp [here,Main.Ending]⟩⟩
    | close run here => exact ⟨by simp [here],.inr ⟨by simp,by simp [here,Main.Ending]⟩⟩
  | submit j here =>
    refine ⟨by simp [here],.inr ⟨by simp,fun run => ?_⟩⟩
    unfold Main.Ending
    dsimp only
    split <;> simp [here]
  | task i action phase effect move =>
    have same : ((s.apply i effect).setPhase i phase).main = s.main := State.apply_main _ _ _
    rw [same] at calm
    exact ⟨calm,.inr ⟨by simp,fun run => by rw [same]⟩⟩
  | _ => exact ⟨calm,.inr ⟨by simp,fun _ => Iff.rfl⟩⟩

/-- A run whose record says that it was cancelled has something wrong in its results. -/
def Quiet (main : Main) : Prop :=
  ∀ run, main.Ending run → run.cancellationReason = [] ∨ ∃ result ∈ run.results, TestRun.Spoiling result

theorem quiet_collected (s : State) (finishedAt : TimePoint) (duration : Int) :
    Quiet (.closing (collected plan s finishedAt duration)) ↔
      s.runCancellation.getD [] = [] ∨ ∃ entry ∈ s.results, TestRun.Spoiling entry.2 := by
  have listed : ∀ result, result ∈ (collected plan s finishedAt duration).results ↔
      ∃ entry ∈ s.results, entry.2 = result := by
    intro result
    simp [collected,List.mem_mergeSort]
  have spoiled : (∃ result ∈ (collected plan s finishedAt duration).results, TestRun.Spoiling result) ↔
      ∃ entry ∈ s.results, TestRun.Spoiling entry.2 := by
    constructor
    · rintro ⟨result,member,bad⟩
      obtain ⟨entry,known,rfl⟩ := (listed result).mp member
      exact ⟨entry,known,bad⟩
    · rintro ⟨entry,known,bad⟩
      exact ⟨entry.2,(listed _).mpr ⟨entry,known,rfl⟩,bad⟩
  rw [← spoiled]
  constructor
  · intro quiet
    exact quiet _ (.inl rfl)
  · rintro either run (same | same)
    · cases same
      exact either
    · cases same

/-- Before the call of `run`, with any database. -/
def opened (before : Tables) : Persisted := { tables := before }

/-- Everything a run of the two together keeps, and what it takes for the run to have
been a telling one all along. -/
structure History (plan : Plan) (before : Tables) (labels : List StoreAction) (s : Persisted)
    (retries : List TestResult) : Prop where
  sound : Sound plan s.runner
  pending : Pending plan s
  rows : Rows plan s retries
  telling : (∀ escape, s.runner.main ≠ .threw escape) →
    (Transition.Along (storeStep plan) (Tells plan) labels (opened before) ↔ retries = [] ∧ Quiet s.runner.main)

theorem storeStep_sound {s next : Persisted} {action : StoreAction} (sound : Sound plan s.runner)
    (taken : storeStep plan action s = some next) : Sound plan next.runner := by
  cases storeStep_move taken with
  | task i action runner free moved => exact sound.step moved
  | other action runner apart moved => exact sound.step moved
  | save i entry tables found saved => exact sound

theorem tells_iff {s next : Persisted} {action : StoreAction} (taken : storeStep plan action s = some next)
    (calm : ∀ escape, next.runner.main ≠ .threw escape) :
    (∀ escape, s.runner.main ≠ .threw escape) ∧
      (Quiet s.runner.main ∧ Tells plan s action ↔ retriedBy plan s action = [] ∧ Quiet next.runner.main) := by
  cases storeStep_move taken with
  | task i action runner free moved =>
    obtain ⟨before,⟨_,_,impossible,-⟩ | ⟨-,same⟩⟩ := main_ending moved calm
    · cases impossible
    · have quiet : Quiet runner.main ↔ Quiet s.runner.main := by simp only [Quiet,same]
      have none_iff : (retriedResult plan s.runner i action).toList = [] ↔ retriedResult plan s.runner i action = none := by
        simp
      refine ⟨before,?_⟩
      rw [quiet,retriedBy,none_iff,Tells]
      exact and_comm
  | other action runner apart moved =>
    obtain ⟨before,⟨finishedAt,duration,rfl,here,closing⟩ | ⟨later,same⟩⟩ := main_ending moved calm
    · refine ⟨before,?_⟩
      have open_record : Quiet s.runner.main := by
        rintro run (impossible | impossible) <;> rw [here] at impossible <;> cases impossible
      rw [closing,quiet_collected]
      simp only [open_record,true_and,Tells,retriedBy]
    · have quiet : Quiet runner.main ↔ Quiet s.runner.main := by simp only [Quiet,same]
      refine ⟨before,?_⟩
      rw [quiet]
      cases action with
      | task i task => exact absurd rfl (apart i task)
      | collect finishedAt duration => exact absurd rfl (later finishedAt duration)
      | _ => simp [Tells,retriedBy]
  | save i entry tables found saved => exact ⟨calm,by simp [Tells,retriedBy]⟩

theorem History.step {before : Tables} {labels : List StoreAction} {s next : Persisted} {retries : List TestResult}
    {action : StoreAction} (path : Transition.run (storeStep plan) labels (opened before) = some s)
    (history : History plan before labels s retries) (taken : storeStep plan action s = some next) :
    History plan before (labels ++ [action]) next (retries ++ retriedBy plan s action) where
  sound := storeStep_sound history.sound taken
  pending := history.pending.step history.sound.control taken
  rows := history.rows.step history.sound.control history.pending taken
  telling := by
    intro calm
    obtain ⟨earlier,telling⟩ := tells_iff taken calm
    rw [Transition.along_snoc _ _ _ _ _ _ path,history.telling earlier,and_assoc,telling,List.append_eq_nil_iff,
      and_assoc]

theorem History.initial (plan : Plan) (before : Tables) : History plan before [] (opened before) [] where
  sound := .initial plan
  pending := ⟨by simp [opened],by simp [opened],by simp [opened],by simp [opened,Runner.initial,Phase.result?]⟩
  rows := ⟨fun _ => ⟨rfl,rfl,rfl⟩,fun begun => absurd rfl begun,fun begun => absurd rfl begun⟩
  telling := by
    intro _
    simp [Transition.Along,Quiet,Main.Ending,opened,Runner.initial]

theorem history_run (before : Tables) (labels : List StoreAction) (s : Persisted)
    (path : Transition.run (storeStep plan) labels (opened before) = some s) :
    ∃ retries, History plan before labels s retries := by
  induction labels using List.reverseRecOn generalizing s with
  | nil =>
    obtain rfl : opened before = s := by simpa using path
    exact ⟨[],.initial plan before⟩
  | append_singleton labels action ih =>
    obtain ⟨middle,first,last⟩ := (Transition.run_append_some _ _ _ _ _).mp path
    obtain ⟨retries,history⟩ := ih middle first
    obtain ⟨next,taken,done⟩ := (Transition.run_cons_some _ _ _ _ _).mp last
    obtain rfl : next = s := by simpa using done
    exact ⟨_,history.step first taken⟩

end TestForge.Runner
