import TestForge.StoredRun

/-! The retry policy over a whole run with its database: the attempts of every test, what
is saved of them, and what is recorded in the end. -/
namespace TestForge.Runner

open Json Strings SqliteResultRepository

variable {plan : Plan} {i : Nat}

/-- A run with its database, what `runOne` returned so far, and the calls of `saveResult`,
each with the index of the test. -/
structure Watched where
  store : Persisted
  attempts : List (Nat × TestResult) := []
  saves : List (Nat × TestResult) := []

/-- The result of the attempt that a step concludes. -/
def attemptedResult (s : State) (i : Nat) (action : TaskAction) : Option TestResult :=
  match s.tasks i,action with
  | .returned _ result,.conclude => some result
  | _,_ => none

def watchStep (plan : Plan) (action : StoreAction) (w : Watched) : Option Watched :=
  (storeStep plan action w.store).map fun store =>
    match action with
    | .runner (.task i action) => {
        store
        attempts := w.attempts ++ (attemptedResult w.store.runner i action).toList.map (i,·)
        saves := w.saves ++ (savedResult plan w.store.runner i action).toList.map (i,·) }
    | _ => { w with store }

/-- The entries of one test. -/
def ofTest (i : Nat) (entries : List (Nat × TestResult)) : List TestResult := (entries.filter (·.1 = i)).map (·.2)

/-- The attempts of a test, and what is saved and recorded of them. -/
structure RetryLaw (plan : Plan) (w : Watched) (i : Nat) : Prop where
  bounded : ((ofTest i w.attempts).length : Int) ≤ 1 + max 0 plan.options.retryFailed
  numbered : (ofTest i w.attempts).map (·.attempt) = (List.range (ofTest i w.attempts).length).map fun (k : Nat) => (k : Int) + 1
  /-- No number overflows an `int`. -/
  fits : ∀ result ∈ ofTest i w.attempts, toInt32 result.attempt = result.attempt
  stops : ∀ result ∈ (ofTest i w.attempts).dropLast,
    result.status.isFailure = true ∧ FailureClassifier.isRetryable result.failureCategory = true
  recorded : ∀ result ∈ ofTest i w.store.runner.results, ∃ earlier last,
    ofTest i w.attempts = earlier ++ [last] ∧ ofTest i w.store.runner.results = [result] ∧
    { result with diagnostics := last.diagnostics, flakyCandidate := last.flakyCandidate } = last ∧
    ofTest i w.saves = earlier ++ [result] ∧
    (result.flakyCandidate = true ↔
      result.status = .passed ∧ ∃ attempt ∈ earlier, attempt.status.isFailure = true)

/-- The rows of the run are the saved results, as far as the calls have returned. -/
def SavedOnce (plan : Plan) (w : Watched) : Prop :=
  w.store.runner.main ≠ .created → ∃ saved : List TestResult,
    w.store.tables.testResults.filter (·.runId = plan.opened.runId) = saved.map resultRow ∧
      (saved ++ w.store.unsaved.map (·.2)).Perm (w.saves.map (·.2))

/-- No retry that ends skipped is recorded. -/
def NoSkippedRetry (plan : Plan) (w : Watched) : StoreAction → Prop
  | .runner (.task i action) => ∀ result ∈ recordedResult plan w.store.runner i action,
      1 < result.attempt → result.status ≠ .skipped
  | _ => True

def watched (before : Tables) : Watched := { store := opened before }

/-! ### The books of one test -/

theorem ofTest_append (i : Nat) (a b : List (Nat × TestResult)) : ofTest i (a ++ b) = ofTest i a ++ ofTest i b := by
  simp [ofTest]

theorem ofTest_self (i : Nat) (more : Option TestResult) : ofTest i (more.toList.map (i,·)) = more.toList := by
  cases more <;> simp [ofTest]

theorem ofTest_other (i j : Nat) (different : j ≠ i) (more : Option TestResult) :
    ofTest i (more.toList.map (j,·)) = [] := by
  cases more <;> simp [ofTest,different]

/-- Attempts behind each of which there was another one. -/
structure Tries (plan : Plan) (earlier : List TestResult) : Prop where
  room : earlier.length + 1 ≤ plan.maxAttempts
  numbered : earlier.map (·.attempt) = (List.range earlier.length).map fun (k : Nat) => (k : Int) + 1
  failed : ∀ result ∈ earlier,
    result.status.isFailure = true ∧ FailureClassifier.isRetryable result.failureCategory = true

/-- Attempt `k` is under way. -/
structure Under (plan : Plan) (k : Nat) (own saves results : List TestResult) : Prop where
  next : own.length + 1 = k
  tries : Tries plan own
  saved : saves = own
  unrecorded : results = []

/-- The last attempt is over. -/
structure Settled (plan : Plan) (result : TestResult) (own saves results : List TestResult) (last : TestResult) :
    Prop where
  tries : Tries plan saves
  own : own = saves ++ [last]
  number : last.attempt = saves.length + 1
  unflagged : last.flakyCandidate = false
  unrecorded : results = []
  result : result = flagged (saves.length + 1) last

/-- The result is recorded. -/
structure Filed (plan : Plan) (result : TestResult) (own saves results : List TestResult) (earlier : List TestResult)
    (last : TestResult) (diagnostics : Json.Value) : Prop where
  tries : Tries plan earlier
  own : own = earlier ++ [last]
  number : last.attempt = earlier.length + 1
  unflagged : last.flakyCandidate = false
  saved : saves = earlier ++ [result]
  recorded : results = [result]
  result : result = diagnosed plan diagnostics (flagged (earlier.length + 1) last)

def Phase.Books (plan : Plan) (own saves results : List TestResult) : Phase → Prop
  | .waiting | .taken | .notifying => Under plan 1 own saves results
  | .entering k | .creating k | .registering k | .checking k | .starting k | .running k _ | .ended k _ _ =>
    Under plan k own saves results
  | .leaving k result | .returned k result =>
    Under plan k own saves results ∧ result.attempt = k ∧ result.flakyCandidate = false
  | .handling result => ∃ last, Settled plan result own saves results last
  | .recorded result | .tripping result | .signalling result =>
    ∃ earlier last diagnostics, Filed plan result own saves results earlier last diagnostics
  | .finished | .threw _ => (∃ k, Under plan k own saves results) ∨
    ∃ result earlier last diagnostics, Filed plan result own saves results earlier last diagnostics

theorem Tries.snoc {earlier : List TestResult} {result : TestResult} (tries : Tries plan earlier)
    (number : result.attempt = earlier.length + 1) (again : retried plan (earlier.length + 1) result = true) :
    Tries plan (earlier ++ [result]) := by
  simp only [retried,Bool.and_eq_true,decide_eq_true_eq] at again
  refine ⟨by simpa using Nat.succ_le_of_lt again.1.2,?_,fun other member => ?_⟩
  · simp [tries.numbered,number,List.range_succ]
  · rcases List.mem_append.mp member with before | last
    · exact tries.failed other before
    · obtain rfl := List.mem_singleton.mp last
      exact ⟨again.1.1,again.2⟩

theorem verdict_attempt (base : TestResult) (record : BodyRecord) (late byRun : Bool) (timeoutMs : Int)
    (reason : Bytes) (attempt : Nat) : (verdict base record late byRun timeoutMs reason attempt).attempt = attempt ∧
      (verdict base record late byRun timeoutMs reason attempt).flakyCandidate = base.flakyCandidate := by
  have body : (executeBody base record.outcome).flakyCandidate = base.flakyCandidate := by
    cases record.outcome with
    | returned => rfl
    | threw inSetUp thrown =>
      simp only [executeBody]
      split <;> rfl
  simp only [verdict,refineFailure,applyContextOutput,overrideVerdictForCancellation]
  split <;> split <;> (try split) <;> exact ⟨rfl,body⟩

variable {s next : State} {source phase : Phase} {action : TaskAction} {effect : Effect}
  {own saves results : List TestResult}

theorem TaskMove.books (move : TaskMove plan s i source action phase effect) (here : s.tasks i = source)
    (books : source.Books plan own saves results) :
    phase.Books plan (own ++ (attemptedResult s i action).toList) (saves ++ (savedResult plan s i action).toList)
      (results ++ (recordedResult plan s i action).toList) := by
  have quiet (silent : attemptedResult s i action = none ∧ retriedResult plan s i action = none ∧
        recordedResult plan s i action = none) (kept : phase.Books plan own saves results) :
      phase.Books plan (own ++ (attemptedResult s i action).toList) (saves ++ (savedResult plan s i action).toList)
        (results ++ (recordedResult plan s i action).toList) := by
    rw [savedResult,silent.1,silent.2.1,silent.2.2]
    simpa using kept
  cases move with
  | retry k result again =>
    obtain ⟨⟨next,tries,saved,none⟩,number,unflagged⟩ := books
    have number : result.attempt = own.length + 1 := by omega
    rw [← next] at again
    have more := tries.snoc number again
    simp only [attemptedResult,savedResult,retriedResult,recordedResult,here,← next,again,if_true,Option.or_none,
      Option.toList_some,Option.toList_none,List.append_nil]
    exact ⟨by simp,more,by rw [saved],none⟩
  | settle k result last =>
    obtain ⟨⟨next,tries,saved,none⟩,number,unflagged⟩ := books
    subst saved
    rw [← next] at last
    simp only [attemptedResult,savedResult,retriedResult,recordedResult,here,← next,last,Bool.false_eq_true,if_false,
      Option.or_none,Option.toList_some,Option.toList_none,List.append_nil]
    exact ⟨result,tries,rfl,by omega,unflagged,none,rfl⟩
  | record result diagnostics =>
    obtain ⟨last,tries,owned,number,unflagged,none,rfl⟩ := books
    simp only [attemptedResult,savedResult,retriedResult,recordedResult,here,Option.none_or,Option.toList_some,
      Option.toList_none,List.append_nil]
    exact ⟨saves,last,diagnostics,tries,owned,number,unflagged,rfl,by rw [none,List.nil_append],rfl⟩
  | skip | notifyThrew =>
    exact quiet (by simp [attemptedResult,retriedResult,recordedResult,here]) (.inl ⟨1,books⟩)
  | createThrew k =>
    exact quiet (by simp [attemptedResult,retriedResult,recordedResult,here]) (.inl ⟨k,books⟩)
  | handled result | handlerThrew result | signal result =>
    exact quiet (by simp [attemptedResult,retriedResult,recordedResult,here]) (.inr ⟨result,books⟩)
  | verdict =>
    exact quiet (by simp [attemptedResult,retriedResult,recordedResult,here])
      ⟨books,verdict_attempt _ _ _ _ _ _ _⟩
  | disabled | nothing | refused | abandon | lateAbandon =>
    exact quiet (by simp [attemptedResult,retriedResult,recordedResult,here]) ⟨books,rfl,rfl⟩
  | _ =>
    exact quiet (by simp [attemptedResult,retriedResult,recordedResult,here]) books

/-! ### The law from the books -/

@[simp] theorem flagged_flakyCandidate (k : Nat) (result : TestResult) (unflagged : result.flakyCandidate = false) :
    (flagged k result).flakyCandidate = true ↔ result.status.isFailure = false ∧ 1 < k := by
  unfold flagged
  split
  · next flaky => simpa using flaky
  · next plain => simpa [unflagged] using plain

theorem Phase.Books.under {phase : Phase} (books : phase.Books plan own saves results) :
    (∃ k, Under plan k own saves results) ∨ (∃ result last, Settled plan result own saves results last) ∨
      ∃ result earlier last diagnostics, Filed plan result own saves results earlier last diagnostics := by
  cases phase with
  | leaving k result | returned k result => exact .inl ⟨k,books.1⟩
  | handling result => exact .inr (.inl ⟨result,books⟩)
  | recorded result | tripping result | signalling result => exact .inr (.inr ⟨result,books⟩)
  | finished | threw => exact books.elim .inl fun filed => .inr (.inr filed)
  | _ => exact .inl ⟨_,books⟩

/-- The attempts, whether the last one is over or not. -/
theorem Phase.Books.attempts {phase : Phase} (books : phase.Books plan own saves results) :
    own.length ≤ plan.maxAttempts ∧ own.map (·.attempt) = (List.range own.length).map (fun (k : Nat) => (k : Int) + 1) ∧
      ∀ result ∈ own.dropLast,
        result.status.isFailure = true ∧ FailureClassifier.isRetryable result.failureCategory = true := by
  have finished (earlier : List TestResult) (last : TestResult) (tries : Tries plan earlier)
      (owned : own = earlier ++ [last]) (number : last.attempt = earlier.length + 1) :
      own.length ≤ plan.maxAttempts ∧ own.map (·.attempt) = (List.range own.length).map (fun (k : Nat) => (k : Int) + 1) ∧
        ∀ result ∈ own.dropLast,
          result.status.isFailure = true ∧ FailureClassifier.isRetryable result.failureCategory = true := by
    subst owned
    refine ⟨by simpa using tries.room,?_,by simpa using tries.failed⟩
    simp [tries.numbered,number,List.range_succ]
  rcases books.under with ⟨k,under⟩ | ⟨result,last,settled⟩ | ⟨result,earlier,last,diagnostics,filed⟩
  · exact ⟨Nat.le_of_succ_le under.tries.room,under.tries.numbered,
      fun result member => under.tries.failed result (List.dropLast_subset _ member)⟩
  · exact finished saves last settled.tries settled.own settled.number
  · exact finished earlier last filed.tries filed.own filed.number

theorem Filed.status {result last : TestResult} {earlier : List TestResult} {diagnostics : Value}
    (filed : Filed plan result own saves results earlier last diagnostics) : result.status = last.status := by
  rw [filed.result,diagnosed_status,flagged_status]

theorem flagged_attempt (k : Nat) (result : TestResult) : (flagged k result).attempt = result.attempt := by
  unfold flagged
  split <;> rfl

theorem diagnosed_attempt (diagnostics : Value) (result : TestResult) :
    (diagnosed plan diagnostics result).attempt = result.attempt := by
  unfold diagnosed
  split <;> rfl

theorem Filed.attempt {result last : TestResult} {earlier : List TestResult} {diagnostics : Value}
    (filed : Filed plan result own saves results earlier last diagnostics) : result.attempt = earlier.length + 1 := by
  rw [filed.result,diagnosed_attempt,flagged_attempt,filed.number]

theorem Filed.flaky {result last : TestResult} {earlier : List TestResult} {diagnostics : Value}
    (filed : Filed plan result own saves results earlier last diagnostics) :
    result.flakyCandidate = true ↔ result.status.isFailure = false ∧ 1 < result.attempt := by
  have kept : result.flakyCandidate = (flagged (earlier.length + 1) last).flakyCandidate := by
    rw [filed.result]
    unfold diagnosed
    split <;> rfl
  have many : 1 < result.attempt ↔ 1 < earlier.length + 1 := by
    rw [filed.attempt]
    omega
  rw [kept,flagged_flakyCandidate _ _ filed.unflagged,filed.status,many]

theorem Filed.same {result last : TestResult} {earlier : List TestResult} {diagnostics : Value}
    (filed : Filed plan result own saves results earlier last diagnostics) :
    { result with diagnostics := last.diagnostics, flakyCandidate := last.flakyCandidate } = last := by
  rw [filed.result]
  unfold diagnosed flagged
  split <;> split <;> rfl

/-- The flag is right where the last attempt was no skipped retry. -/
theorem Filed.flag_iff {result last : TestResult} {earlier : List TestResult} {diagnostics : Value}
    (filed : Filed plan result own saves results earlier last diagnostics) :
    (result.flakyCandidate = true ↔ result.status = .passed ∧ ∃ attempt ∈ earlier, attempt.status.isFailure = true) ↔
      (1 < result.attempt → result.status ≠ .skipped) := by
  have failed : (∃ attempt ∈ earlier, attempt.status.isFailure = true) ↔ 1 < result.attempt := by
    rw [filed.attempt]
    constructor
    · rintro ⟨attempt,member,-⟩
      have := List.length_pos_of_mem member
      omega
    · intro many
      obtain ⟨attempt,member⟩ := List.exists_mem_of_length_pos (l := earlier) (by omega)
      exact ⟨attempt,member,(filed.tries.failed attempt member).1⟩
  rw [filed.flaky,failed,TestStatus.isFailure_eq_false]
  cases result.status <;> simp

theorem Phase.Books.filed {phase : Phase} (books : phase.Books plan own saves results) {result : TestResult}
    (member : result ∈ results) :
    ∃ earlier last diagnostics, Filed plan result own saves results earlier last diagnostics := by
  rcases books.under with ⟨k,under⟩ | ⟨other,last,settled⟩ | ⟨other,earlier,last,diagnostics,filed⟩
  · simp [under.unrecorded] at member
  · simp [settled.unrecorded] at member
  · obtain rfl : result = other := by simpa [filed.recorded] using member
    exact ⟨earlier,last,diagnostics,filed⟩

/-- The law holds of a test with these books exactly when its result is no skipped retry. -/
theorem retryLaw_iff (w : Watched) (sized : plan.options.retryFailed < 2^31 - 1)
    (books : (w.store.runner.tasks i).Books plan (ofTest i w.attempts) (ofTest i w.saves)
      (ofTest i w.store.runner.results)) :
    RetryLaw plan w i ↔ ∀ result ∈ ofTest i w.store.runner.results, 1 < result.attempt → result.status ≠ .skipped := by
  obtain ⟨short,numbered,stops⟩ := books.attempts
  constructor
  · intro law result member
    obtain ⟨earlier,last,owned,-,-,-,flag⟩ := law.recorded result member
    obtain ⟨earlier',last',diagnostics,filed⟩ := books.filed member
    obtain ⟨rfl,-⟩ := List.append_inj' (owned.symm.trans filed.own) rfl
    exact filed.flag_iff.mp flag
  · intro plain
    refine ⟨?_,numbered,fun result member => ?_,stops,fun result member => ?_⟩
    · simp only [Plan.maxAttempts] at short
      omega
    · have number := List.mem_map_of_mem (f := (·.attempt)) member
      rw [numbered] at number
      obtain ⟨k,below,equal⟩ := List.mem_map.mp number
      have small := List.mem_range.mp below
      simp only [Plan.maxAttempts] at short
      rw [← equal,toInt32_eq_iff]
      omega
    · obtain ⟨earlier,last,diagnostics,filed⟩ := books.filed member
      exact ⟨earlier,last,filed.own,filed.recorded,filed.same,filed.saved,filed.flag_iff.mpr (plain result member)⟩

/-! ### Whole runs -/

/-- What every run keeps, and what it takes for no skipped retry to have been recorded. -/
structure Followed (plan : Plan) (before : Tables) (labels : List StoreAction) (w : Watched) : Prop where
  sound : Sound plan w.store.runner
  pending : Pending plan w.store
  rows : ∃ retries, Rows plan w.store retries ∧
    (w.saves.map (·.2)).Perm (w.store.runner.results.map (·.2) ++ retries)
  books : ∀ i, (w.store.runner.tasks i).Books plan (ofTest i w.attempts) (ofTest i w.saves)
    (ofTest i w.store.runner.results)
  plain : Transition.Along (watchStep plan) (NoSkippedRetry plan) labels (watched before) ↔
    ∀ entry ∈ w.store.runner.results, 1 < entry.2.attempt → entry.2.status ≠ .skipped

theorem Followed.initial (plan : Plan) (before : Tables) : Followed plan before [] (watched before) where
  sound := .initial plan
  pending := (History.initial plan before).pending
  rows := ⟨[],(History.initial plan before).rows,List.Perm.refl _⟩
  books i := ⟨rfl,⟨by simp [Plan.maxAttempts,ofTest,watched],rfl,by simp [ofTest,watched]⟩,rfl,rfl⟩
  plain := by simp [Transition.Along,watched,opened,Runner.initial]

theorem Followed.still {before : Tables} {labels : List StoreAction} {w : Watched} (followed : Followed plan before labels w)
    {store : Persisted} {action : StoreAction} (path : Transition.run (watchStep plan) labels (watched before) = some w)
    (taken : storeStep plan action w.store = some store) (results : store.runner.results = w.store.runner.results)
    (tasks : ∀ j, store.runner.tasks j = w.store.runner.tasks j ∨
      w.store.runner.tasks j = .waiting ∧ store.runner.tasks j = .taken)
    (idle : retriedBy plan w.store action = []) (free : NoSkippedRetry plan w action) :
    Followed plan before (labels ++ [action]) { w with store } where
  sound := storeStep_sound followed.sound taken
  pending := followed.pending.step followed.sound.control taken
  rows := by
    obtain ⟨retries,rows,counted⟩ := followed.rows
    have next := rows.step followed.sound.control followed.pending taken
    rw [idle,List.append_nil] at next
    exact ⟨retries,next,results ▸ counted⟩
  books j := by
    have books := followed.books j
    rw [results]
    rcases tasks j with same | ⟨waits,fresh⟩
    · rwa [same]
    · rw [waits] at books
      rwa [fresh]
  plain := by
    rw [Transition.along_snoc _ _ _ _ _ _ path,results,followed.plain]
    exact and_iff_left free

theorem Followed.task {before : Tables} {labels : List StoreAction} {w : Watched} (followed : Followed plan before labels w)
    {runner : State} (path : Transition.run (watchStep plan) labels (watched before) = some w)
    (free : i ∉ w.store.unsaved.map (·.1)) (moved : step plan (.task i action) w.store.runner = some runner) :
    Followed plan before (labels ++ [.runner (.task i action)]) {
      store := { w.store with
        runner, unsaved := w.store.unsaved ++ (savedResult plan w.store.runner i action).toList.map (i,·) }
      attempts := w.attempts ++ (attemptedResult w.store.runner i action).toList.map (i,·)
      saves := w.saves ++ (savedResult plan w.store.runner i action).toList.map (i,·) } := by
  have taken : storeStep plan (.runner (.task i action)) w.store = some { w.store with
      runner, unsaved := w.store.unsaved ++ (savedResult plan w.store.runner i action).toList.map (i,·) } := by
    simp [storeStep,free,moved]
  cases step_move moved with
  | main _ main move => cases move
  | task _ _ phase effect move =>
  obtain ⟨results,split,-⟩ := move.saves
  have results : ((w.store.runner.apply i effect).setPhase i phase).results =
      w.store.runner.results ++ (recordedResult plan w.store.runner i action).toList.map (i,·) := results
  refine ⟨storeStep_sound followed.sound taken,followed.pending.step followed.sound.control taken,?_,fun j => ?_,?_⟩
  · obtain ⟨retries,rows,counted⟩ := followed.rows
    refine ⟨_,rows.step followed.sound.control followed.pending taken,?_⟩
    have values : ∀ l : List TestResult, (l.map (i,·)).map Prod.snd = l := by simp [Function.comp_def]
    rw [results]
    simp only [List.map_append,values,split,retriedBy]
    rw [← Multiset.coe_eq_coe] at counted ⊢
    simp only [← Multiset.coe_add] at counted ⊢
    rw [counted]
    ac_rfl
  · rw [results,ofTest_append,ofTest_append,ofTest_append]
    by_cases mine : j = i
    · subst mine
      rw [ofTest_self,ofTest_self,ofTest_self,State.setPhase_tasks,Function.update_self]
      exact move.books rfl (followed.books j)
    · rw [ofTest_other j i (Ne.symm mine),ofTest_other j i (Ne.symm mine),ofTest_other j i (Ne.symm mine),
        State.setPhase_tasks,Function.update_of_ne mine,State.apply_tasks]
      simpa using followed.books j
  · rw [Transition.along_snoc _ _ _ _ _ _ path,followed.plain,results,List.forall_mem_append]
    refine and_congr_right fun _ => ?_
    simp [NoSkippedRetry]

theorem Followed.step {before : Tables} {labels : List StoreAction} {w next : Watched} {action : StoreAction}
    (followed : Followed plan before labels w) (path : Transition.run (watchStep plan) labels (watched before) = some w)
    (taken : watchStep plan action w = some next) : Followed plan before (labels ++ [action]) next := by
  obtain ⟨store,stored,rfl⟩ := Option.map_eq_some_iff.mp taken
  cases storeStep_move stored with
  | task i action runner free moved => exact followed.task path free moved
  | other action runner apart moved =>
    obtain ⟨results,tasks⟩ := other_tasks followed.sound.control apart moved
    cases action with
    | task i task => exact absurd rfl (apart i task)
    | _ => exact followed.still path stored results tasks rfl trivial
  | save i entry tables found saved => exact followed.still path stored rfl (fun _ => .inl rfl) rfl trivial

theorem followed_run (before : Tables) (labels : List StoreAction) (w : Watched)
    (path : Transition.run (watchStep plan) labels (watched before) = some w) : Followed plan before labels w := by
  induction labels using List.reverseRecOn generalizing w with
  | nil =>
    obtain rfl : watched before = w := by simpa using path
    exact .initial plan before
  | append_singleton labels action ih =>
    obtain ⟨middle,first,last⟩ := (Transition.run_append_some _ _ _ _ _).mp path
    obtain ⟨next,taken,done⟩ := (Transition.run_cons_some _ _ _ _ _).mp last
    obtain rfl : next = w := by simpa using done
    exact (ih middle first).step first taken

theorem Followed.savedOnce {before : Tables} {labels : List StoreAction} {w : Watched}
    (followed : Followed plan before labels w) : SavedOnce plan w := by
  intro begun
  obtain ⟨retries,rows,counted⟩ := followed.rows
  obtain ⟨saved,listed,all⟩ := rows.rows begun
  exact ⟨saved,listed,all.trans counted.symm⟩

/-- In every run with a database: each test has the attempts the policy allows, its result is that
of the last one, and each is saved once. The flag is right in all of them exactly when no
retry that ended skipped was recorded. -/
theorem retryLaw_run_iff (plan : Plan) (sized : plan.options.retryFailed < 2^31 - 1) (before : Tables)
    (labels : List StoreAction) (w : Watched)
    (path : Transition.run (watchStep plan) labels (watched before) = some w) :
    ((∀ i, RetryLaw plan w i) ∧ SavedOnce plan w) ↔
      Transition.Along (watchStep plan) (NoSkippedRetry plan) labels (watched before) := by
  have followed := followed_run before labels w path
  have laws : (∀ i, RetryLaw plan w i) ↔
      ∀ entry ∈ w.store.runner.results, 1 < entry.2.attempt → entry.2.status ≠ .skipped := by
    have each := fun i => retryLaw_iff w sized (followed.books i)
    constructor
    · intro all entry member
      exact (each entry.1).mp (all entry.1) entry.2 (by simpa [ofTest] using member)
    · intro plain i
      refine (each i).mpr fun result member => ?_
      obtain ⟨entry,kept,rfl⟩ := List.mem_map.mp member
      exact plain entry (List.mem_of_mem_filter kept)
  rw [followed.plain,← laws]
  exact and_iff_left followed.savedOnce

/-- Of every recorded result the test, the status, the attempt and the flag. -/
def outcomes (w : Watched) : List (Nat × TestStatus × Int × Bool) :=
  w.store.runner.results.map fun entry => (entry.1,entry.2.status,entry.2.attempt,entry.2.flakyCandidate)

theorem retryLaw_retriedRun : ∃ w, Transition.run (watchStep retriedTest) retriedRun (watched {}) = some w ∧
    w.attempts.length = 2 ∧ (∀ i, RetryLaw retriedTest w i) ∧ SavedOnce retriedTest w := by
  have ends : (Transition.run (watchStep retriedTest) retriedRun (watched {})).map
      (fun w => (outcomes w,w.attempts.length)) = some ([(0,.passed,2,true)],2) := by decide +kernel
  obtain ⟨w,path,found⟩ := Option.map_eq_some_iff.mp ends
  obtain ⟨found,two⟩ := Prod.mk.inj found
  refine ⟨w,path,two,(retryLaw_run_iff retriedTest (by decide) {} retriedRun w path).mpr
    ((followed_run {} retriedRun w path).plain.mpr fun entry member _ => ?_)⟩
  have listed : (entry.1,entry.2.status,entry.2.attempt,entry.2.flakyCandidate) ∈ outcomes w :=
    List.mem_map_of_mem member
  rw [found,List.mem_singleton] at listed
  simp only [Prod.mk.injEq] at listed
  simp [listed.2.1]

/-- The run is cancelled between the two attempts. -/
def cancelledRetry : List StoreAction :=
  ([.start none,.call,.task 0 .begin,.task 0 (.observerStarted none),.task 0 (.enter {}),
    .task 0 (.create .made {}),.task 0 .register,.task 0 (.check {}),.task 0 .startBody,
    .task 0 (.bodyEnds { outcome := .threw false (.testForgeError (ascii "connection refused") .networkFailure) }),
    .task 0 (.verdict {}),.task 0 .leave,.task 0 .conclude] : List Action).map .runner ++ .save 0 ::
  ([.request (ascii "stop"),.task 0 (.enter {}),.task 0 (.create .made {}),.task 0 .register,.task 0 (.check {}),
    .task 0 .leave,.task 0 .conclude,.task 0 (.record .null)] : List Action).map .runner

/-- A retry that never ran is flagged. -/
theorem cancelled_retry_flagged : ∃ w, Transition.run (watchStep retriedTest) cancelledRetry (watched {}) = some w ∧
    ¬RetryLaw retriedTest w 0 := by
  have ends : (Transition.run (watchStep retriedTest) cancelledRetry (watched {})).map outcomes =
      some [(0,.skipped,2,true)] := by decide +kernel
  obtain ⟨w,path,found⟩ := Option.map_eq_some_iff.mp ends
  refine ⟨w,path,fun law => ?_⟩
  obtain ⟨entry,alone,same⟩ := List.map_eq_singleton_iff.mp found
  simp only [Prod.mk.injEq] at same
  obtain ⟨_,_,-,-,-,-,flag⟩ := law.recorded entry.2 (by simp [ofTest,alone,same.1])
  have passed := (flag.mp same.2.2.2).1
  rw [same.2.1] at passed
  cases passed

end TestForge.Runner
