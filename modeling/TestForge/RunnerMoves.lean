import TestForge.Runner

/-! What one step of the runner can do, said once: every invariant is derived from
these inversions. -/
namespace TestForge.Runner

open Json Strings

/-- The steps of one test by source phase, action, target phase and effect. -/
inductive TaskMove (plan : Plan) (s : State) (i : Nat) :
    Phase → TaskAction → Phase → Effect → Prop where
  | skip (stopped : s.stopScheduling = true) : TaskMove plan s i .taken .begin .finished .none
  | begin (going : s.stopScheduling = false) : TaskMove plan s i .taken .begin .notifying .none
  | notified : TaskMove plan s i .notifying (.observerStarted none) (.entering 1) .none
  | notifyThrew (escape : Escape) :
      TaskMove plan s i .notifying (.observerStarted (some escape)) (.threw escape) .none
  | enter (k : Nat) (stamp : Stamp) (enabled : (plan.test i).enabled = true) :
      TaskMove plan s i (.entering k) (.enter stamp) (.creating k) .none
  | disabled (k : Nat) (stamp : Stamp) (off : (plan.test i).enabled = false) :
      TaskMove plan s i (.entering k) (.enter stamp)
        (.returned k (finish stamp (disabledResult (plan.test i) (base plan s i k stamp)))) .none
  | made (k : Nat) (stamp : Stamp) :
      TaskMove plan s i (.creating k) (.create .made stamp) (.registering k) .none
  | nothing (k : Nat) (stamp : Stamp) :
      TaskMove plan s i (.creating k) (.create .nothing stamp)
        (.returned k (finish stamp (nothingProduced (base plan s i k stamp)))) .none
  | createThrew (k : Nat) (escape : Escape) (stamp : Stamp) :
      TaskMove plan s i (.creating k) (.create (.threw escape) stamp) (.threw escape) .none
  | register (k : Nat) (free : s.sweep = none) :
      TaskMove plan s i (.registering k) .register (.checking k) (.register ⟨i,k⟩)
  | refused (k : Nat) (stamp : Stamp) (reason : Bytes) (cancelled : s.runCancellation = some reason) :
      TaskMove plan s i (.checking k) (.check stamp)
        (.leaving k (finish stamp (notRun reason (base plan s i k stamp)))) .none
  | passed (k : Nat) (stamp : Stamp) (running : s.runCancellation = none) :
      TaskMove plan s i (.checking k) (.check stamp) (.starting k) .none
  | startBody (k : Nat) :
      TaskMove plan s i (.starting k) .startBody
        (.running k (if plan.bounded i then .polling else .inline)) .none
  | bodyEnds (k : Nat) (watch : Watch) (record : BodyRecord) :
      TaskMove plan s i (.running k watch) (.bodyEnds record) (.ended k record watch) .none
  | forward (k : Nat) (reason : Bytes) (cancelled : s.runCancellation = some reason)
      (fresh : s.sources ⟨i,k⟩ = none) :
      TaskMove plan s i (.running k .polling) .forward (.running k .polling) (.cancel ⟨i,k⟩ reason)
  | deadline (k : Nat) :
      TaskMove plan s i (.running k .polling) .deadline (.running k .grace)
        (.cancel ⟨i,k⟩ (deadlineReason plan i))
  | abandon (k : Nat) (stamp : Stamp) :
      TaskMove plan s i (.running k .grace) (.abandon stamp)
        (.leaving k (finish stamp (describeAbandonedTest (plan.timeoutMs i) k
          (base plan s i k stamp)))) (.abandon ⟨i,k⟩)
  | lateForward (k : Nat) (record : BodyRecord) (reason : Bytes)
      (cancelled : s.runCancellation = some reason) (fresh : s.sources ⟨i,k⟩ = none) :
      TaskMove plan s i (.ended k record .polling) .forward (.ended k record .polling)
        (.cancel ⟨i,k⟩ reason)
  | lateDeadline (k : Nat) (record : BodyRecord) :
      TaskMove plan s i (.ended k record .polling) .deadline (.ended k record .grace)
        (.cancel ⟨i,k⟩ (deadlineReason plan i))
  | lateAbandon (k : Nat) (record : BodyRecord) (stamp : Stamp) :
      TaskMove plan s i (.ended k record .grace) (.abandon stamp)
        (.leaving k (finish stamp (describeAbandonedTest (plan.timeoutMs i) k
          (base plan s i k stamp)))) .none
  | verdict (k : Nat) (record : BodyRecord) (watch : Watch) (stamp : Stamp) :
      TaskMove plan s i (.ended k record watch) (.verdict stamp)
        (.leaving k (attemptVerdict plan s i k record watch stamp)) .none
  | leave (k : Nat) (result : TestResult) (free : s.sweep = none) :
      TaskMove plan s i (.leaving k result) .leave (.returned k result) (.unregister ⟨i,k⟩)
  | retry (k : Nat) (result : TestResult) (again : retried plan k result = true) :
      TaskMove plan s i (.returned k result) .conclude (.entering (k + 1)) .none
  | settle (k : Nat) (result : TestResult) (last : retried plan k result = false) :
      TaskMove plan s i (.returned k result) .conclude (.handling (flagged k result)) .none
  | record (result : TestResult) (diagnostics : Value) :
      TaskMove plan s i (.handling result) (.record diagnostics)
        (.recorded (diagnosed plan diagnostics result)) (.record (diagnosed plan diagnostics result))
  | handled (result : TestResult) (calm : (plan.options.failFast && result.status.isFailure) = false) :
      TaskMove plan s i (.recorded result) (.observerFinished none) .finished .none
  | trips (result : TestResult) (tripping : (plan.options.failFast && result.status.isFailure) = true) :
      TaskMove plan s i (.recorded result) (.observerFinished none) (.tripping result) .none
  | handlerThrew (result : TestResult) (escape : Escape) :
      TaskMove plan s i (.recorded result) (.observerFinished (some escape)) (.threw escape) .none
  | trip (result : TestResult) :
      TaskMove plan s i (.tripping result) .trip (.signalling result) .stop
  | signal (result : TestResult) :
      TaskMove plan s i (.signalling result) .signal .finished (.cancelRun (failFastReason result))

theorem forwarded_some (s : State) (attempt : Attempt) (effect : Effect)
    (taken : forwarded s attempt = some effect) :
    ∃ reason, s.runCancellation = some reason ∧ s.sources attempt = none ∧
      effect = .cancel attempt reason := by
  unfold forwarded at taken
  split at taken
  next reason cancelled fresh => exact ⟨reason,cancelled,fresh,(Option.some.inj taken).symm⟩
  next => contradiction

theorem taskStep_move (plan : Plan) (s : State) (i : Nat) (action : TaskAction) (phase : Phase)
    (effect : Effect) (taken : taskStep plan s i action = some (phase,effect)) :
    TaskMove plan s i (s.tasks i) action phase effect := by
  generalize here : s.tasks i = source
  unfold taskStep at taken
  rw [here] at taken
  split at taken
  all_goals try (cases taken; constructor)
  · by_cases stopped : s.stopScheduling = true
    · rw [if_pos stopped] at taken
      cases taken
      exact .skip stopped
    · rw [if_neg stopped] at taken
      cases taken
      exact .begin (by simpa using stopped)
  · split at taken
    next enabled => cases taken; exact .enter _ _ enabled
    next off => cases taken; exact .disabled _ _ (by simpa using off)
  · split at taken
    next free => cases taken; exact .register _ (by simpa using free)
    next => contradiction
  · split at taken
    next reason cancelled => cases taken; exact .refused _ _ reason cancelled
    next running => cases taken; exact .passed _ _ running
  · obtain ⟨moved,forwarded,equal⟩ := Option.map_eq_some_iff.mp taken
    obtain ⟨reason,cancelled,fresh,rfl⟩ := forwarded_some _ _ _ forwarded
    cases equal
    exact .forward _ reason cancelled fresh
  · obtain ⟨moved,forwarded,equal⟩ := Option.map_eq_some_iff.mp taken
    obtain ⟨reason,cancelled,fresh,rfl⟩ := forwarded_some _ _ _ forwarded
    cases equal
    exact .lateForward _ _ reason cancelled fresh
  · split at taken
    next free => cases taken; exact .leave _ _ (by simpa using free)
    next => contradiction
  · split at taken
    next again => cases taken; exact .retry _ _ again
    next last => cases taken; exact .settle _ _ (by simpa using last)
  · split at taken
    next tripping => cases taken; exact .trips _ tripping
    next calm => cases taken; exact .handled _ (by simpa using calm)
  · contradiction

/-- The steps of the calling thread that only move it. -/
inductive MainMove (plan : Plan) (s : State) : Action → Main → Prop where
  | startThrew (escape : Escape) (here : s.main = .created) :
      MainMove plan s (.start (some escape)) (.threw escape)
  | startInline (here : s.main = .created) (single : plan.sequential = true) :
      MainMove plan s (.start none) (inlineFrom plan 0)
  | startPool (here : s.main = .created) (pooled : plan.sequential = false) :
      MainMove plan s (.start none) (.submitting 0)
  | advance (j : Nat) (here : s.main = .inline j) (done : s.tasks j = .finished) :
      MainMove plan s .advance (inlineFrom plan (j + 1))
  | advanceThrew (j : Nat) (escape : Escape) (here : s.main = .inline j)
      (threw : s.tasks j = .threw escape) : MainMove plan s .advance (.threw escape)
  | await (j : Nat) (here : s.main = .draining j)
      (done : s.tasks j = .finished ∨ s.tasks j = .threw .stdException) :
      MainMove plan s .await (drainFrom plan (j + 1))
  | awaitThrew (j : Nat) (here : s.main = .draining j) (threw : s.tasks j = .threw .other) :
      MainMove plan s .await (.unwinding .other)
  | unwind (escape : Escape) (here : s.main = .unwinding escape)
      (past : ∀ i < plan.size, (s.tasks i).over = true) : MainMove plan s .unwind (.threw escape)
  | collect (finishedAt : TimePoint) (duration : Int) (here : s.main = .collecting) :
      MainMove plan s (.collect finishedAt duration) (.closing (collected plan s finishedAt duration))
  | close (run : TestRun) (here : s.main = .closing run) :
      MainMove plan s (.close none) (.returned run)
  | closeThrew (run : TestRun) (escape : Escape) (here : s.main = .closing run) :
      MainMove plan s (.close (some escape)) (.threw escape)

theorem mainStep_move (plan : Plan) (s : State) (action : Action) (main : Main)
    (taken : mainStep plan s action = some main) : MainMove plan s action main := by
  unfold mainStep at taken
  cases action with
  | start escape =>
    cases here : s.main <;> cases escape <;> simp only [here] at taken <;> try contradiction
    · cases single : plan.sequential <;> simp only [single] at taken <;> cases taken
      · exact .startPool here single
      · exact .startInline here single
    · cases taken; exact .startThrew _ here
  | advance =>
    cases here : s.main <;> simp only [here] at taken <;> try contradiction
    split at taken <;> cases taken
    next done => exact .advance _ here done
    next threw => exact .advanceThrew _ _ here threw
  | await =>
    cases here : s.main <;> simp only [here] at taken <;> try contradiction
    split at taken <;> cases taken
    next done => exact .await _ here (.inl done)
    next threw => exact .await _ here (.inr threw)
    next threw => exact .awaitThrew _ here threw
  | unwind =>
    cases here : s.main <;> simp only [here] at taken <;> try contradiction
    split at taken <;> cases taken
    next past => exact .unwind _ here (by simpa using past)
  | collect finishedAt duration =>
    cases here : s.main <;> simp only [here] at taken <;> cases taken
    exact .collect _ _ here
  | close escape =>
    cases here : s.main <;> cases escape <;> simp only [here] at taken <;> cases taken
    · exact .close _ here
    · exact .closeThrew _ _ here
  | _ => contradiction

/-- The steps of the system by label and target. -/
inductive Move (plan : Plan) (s : State) : Action → State → Prop where
  | main (action : Action) (main : Main) (move : MainMove plan s action main) :
      Move plan s action { s with main }
  | submit (j : Nat) (here : s.main = .submitting j) :
      Move plan s .submit { s with
        queue := s.queue ++ [j]
        main := if j + 1 < plan.size then .submitting (j + 1) else .draining 0 }
  | take (worker i : Nat) (rest : List Nat) (queued : s.queue = i :: rest)
      (free : workerFree plan s worker = true) :
      Move plan s (.take worker) { s.setPhase i .taken with
        queue := rest, workerOf := Function.update s.workerOf i worker }
  | call (j : Nat) (here : s.main = .inline j) (waiting : s.tasks j = .waiting) :
      Move plan s .call (s.setPhase j .taken)
  | task (i : Nat) (action : TaskAction) (phase : Phase) (effect : Effect)
      (move : TaskMove plan s i (s.tasks i) action phase effect) :
      Move plan s (.task i action) ((s.apply i effect).setPhase i phase)
  | orphanEnds (attempt : Attempt) (astray : attempt ∈ s.orphans) :
      Move plan s (.orphanEnds attempt) { s with orphans := s.orphans.erase attempt }
  | request (reason : Bytes) :
      Move plan s (.request reason) { s with
        runCancellation := cancel s.runCancellation reason, requests := s.requests ++ [reason] }
  | lock (call : Nat) (reason : Bytes) (free : s.sweep = none)
      (pending : s.requests[call]? = some reason) :
      Move plan s (.lock call) { s with
        requests := s.requests.eraseIdx call, sweep := some ⟨reason,s.activeTests⟩ }
  | signalNext (reason : Bytes) (attempt : Attempt) (rest : List Attempt)
      (sweeping : s.sweep = some ⟨reason,attempt :: rest⟩) :
      Move plan s .signalNext { s.cancelSource attempt reason with sweep := some ⟨reason,rest⟩ }
  | unlock (reason : Bytes) (sweeping : s.sweep = some ⟨reason,[]⟩) :
      Move plan s .unlock { s with sweep := none, completed := s.completed + 1 }

theorem step_move {plan : Plan} {s next : State} {action : Action}
    (taken : step plan action s = some next) : Move plan s action next := by
  cases action with
  | submit =>
    simp only [step] at taken
    split at taken <;> cases taken
    next here => exact .submit _ here
  | take worker =>
    simp only [step] at taken
    split at taken
    · split at taken <;> cases taken
      next queued free => exact .take _ _ _ queued free
    · contradiction
  | call =>
    simp only [step] at taken
    split at taken
    next here =>
      split at taken <;> cases taken
      next waiting => exact .call _ here waiting
    · contradiction
  | task i action =>
    obtain ⟨⟨phase,effect⟩,moved,rfl⟩ := Option.map_eq_some_iff.mp taken
    exact .task _ _ _ _ (taskStep_move _ _ _ _ _ _ moved)
  | orphanEnds attempt =>
    simp only [step] at taken
    split at taken <;> cases taken
    next astray => exact .orphanEnds _ astray
  | request reason =>
    cases taken
    exact .request _
  | lock call =>
    simp only [step] at taken
    split at taken <;> cases taken
    next free pending => exact .lock _ _ free pending
  | signalNext =>
    simp only [step] at taken
    split at taken <;> cases taken
    next sweeping => exact .signalNext _ _ _ sweeping
  | unlock =>
    simp only [step] at taken
    split at taken <;> cases taken
    next sweeping => exact .unlock _ sweeping
  | start | advance | await | unwind | collect | close =>
    obtain ⟨main,moved,rfl⟩ := Option.map_eq_some_iff.mp taken
    exact .main _ _ (mainStep_move _ _ _ _ moved)

end TestForge.Runner
