import TestForge.RunnerExitCode

/-! What becomes of a failure that was found before the run was cancelled. -/
namespace TestForge.Runner

open Json Strings

variable {plan : Plan} {s next : State} {i : Nat} {action : TaskAction} {source phase : Phase}
  {effect : Effect}

/-- Attempts count from 1, and only an enabled test gets past its first entry other
than by being skipped. -/
def Phase.Numbered (enabled : Prop) : Phase → Prop
  | .entering k => 1 ≤ k ∧ (k = 1 ∨ enabled)
  | .creating k | .registering k | .checking k | .starting k | .running k _ | .ended k _ _
  | .leaving k _ => 1 ≤ k ∧ enabled
  | .returned k result => 1 ≤ k ∧ (result.status = .skipped ∨ enabled)
  | _ => True

theorem TaskMove.numbered (move : TaskMove plan s i source action phase effect)
    (numbered : source.Numbered ((plan.test i).enabled = true)) :
    phase.Numbered ((plan.test i).enabled = true) := by
  cases move with
  | enter k stamp enabled => exact ⟨numbered.1,enabled⟩
  | disabled k stamp off => exact ⟨numbered.1,.inl rfl⟩
  | nothing k stamp => exact ⟨numbered.1,.inr numbered.2⟩
  | leave k result free => exact ⟨numbered.1,.inr numbered.2⟩
  | retry k result again =>
    refine ⟨by omega,.inr (numbered.2.resolve_left fun skipped => ?_)⟩
    simp [retried,skipped,TestStatus.isFailure] at again
  | notified => exact ⟨Nat.le_refl 1,.inl rfl⟩
  | _ => first | exact numbered | trivial

def Numbered (plan : Plan) (s : State) : Prop :=
  ∀ i, (s.tasks i).Numbered ((plan.test i).enabled = true)

theorem Numbered.taken (numbered : Numbered plan s) (j : Nat) :
    (Function.update s.tasks i .taken j).Numbered ((plan.test j).enabled = true) := by
  by_cases mine : j = i
  · subst mine
    rw [Function.update_self]
    trivial
  · rw [Function.update_of_ne mine]
    exact numbered j

theorem Numbered.step (numbered : Numbered plan s) {action : Action}
    (taken : Runner.step plan action s = some next) : Numbered plan next := by
  cases step_move taken with
  | task i action phase effect move =>
    intro j
    rw [State.setPhase_tasks,State.apply_tasks]
    by_cases mine : j = i
    · subst mine
      rw [Function.update_self]
      exact move.numbered (numbered j)
    · rw [Function.update_of_ne mine]
      exact numbered j
  | take worker i rest queued free => exact numbered.taken
  | call j here waiting => exact numbered.taken
  | _ => exact numbered

/-- The latest attempt that came to an end failed. A test in its second or a later
attempt has failed in the one before. -/
def FailedLast (s : State) (i : Nat) : Prop :=
  match s.tasks i with
  | .entering k | .creating k | .registering k | .checking k | .starting k | .running k _ => 2 ≤ k
  | .ended _ record watch => (bodyStatus record.outcome).isFailure = true ∨ watch = .grace
  | .leaving _ result | .returned _ result | .handling result => result.status.isFailure = true
  | phase => phase.handled = true ∧ ∃ result, (i,result) ∈ s.results ∧ result.status.isFailure = true

/-- The steps of test `i` that do not lose a failure: no verdict on a failing body or
on a retry while the attempt's own source is cancelled other than by the deadline, and
no retry that finds the run cancelled, whose factory throws, or that skips itself. -/
def Keeps (i : Nat) (s : State) (action : Action) : Prop :=
  match s.tasks i, action with
  | .ended k record watch, .task j (.verdict _) => j = i → watch ≠ .grace →
      (bodyStatus record.outcome).isFailure = true ∨ 2 ≤ k → s.sources ⟨i,k⟩ = none
  | .checking k, .task j (.check _) => j = i → 2 ≤ k → s.runCancellation = none
  | .creating k, .task j (.create (.threw _) _) => j = i → k < 2
  | .running k _, .task j (.bodyEnds record) => j = i → 2 ≤ k → bodyStatus record.outcome ≠ .skipped
  | _, _ => True

/-- A failure is on record, or a retry is under way that cannot end SKIPPED. -/
def Kept (s : State) (i : Nat) : Prop :=
  match s.tasks i with
  | .entering k | .creating k | .registering k | .checking k | .starting k | .running k _ => 2 ≤ k
  | .ended k record watch => watch = .grace ∨ (bodyStatus record.outcome).isFailure = true ∨
      2 ≤ k ∧ bodyStatus record.outcome ≠ .skipped
  | .leaving _ result | .returned _ result | .handling result => result.status ≠ .skipped
  | phase => phase.handled = true ∧ ∃ result, (i,result) ∈ s.results ∧ result.status ≠ .skipped

theorem ne_skipped_of_isFailure (status : TestStatus) (failing : status.isFailure = true) :
    status ≠ .skipped := by
  rintro rfl
  contradiction

theorem FailedLast.kept (failed : FailedLast s i) : Kept s i := by
  unfold FailedLast at failed
  unfold Kept
  cases here : s.tasks i <;> simp only [here] at failed ⊢ <;>
    first
    | exact failed
    | exact ne_skipped_of_isFailure _ failed
    | exact failed.elim (fun failing => .inr (.inl failing)) .inl
    | exact ⟨failed.1,failed.2.imp fun result found => ⟨found.1,ne_skipped_of_isFailure _ found.2⟩⟩

theorem attemptVerdict_status (plan : Plan) (s : State) (i k : Nat) (record : BodyRecord)
    (watch : Watch) (stamp : Stamp) : (attemptVerdict plan s i k record watch stamp).status =
      if watch = .grace then .timeout
      else if (s.sources ⟨i,k⟩).isSome then .skipped
      else bodyStatus record.outcome := by
  unfold attemptVerdict
  show (verdict _ _ _ _ _ _ _).status = _
  rw [verdict_status]
  cases watch <;> simp

theorem TaskMove.kept (numbered : Numbered plan s)
    (move : TaskMove plan s i (s.tasks i) action phase effect)
    (keeps : Keeps i s (.task i action)) (kept : Kept s i) :
    Kept ((s.apply i effect).setPhase i phase) i := by
  have number := numbered i
  unfold Kept at kept ⊢
  unfold Keeps at keeps
  rw [State.setPhase_tasks,Function.update_self]
  generalize here : s.tasks i = source at move keeps kept number
  cases move with
  | disabled k stamp off =>
    exact absurd (number.2.resolve_left fun first => by simp only at kept; omega) (by simp [off])
  | nothing k stamp => exact nofun
  | createThrew k escape stamp => exact absurd (keeps rfl) (by simp only at kept; omega)
  | refused k stamp reason cancelled =>
    have running := keeps rfl kept
    simp [cancelled] at running
  | bodyEnds k watch record => exact .inr (.inr ⟨kept,keeps rfl kept⟩)
  | deadline k => exact kept
  | lateDeadline k record => exact .inl rfl
  | abandon k stamp => exact nofun
  | lateAbandon k record stamp => exact nofun
  | verdict k record watch stamp =>
    show (attemptVerdict plan s i k record watch stamp).status ≠ .skipped
    rw [attemptVerdict_status]
    by_cases expired : watch = .grace
    · simp [expired]
    · have known := kept.resolve_left expired
      have fresh := keeps rfl expired (known.imp_right And.left)
      rw [if_neg expired,fresh]
      exact known.elim (ne_skipped_of_isFailure _) And.right
  | retry k result again => exact Nat.succ_le_succ number.1
  | settle k result last =>
    show (flagged k result).status ≠ .skipped
    rw [flagged_status]
    exact kept
  | record result diagnostics =>
    exact ⟨rfl,diagnosed plan diagnostics result,List.mem_append_right _ (by simp),
      by rw [diagnosed_status]; exact kept⟩
  | handled result calm => exact ⟨rfl,kept.2⟩
  | trips result tripping => exact ⟨rfl,kept.2⟩
  | handlerThrew result escape => exact ⟨rfl,kept.2⟩
  | trip result => exact ⟨rfl,kept.2⟩
  | signal result => exact ⟨rfl,kept.2⟩
  | _ => simp_all [Phase.handled,Phase.over]

theorem Kept.of_same (kept : Kept s i) (tasks : next.tasks i = s.tasks i)
    (results : ∀ entry ∈ s.results, entry ∈ next.results) : Kept next i := by
  unfold Kept at kept ⊢
  rw [tasks]
  cases here : s.tasks i <;> simp only [here] at kept ⊢ <;>
    first
    | exact kept
    | exact ⟨kept.1,kept.2.imp fun result found => ⟨results _ found.1,found.2⟩⟩

theorem Kept.not_waiting (kept : Kept s i) : s.tasks i ≠ .waiting := by
  intro waits
  simp [Kept,waits,Phase.handled,Phase.over] at kept

theorem Kept.step (control : Control plan s) (numbered : Numbered plan s) (kept : Kept s i)
    {action : Action} (keeps : Keeps i s action) (taken : Runner.step plan action s = some next) :
    Kept next i := by
  have results := step_results taken
  have different (j : Nat) (waits : s.tasks j = .waiting) : i ≠ j := fun equal =>
    kept.not_waiting (equal ▸ waits)
  cases step_move taken with
  | task j action phase effect move =>
    by_cases mine : i = j
    · subst mine
      exact move.kept numbered keeps kept
    · exact kept.of_same (by simp [mine]) results
  | take worker j rest queued free =>
    have away := different j (control.queued j (by simp [queued])).2
    exact kept.of_same (Function.update_of_ne away _ _) results
  | call j here waiting =>
    exact kept.of_same (Function.update_of_ne (different j waiting) _ _) results
  | _ => exact kept.of_same rfl results

theorem test_inj (plan : Plan) (i j : Nat) (first : i < plan.size) (second : j < plan.size)
    (same : (plan.test i).qualifiedName = (plan.test j).qualifiedName) : i = j := by
  have first : i < plan.selected.length := first
  have second : j < plan.selected.length := second
  have lower : i < (plan.selected.map (·.qualifiedName)).length := by simpa using first
  have upper : j < (plan.selected.map (·.qualifiedName)).length := by simpa using second
  have names : (plan.selected.map (·.qualifiedName))[i] =
      (plan.selected.map (·.qualifiedName))[j] := by
    simpa [Plan.test,List.getD_eq_getElem?_getD,first,second] using same
  exact plan.distinct.getElem_inj_iff.mp names

/-- What a returned run has of a test with a recorded result: that one result. -/
theorem Sound.unique_result (sound : Sound plan s) (run : TestRun) (returned : s.main = .returned run)
    (result : TestResult) (member : (i,result) ∈ s.results) :
    result ∈ run.results ∧ Names (plan.test i) result ∧ ∀ other ∈ run.results,
      other.qualifiedName = (plan.test i).qualifiedName → other = result := by
  have perm := sound.closed run (.inr returned)
  have inside (entry : Nat × TestResult) (member : entry ∈ s.results) : entry.1 < plan.size :=
    sound.control.selected _ fun waits => by
      have done := sound.records.handled entry member
      simp [waits,Phase.handled,Phase.over] at done
  refine ⟨perm.mem_iff.mpr (List.mem_map_of_mem member),sound.records.named _ member,
    fun other found same => ?_⟩
  obtain ⟨entry,also,rfl⟩ := List.mem_map.mp (perm.mem_iff.mp found)
  have index : entry.1 = i := test_inj plan _ _ (inside entry also) (inside _ member)
    ((sound.records.named entry also).qualifiedName.symm.trans same)
  have equal := List.inj_on_of_nodup_map sound.records.distinct also member index
  rw [equal]

/-- Under steps that `permits` allows from this state on, the run returns one result for
the test, which is PASSED or failing with exit code 1 or 2. -/
def KeptFrom (plan : Plan) (permits : State → Action → Prop) (s : State) (i : Nat) : Prop :=
  ∀ more final run, Transition.Along (step plan) permits more s →
    Transition.run (step plan) more s = some final → final.main = .returned run →
    ∃ result ∈ run.results, Names (plan.test i) result ∧
      (∀ other ∈ run.results, other.qualifiedName = (plan.test i).qualifiedName → other = result) ∧
      (result.status = .passed ∨
        result.status.isFailure = true ∧ (run.exitCode = 1 ∨ run.exitCode = 2))

/-- A failure is kept from every state on in which the latest attempt of the test that
came to an end failed, whether or not the run is cancelled. -/
def FailureKept (plan : Plan) (permits : Nat → State → Action → Prop) : Prop :=
  ∀ labels s i, Transition.run (step plan) labels initial = some s → FailedLast s i →
    KeptFrom plan (permits i) s i

theorem failureKept (plan : Plan) : FailureKept plan Keeps := by
  intro labels s i path failed more final run along onward returned
  have sound := (Sound.initial plan).run labels path
  have numbered := Transition.run_invariant (step plan) (Numbered plan)
    (fun _ _ _ numbered taken => numbered.step taken) labels initial s path (fun _ => trivial)
  have end_ := Transition.run_invariant_along (step plan) (Keeps i)
    (fun s => (Sound plan s ∧ Numbered plan s) ∧ Kept s i)
    (fun _ _ _ held keeps taken => ⟨⟨held.1.1.step taken,held.1.2.step taken⟩,
      held.2.step held.1.1.control held.1.2 keeps taken⟩)
    more s final along onward ⟨⟨sound,numbered⟩,failed.kept⟩
  obtain ⟨⟨soundEnd,_⟩,kept⟩ := end_
  have stage := soundEnd.control.stage
  rw [returned] at stage
  have past := stage.2 i (soundEnd.control.selected i kept.not_waiting)
  obtain ⟨result,member,unskipped⟩ : ∃ result, (i,result) ∈ final.results ∧
      result.status ≠ .skipped := by
    unfold Kept at kept
    cases here : final.tasks i <;> simp only [here] at kept past <;>
      first
      | exact kept.2
      | simp [Phase.over] at past
  obtain ⟨inside,names,unique⟩ := soundEnd.unique_result run returned result member
  refine ⟨result,inside,names,unique,?_⟩
  by_cases failing : result.status.isFailure = true
  · exact .inr ⟨failing,run.exitCode_of_failing result inside failing⟩
  · have passed := (TestStatus.isFailure_eq_false _).mp (Bool.eq_false_iff.mpr failing)
    exact .inl (passed.resolve_right unskipped)

/-- The body of the one test has failed, but its verdict is not formed yet. -/
def brokenRun : List Action :=
  [.start none,.call,.task 0 .begin,.task 0 (.observerStarted none),.task 0 (.enter {}),
    .task 0 (.create .made {}),.task 0 .register,.task 0 (.check {}),.task 0 .startBody,
    .task 0 (.bodyEnds brokenBody)]

def cancelledRest : List Action :=
  [.request (ascii "stop"),.lock 0,.signalNext,.unlock,.task 0 (.verdict {}),.task 0 .leave,
    .task 0 .conclude,.task 0 (.record .null),.task 0 (.observerFinished none),.advance,
    .collect 0 0,.close none]

/-- The run is cancelled when the verdict is formed, and the result is kept. -/
def cancelledLate : List Action :=
  [.task 0 (.verdict {}),.request (ascii "stop"),.lock 0,.signalNext,.unlock,.task 0 .leave,
    .task 0 .conclude,.task 0 (.record .null),.task 0 (.observerFinished none),.advance,
    .collect 0 0,.close none]

instance Keeps.decidable (i : Nat) (s : State) (action : Action) : Decidable (Keeps i s action) := by
  unfold Keeps
  split <;> infer_instance

theorem brokenRun_failed (s : State) (path : Transition.run (step oneTest) brokenRun initial = some s) :
    s.runCancellation = none ∧ FailedLast s 0 := by
  have task : (Transition.run (step oneTest) brokenRun initial).map (·.tasks 0) =
      some (.ended 1 brokenBody .polling) := rfl
  have calm : (Transition.run (step oneTest) brokenRun initial).map (·.runCancellation) =
      some none := rfl
  rw [path] at task calm
  have task : s.tasks 0 = .ended 1 brokenBody .polling := Option.some.inj task
  refine ⟨Option.some.inj calm,?_⟩
  unfold FailedLast
  rw [task]
  exact .inl (by decide)

theorem failureKept_cancelledLate : ∃ s final run,
    Transition.run (step oneTest) brokenRun initial = some s ∧
    s.runCancellation = none ∧ FailedLast s 0 ∧
    Transition.Along (step oneTest) (Keeps 0) cancelledLate s ∧
    Transition.run (step oneTest) cancelledLate s = some final ∧ final.main = .returned run ∧
    final.runCancellation = some (ascii "stop") ∧ (run.exitCode = 1 ∨ run.exitCode = 2) := by
  obtain ⟨s,path,keeps,onward⟩ : ∃ s, Transition.run (step oneTest) brokenRun initial = some s ∧
      Transition.Along (step oneTest) (Keeps 0) cancelledLate s ∧
      (Transition.run (step oneTest) cancelledLate s).bind (fun final => (returnedRun final).map
        fun run => (final.runCancellation,run.results.map (·.status))) =
        some (some (ascii "stop"),[.failed]) :=
    ⟨_,rfl,by decide +kernel,by decide +kernel⟩
  obtain ⟨final,after,seen⟩ := Option.bind_eq_some_iff.mp onward
  obtain ⟨run,found,same⟩ := Option.map_eq_some_iff.mp seen
  obtain ⟨cancelled,statuses⟩ := Prod.mk.inj same
  obtain ⟨calm,failed⟩ := brokenRun_failed s path
  obtain ⟨result,inside,_,_,kept⟩ := failureKept oneTest brokenRun s 0 path failed cancelledLate
    final run keeps after (returnedRun_some found)
  have broken : result.status = .failed := by
    have member : result.status ∈ run.results.map (·.status) := List.mem_map_of_mem inside
    rwa [statuses,List.mem_singleton] at member
  exact ⟨s,final,run,path,calm,failed,keeps,after,returnedRun_some found,cancelled,
    (kept.resolve_left (by simp [broken])).2⟩

theorem brokenBody_lost : ∃ s, Transition.run (step oneTest) brokenRun initial = some s ∧
    s.runCancellation = none ∧ FailedLast s 0 ∧ ¬KeptFrom oneTest (fun _ _ => True) s 0 := by
  obtain ⟨s,path,onward⟩ : ∃ s, Transition.run (step oneTest) brokenRun initial = some s ∧
      ((Transition.run (step oneTest) cancelledRest s).bind returnedRun).map
        (fun run => run.results.map (·.status)) = some [.skipped] :=
    ⟨_,rfl,by decide +kernel⟩
  obtain ⟨run,found,statuses⟩ := Option.map_eq_some_iff.mp onward
  obtain ⟨final,after,found⟩ := Option.bind_eq_some_iff.mp found
  obtain ⟨calm,failed⟩ := brokenRun_failed s path
  refine ⟨s,path,calm,failed,fun keeps => ?_⟩
  obtain ⟨result,inside,_,_,kept⟩ := keeps cancelledRest final run
    (Transition.along_of_forall _ _ _ _ fun _ _ _ => trivial) after (returnedRun_some found)
  have skipped : result.status = .skipped := by
    have member : result.status ∈ run.results.map (·.status) := List.mem_map_of_mem inside
    rwa [statuses,List.mem_singleton] at member
  simp [skipped,TestStatus.isFailure] at kept

end TestForge.Runner
