import TestForge.RunnerFaithful
import TestForge.RunnerRetention

/-! Which runs account for every selected test. -/
namespace TestForge.Runner

open Json Strings

variable {plan : Plan} {behaviour : Behaviour} {s : State} {i : Nat}

/-- A body ends in time, or its deadline or the end of its grace period comes. -/
theorem running_enabled {k : Nat} {watch : Watch} (here : s.tasks i = .running k watch)
    (late : watch = .grace → behaviour.timing i k ≠ .inTime) :
    ∃ action, Conforms behaviour s (.task i action) ∧ Runner.step plan (.task i action) s ≠ none := by
  have ends (timely : watch.EndsAs (behaviour.timing i k)) : ∃ action,
      Conforms behaviour s (.task i action) ∧ Runner.step plan (.task i action) s ≠ none := by
    refine ⟨.bodyEnds (behaviour.body i k),fun m other same => ?_,by simp [Runner.step,taskStep,here]⟩
    rw [here] at same
    cases same
    exact ⟨rfl,timely⟩
  have attempt (m : Nat) (same : (s.tasks i).registered = some m) : m = k := by
    rw [here] at same
    exact (Option.some.inj same).symm
  cases watch with
  | inline => exact ends trivial
  | polling =>
    by_cases timely : behaviour.timing i k = .inTime
    · exact ends timely
    · exact ⟨.deadline,fun m same => attempt m same ▸ timely,by simp [Runner.step,taskStep,here]⟩
  | grace =>
    cases timing : behaviour.timing i k with
    | inTime => exact absurd timing (late rfl)
    | inGrace => exact ends timing
    | never => exact ⟨.abandon {},fun m same => attempt m same ▸ timing,by simp [Runner.step,taskStep,here]⟩

theorem Faithful.enabled (faithful : Faithful plan behaviour s) (active : (s.tasks i).active = true) :
    ∃ action, Conforms behaviour s (.task i action) ∧ Runner.step plan (.task i action) s ≠ none := by
  have free := faithful.undisturbed.free
  have track := faithful.track i
  cases here : s.tasks i <;> rw [here] at active track
  case waiting => contradiction
  case taken => exact ⟨.begin,trivial,by simp [Runner.step,taskStep,here]⟩
  case notifying =>
    refine ⟨.observerStarted (behaviour.testStarted i),rfl,?_⟩
    cases threw : behaviour.testStarted i <;> simp [Runner.step,taskStep,here]
  case entering k =>
    refine ⟨.enter {},trivial,?_⟩
    simp only [Runner.step,taskStep,here]
    split <;> simp
  case creating k =>
    refine ⟨.create (behaviour.create i k) {},fun m same => ?_,?_⟩
    · rw [here] at same
      cases same
      rfl
    · cases made : behaviour.create i k <;> simp [Runner.step,taskStep,here]
  case registering k => exact ⟨.register,trivial,by simp [Runner.step,taskStep,here,free]⟩
  case checking k =>
    refine ⟨.check {},trivial,?_⟩
    simp [Runner.step,taskStep,here,faithful.undisturbed.running]
  case starting k => exact ⟨.startBody,trivial,by simp [Runner.step,taskStep,here]⟩
  case running k watch =>
    refine running_enabled here fun grace => ?_
    subst grace
    exact track.2.2
  case ended k record watch =>
    refine ⟨.verdict {},trivial,?_⟩
    cases watch <;> simp [Runner.step,taskStep,here]
  case leaving k result => exact ⟨.leave,trivial,by simp [Runner.step,taskStep,here,free]⟩
  case returned k result =>
    refine ⟨.conclude,trivial,?_⟩
    simp only [Runner.step,taskStep,here]
    split <;> simp
  case handling result => exact ⟨.record .null,trivial,by simp [Runner.step,taskStep,here]⟩
  case recorded result =>
    refine ⟨.observerFinished (behaviour.testFinished i),rfl,?_⟩
    cases threw : behaviour.testFinished i <;> simp [Runner.step,taskStep,here]
  case tripping result => exact track.elim
  case signalling result => exact track.elim
  case finished => contradiction
  case threw escape => contradiction

section Settled

variable (control : Control plan s) (faithful : Faithful plan behaviour s)
  (settled : Transition.Settled (step plan) (Conforms behaviour) s)
include faithful settled

theorem settled_inactive (i : Nat) : (s.tasks i).active = false := by
  cases active : (s.tasks i).active with
  | false => rfl
  | true =>
    obtain ⟨action,conforms,enabled⟩ := faithful.enabled active
    exact absurd (settled _ conforms) enabled

/-- No test is left in the queue: with nothing on the workers, the first one is free. -/
theorem settled_queue : s.queue = [] := by
  cases queued : s.queue with
  | nil => rfl
  | cons i rest =>
    have free : workerFree plan s 0 = true := by
      simp only [workerFree,Bool.and_eq_true,decide_eq_true_eq,List.all_eq_true]
      refine ⟨Int.lt_of_lt_of_le Int.one_pos (Int.le_max_left 1 _),fun j _ => ?_⟩
      simp [settled_inactive faithful settled j]
    simpa [Runner.step,queued,free] using settled (.take 0) trivial

theorem settled_over (queued : s.tasks i = .waiting → i ∈ s.queue) : (s.tasks i).over = true := by
  have inactive := settled_inactive faithful settled i
  have empty := settled_queue faithful settled
  cases here : s.tasks i <;> rw [here] at inactive <;> first | rfl | contradiction | skip
  simp [empty] at queued
  exact absurd here queued

include control

/-- A runner that can do nothing more has returned, or an exception came out of it. -/
theorem settled_ended : (∃ run, s.main = .returned run) ∨ ∃ escape, s.main = .threw escape := by
  have stage := control.stage
  have inactive := settled_inactive faithful settled
  cases here : s.main <;> rw [here] at stage
  case created =>
    have stuck := settled (.start behaviour.runStarted) rfl
    cases threw : behaviour.runStarted <;> simp [Runner.step,mainStep,here,threw] at stuck
  case inline j =>
    obtain ⟨single,inside,empty,before,behind⟩ := stage
    have stuck := settled .advance trivial
    cases task : s.tasks j <;> have none := inactive j <;> rw [task] at none <;> try contradiction
    · simpa [Runner.step,here,task] using settled .call trivial
    · simp [Runner.step,mainStep,here,task] at stuck
    · simp [Runner.step,mainStep,here,task] at stuck
  case submitting j => simpa [Runner.step,here] using settled .submit trivial
  case draining j =>
    obtain ⟨pooled,inside,before,queued⟩ := stage
    have stuck := settled .await trivial
    have past := settled_over faithful settled (queued j inside)
    cases task : s.tasks j <;> rw [task] at past <;> try contradiction
    · simp [Runner.step,mainStep,here,task] at stuck
    case threw escape => cases escape <;> simp [Runner.step,mainStep,here,task] at stuck
  case unwinding escape =>
    have past : ∀ i < plan.size, (s.tasks i).over = true := fun i inside =>
      settled_over faithful settled (stage.2 i inside)
    have stuck := settled .unwind trivial
    simp only [Runner.step,mainStep,here] at stuck
    rw [if_pos (by simpa using past)] at stuck
    contradiction
  case collecting => simpa [Runner.step,mainStep,here] using settled (.collect 0 0) trivial
  case closing run =>
    have stuck := settled (.close behaviour.runFinished) rfl
    cases threw : behaviour.runFinished <;> simp [Runner.step,mainStep,here,threw] at stuck
  case returned run => exact .inl ⟨run,rfl⟩
  case threw escape => exact .inr ⟨escape,rfl⟩

end Settled

theorem conforming_run (calm : plan.options.failFast = false) (labels : List Action)
    (along : Transition.Along (step plan) (Conforms behaviour) labels initial)
    (path : Transition.run (step plan) labels initial = some s) :
    Sound plan s ∧ Faithful plan behaviour s :=
  Transition.run_invariant_along (step plan) (Conforms behaviour)
    (fun s => Sound plan s ∧ Faithful plan behaviour s)
    (fun _ _ _ held conforms taken =>
      ⟨held.1.step taken,held.2.step calm held.1.control conforms taken⟩)
    labels initial s along path ⟨.initial plan,.initial plan behaviour⟩

section Returned

variable (sound : Sound plan s) (faithful : Faithful plan behaviour s) (run : TestRun)
  (returned : s.main = .returned run)
include faithful returned

theorem returned_passed (inside : i < plan.size) : Passed plan s.tasks i := by
  have main := faithful.main
  rw [returned] at main
  exact main.1.2 i inside

include sound

theorem returned_accounts :
    (run.results.map Account.of).Perm ((s.results.map (·.1)).map (account plan behaviour)) := by
  have perm := (sound.closed run (.inr returned)).map Account.of
  rw [List.map_map] at perm ⊢
  refine perm.trans (List.Perm.of_eq (List.map_congr_left fun entry member => ?_))
  have names := sound.records.named entry member
  simp only [Function.comp_apply,Account.of,account,names.suite,names.name,names.id,
    (faithful.status entry member).2]

theorem returned_complete (delivered : ∀ i < plan.size, Delivered plan behaviour i) :
    Complete plan behaviour run := by
  have recorded (j : Nat) (inside : j < plan.size) : j ∈ s.results.map (·.1) := by
    have track := faithful.track j
    have found : Recorded s j := by
      rcases returned_passed faithful run returned inside with done | ⟨_,threw⟩
      · rw [done] at track
        exact track.2.1
      · rw [threw] at track
        exact (track.resolve_left fun missing => missing (delivered j inside)).1
    obtain ⟨result,member⟩ := found
    exact List.mem_map.mpr ⟨_,member,rfl⟩
  have indices : (s.results.map (·.1)).Perm (List.range plan.size) := by
    refine (List.perm_ext_iff_of_nodup sound.records.distinct List.nodup_range).mpr fun j => ?_
    rw [List.mem_range]
    refine ⟨fun member => ?_,recorded j⟩
    obtain ⟨entry,also,rfl⟩ := List.mem_map.mp member
    refine sound.control.selected _ fun waits => ?_
    have done := sound.records.handled entry also
    simp [waits,Phase.handled,Phase.over] at done
  have results := (returned_accounts sound faithful run returned).trans (indices.map _)
  refine ⟨results,fun clean j inside => ?_⟩
  have member : account plan behaviour j ∈ run.results.map Account.of :=
    results.mem_iff.mpr (List.mem_map_of_mem (List.mem_range.mpr inside))
  obtain ⟨result,found,same⟩ := List.mem_map.mp member
  have passing := (run.exitCode_eq_zero clean).1 result found
  have status : result.status = outcome plan behaviour j := congrArg Account.status same
  rwa [status] at passing

theorem Complete.delivered (complete : Complete plan behaviour run) (inside : i < plan.size) :
    Recorded s i ∧ Delivered plan behaviour i := by
  have member : account plan behaviour i ∈ run.results.map Account.of :=
    complete.results.mem_iff.mpr (List.mem_map_of_mem (List.mem_range.mpr inside))
  have recorded := (returned_accounts sound faithful run returned).mem_iff.mp member
  obtain ⟨j,listed,same⟩ := List.mem_map.mp recorded
  obtain ⟨entry,found,rfl⟩ := List.mem_map.mp listed
  have selected : entry.1 < plan.size := sound.control.selected _ fun waits => by
    have done := sound.records.handled entry found
    simp [waits,Phase.handled,Phase.over] at done
  have suites := congrArg Account.suite same
  have names := congrArg Account.name same
  have index : entry.1 = i := test_inj plan _ _ selected inside (by
    simp only [account] at suites names
    simp only [TestMetadata.qualifiedName,suites,names])
  exact ⟨⟨entry.2,index ▸ found⟩,index ▸ (faithful.status entry found).1⟩

end Returned

theorem Answered.fine (calm : plan.options.failFast = false) (answered : Answered plan behaviour) :
    Fine plan behaviour := by
  obtain ⟨labels,s,along,path,settled⟩ := Transition.exists_settled (step plan) (Conforms behaviour)
    (Sound plan) (weight plan) (fun _ _ _ sound _ taken => sound.step taken)
    (fun action s _ sound conforms taken =>
      step_lowers sound (Conforms.unprompted behaviour s action conforms) taken)
    initial (.initial plan)
  obtain ⟨sound,faithful⟩ := conforming_run calm labels along path
  obtain ⟨run,returned⟩ := answered.returns labels s along path settled
  have complete := answered.complete run ⟨labels,s,along,path,returned⟩
  have main := faithful.main
  rw [returned] at main
  refine ⟨main.1.1,main.2,fun i inside => (complete.delivered sound faithful run returned inside).2,
    fun i inside => ?_⟩
  have track := faithful.track i
  obtain ⟨_,delivered⟩ := complete.delivered sound faithful run returned inside
  rcases main.1.2 i inside with done | ⟨pooled,threw⟩
  · rw [done] at track
    exact .inl track.2.2
  · rw [threw] at track
    exact .inr ⟨pooled,(track.resolve_left fun missing => missing delivered).2⟩

theorem Fine.answered (calm : plan.options.failFast = false) (fine : Fine plan behaviour) :
    Answered plan behaviour where
  ends := ⟨weight plan initial,fun labels s along path => run_bounded (.initial plan) labels
    (along.mono (Conforms.unprompted behaviour) labels initial) path⟩
  returns := by
    intro labels s along path settled
    obtain ⟨sound,faithful⟩ := conforming_run calm labels along path
    refine (settled_ended sound.control faithful settled).resolve_right fun ⟨escape,threw⟩ => ?_
    have main := faithful.main
    rw [threw] at main
    exact main fine
  complete := by
    rintro run ⟨labels,s,along,path,returned⟩
    obtain ⟨sound,faithful⟩ := conforming_run calm labels along path
    exact returned_complete sound faithful run returned fine.delivered

/-- Complete records of a plan tell the same, whatever their numbers of workers. -/
theorem Complete.agrees {run other : TestRun} {workers : Int} (one : Complete plan behaviour run)
    (two : Complete (plan.withWorkers workers) behaviour other) :
    (other.results.map fun result => (result.testId,result.status)).Perm
      (run.results.map fun result => (result.testId,result.status)) := by
  have same : (other.results.map Account.of).Perm (run.results.map Account.of) := by
    refine two.results.trans (List.Perm.trans (List.Perm.of_eq ?_) one.results.symm)
    exact List.map_congr_left fun j _ => account_withWorkers plan behaviour j workers
  simpa [Function.comp_def,Account.of] using same.map fun account => (account.id,account.status)

/-- Without fail-fast, the runner accounts for every selected test, and with any number of
workers for the same, exactly when no exception comes out of the factories and observers
it calls. -/
theorem accounted_iff_untroubled (plan : Plan) (behaviour : Behaviour)
    (calm : plan.options.failFast = false) : Accounted plan behaviour ↔ Untroubled plan behaviour := by
  constructor
  · intro accounted
    exact (accounted.answered.fine calm).untroubled ((accounted.others 1).fine calm)
  · intro untroubled
    have answered : Answered plan behaviour := untroubled.fine.answered calm
    have others (workers : Int) : Answered (plan.withWorkers workers) behaviour :=
      (untroubled.withWorkers workers).fine.answered calm
    refine ⟨answered,others,fun run workers other returns returns' => ?_⟩
    exact (answered.complete run returns).agrees ((others workers).complete other returns')

/-- Every body passes, but the factories may throw. -/
def passing (create : Creation) : Behaviour where
  create := fun _ _ => create
  body := fun _ _ => { outcome := .returned }

theorem accounted_twoTests : Accounted twoTests (passing .made) := by
  refine (accounted_iff_untroubled twoTests (passing .made) rfl).mpr ⟨rfl,rfl,fun i inside => ?_,
    fun i inside => rfl⟩
  exact ⟨rfl,fun enabled k above below escape threw => by simp [passing] at threw⟩

/-- The factories of both tests throw on their workers. -/
def lostRun : List Action :=
  [.start none,.submit,.submit,.take 0,.take 1,.task 0 .begin,.task 0 (.observerStarted none),
    .task 0 (.enter {}),.task 0 (.create (.threw .stdException) {}),.task 1 .begin,
    .task 1 (.observerStarted none),.task 1 (.enter {}),.task 1 (.create (.threw .stdException) {}),
    .await,.await,.collect 0 0,.close none]

theorem lostRun_conforms (s : State) (action : Action) (member : action ∈ lostRun) :
    Conforms (passing (.threw .stdException)) s action := by
  simp only [lostRun,List.mem_cons,List.not_mem_nil,or_false] at member
  rcases member with rfl | rfl | rfl | rfl | rfl | rfl | rfl | rfl | rfl | rfl | rfl | rfl | rfl | rfl |
    rfl | rfl | rfl <;> simp [Conforms,passing]

/-- The run loses both tests and exits with 0. -/
theorem throwingFactories_lost : ¬Accounted twoTests (passing (.threw .stdException)) ∧
    ∃ run, Returns twoTests (passing (.threw .stdException)) run ∧ run.results = [] ∧
      run.exitCode = 0 := by
  have ends : ((Transition.run (step twoTests) lostRun initial).bind returnedRun).map
      (fun run => (run.results.isEmpty,run.exitCode)) = some (true,0) := by
    decide +kernel
  obtain ⟨run,found,facts⟩ := Option.map_eq_some_iff.mp ends
  obtain ⟨final,path,found⟩ := Option.bind_eq_some_iff.mp found
  simp only [Prod.mk.injEq,List.isEmpty_iff] at facts
  have returns : Returns twoTests (passing (.threw .stdException)) run :=
    ⟨lostRun,final,Transition.along_of_forall _ _ _ _ lostRun_conforms,path,returnedRun_some found⟩
  refine ⟨fun accounted => ?_,run,returns,facts⟩
  have length := (accounted.answered.complete run returns).results.length_eq
  rw [facts.1] at length
  simp [twoTests,Plan.size] at length

end TestForge.Runner
