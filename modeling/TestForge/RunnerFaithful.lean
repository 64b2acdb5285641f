import TestForge.RunnerBehaviour
import TestForge.RunnerRecords

/-! What every state of a run under a behaviour has in common with the behaviour. -/
namespace TestForge.Runner

open Json Strings

variable {plan : Plan} {behaviour : Behaviour} {s next : State} {i : Nat} {action : TaskAction}
  {source phase : Phase} {effect : Effect}

section Attempts

variable (plan behaviour i)

/-- Attempt `k` is under way: the ones before came to a result that is retried. -/
structure Attempting (k : Nat) : Prop where
  notified : behaviour.testStarted i = none
  first : 1 ≤ k
  inside : k ≤ plan.maxAttempts
  before : ∀ m, 1 ≤ m → m < k → retried plan m (answer plan behaviour i m) = true
  created : (plan.test i).enabled = true → ∀ m, 1 ≤ m → m < k →
    ∀ escape, behaviour.create i m ≠ .threw escape

structure Made (k : Nat) : Prop where
  attempting : Attempting plan behaviour i k
  enabled : (plan.test i).enabled = true
  made : behaviour.create i k = .made

structure Concluded (k : Nat) (result : TestResult) : Prop where
  attempting : Attempting plan behaviour i k
  created : (plan.test i).enabled = true → ∀ escape, behaviour.create i k ≠ .threw escape
  alike : Alike result (answer plan behaviour i k)

end Attempts

theorem Attempting.first_attempt (notified : behaviour.testStarted i = none) :
    Attempting plan behaviour i 1 :=
  ⟨notified,Nat.le_refl 1,Nat.le_add_right 1 _,fun m above below => by omega,
    fun _ m above below => by omega⟩

theorem Made.concluded {k : Nat} (made : Made plan behaviour i k) {result : TestResult}
    (alike : Alike result (answer plan behaviour i k)) : Concluded plan behaviour i k result :=
  ⟨made.attempting,fun _ escape threw => by simp [made.made] at threw,alike⟩

theorem Concluded.retry {k : Nat} {result : TestResult} (concluded : Concluded plan behaviour i k result)
    (again : retried plan k result = true) : Attempting plan behaviour i (k + 1) := by
  have attempting := concluded.attempting
  have more : k < plan.maxAttempts := by
    simp only [retried,Bool.and_eq_true,decide_eq_true_eq] at again
    exact again.1.2
  refine ⟨attempting.notified,by omega,more,fun m above below => ?_,fun enabled m above below => ?_⟩
  · rcases Nat.eq_or_lt_of_le (Nat.le_of_lt_succ below) with rfl | earlier
    · rwa [← concluded.alike.retried]
    · exact attempting.before m above earlier
  · rcases Nat.eq_or_lt_of_le (Nat.le_of_lt_succ below) with rfl | earlier
    · exact concluded.created enabled
    · exact attempting.created enabled m above earlier

/-- An attempt that is not retried is the one the loop stops at. -/
theorem Concluded.delivered {k : Nat} {result : TestResult}
    (concluded : Concluded plan behaviour i k result) (last : retried plan k result = false) :
    Delivered plan behaviour i ∧ result.status = outcome plan behaviour i := by
  have attempting := concluded.attempting
  have stops : attempts plan behaviour i = k :=
    lastAttempt_eq plan behaviour i _ 1 k attempting.first (by omega) attempting.before
      (by rwa [← concluded.alike.retried])
  refine ⟨⟨attempting.notified,fun enabled m above below => ?_⟩,?_⟩
  · rw [stops] at below
    rcases Nat.eq_or_lt_of_le below with rfl | earlier
    · exact concluded.created enabled
    · exact attempting.created enabled m above earlier
  · rw [outcome,stops]
    exact concluded.alike.status

theorem Attempting.undelivered {k : Nat} (attempting : Attempting plan behaviour i k)
    (enabled : (plan.test i).enabled = true) {escape : Escape}
    (threw : behaviour.create i k = .threw escape) : ¬Delivered plan behaviour i := fun delivered => by
  have inside := attempting.inside
  have reached : k ≤ attempts plan behaviour i :=
    le_lastAttempt_of_retried plan behaviour i _ 1 k attempting.first (by omega) attempting.before
  exact delivered.created enabled k attempting.first reached escape threw

/-- The deadline has passed only for a body that has one and does not end in time. -/
def Watch.Follows (bounded : Bool) (timing : Timing) : Watch → Prop
  | .inline => bounded = false
  | .polling => bounded = true
  | .grace => bounded = true ∧ timing ≠ .inTime

/-- Where a test can be under the behaviour; `recorded` says that it has a result. -/
def Phase.OnTrack (plan : Plan) (behaviour : Behaviour) (i : Nat) (recorded : Prop) : Phase → Prop
  | .waiting | .taken | .notifying => True
  | .entering k => Attempting plan behaviour i k
  | .creating k => Attempting plan behaviour i k ∧ (plan.test i).enabled = true
  | .registering k | .checking k | .starting k => Made plan behaviour i k
  | .running k watch =>
    Made plan behaviour i k ∧ watch.Follows (plan.bounded i) (behaviour.timing i k)
  | .ended k record watch =>
    Made plan behaviour i k ∧ watch.Follows (plan.bounded i) (behaviour.timing i k) ∧
      record = behaviour.body i k ∧ watch.EndsAs (behaviour.timing i k)
  | .leaving k result | .returned k result => Concluded plan behaviour i k result
  | .handling result => Delivered plan behaviour i ∧ result.status = outcome plan behaviour i
  | .recorded _ => Delivered plan behaviour i ∧ recorded
  | .tripping _ | .signalling _ => False
  | .finished => Delivered plan behaviour i ∧ recorded ∧ behaviour.testFinished i = none
  | .threw escape =>
    ¬Delivered plan behaviour i ∨ recorded ∧ behaviour.testFinished i = some escape

theorem Phase.OnTrack.mono {recorded later : Prop} (kept : recorded → later)
    (track : phase.OnTrack plan behaviour i recorded) : phase.OnTrack plan behaviour i later := by
  cases phase with
  | recorded result => exact ⟨track.1,kept track.2⟩
  | finished => exact ⟨track.1,kept track.2.1,track.2.2⟩
  | threw escape => exact track.imp_right fun held => ⟨kept held.1,held.2⟩
  | _ => exact track

def Recorded (s : State) (i : Nat) : Prop := ∃ result, (i,result) ∈ s.results

/-- What keeps the run from cancelling anything but an overdue body. -/
structure Undisturbed (plan : Plan) (behaviour : Behaviour) (s : State) : Prop where
  running : s.runCancellation = none
  going : s.stopScheduling = false
  requests : s.requests = []
  free : s.sweep = none
  overdue : ∀ i k, s.sources ⟨i,k⟩ ≠ none →
    plan.bounded i = true ∧ behaviour.timing i k ≠ .inTime

theorem Undisturbed.of_same (undisturbed : Undisturbed plan behaviour s)
    (running : next.runCancellation = s.runCancellation) (going : next.stopScheduling = s.stopScheduling)
    (requests : next.requests = s.requests) (free : next.sweep = s.sweep)
    (sources : next.sources = s.sources) : Undisturbed plan behaviour next :=
  ⟨running ▸ undisturbed.running,going ▸ undisturbed.going,requests ▸ undisturbed.requests,
    free ▸ undisturbed.free,sources ▸ undisturbed.overdue⟩

/-- The verdict on a body that has ended is the one the behaviour determines. -/
theorem alike_attemptVerdict (undisturbed : Undisturbed plan behaviour s) {k : Nat} {watch : Watch}
    (made : Made plan behaviour i k)
    (follows : watch.Follows (plan.bounded i) (behaviour.timing i k))
    (ends : watch.EndsAs (behaviour.timing i k)) (stamp : Stamp) :
    Alike (attemptVerdict plan s i k (behaviour.body i k) watch stamp) (answer plan behaviour i k) := by
  have uncancelled : ((s.sources ⟨i,k⟩).isSome && !(watch == .grace)) = false := by
    cases known : s.sources ⟨i,k⟩ with
    | none => rfl
    | some reason =>
      obtain ⟨bounded,late⟩ := undisturbed.overdue i k (by simp [known])
      cases watch with
      | inline => simp [Watch.Follows,bounded] at follows
      | polling => exact absurd ends late
      | grace => rfl
  have timed : (watch == .grace) = (plan.bounded i && behaviour.timing i k == .inGrace) ∧
      ¬(plan.bounded i = true ∧ behaviour.timing i k = .never) := by
    cases watch <;> simp_all [Watch.Follows,Watch.EndsAs]
  simp only [attemptVerdict,answer,made.enabled,made.made,uncancelled,if_true,if_neg timed.2]
  rw [timed.1]
  exact ((alike_base plan s i k stamp).verdict _ _ _ _ _).finish stamp

theorem TaskMove.onTrack (calm : plan.options.failFast = false)
    (undisturbed : Undisturbed plan behaviour s) (here : s.tasks i = source)
    (move : TaskMove plan s i source action phase effect)
    (conforms : Conforms behaviour s (.task i action))
    (track : source.OnTrack plan behaviour i (Recorded s i)) :
    phase.OnTrack plan behaviour i (Recorded (s.apply i effect) i) := by
  cases move with
  | skip stopped => simp [undisturbed.going] at stopped
  | begin going => trivial
  | notified => exact Attempting.first_attempt conforms.symm
  | notifyThrew escape =>
    exact .inl fun delivered => by simp [Conforms,delivered.notified] at conforms
  | enter k stamp enabled => exact ⟨track,enabled⟩
  | disabled k stamp off =>
    refine ⟨track,fun enabled => by simp [off] at enabled,?_⟩
    simp only [answer,off]
    exact ((alike_base plan s i k stamp).disabled _).finish stamp
  | made k stamp => exact ⟨track.1,track.2,(conforms k here).symm⟩
  | nothing k stamp =>
    have nothing := (conforms k here).symm
    refine ⟨track.1,fun _ escape threw => by simp [nothing] at threw,?_⟩
    simp only [answer,track.2,nothing]
    exact (alike_base plan s i k stamp).nothing.finish stamp
  | createThrew k escape stamp => exact .inl (track.1.undelivered track.2 (conforms k here).symm)
  | register k free => exact track
  | refused k stamp reason cancelled => simp [undisturbed.running] at cancelled
  | passed k stamp running => exact track
  | startBody k =>
    refine ⟨track,?_⟩
    split
    next bounded => exact bounded
    next unbounded => exact Bool.eq_false_iff.mpr unbounded
  | bodyEnds k watch record =>
    obtain ⟨equal,ends⟩ := conforms k watch here
    exact ⟨track.1,track.2,equal,ends⟩
  | forward k reason cancelled fresh => simp [undisturbed.running] at cancelled
  | deadline k => exact ⟨track.1,track.2,conforms k (by rw [here]; rfl)⟩
  | abandon k stamp =>
    have never := conforms k (by rw [here]; rfl)
    refine track.1.concluded ?_
    simp only [answer,track.1.enabled,track.1.made,track.2.1,never]
    exact ((alike_base plan s i k stamp).abandoned _ _).finish stamp
  | lateForward k record reason cancelled fresh => simp [undisturbed.running] at cancelled
  | lateDeadline k record => exact absurd track.2.2.2 (conforms k (by rw [here]; rfl))
  | lateAbandon k record stamp =>
    have never := conforms k (by rw [here]; rfl)
    have ends := track.2.2.2
    simp [Watch.EndsAs,never] at ends
  | verdict k record watch stamp =>
    obtain ⟨made,follows,rfl,ends⟩ := track
    exact made.concluded (alike_attemptVerdict undisturbed made follows ends stamp)
  | leave k result free => exact track
  | retry k result again => exact track.retry again
  | settle k result last =>
    obtain ⟨delivered,status⟩ := track.delivered last
    exact ⟨delivered,by rw [flagged_status,status]⟩
  | record result diagnostics =>
    exact ⟨track.1,_,List.mem_append_right _ (List.mem_singleton.mpr rfl)⟩
  | handled result calm => exact ⟨track.1,track.2,conforms.symm⟩
  | trips result tripping => simp [calm] at tripping
  | handlerThrew result escape => exact .inr ⟨track.2,conforms.symm⟩
  | trip result => exact track.elim
  | signal result => exact track.elim

/-- Only the deadline of a body that is overdue cancels a source. -/
theorem TaskMove.undisturbed (undisturbed : Undisturbed plan behaviour s) (here : s.tasks i = source)
    (move : TaskMove plan s i source action phase effect)
    (conforms : Conforms behaviour s (.task i action))
    (track : source.OnTrack plan behaviour i (Recorded s i)) :
    Undisturbed plan behaviour (s.apply i effect) := by
  have overdue (k : Nat) (reason : Bytes) (bounded : plan.bounded i = true)
      (late : behaviour.timing i k ≠ .inTime) :
      Undisturbed plan behaviour (s.cancelSource ⟨i,k⟩ reason) := by
    refine ⟨undisturbed.running,undisturbed.going,undisturbed.requests,undisturbed.free,
      fun j m cancelled => ?_⟩
    by_cases same : (⟨j,m⟩ : Attempt) = ⟨i,k⟩
    · cases same
      exact ⟨bounded,late⟩
    · exact undisturbed.overdue j m (by simpa [State.cancelSource,same] using cancelled)
  cases move with
  | forward k reason cancelled fresh => simp [undisturbed.running] at cancelled
  | lateForward k record reason cancelled fresh => simp [undisturbed.running] at cancelled
  | deadline k => exact overdue k _ track.2 (conforms k (by rw [here]; rfl))
  | lateDeadline k record => exact overdue k _ track.2.1 (conforms k (by rw [here]; rfl))
  | trip result => exact track.elim
  | signal result => exact track.elim
  | _ => exact undisturbed.of_same rfl rfl rfl rfl rfl

/-- The task whose future lets the calling thread go on. -/
def Passed (plan : Plan) (tasks : Nat → Phase) (i : Nat) : Prop :=
  tasks i = .finished ∨ plan.sequential = false ∧ tasks i = .threw .stdException

/-- What the calling thread knows of the behaviour by now. -/
def Main.OnTrack (plan : Plan) (behaviour : Behaviour) (tasks : Nat → Phase) : Main → Prop
  | .created => True
  | .inline _ | .submitting _ => behaviour.runStarted = none
  | .draining j => behaviour.runStarted = none ∧ ∀ i < j, Passed plan tasks i
  | .collecting | .closing _ => behaviour.runStarted = none ∧ ∀ i < plan.size, Passed plan tasks i
  | .returned _ =>
    (behaviour.runStarted = none ∧ ∀ i < plan.size, Passed plan tasks i) ∧ behaviour.runFinished = none
  | .unwinding _ | .threw _ => ¬Fine plan behaviour

structure Faithful (plan : Plan) (behaviour : Behaviour) (s : State) : Prop where
  undisturbed : Undisturbed plan behaviour s
  track : ∀ i, (s.tasks i).OnTrack plan behaviour i (Recorded s i)
  status : ∀ entry ∈ s.results,
    Delivered plan behaviour entry.1 ∧ entry.2.status = outcome plan behaviour entry.1
  main : s.main.OnTrack plan behaviour s.tasks

theorem Faithful.initial (plan : Plan) (behaviour : Behaviour) : Faithful plan behaviour initial where
  undisturbed := ⟨rfl,rfl,rfl,rfl,fun _ _ cancelled => absurd rfl cancelled⟩
  track := fun _ => trivial
  status := by simp [Runner.initial]
  main := trivial

/-- A step of a test that is not over leaves alone what the calling thread knows. -/
theorem Main.OnTrack.moved {tasks : Nat → Phase} {main : Main} (heard : main.OnTrack plan behaviour tasks)
    (unfinished : (tasks i).over = false) :
    main.OnTrack plan behaviour (Function.update tasks i phase) := by
  have kept (j : Nat) (passed : Passed plan tasks j) :
      Passed plan (Function.update tasks i phase) j := by
    have different : j ≠ i := by
      rintro rfl
      rcases passed with done | ⟨_,threw⟩
      · simp [done,Phase.over] at unfinished
      · simp [threw,Phase.over] at unfinished
    rwa [Passed,Function.update_of_ne different]
  cases main with
  | draining j => exact ⟨heard.1,fun k below => kept k (heard.2 k below)⟩
  | collecting => exact ⟨heard.1,fun k below => kept k (heard.2 k below)⟩
  | closing run => exact ⟨heard.1,fun k below => kept k (heard.2 k below)⟩
  | returned run => exact ⟨⟨heard.1.1,fun k below => kept k (heard.1.2 k below)⟩,heard.2⟩
  | _ => exact heard

/-- A test that let an exception out of its task breaks the run unless the pool
swallows the exception. -/
theorem not_fine_of_threw (inside : i < plan.size) {escape : Escape}
    (track : (Phase.threw escape).OnTrack plan behaviour i (Recorded s i))
    (loud : plan.sequential = true ∨ escape = .other) : ¬Fine plan behaviour := fun fine => by
  rcases track with undelivered | ⟨_,threw⟩
  · exact undelivered (fine.delivered i inside)
  · rcases fine.handled i inside with quiet | ⟨pooled,swallowed⟩
    · simp [quiet] at threw
    · rw [threw] at swallowed
      cases swallowed
      rcases loud with single | other
      · simp [single] at pooled
      · contradiction

theorem Faithful.mainMove (control : Control plan s) (faithful : Faithful plan behaviour s)
    {action : Action} {main : Main} (conforms : Conforms behaviour s action)
    (move : MainMove plan s action main) : main.OnTrack plan behaviour s.tasks := by
  have heard := faithful.main
  have stage := control.stage
  have started (j : Nat) (begun : behaviour.runStarted = none)
      (before : ∀ i < j, s.tasks i = .finished) : (inlineFrom plan j).OnTrack plan behaviour s.tasks := by
    unfold inlineFrom
    split
    · exact begun
    · exact ⟨begun,fun k below => .inl (before k (by omega))⟩
  cases move with
  | startThrew escape here => exact fun fine => by simp [Conforms,fine.started] at conforms
  | startInline here single => exact started 0 conforms.symm (by simp)
  | startPool here pooled => exact conforms.symm
  | advance j here done =>
    rw [here] at heard stage
    obtain ⟨_,_,_,before,_⟩ := stage
    refine started (j + 1) heard fun k below => ?_
    by_cases last : k = j
    · exact last ▸ done
    · exact before k (by omega)
  | advanceThrew j escape here threw =>
    rw [here] at stage
    have track := faithful.track j
    rw [threw] at track
    exact not_fine_of_threw stage.2.1 track (.inl stage.1)
  | await j here done =>
    rw [here] at heard stage
    have passed : ∀ i < j + 1, Passed plan s.tasks i := by
      intro k below
      by_cases last : k = j
      · exact last ▸ done.imp_right fun threw => ⟨stage.1,threw⟩
      · exact heard.2 k (by omega)
    unfold drainFrom
    split
    · exact ⟨heard.1,passed⟩
    · exact ⟨heard.1,fun k below => passed k (by omega)⟩
  | awaitThrew j here threw =>
    rw [here] at stage
    have track := faithful.track j
    rw [threw] at track
    exact not_fine_of_threw stage.2.1 track (.inr rfl)
  | unwind escape here past => rwa [here] at heard
  | collect finishedAt duration here => rwa [here] at heard
  | close run here => rw [here] at heard; exact ⟨heard,conforms.symm⟩
  | closeThrew run escape here => exact fun fine => by simp [Conforms,fine.finished] at conforms

/-- Taking a waiting test onto a worker. -/
theorem Faithful.taken (faithful : Faithful plan behaviour s) (waits : s.tasks i = .waiting)
    (same : Undisturbed plan behaviour next) (results : next.results = s.results)
    (tasks : next.tasks = Function.update s.tasks i .taken) (main : next.main = s.main) :
    Faithful plan behaviour next := by
  refine ⟨same,fun j => ?_,results ▸ faithful.status,?_⟩
  · rw [tasks,Recorded,results]
    by_cases mine : j = i
    · subst mine
      rw [Function.update_self]
      trivial
    · rw [Function.update_of_ne mine]
      exact faithful.track j
  · rw [tasks,main]
    exact faithful.main.moved (by rw [waits]; rfl)

theorem Faithful.task (calm : plan.options.failFast = false) (faithful : Faithful plan behaviour s)
    (move : TaskMove plan s i (s.tasks i) action phase effect)
    (conforms : Conforms behaviour s (.task i action)) :
    Faithful plan behaviour ((s.apply i effect).setPhase i phase) := by
  have same := move.undisturbed faithful.undisturbed rfl conforms (faithful.track i)
  have track := move.onTrack calm faithful.undisturbed rfl conforms (faithful.track i)
  have active := move.source_active
  refine ⟨same.of_same rfl rfl rfl rfl rfl,fun j => ?_,?_,?_⟩
  · rw [State.setPhase_tasks,State.apply_tasks]
    by_cases mine : j = i
    · subst mine
      rw [Function.update_self]
      exact track
    · rw [Function.update_of_ne mine]
      refine (faithful.track j).mono fun ⟨result,member⟩ => ⟨result,?_⟩
      rcases move.recording with ⟨fresh,diagnostics,_,_,results⟩ | results
      · exact results ▸ List.mem_append_left _ member
      · exact results ▸ member
  · show ∀ entry ∈ (s.apply i effect).results, _
    rcases move.recording with ⟨result,diagnostics,from_,_,results⟩ | results
    · rw [results]
      intro entry member
      rcases List.mem_append.mp member with earlier | last
      · exact faithful.status entry earlier
      · obtain rfl := List.mem_singleton.mp last
        have handling := faithful.track i
        rw [from_] at handling
        exact ⟨handling.1,(diagnosed_status diagnostics result).trans handling.2⟩
    · rw [results]
      exact faithful.status
  · have heard : s.main.OnTrack plan behaviour (Function.update s.tasks i phase) :=
      faithful.main.moved (by
        cases past : (s.tasks i).over with
        | false => rfl
        | true => simp [Phase.not_active_of_over _ past] at active)
    simpa [State.setPhase] using heard

theorem Faithful.step (calm : plan.options.failFast = false) (control : Control plan s)
    (faithful : Faithful plan behaviour s) {action : Action} (conforms : Conforms behaviour s action)
    (taken : Runner.step plan action s = some next) : Faithful plan behaviour next := by
  have undisturbed := faithful.undisturbed
  cases step_move taken with
  | main action main move =>
    exact ⟨undisturbed.of_same rfl rfl rfl rfl rfl,faithful.track,faithful.status,
      faithful.mainMove control conforms move⟩
  | submit j here =>
    have heard := faithful.main
    rw [here] at heard
    refine ⟨undisturbed.of_same rfl rfl rfl rfl rfl,faithful.track,faithful.status,?_⟩
    show Main.OnTrack plan behaviour s.tasks (if _ then _ else _)
    split
    · exact heard
    · exact ⟨heard,by simp⟩
  | take worker i rest queued free =>
    exact faithful.taken (control.queued i (by simp [queued])).2
      (undisturbed.of_same rfl rfl rfl rfl rfl) rfl rfl rfl
  | call j here waits =>
    exact faithful.taken waits (undisturbed.of_same rfl rfl rfl rfl rfl) rfl rfl rfl
  | task i action phase effect move => exact faithful.task calm move conforms
  | orphanEnds attempt astray =>
    exact ⟨undisturbed.of_same rfl rfl rfl rfl rfl,faithful.track,faithful.status,faithful.main⟩
  | request reason => exact absurd conforms id
  | lock call reason free pending => simp [undisturbed.requests] at pending
  | signalNext reason attempt rest sweeping => simp [undisturbed.free] at sweeping
  | unlock reason sweeping => simp [undisturbed.free] at sweeping

end TestForge.Runner
