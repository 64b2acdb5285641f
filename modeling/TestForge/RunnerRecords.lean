import TestForge.RunnerControl

/-! Which attempts are registered, which bodies went astray, and what is recorded:
invariants of every reachable state. -/
namespace TestForge.Runner

open Json Strings

variable {plan : Plan} {s next : State} {i : Nat} {action : TaskAction} {source phase : Phase}
  {effect : Effect}

/-- The attempt whose source is in `activeTests`. -/
def Phase.registered : Phase → Option Nat
  | .checking k => some k
  | .starting k => some k
  | .running k _ => some k
  | .ended k _ _ => some k
  | .leaving k _ => some k
  | _ => none

/-- The body of attempt `k` has not been started yet. -/
def Phase.before (k : Nat) : Phase → Prop
  | .waiting | .taken | .notifying => True
  | .entering m | .creating m | .registering m | .checking m | .starting m => m ≤ k
  | .running m _ | .ended m _ _ | .leaving m _ | .returned m _ => m < k
  | _ => False

/-- The result under way. -/
def Phase.result? : Phase → Option TestResult
  | .leaving _ result => some result
  | .returned _ result => some result
  | .handling result => some result
  | .recorded result => some result
  | .tripping result => some result
  | .signalling result => some result
  | _ => none

/-- Behind the point where a result is recorded. -/
def Phase.handled : Phase → Bool
  | .recorded _ => true
  | .tripping _ => true
  | .signalling _ => true
  | phase => phase.over

/-- A step registers its attempt, unregisters it, or leaves the list alone. -/
theorem TaskMove.registration (move : TaskMove plan s i source action phase effect) :
    (∃ k, effect = .register ⟨i,k⟩ ∧ source.registered = none ∧ phase.registered = some k) ∨
    (∃ k, effect = .unregister ⟨i,k⟩ ∧ source.registered = some k ∧ phase.registered = none) ∨
    (phase.registered = source.registered ∧ (s.apply i effect).activeTests = s.activeTests) := by
  cases move with
  | register k free => exact .inl ⟨k,rfl,rfl,rfl⟩
  | leave k result free => exact .inr (.inl ⟨k,rfl,rfl,rfl⟩)
  | _ => exact .inr (.inr ⟨rfl,rfl⟩)

structure Registered (s : State) : Prop where
  distinct : s.activeTests.Nodup
  member : ∀ attempt, attempt ∈ s.activeTests ↔
    (s.tasks attempt.test).registered = some attempt.number

theorem Registered.of_same {tasks : Nat → Phase} (registered : Registered s)
    (list : next.activeTests = s.activeTests) (moved : next.tasks = tasks)
    (same : ∀ j, (tasks j).registered = (s.tasks j).registered) : Registered next := by
  refine ⟨list ▸ registered.distinct,fun attempt => ?_⟩
  rw [list,moved,same]
  exact registered.member attempt

theorem update_registered (tasks : Nat → Phase) (same : phase.registered = (tasks i).registered)
    (j : Nat) : (Function.update tasks i phase j).registered = (tasks j).registered := by
  by_cases equal : j = i
  · subst equal
    rw [Function.update_self,same]
  · rw [Function.update_of_ne equal]

theorem Registered.step (control : Control plan s) (registered : Registered s) {action : Action}
    (taken : step plan action s = some next) : Registered next := by
  cases step_move taken with
  | take worker i rest queued free =>
    have waits := (control.queued i (by simp [queued])).2
    exact registered.of_same rfl rfl (update_registered _ (by rw [waits]; rfl))
  | call j here waiting => exact registered.of_same rfl rfl (update_registered _ (by rw [waiting]; rfl))
  | task i action phase effect move =>
    rcases move.registration with ⟨k,rfl,absent,present⟩ | ⟨k,rfl,present,absent⟩ | ⟨same,list⟩
    · have fresh : (⟨i,k⟩ : Attempt) ∉ s.activeTests := by simp [registered.member,absent]
      refine ⟨List.nodup_append.mpr ⟨registered.distinct,by simp,?_⟩,fun attempt => ?_⟩
      · intro other member last equal
        obtain rfl := List.mem_singleton.mp equal
        exact fun same => fresh (same ▸ member)
      · show attempt ∈ s.activeTests ++ [⟨i,k⟩] ↔ (Function.update s.tasks i phase attempt.test).registered = _
        rw [List.mem_append,registered.member,List.mem_singleton]
        by_cases mine : attempt.test = i
        · rw [mine,Function.update_self,absent,present]
          constructor
          · rintro (contra | rfl)
            · contradiction
            · rfl
          · intro equal
            right
            cases attempt
            simp_all
        · rw [Function.update_of_ne mine]
          refine ⟨fun either => either.resolve_right fun equal => mine (by rw [equal]),.inl⟩
    · refine ⟨registered.distinct.filter _,fun attempt => ?_⟩
      show attempt ∈ s.activeTests.filter (· ≠ ⟨i,k⟩) ↔
        (Function.update s.tasks i phase attempt.test).registered = _
      rw [List.mem_filter,registered.member]
      by_cases mine : attempt.test = i
      · rw [mine,Function.update_self,absent,present]
        constructor
        · rintro ⟨equal,other⟩
          cases attempt
          simp_all
        · intro contra
          contradiction
      · rw [Function.update_of_ne mine]
        refine ⟨And.left,fun held => ⟨held,?_⟩⟩
        simp only [ne_eq,decide_not,Bool.not_eq_eq_eq_not,Bool.not_true,decide_eq_false_iff_not]
        exact fun equal => mine (by rw [equal])
    · exact registered.of_same list rfl (by
        intro j
        rw [State.setPhase_tasks,State.apply_tasks]
        exact update_registered _ same j)
  | main action main move => exact registered.of_same rfl rfl fun _ => rfl
  | submit j here => exact registered.of_same rfl rfl fun _ => rfl
  | orphanEnds attempt astray => exact registered.of_same rfl rfl fun _ => rfl
  | request reason => exact registered.of_same rfl rfl fun _ => rfl
  | lock call reason free pending => exact registered.of_same rfl rfl fun _ => rfl
  | signalNext reason attempt rest sweeping => exact registered.of_same rfl rfl fun _ => rfl
  | unlock reason sweeping => exact registered.of_same rfl rfl fun _ => rfl

/-- No step goes back to before a body's start. -/
theorem TaskMove.before_of_before (move : TaskMove plan s i source action phase effect) (k : Nat)
    (before : phase.before k) : source.before k := by
  cases move <;> simp only [Phase.before] at before ⊢ <;> omega

/-- Only a running body goes astray, and its attempt is over for the worker. -/
theorem TaskMove.orphans (move : TaskMove plan s i source action phase effect) (attempt : Attempt)
    (astray : attempt ∈ (s.apply i effect).orphans) :
    attempt ∈ s.orphans ∨ attempt.test = i ∧ source = .running attempt.number .grace ∧
      ¬phase.before attempt.number := by
  cases move with
  | abandon k stamp =>
    rcases List.mem_cons.mp astray with rfl | earlier
    · exact .inr ⟨rfl,rfl,by simp [Phase.before]⟩
    · exact .inl earlier
  | _ => exact .inl astray

def Astray (s : State) : Prop := ∀ attempt ∈ s.orphans, ¬(s.tasks attempt.test).before attempt.number

theorem Astray.step (control : Control plan s) (astray : Astray s) {action : Action}
    (taken : step plan action s = some next) : Astray next := by
  have unstarted (i : Nat) (attempt : Attempt) (member : attempt ∈ s.orphans)
      (waits : s.tasks i = .waiting) : attempt.test ≠ i := fun equal =>
    astray attempt member (by rw [equal,waits]; trivial)
  cases step_move taken with
  | take worker i rest queued free =>
    intro attempt member
    have different := unstarted i attempt member (control.queued i (by simp [queued])).2
    show ¬(Function.update s.tasks i .taken attempt.test).before _
    rw [Function.update_of_ne different]
    exact astray attempt member
  | call j here waiting =>
    intro attempt member
    rw [State.setPhase_tasks,Function.update_of_ne (unstarted j attempt member waiting)]
    exact astray attempt member
  | task i action phase effect move =>
    intro attempt member
    rw [State.setPhase_tasks,State.apply_tasks]
    rcases move.orphans attempt member with earlier | ⟨rfl,_,gone⟩
    · by_cases mine : attempt.test = i
      · subst mine
        rw [Function.update_self]
        exact fun before => astray attempt earlier (move.before_of_before _ before)
      · rw [Function.update_of_ne mine]
        exact astray attempt earlier
    · rwa [Function.update_self]
  | orphanEnds attempt member => exact fun other left => astray other (List.mem_of_mem_erase left)
  | main action main move => exact astray
  | submit j here => exact astray
  | request reason => exact astray
  | lock call reason free pending => exact astray
  | signalNext reason attempt rest sweeping => exact astray
  | unlock reason sweeping => exact astray

theorem names_base (plan : Plan) (s : State) (i k : Nat) (stamp : Stamp) :
    Names (plan.test i) (base plan s i k stamp) := names_attemptResult _ _ _ _ _

theorem names_flagged {metadata : TestMetadata} {result : TestResult} (names : Names metadata result)
    (k : Nat) : Names metadata (flagged k result) := by
  unfold Runner.flagged
  split
  · exact ⟨names.suite,names.name,names.id⟩
  · exact names

theorem names_diagnosed {metadata : TestMetadata} {result : TestResult} (names : Names metadata result)
    (diagnostics : Json.Value) : Names metadata (diagnosed plan diagnostics result) := by
  unfold Runner.diagnosed
  split
  · exact ⟨names.suite,names.name,names.id⟩
  · exact names

@[simp] theorem flagged_status (k : Nat) (result : TestResult) :
    (flagged k result).status = result.status := by
  unfold flagged
  split <;> rfl

@[simp] theorem diagnosed_status (diagnostics : Json.Value) (result : TestResult) :
    (diagnosed plan diagnostics result).status = result.status := by
  unfold diagnosed
  split <;> rfl

/-- Every result a step puts under way is about its test. -/
theorem TaskMove.names (move : TaskMove plan s i source action phase effect)
    (carried : ∀ result ∈ source.result?, Names (plan.test i) result) :
    ∀ result ∈ phase.result?, Names (plan.test i) result := by
  have mine := names_base plan s i
  have same (moved carried : TestResult) (equal : moved ∈ some carried) : moved = carried :=
    (Option.some.inj equal).symm
  intro result member
  cases move <;> simp only [Phase.result?] at member carried <;>
    first
    | contradiction
    | exact carried result member
    | obtain rfl := same _ _ member
  case disabled k stamp off => exact ((mine k stamp).disabled _).finish _
  case nothing k stamp => exact (mine k stamp).nothing.finish _
  case refused k stamp reason cancelled => exact ((mine k stamp).notRun _).finish _
  case abandon k stamp => exact ((mine k stamp).abandoned _ _).finish _
  case lateAbandon k record stamp => exact ((mine k stamp).abandoned _ _).finish _
  case verdict k record watch stamp => exact ((mine k stamp).verdict _ _ _ _ _ _).finish _
  case settle k result last => exact names_flagged (carried result rfl) k
  case record result diagnostics => exact names_diagnosed (carried result rfl) diagnostics

/-- A step records the one result of its test, or records nothing. -/
theorem TaskMove.recording (move : TaskMove plan s i source action phase effect) :
    (∃ result diagnostics, source = .handling result ∧
      phase = .recorded (diagnosed plan diagnostics result) ∧
      (s.apply i effect).results = s.results ++ [(i,diagnosed plan diagnostics result)]) ∨
    (s.apply i effect).results = s.results := by
  cases move with
  | record result diagnostics => exact .inl ⟨result,diagnostics,rfl,rfl,rfl⟩
  | _ => exact .inr rfl

theorem TaskMove.stays_handled (move : TaskMove plan s i source action phase effect)
    (done : source.handled = true) : phase.handled = true := by
  cases move <;> first | rfl | contradiction

structure Records (plan : Plan) (s : State) : Prop where
  distinct : (s.results.map (·.1)).Nodup
  handled : ∀ entry ∈ s.results, (s.tasks entry.1).handled = true
  named : ∀ entry ∈ s.results, Names (plan.test entry.1) entry.2
  carried : ∀ i, ∀ result ∈ (s.tasks i).result?, Names (plan.test i) result

theorem Records.of_same (records : Records plan s) (results : next.results = s.results)
    (tasks : next.tasks = s.tasks) : Records plan next :=
  ⟨results ▸ records.distinct,results ▸ tasks ▸ records.handled,results ▸ records.named,
    tasks ▸ records.carried⟩

/-- Taking a waiting test onto a worker touches no record. -/
theorem Records.taken (records : Records plan s) (results : next.results = s.results)
    (tasks : next.tasks = Function.update s.tasks i .taken) (waits : s.tasks i = .waiting) :
    Records plan next := by
  refine ⟨results ▸ records.distinct,fun entry member => ?_,results ▸ records.named,fun j => ?_⟩
  · rw [results] at member
    have done := records.handled entry member
    have different : entry.1 ≠ i := fun equal => by simp [equal,waits,Phase.handled,Phase.over] at done
    rw [tasks,Function.update_of_ne different]
    exact done
  · rw [tasks]
    by_cases equal : j = i
    · subst equal
      rw [Function.update_self]
      exact fun result member => by contradiction
    · rw [Function.update_of_ne equal]
      exact records.carried j

theorem Records.task (records : Records plan s) (move : TaskMove plan s i (s.tasks i) action phase effect) :
    Records plan ((s.apply i effect).setPhase i phase) := by
  have carried : ∀ j, ∀ result ∈ (Function.update s.tasks i phase j).result?, Names (plan.test j) result := by
    intro j
    by_cases equal : j = i
    · subst equal
      rw [Function.update_self]
      exact move.names (records.carried j)
    · rw [Function.update_of_ne equal]
      exact records.carried j
  have kept : ∀ entry ∈ s.results, (Function.update s.tasks i phase entry.1).handled = true := by
    intro entry member
    have done := records.handled entry member
    by_cases equal : entry.1 = i
    · subst equal
      rw [Function.update_self]
      exact move.stays_handled done
    · rw [Function.update_of_ne equal]
      exact done
  rcases move.recording with ⟨result,diagnostics,from_,rfl,results⟩ | results
  · have fresh : i ∉ s.results.map (·.1) := by
      intro member
      obtain ⟨entry,earlier,rfl⟩ := List.mem_map.mp member
      have done := records.handled entry earlier
      simp [from_,Phase.handled,Phase.over] at done
    have names : Names (plan.test i) (diagnosed plan diagnostics result) :=
      names_diagnosed (records.carried i result (by rw [from_]; rfl)) diagnostics
    have listed : ((s.apply i effect).setPhase i (.recorded (diagnosed plan diagnostics result))).results =
      s.results ++ [(i,diagnosed plan diagnostics result)] := results
    refine ⟨?_,?_,?_,by simpa using carried⟩
    · rw [listed,List.map_append,List.nodup_append]
      refine ⟨records.distinct,by simp,fun a member b last equal => ?_⟩
      simp only [List.map_cons,List.map_nil,List.mem_singleton] at last
      exact fresh (last ▸ equal ▸ member)
    · intro entry member
      rw [listed] at member
      rw [State.setPhase_tasks,State.apply_tasks]
      rcases List.mem_append.mp member with earlier | last
      · exact kept entry earlier
      · obtain rfl := List.mem_singleton.mp last
        simp [Phase.handled]
    · intro entry member
      rw [listed] at member
      rcases List.mem_append.mp member with earlier | last
      · exact records.named entry earlier
      · obtain rfl := List.mem_singleton.mp last
        exact names
  · have results : ((s.apply i effect).setPhase i phase).results = s.results := results
    exact ⟨results ▸ records.distinct,by simpa [results] using kept,results ▸ records.named,
      by simpa using carried⟩

theorem Records.step (control : Control plan s) (records : Records plan s) {action : Action}
    (taken : step plan action s = some next) : Records plan next := by
  cases step_move taken with
  | take worker i rest queued free =>
    exact records.taken rfl rfl (control.queued i (by simp [queued])).2
  | call j here waiting => exact records.taken rfl rfl waiting
  | task i action phase effect move => exact records.task move
  | main action main move => exact records.of_same rfl rfl
  | submit j here => exact records.of_same rfl rfl
  | orphanEnds attempt member => exact records.of_same rfl rfl
  | request reason => exact records.of_same rfl rfl
  | lock call reason free pending => exact records.of_same rfl rfl
  | signalNext reason attempt rest sweeping => exact records.of_same rfl rfl
  | unlock reason sweeping => exact records.of_same rfl rfl

/-- A run record is there after a step because it was before, or because `collect` just built it. -/
theorem ending_of_step {s next : State} {action : Action} (taken : step plan action s = some next) (run : TestRun)
    (ending : next.main = .closing run ∨ next.main = .returned run) :
    (∃ finishedAt duration, collected plan s finishedAt duration = run ∧ next.results = s.results) ∨
      s.main = .closing run ∨ s.main = .returned run := by
  cases step_move taken with
  | main action main move =>
    change main = _ ∨ main = _ at ending
    cases move with
    | collect finishedAt duration here =>
      obtain rfl : collected plan s finishedAt duration = run := by simpa using ending
      exact .inl ⟨finishedAt,duration,rfl,rfl⟩
    | close other here =>
      obtain rfl : other = run := by simpa using ending
      exact .inr (.inl here)
    | startInline here single => unfold inlineFrom at ending; split at ending <;> simp at ending
    | advance j here done => unfold inlineFrom at ending; split at ending <;> simp at ending
    | await j here done => unfold drainFrom at ending; split at ending <;> simp at ending
    | _ => simp at ending
  | submit j here =>
    change (if _ then _ else _) = _ ∨ (if _ then _ else _) = _ at ending
    split at ending <;> simp at ending
  | task i action phase effect move => exact .inr (by simpa [State.setPhase] using ending)
  | _ => exact .inr ending

/-- The results of a run record are those that were recorded. -/
def Closed (s : State) : Prop :=
  ∀ run, s.main = .closing run ∨ s.main = .returned run →
    run.results.Perm (s.results.map (·.2))

theorem Closed.step (control : Control plan s) (closed : Closed s) {action : Action}
    (taken : step plan action s = some next) : Closed next := by
  intro run ending
  rcases ending_of_step taken run ending with ⟨finishedAt,duration,rfl,results⟩ | earlier
  · rw [results]
    exact List.mergeSort_perm _ _
  · have results : next.results = s.results := by
      cases step_move taken with
      | task i action phase effect move =>
        have stage := control.stage
        have active := move.source_active
        have inside : i < plan.size := control.selected i fun waits => by simp [waits,Phase.active] at active
        have past : (s.tasks i).over = true := by
          rcases earlier with here | here <;> rw [here] at stage <;> exact stage.2 i inside
        simp [Phase.not_active_of_over _ past] at active
      | _ => rfl
    rw [results]
    exact closed run earlier

/-- What holds of control, registration and records in every reachable state. -/
structure Sound (plan : Plan) (s : State) : Prop where
  control : Control plan s
  registered : Registered s
  astray : Astray s
  records : Records plan s
  closed : Closed s

theorem Sound.step (sound : Sound plan s) {action : Action} (taken : step plan action s = some next) :
    Sound plan next where
  control := sound.control.step taken
  registered := sound.registered.step sound.control taken
  astray := sound.astray.step sound.control taken
  records := sound.records.step sound.control taken
  closed := sound.closed.step sound.control taken

theorem Sound.initial (plan : Plan) : Sound plan initial where
  control := .initial plan
  registered := ⟨by simp [Runner.initial],by simp [Runner.initial,Phase.registered]⟩
  astray := by simp [Astray,Runner.initial]
  records := ⟨by simp [Runner.initial],by simp [Runner.initial],by simp [Runner.initial],
    by simp [Runner.initial,Phase.result?]⟩
  closed := by simp [Closed,Runner.initial]

theorem Sound.run (sound : Sound plan s) (labels : List Action)
    (path : Transition.run (Runner.step plan) labels s = some next) : Sound plan next :=
  Transition.run_invariant (Runner.step plan) (Sound plan) (fun _ _ _ sound taken => sound.step taken)
    labels s next path sound

end TestForge.Runner
