import TestForge.RunnerMoves
import Mathlib.Data.List.Nodup

/-! Where the calling thread stands, and what that says about every test and the queue. -/
namespace TestForge.Runner

namespace State

@[simp] theorem setPhase_tasks (s : State) (i : Nat) (phase : Phase) :
    (s.setPhase i phase).tasks = Function.update s.tasks i phase := rfl

@[simp] theorem apply_main (s : State) (i : Nat) (effect : Effect) :
    (s.apply i effect).main = s.main := by cases effect <;> rfl

@[simp] theorem apply_tasks (s : State) (i : Nat) (effect : Effect) :
    (s.apply i effect).tasks = s.tasks := by cases effect <;> rfl

@[simp] theorem apply_queue (s : State) (i : Nat) (effect : Effect) :
    (s.apply i effect).queue = s.queue := by cases effect <;> rfl

@[simp] theorem apply_sweep (s : State) (i : Nat) (effect : Effect) :
    (s.apply i effect).sweep = s.sweep := by cases effect <;> rfl

@[simp] theorem apply_requests (s : State) (i : Nat) (effect : Effect) :
    (s.apply i effect).requests = s.requests := by cases effect <;> rfl

@[simp] theorem apply_completed (s : State) (i : Nat) (effect : Effect) :
    (s.apply i effect).completed = s.completed := by cases effect <;> rfl

end State

variable {plan : Plan} {s next : State} {i : Nat} {action : TaskAction} {source phase : Phase}
  {effect : Effect}

theorem TaskMove.source_active (move : TaskMove plan s i source action phase effect) :
    source.active = true := by
  cases move <;> rfl

theorem TaskMove.target_ne_waiting (move : TaskMove plan s i source action phase effect) :
    phase ≠ .waiting := by
  cases move <;> simp

theorem Phase.not_active_of_over (phase : Phase) (past : phase.over = true) :
    phase.active = false := by
  cases phase <;> simp_all [Phase.over,Phase.active]

/-- What the position of the calling thread says about tests and queue. -/
def Stage (plan : Plan) (tasks : Nat → Phase) (queue : List Nat) : Main → Prop
  | .created => queue = [] ∧ ∀ i, tasks i = .waiting
  | .inline j => plan.sequential = true ∧ j < plan.size ∧ queue = [] ∧
      (∀ i < j, tasks i = .finished) ∧ ∀ i, j < i → tasks i = .waiting
  | .submitting j => plan.sequential = false ∧ j < plan.size ∧ (∀ i ∈ queue, i < j) ∧
      (∀ i, j ≤ i → tasks i = .waiting) ∧ ∀ i < j, tasks i = .waiting → i ∈ queue
  | .draining j => plan.sequential = false ∧ j < plan.size ∧
      (∀ i < j, (tasks i).over = true) ∧ ∀ i < plan.size, tasks i = .waiting → i ∈ queue
  | .unwinding _ => plan.sequential = false ∧ ∀ i < plan.size, tasks i = .waiting → i ∈ queue
  | .collecting | .closing _ | .returned _ => queue = [] ∧ ∀ i < plan.size, (tasks i).over = true
  | .threw _ => queue = [] ∧ ∀ i, tasks i = .waiting ∨ (tasks i).over = true

structure Control (plan : Plan) (s : State) : Prop where
  queued : ∀ i ∈ s.queue, i < plan.size ∧ s.tasks i = .waiting
  distinct : s.queue.Nodup
  selected : ∀ i, s.tasks i ≠ .waiting → i < plan.size
  stage : Stage plan s.tasks s.queue s.main

theorem Control.initial (plan : Plan) : Control plan initial where
  queued := by simp [Runner.initial]
  distinct := by simp [Runner.initial]
  selected := by simp [Runner.initial]
  stage := ⟨rfl,fun _ => rfl⟩

/-- A test that moves on a worker was not waiting and is not waiting afterwards, and
it was not over: no stage looks at anything else. -/
theorem Stage.moved {tasks : Nat → Phase} {queue : List Nat} {main : Main}
    (stage : Stage plan tasks queue main) (active : (tasks i).active = true)
    (moving : phase ≠ .waiting) : Stage plan (Function.update tasks i phase) queue main := by
  have unfinished : (tasks i).over ≠ true := fun past => by
    simp [Phase.not_active_of_over _ past] at active
  have started : tasks i ≠ .waiting := fun waiting => by simp [waiting,Phase.active] at active
  have kept (j : Nat) (waiting : tasks j = .waiting) : Function.update tasks i phase j = .waiting := by
    have different : j ≠ i := fun equal => started (equal ▸ waiting)
    rw [Function.update_of_ne different,waiting]
  have back (j : Nat) (waiting : Function.update tasks i phase j = .waiting) : tasks j = .waiting := by
    by_cases equal : j = i
    · subst equal
      rw [Function.update_self] at waiting
      exact absurd waiting moving
    · rwa [Function.update_of_ne equal] at waiting
  have past (j : Nat) (past : (tasks j).over = true) :
      (Function.update tasks i phase j).over = true := by
    have different : j ≠ i := fun equal => unfinished (equal ▸ past)
    rwa [Function.update_of_ne different]
  cases main with
  | created => exact absurd (stage.2 i) started
  | inline j =>
    obtain ⟨single,inside,empty,before,behind⟩ := stage
    refine ⟨single,inside,empty,fun k below => ?_,fun k above => kept k (behind k above)⟩
    rw [Function.update_of_ne fun equal => unfinished (by rw [← equal,before k below]; rfl)]
    exact before k below
  | submitting j =>
    obtain ⟨pooled,inside,below,behind,before⟩ := stage
    exact ⟨pooled,inside,below,fun k above => kept k (behind k above),
      fun k below waiting => before k below (back k waiting)⟩
  | draining j =>
    obtain ⟨pooled,inside,before,queued⟩ := stage
    exact ⟨pooled,inside,fun k below => past k (before k below),
      fun k below waiting => queued k below (back k waiting)⟩
  | unwinding escape =>
    exact ⟨stage.1,fun k below waiting => stage.2 k below (back k waiting)⟩
  | collecting => exact ⟨stage.1,fun k below => past k (stage.2 k below)⟩
  | closing run => exact ⟨stage.1,fun k below => past k (stage.2 k below)⟩
  | returned run => exact ⟨stage.1,fun k below => past k (stage.2 k below)⟩
  | threw escape =>
    exact ⟨stage.1,fun k => (stage.2 k).imp (kept k) (past k)⟩

theorem stage_inlineFrom {tasks : Nat → Phase} {queue : List Nat} (j : Nat)
    (single : plan.sequential = true) (empty : queue = []) (before : ∀ i < j, tasks i = .finished)
    (behind : ∀ i, j ≤ i → tasks i = .waiting) : Stage plan tasks queue (inlineFrom plan j) := by
  unfold inlineFrom
  split
  next inside => exact ⟨single,inside,empty,before,fun i above => behind i (by omega)⟩
  next outside =>
    exact ⟨empty,fun i below => by rw [before i (by omega)]; rfl⟩

theorem stage_drainFrom {tasks : Nat → Phase} {queue : List Nat} (j : Nat)
    (pooled : plan.sequential = false) (before : ∀ i < j, (tasks i).over = true)
    (waiting : ∀ i < plan.size, tasks i = .waiting → i ∈ queue)
    (queued : ∀ i ∈ queue, i < plan.size ∧ tasks i = .waiting) :
    Stage plan tasks queue (drainFrom plan j) := by
  unfold drainFrom
  split
  next inside => exact ⟨pooled,inside,before,waiting⟩
  next outside =>
    have past : ∀ i < plan.size, (tasks i).over = true := fun i below => before i (by omega)
    refine ⟨List.eq_nil_iff_forall_not_mem.mpr fun i member => ?_,past⟩
    obtain ⟨below,waits⟩ := queued i member
    have done := past i below
    simp [waits,Phase.over] at done

theorem Control.mainMove (control : Control plan s) {action : Action} {main : Main}
    (move : MainMove plan s action main) : Control plan { s with main } := by
  refine ⟨control.queued,control.distinct,control.selected,?_⟩
  have stage := control.stage
  show Stage plan s.tasks s.queue main
  cases move with
  | startThrew escape here =>
    rw [here] at stage
    exact ⟨stage.1,fun k => .inl (stage.2 k)⟩
  | startInline here single =>
    rw [here] at stage
    exact stage_inlineFrom 0 single stage.1 (by simp) fun k _ => stage.2 k
  | startPool here pooled =>
    rw [here] at stage
    have several : ¬plan.size ≤ 1 := fun few => by simp [Plan.sequential,few] at pooled
    exact ⟨pooled,by omega,by simp [stage.1],fun k _ => stage.2 k,by simp⟩
  | advance j here done =>
    rw [here] at stage
    obtain ⟨single,inside,empty,before,behind⟩ := stage
    refine stage_inlineFrom (j + 1) single empty (fun k below => ?_) fun k above => behind k (by omega)
    by_cases last : k = j
    · exact last ▸ done
    · exact before k (by omega)
  | advanceThrew j escape here threw =>
    rw [here] at stage
    obtain ⟨single,inside,empty,before,behind⟩ := stage
    refine ⟨empty,fun k => ?_⟩
    rcases Nat.lt_trichotomy k j with below | equal | above
    · exact .inr (by rw [before k below]; rfl)
    · exact .inr (by rw [equal,threw]; rfl)
    · exact .inl (behind k above)
  | await j here done =>
    rw [here] at stage
    obtain ⟨pooled,inside,before,queued⟩ := stage
    refine stage_drainFrom (j + 1) pooled (fun k below => ?_) queued control.queued
    by_cases last : k = j
    · subst last
      rcases done with done | done <;> rw [done] <;> rfl
    · exact before k (by omega)
  | awaitThrew j here threw =>
    rw [here] at stage
    exact ⟨stage.1,stage.2.2.2⟩
  | unwind escape here past =>
    refine ⟨List.eq_nil_iff_forall_not_mem.mpr fun k member => ?_,fun k => ?_⟩
    · obtain ⟨below,waits⟩ := control.queued k member
      have done := past k below
      simp [waits,Phase.over] at done
    · by_cases waits : s.tasks k = .waiting
      · exact .inl waits
      · exact .inr (past k (control.selected k waits))
  | collect finishedAt duration here => rw [here] at stage; exact stage
  | close run here => rw [here] at stage; exact stage
  | closeThrew run escape here =>
    rw [here] at stage
    refine ⟨stage.1,fun k => ?_⟩
    by_cases waits : s.tasks k = .waiting
    · exact .inl waits
    · exact .inr (stage.2 k (control.selected k waits))

/-- Another test is put into the queue. -/
theorem Control.submit (control : Control plan s) (j : Nat) (here : s.main = .submitting j) :
    Control plan { s with
      queue := s.queue ++ [j], main := if j + 1 < plan.size then .submitting (j + 1) else .draining 0 } := by
  have stage := control.stage
  rw [here] at stage
  obtain ⟨pooled,inside,below,behind,before⟩ := stage
  have queued : ∀ k ∈ s.queue ++ [j], k < plan.size ∧ s.tasks k = .waiting := by
    intro k member
    rcases List.mem_append.mp member with earlier | last
    · exact control.queued k earlier
    · obtain rfl := List.mem_singleton.mp last
      exact ⟨inside,behind k (Nat.le_refl k)⟩
  have covered : ∀ k < j + 1, s.tasks k = .waiting → k ∈ s.queue ++ [j] := by
    intro k under waits
    by_cases last : k = j
    · simp [last]
    · exact List.mem_append_left _ (before k (by omega) waits)
  refine ⟨queued,?_,control.selected,?_⟩
  · rw [List.nodup_append]
    exact ⟨control.distinct,by simp,fun a member b last => by
      have := below a member
      simp only [List.mem_singleton] at last
      omega⟩
  · show Stage plan s.tasks (s.queue ++ [j]) _
    split
    next more =>
      refine ⟨pooled,more,fun k member => ?_,fun k above => behind k (by omega),covered⟩
      rcases List.mem_append.mp member with earlier | last
      · have := below k earlier
        omega
      · simp only [List.mem_singleton] at last
        omega
    next last => exact ⟨pooled,by omega,by simp,fun k under => covered k (by omega)⟩

/-- The first test of the queue is taken out of it. -/
theorem Stage.taken {tasks : Nat → Phase} {rest : List Nat} {main : Main} (stage : Stage plan tasks (i :: rest) main)
    (waiting : tasks i = .waiting) : Stage plan (Function.update tasks i .taken) rest main := by
  have away (k : Nat) (different : k ≠ i) : Function.update tasks i .taken k = tasks k :=
    Function.update_of_ne different _ _
  have out (k : Nat) (waits : Function.update tasks i .taken k = .waiting) : k ≠ i ∧ tasks k = .waiting := by
    have different : k ≠ i := fun equal => by subst equal; simp at waits
    exact ⟨different,(away k different).symm.trans waits⟩
  have left (k : Nat) (member : k ∈ i :: rest) (different : k ≠ i) : k ∈ rest := by
    simpa [different] using member
  cases main with
  | submitting j =>
    obtain ⟨pooled,bound,below,behind,before⟩ := stage
    refine ⟨pooled,bound,fun k member => below k (by simp [member]),fun k above => ?_,
      fun k under waits => left k (before k under (out k waits).2) (out k waits).1⟩
    have under := below i (by simp)
    rw [away k (by omega)]
    exact behind k above
  | draining j =>
    obtain ⟨pooled,bound,before,covered⟩ := stage
    refine ⟨pooled,bound,fun k under => ?_,
      fun k under waits => left k (covered k under (out k waits).2) (out k waits).1⟩
    have different : k ≠ i := fun equal => by
      have past := before k under
      simp [equal,waiting,Phase.over] at past
    rw [away k different]
    exact before k under
  | unwinding escape =>
    exact ⟨stage.1,fun k under waits => left k (stage.2 k under (out k waits).2) (out k waits).1⟩
  | created | inline | collecting | closing | returned | threw => simp [Stage] at stage

theorem Control.take (control : Control plan s) (worker i : Nat) (rest : List Nat) (queued : s.queue = i :: rest) :
    Control plan { s.setPhase i .taken with queue := rest, workerOf := Function.update s.workerOf i worker } := by
  have inside := control.queued i (by simp [queued])
  have distinct := control.distinct
  rw [queued,List.nodup_cons] at distinct
  refine ⟨fun k member => ?_,distinct.2,fun k started => ?_,?_⟩
  · have different : k ≠ i := fun equal => distinct.1 (equal ▸ member)
    have earlier := control.queued k (by simp [queued,member])
    exact ⟨earlier.1,(Function.update_of_ne different _ _).trans earlier.2⟩
  · by_cases equal : k = i
    · exact equal ▸ inside.1
    · exact control.selected k fun waits => started ((Function.update_of_ne equal _ _).trans waits)
  · exact Stage.taken (queued ▸ control.stage) inside.2

/-- The sequential loop goes into its next test. -/
theorem Control.call (control : Control plan s) (j : Nat) (here : s.main = .inline j) :
    Control plan (s.setPhase j .taken) := by
  have stage := control.stage
  rw [here] at stage
  obtain ⟨single,inside,empty,before,behind⟩ := stage
  refine ⟨fun k member => ?_,control.distinct,fun k started => ?_,?_⟩
  · simp only [State.setPhase,empty,List.not_mem_nil] at member
  · by_cases equal : k = j
    · exact equal ▸ inside
    · exact control.selected k fun waits => started (by simp [equal,waits])
  · show Stage plan (Function.update s.tasks j .taken) s.queue s.main
    rw [here]
    refine ⟨single,inside,empty,fun k below => ?_,fun k above => ?_⟩
    · rw [Function.update_of_ne (by omega)]; exact before k below
    · rw [Function.update_of_ne (by omega)]; exact behind k above

theorem Control.task (control : Control plan s) (i : Nat) {action : TaskAction} (phase : Phase) (effect : Effect)
    (move : TaskMove plan s i (s.tasks i) action phase effect) : Control plan ((s.apply i effect).setPhase i phase) := by
  have active := move.source_active
  have moving := move.target_ne_waiting
  have started : s.tasks i ≠ .waiting := fun waiting => by simp [waiting,Phase.active] at active
  refine ⟨fun k member => ?_,?_,fun k moved => ?_,?_⟩
  · have queued := control.queued k (by simpa [State.setPhase] using member)
    refine ⟨queued.1,?_⟩
    have different : k ≠ i := fun equal => started (equal ▸ queued.2)
    simp [different,queued.2]
  · simpa [State.setPhase] using control.distinct
  · by_cases equal : k = i
    · exact equal ▸ control.selected i started
    · exact control.selected k (by simpa [equal] using moved)
  · have stage := control.stage.moved active moving
    simpa [State.setPhase] using stage

theorem Control.step (control : Control plan s) {action : Action}
    (taken : step plan action s = some next) : Control plan next := by
  cases step_move taken with
  | main action main move => exact control.mainMove move
  | submit j here => exact control.submit j here
  | take worker i rest queued free => exact control.take worker i rest queued
  | call j here waiting => exact control.call j here
  | task i action phase effect move => exact control.task i phase effect move
  | orphanEnds | request | lock | signalNext | unlock =>
    exact ⟨control.queued,control.distinct,control.selected,control.stage⟩

end TestForge.Runner
