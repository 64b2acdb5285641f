import TestForge.RunnerCancellation
import Mathlib.Algebra.Order.BigOperators.Group.Finset

/-! Between two requests from outside the runner takes only boundedly many steps. -/
namespace TestForge.Runner

variable {plan : Plan} {s next : State} {i : Nat} {action : TaskAction} {source phase : Phase}
  {effect : Effect}

/-- What is left of the attempts behind attempt `k`. -/
def laterAttempts (plan : Plan) (k : Nat) : Nat := 12 * (plan.maxAttempts - k)

/-- An attempt that still may be told of a cancellation has one step more. -/
def untold (source : Option Bytes) : Nat := if source.isNone then 1 else 0

/-- A bound for the steps a test still takes. -/
def Phase.rank (plan : Plan) (sources : Nat → Option Bytes) : Phase → Nat
  | .waiting => 12 * plan.maxAttempts + 7
  | .taken => 12 * plan.maxAttempts + 6
  | .notifying => 12 * plan.maxAttempts + 5
  | .entering k => laterAttempts plan k + 16
  | .creating k => laterAttempts plan k + 15
  | .registering k => laterAttempts plan k + 14
  | .checking k => laterAttempts plan k + 13
  | .starting k => laterAttempts plan k + 12
  | .running k .polling => laterAttempts plan k + 10 + untold (sources k)
  | .running k .inline => laterAttempts plan k + 10
  | .running k .grace => laterAttempts plan k + 9
  | .ended k _ .polling => laterAttempts plan k + 8 + untold (sources k)
  | .ended k _ .inline => laterAttempts plan k + 8
  | .ended k _ .grace => laterAttempts plan k + 7
  | .leaving k _ => laterAttempts plan k + 6
  | .returned k _ => laterAttempts plan k + 5
  | .handling _ => 4
  | .recorded _ => 3
  | .tripping _ => 2
  | .signalling _ => 1
  | .finished => 0
  | .threw _ => 0

def Main.rank (plan : Plan) : Main → Nat
  | .created => 2 * plan.size + 5
  | .inline j => plan.size - j + 3
  | .submitting j => plan.size - j + plan.size + 4
  | .draining j => plan.size - j + 3
  | .unwinding _ => 1
  | .collecting => 2
  | .closing _ => 1
  | .returned _ => 0
  | .threw _ => 0

def taskRank (plan : Plan) (s : State) (i : Nat) : Nat :=
  (s.tasks i).rank plan fun k => s.sources ⟨i,k⟩

def sweepRank : Option Sweep → Nat
  | some sweep => sweep.remaining.length + 1
  | none => 0

/-- A request is worth a sweep over every test and its own step. -/
def weight (plan : Plan) (s : State) : Nat :=
  ∑ i ∈ Finset.range plan.size, taskRank plan s i + s.main.rank plan +
    (plan.size + 2) * s.requests.length + sweepRank s.sweep + s.orphans.length

theorem untold_le (source : Option Bytes) : untold source ≤ 1 := by
  unfold untold
  split <;> omega

/-- Only its own steps and the sweep change what a test can still do. -/
theorem apply_sources_other (s : State) (i j k : Nat) (different : j ≠ i)
    (move : TaskMove plan s i source action phase effect) :
    (s.apply i effect).sources ⟨j,k⟩ = s.sources ⟨j,k⟩ := by
  cases move <;> first | rfl | exact Function.update_of_ne (by simp [different]) _ _

theorem TaskMove.lowers (move : TaskMove plan s i source action phase effect) :
    (phase.rank plan fun k => (s.apply i effect).sources ⟨i,k⟩) + (s.apply i effect).orphans.length <
      (source.rank plan fun k => s.sources ⟨i,k⟩) + s.orphans.length := by
  have several : 1 ≤ plan.maxAttempts := Nat.le_add_right 1 _
  cases move with
  | forward k reason cancelled fresh =>
    simp [Phase.rank,State.apply,State.cancelSource,untold,fresh,cancel]
  | lateForward k record reason cancelled fresh =>
    simp [Phase.rank,State.apply,State.cancelSource,untold,fresh,cancel]
  | startBody k =>
    have bound := untold_le (s.sources ⟨i,k⟩)
    split <;> simp only [Phase.rank,State.apply] <;> omega
  | bodyEnds k watch record => cases watch <;> simp only [Phase.rank,State.apply] <;> omega
  | verdict k record watch stamp => cases watch <;> simp only [Phase.rank,State.apply] <;> omega
  | retry k result again =>
    have more : k < plan.maxAttempts := by
      simp only [retried,Bool.and_eq_true,decide_eq_true_eq] at again
      exact again.1.2
    simp only [Phase.rank,State.apply,laterAttempts]
    omega
  | abandon k stamp => simp only [Phase.rank,State.apply,List.length_cons]; omega
  | notified => simp only [Phase.rank,State.apply,laterAttempts]; omega
  | _ =>
    simp only [Phase.rank,State.apply,State.cancelSource]
    omega

theorem rank_mono (phase : Phase) (first second : Nat → Option Bytes)
    (told : ∀ k, first k ≠ none → second k ≠ none) :
    phase.rank plan second ≤ phase.rank plan first := by
  have less (k : Nat) : untold (second k) ≤ untold (first k) := by
    unfold untold
    cases known : first k with
    | none => simp; split <;> omega
    | some reason => simp [told k (by simp [known])]
  cases phase with
  | running k watch => cases watch <;> simp only [Phase.rank] <;> have := less k <;> omega
  | ended k record watch => cases watch <;> simp only [Phase.rank] <;> have := less k <;> omega
  | _ => exact Nat.le_refl _

/-- At most one attempt of each test is registered. -/
theorem Sound.activeTests_length (sound : Sound plan s) : s.activeTests.length ≤ plan.size := by
  have distinct : (s.activeTests.map (·.test)).Nodup := by
    refine List.Nodup.map_on (fun a first b second same => ?_) sound.registered.distinct
    have one := (sound.registered.member a).mp first
    have two := (sound.registered.member b).mp second
    rw [same,two] at one
    cases a
    cases b
    simp_all
  have inside : s.activeTests.map (·.test) ⊆ List.range plan.size := by
    intro j member
    obtain ⟨attempt,active,rfl⟩ := List.mem_map.mp member
    refine List.mem_range.mpr (sound.control.selected _ fun waits => ?_)
    have held := (sound.registered.member attempt).mp active
    simp [waits,Phase.registered] at held
  simpa using (List.subperm_of_subset distinct inside).length_le

theorem sum_lower (n i : Nat) (inside : i < n) (before after : Nat → Nat) (a b : Nat)
    (others : ∀ j, j ≠ i → after j = before j) (lower : after i + a < before i + b) :
    ∑ j ∈ Finset.range n, after j + a < ∑ j ∈ Finset.range n, before j + b := by
  have member := Finset.mem_range.mpr inside
  have rest : ∑ j ∈ (Finset.range n).erase i, after j = ∑ j ∈ (Finset.range n).erase i, before j :=
    Finset.sum_congr rfl fun j other => others j (Finset.ne_of_mem_erase other)
  have now : after i + ∑ j ∈ (Finset.range n).erase i, after j = ∑ j ∈ Finset.range n, after j :=
    Finset.add_sum_erase _ after member
  have then_ : before i + ∑ j ∈ (Finset.range n).erase i, before j = ∑ j ∈ Finset.range n, before j :=
    Finset.add_sum_erase _ before member
  omega

theorem rank_inlineFrom (j : Nat) : (inlineFrom plan j).rank plan ≤ plan.size - j + 3 := by
  unfold inlineFrom
  split <;> simp only [Main.rank] <;> omega

theorem rank_drainFrom (j : Nat) : (drainFrom plan j).rank plan ≤ plan.size - j + 3 := by
  unfold drainFrom
  split <;> simp only [Main.rank] <;> omega

theorem MainMove.lowers (control : Control plan s) {action : Action} {main : Main}
    (move : MainMove plan s action main) : main.rank plan < s.main.rank plan := by
  have stage := control.stage
  cases move with
  | startThrew escape here => rw [here]; simp only [Main.rank]; omega
  | startInline here single =>
    rw [here]
    refine Nat.lt_of_le_of_lt (rank_inlineFrom 0) ?_
    simp only [Main.rank]
    omega
  | startPool here pooled => rw [here]; simp only [Main.rank]; omega
  | advance j here done =>
    rw [here] at stage ⊢
    have inside := stage.2.1
    refine Nat.lt_of_le_of_lt (rank_inlineFrom (j + 1)) ?_
    simp only [Main.rank]
    omega
  | advanceThrew j escape here threw => rw [here]; simp only [Main.rank]; omega
  | await j here done =>
    rw [here] at stage ⊢
    have inside := stage.2.1
    refine Nat.lt_of_le_of_lt (rank_drainFrom (j + 1)) ?_
    simp only [Main.rank]
    omega
  | awaitThrew j here threw => rw [here]; simp only [Main.rank]; omega
  | unwind escape here past => rw [here]; simp only [Main.rank]; omega
  | collect finishedAt duration here => rw [here]; simp only [Main.rank]; omega
  | close run here => rw [here]; simp only [Main.rank]; omega
  | closeThrew run escape here => rw [here]; simp only [Main.rank]; omega

/-- Nobody asks for a cancellation. -/
def Unprompted (_ : State) (action : Action) : Prop := ∀ reason, action ≠ .request reason

/-- A test that is taken up has one step less before it. -/
theorem taken_lowers (i : Nat) (inside : i < plan.size) (waits : s.tasks i = .waiting) :
    ∑ j ∈ Finset.range plan.size, (Function.update s.tasks i .taken j).rank plan (fun k => s.sources ⟨j,k⟩) + 0 <
      ∑ j ∈ Finset.range plan.size, taskRank plan s j + 0 := by
  refine sum_lower _ i inside _ _ _ _ (fun j other => ?_) ?_
  · rw [Function.update_of_ne other,taskRank]
  · rw [Function.update_self,taskRank,waits]
    simp only [Phase.rank]
    omega

theorem task_lowers (inside : i < plan.size) (move : TaskMove plan s i (s.tasks i) action phase effect) :
    weight plan ((s.apply i effect).setPhase i phase) < weight plan s := by
  have lower := sum_lower plan.size i inside (taskRank plan s)
    (taskRank plan ((s.apply i effect).setPhase i phase)) (s.apply i effect).orphans.length
    s.orphans.length (fun j other => ?_) ?_
  · simp only [weight,State.setPhase,State.apply_main,State.apply_requests,State.apply_sweep] at lower ⊢
    omega
  · simp only [taskRank,State.setPhase_tasks,State.apply_tasks,Function.update_of_ne other]
    congr 1
    funext k
    exact apply_sources_other s i j k other move
  · simp only [taskRank,State.setPhase_tasks,Function.update_self]
    exact move.lowers

theorem lock_lowers {call : Nat} {reason : Bytes} (sound : Sound plan s) (free : s.sweep = none)
    (pending : s.requests[call]? = some reason) :
    weight plan { s with requests := s.requests.eraseIdx call, sweep := some ⟨reason,s.activeTests⟩ } <
      weight plan s := by
  obtain ⟨inside,_⟩ := List.getElem?_eq_some_iff.mp pending
  have few := sound.activeTests_length
  have fewer : (s.requests.eraseIdx call).length + 1 = s.requests.length := by
    rw [List.length_eraseIdx_of_lt inside]
    omega
  simp only [weight,taskRank,free,sweepRank,← fewer,Nat.mul_add]
  omega

theorem signalNext_lowers {reason : Bytes} {attempt : Attempt} {rest : List Attempt}
    (sweeping : s.sweep = some ⟨reason,attempt :: rest⟩) :
    weight plan { s.cancelSource attempt reason with sweep := some ⟨reason,rest⟩ } < weight plan s := by
  have told : ∑ j ∈ Finset.range plan.size, taskRank plan (s.cancelSource attempt reason) j ≤
      ∑ j ∈ Finset.range plan.size, taskRank plan s j :=
    Finset.sum_le_sum fun j _ => rank_mono _ _ _ fun k known =>
      s.cancelSource_sources attempt ⟨j,k⟩ reason known
  simp only [weight,taskRank,State.cancelSource,sweeping,sweepRank,List.length_cons] at told ⊢
  omega

theorem step_lowers (sound : Sound plan s) {action : Action} (unprompted : Unprompted s action)
    (taken : step plan action s = some next) : weight plan next < weight plan s := by
  have stage := sound.control.stage
  cases step_move taken with
  | main action main move =>
    have lower := move.lowers sound.control
    simp only [weight,taskRank]
    omega
  | submit j here =>
    rw [here] at stage
    have inside := stage.2.1
    have lower : (if j + 1 < plan.size then Main.submitting (j + 1) else .draining 0).rank plan <
        s.main.rank plan := by
      rw [here]
      split <;> simp only [Main.rank] <;> omega
    simp only [weight,taskRank]
    omega
  | take worker i rest queued free =>
    obtain ⟨inside,waits⟩ := sound.control.queued i (by simp [queued])
    have lower := taken_lowers i inside waits
    simp only [weight,taskRank,State.setPhase] at lower ⊢
    omega
  | call j here waits =>
    rw [here] at stage
    have lower := taken_lowers j stage.2.1 waits
    simp only [weight,taskRank,State.setPhase] at lower ⊢
    omega
  | task i action phase effect move =>
    have active := move.source_active
    exact task_lowers (sound.control.selected i fun waits => by simp [waits,Phase.active] at active) move
  | orphanEnds attempt astray =>
    have shorter := List.length_erase_of_mem astray
    have some := List.length_pos_of_mem astray
    simp only [weight,taskRank,shorter]
    omega
  | request reason => exact absurd rfl (unprompted reason)
  | lock call reason free pending => exact lock_lowers sound free pending
  | signalNext reason attempt rest sweeping => exact signalNext_lowers sweeping
  | unlock reason sweeping =>
    simp only [weight,taskRank,sweeping,sweepRank,List.length_nil]
    omega

/-- A run without requests is no longer than the weight of the state it starts from. -/
theorem run_bounded (sound : Sound plan s) (labels : List Action)
    (along : Transition.Along (step plan) Unprompted labels s)
    (path : Transition.run (step plan) labels s = some next) : labels.length ≤ weight plan s := by
  have bound := Transition.run_length_le (step plan) Unprompted (Sound plan) (weight plan)
    (fun _ _ _ sound _ taken => sound.step taken)
    (fun _ _ _ sound unprompted taken => step_lowers sound unprompted taken)
    labels s next sound along path
  omega

end TestForge.Runner
