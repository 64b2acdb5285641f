import TestForge.FrontEnds
import TestForge.Transition
import Mathlib.Logic.Function.Basic

/-! `POST /api/runs` by any number of handlers at once: the look at the flag, the blocking
lock in `TestForgeService::run`, and the run under it. -/
namespace TestForge.RestRuns

open Strings

/-- Where a handler is. From `entered` to `finished` it holds `runMutex_`; the flag is
up while it is `executing`. The two last phases carry the status of the answer. -/
inductive Phase where
  | arrived
  | admitted
  | queued (options : RunOptions)
  | entered (options : RunOptions)
  | executing (options : RunOptions)
  | finished (status : Nat)
  | answered (status : Nat)
  deriving DecidableEq

namespace Phase

/-- Behind the look at the flag and before the flag is raised. -/
def between : Phase → Bool
  | .admitted | .queued _ | .entered _ => true
  | _ => false

def isExecuting : Phase → Bool
  | .executing _ => true
  | _ => false

def isQueued : Phase → Bool
  | .queued _ => true
  | _ => false

def holds : Phase → Bool
  | .entered _ | .executing _ | .finished _ => true
  | _ => false

end Phase

/-- `running` and `holder` are `running_` and the owner of `runMutex_`; `started` lists
the runs in the order of their starts. -/
structure State where
  phase : Nat → Phase := fun _ => .arrived
  running : Bool := false
  holder : Option Nat := none
  started : List (Nat × RunOptions) := []

inductive Action where
  | look (handler : Nat)
  | read (handler : Nat)
  | lock (handler : Nat)
  | raise (handler : Nat)
  | finish (handler : Nat) (threw : Bool)
  | unlock (handler : Nat)
  deriving DecidableEq

def State.setPhase (s : State) (i : Nat) (phase : Phase) : State :=
  { s with phase := Function.update s.phase i phase }

/-- `requests` are the bodies. An exception of the run unwinds through the guards and is
answered 500. -/
def step (requests : Nat → Bytes) (action : Action) (s : State) : Option State :=
  match action with
  | .look i =>
    match s.phase i with
    | .arrived => some (s.setPhase i (if s.running then .answered 409 else .admitted))
    | _ => none
  | .read i =>
    match s.phase i with
    | .admitted =>
      some (s.setPhase i (match RestApiServer.requestBody (requests i) with
        | none => .answered 400
        | some body => .queued (RestApiServer.runOptions body)))
    | _ => none
  | .lock i =>
    match s.phase i with
    | .queued options => if s.holder = none then some { s.setPhase i (.entered options) with holder := some i } else none
    | _ => none
  | .raise i =>
    match s.phase i with
    | .entered options =>
      some { s.setPhase i (.executing options) with running := true, started := s.started ++ [(i,options)] }
    | _ => none
  | .finish i threw =>
    match s.phase i with
    | .executing _ => some { s.setPhase i (.finished (if threw then 500 else 200)) with running := false }
    | _ => none
  | .unlock i =>
    match s.phase i with
    | .finished status => some { s.setPhase i (.answered status) with holder := none }
    | _ => none

/-- What a step can do. -/
inductive Move (requests : Nat → Bytes) (s : State) : Action → State → Prop where
  | refused (here : s.phase i = .arrived) (up : s.running = true) :
      Move requests s (.look i) (s.setPhase i (.answered 409))
  | admitted (here : s.phase i = .arrived) (down : s.running = false) :
      Move requests s (.look i) (s.setPhase i .admitted)
  | invalid (here : s.phase i = .admitted) (bad : RestApiServer.requestBody (requests i) = none) :
      Move requests s (.read i) (s.setPhase i (.answered 400))
  | queued (here : s.phase i = .admitted) (good : RestApiServer.requestBody (requests i) = some body) :
      Move requests s (.read i) (s.setPhase i (.queued (RestApiServer.runOptions body)))
  | entered (here : s.phase i = .queued options) (free : s.holder = none) :
      Move requests s (.lock i) { s.setPhase i (.entered options) with holder := some i }
  | raised (here : s.phase i = .entered options) :
      Move requests s (.raise i)
        { s.setPhase i (.executing options) with running := true, started := s.started ++ [(i,options)] }
  | finished (here : s.phase i = .executing options) (threw : Bool) :
      Move requests s (.finish i threw) { s.setPhase i (.finished (if threw then 500 else 200)) with running := false }
  | unlocked (here : s.phase i = .finished status) :
      Move requests s (.unlock i) { s.setPhase i (.answered status) with holder := none }

variable {requests : Nat → Bytes} {s next : State} {action : Action}

theorem step_move (taken : step requests action s = some next) : Move requests s action next := by
  cases action with
  | look i =>
    cases here : s.phase i <;> simp only [step,here,reduceCtorEq] at taken
    obtain rfl := Option.some.inj taken
    cases flag : s.running with
    | true => exact .refused here flag
    | false => exact .admitted here flag
  | read i =>
    cases here : s.phase i <;> simp only [step,here,reduceCtorEq] at taken
    obtain rfl := Option.some.inj taken
    cases body : RestApiServer.requestBody (requests i) with
    | none => exact .invalid here body
    | some value => exact .queued here body
  | lock i =>
    cases here : s.phase i <;> simp only [step,here,reduceCtorEq] at taken
    by_cases free : s.holder = none
    · rw [if_pos free] at taken
      obtain rfl := Option.some.inj taken
      exact .entered here free
    · rw [if_neg free] at taken
      cases taken
  | raise i =>
    cases here : s.phase i <;> simp only [step,here,reduceCtorEq] at taken
    obtain rfl := Option.some.inj taken
    exact .raised here
  | finish i threw =>
    cases here : s.phase i <;> simp only [step,here,reduceCtorEq] at taken
    obtain rfl := Option.some.inj taken
    exact .finished here threw
  | unlock i =>
    cases here : s.phase i <;> simp only [step,here,reduceCtorEq] at taken
    obtain rfl := Option.some.inj taken
    exact .unlocked here

@[simp] theorem setPhase_self (i : Nat) (phase : Phase) : (s.setPhase i phase).phase i = phase := by
  simp [State.setPhase]

@[simp] theorem setPhase_other {i j : Nat} (other : j ≠ i) (phase : Phase) :
    (s.setPhase i phase).phase j = s.phase j := by
  simp [State.setPhase,other]

@[simp] theorem setPhase_holder (i : Nat) (phase : Phase) : (s.setPhase i phase).holder = s.holder := rfl
@[simp] theorem setPhase_running (i : Nat) (phase : Phase) : (s.setPhase i phase).running = s.running := rfl

/-! ### The lock and the flag -/

/-- The holder is the one handler behind the lock, and the flag is up while one executes. -/
structure Sound (s : State) : Prop where
  held : ∀ i, (s.phase i).holds = true ↔ s.holder = some i
  flagged : s.running = true ↔ ∃ i, (s.phase i).isExecuting = true

theorem Sound.initial : Sound {} :=
  ⟨fun i => by simp [Phase.holds],by simp [Phase.isExecuting]⟩

theorem isExecuting_holds {phase : Phase} (executing : phase.isExecuting = true) : phase.holds = true := by
  cases phase <;> simp_all [Phase.isExecuting,Phase.holds]

/-- A step of `i` that neither takes nor gives up the lock nor moves the flag. -/
theorem Sound.of_same (sound : Sound s) (i : Nat) (phase : Phase)
    (holds : phase.holds = (s.phase i).holds) (executes : phase.isExecuting = (s.phase i).isExecuting) :
    Sound (s.setPhase i phase) := by
  have same (j : Nat) : ((s.setPhase i phase).phase j).holds = (s.phase j).holds ∧
      ((s.setPhase i phase).phase j).isExecuting = (s.phase j).isExecuting := by
    by_cases other : j = i
    · subst other
      simp [holds,executes]
    · simp [other]
  refine ⟨fun j => ?_,?_⟩
  · rw [(same j).1]
    exact sound.held j
  · simp only [(same _).2]
    exact sound.flagged

theorem Sound.step (sound : Sound s) (taken : step requests action s = some next) : Sound next := by
  cases step_move taken with
  | refused here up => exact sound.of_same _ _ (by simp [here,Phase.holds]) (by simp [here,Phase.isExecuting])
  | admitted here down => exact sound.of_same _ _ (by simp [here,Phase.holds]) (by simp [here,Phase.isExecuting])
  | invalid here bad => exact sound.of_same _ _ (by simp [here,Phase.holds]) (by simp [here,Phase.isExecuting])
  | queued here good => exact sound.of_same _ _ (by simp [here,Phase.holds]) (by simp [here,Phase.isExecuting])
  | @entered i options here free =>
    have nobody (j : Nat) : (s.phase j).holds = false := by
      rw [Bool.eq_false_iff,ne_eq,sound.held j,free]
      simp
    refine ⟨fun j => ?_,?_⟩
    · by_cases other : j = i
      · subst other
        simp [Phase.holds]
      · simp [other,nobody j,Ne.symm other]
    · refine sound.flagged.trans (exists_congr fun j => ?_)
      by_cases other : j = i
      · subst other
        simp [here,Phase.isExecuting]
      · simp [other]
  | @raised i options here =>
    refine ⟨fun j => ?_,by simpa using ⟨i,by simp [Phase.isExecuting]⟩⟩
    by_cases other : j = i
    · subst other
      have holder := sound.held j
      simpa [here,Phase.holds] using holder
    · simpa [other] using sound.held j
  | @finished i options here threw =>
    have holder := (sound.held i).mp (by simp [here,Phase.holds])
    refine ⟨fun j => ?_,?_⟩
    · by_cases other : j = i
      · subst other
        simpa [Phase.holds] using holder
      · simpa [other] using sound.held j
    · simp only [Bool.false_eq_true,false_iff,not_exists,Bool.not_eq_true]
      intro j
      by_cases other : j = i
      · subst other
        simp [Phase.isExecuting]
      · rw [setPhase_other other,Bool.eq_false_iff]
        intro executing
        have second := (sound.held j).mp (isExecuting_holds executing)
        exact other (Option.some.inj (second.symm.trans holder))
  | @unlocked i status here =>
    have holder := (sound.held i).mp (by simp [here,Phase.holds])
    refine ⟨fun j => ?_,?_⟩
    · by_cases other : j = i
      · subst other
        simp [Phase.holds]
      · have nobody : (s.phase j).holds = false := by
          rw [Bool.eq_false_iff,ne_eq,sound.held j,holder]
          simpa using Ne.symm other
        simp [other,nobody]
    · refine sound.flagged.trans (exists_congr fun j => ?_)
      by_cases other : j = i
      · subst other
        simp [here,Phase.isExecuting]
      · simp [other]

/-! ### One run at a time -/

/-- The look of a handler finds the flag down only when no other handler is between its
own look and raising the flag. -/
def Undisturbed (s : State) : Action → Prop
  | .look _ => s.running = false → ∀ i, (s.phase i).between = false
  | _ => True

def Phase.pending (phase : Phase) : Bool := phase.between || phase.isExecuting

/-- At most one handler has been let through and is not done with its run. -/
def Alone (s : State) : Prop := ∀ i j, (s.phase i).pending = true → (s.phase j).pending = true → i = j

theorem Alone.of_less (alone : Alone s) (i : Nat) (phase : Phase) (less : phase.pending = true → (s.phase i).pending = true)
    (phases : next.phase = (s.setPhase i phase).phase) : Alone next := by
  have earlier (j : Nat) (pending : (next.phase j).pending = true) : (s.phase j).pending = true := by
    rw [phases] at pending
    by_cases other : j = i
    · subst other
      exact less (by simpa using pending)
    · simpa [other] using pending
  exact fun j k first second => alone j k (earlier j first) (earlier k second)

theorem Alone.step (alone : Alone s) (sound : Sound s) (undisturbed : Undisturbed s action)
    (taken : step requests action s = some next) : Alone next := by
  cases step_move taken with
  | refused here up => exact alone.of_less _ _ (by simp [Phase.pending,Phase.between,Phase.isExecuting]) rfl
  | @admitted i here down =>
    have nobody (j : Nat) : (s.phase j).pending = false := by
      have idle : (s.phase j).isExecuting = false := by
        rw [Bool.eq_false_iff]
        exact fun executing => by simp [sound.flagged.mpr ⟨j,executing⟩] at down
      rw [Phase.pending,undisturbed down j,idle]
      rfl
    have only (j : Nat) (pending : ((s.setPhase i .admitted).phase j).pending = true) : j = i := by
      by_contra other
      simp [other,nobody j] at pending
    exact fun j k first second => (only j first).trans (only k second).symm
  | invalid here bad => exact alone.of_less _ _ (by simp [Phase.pending,Phase.between,Phase.isExecuting]) rfl
  | queued here good => exact alone.of_less _ _ (by simp [here,Phase.pending,Phase.between]) rfl
  | entered here free => exact alone.of_less _ _ (by simp [here,Phase.pending,Phase.between]) rfl
  | raised here => exact alone.of_less _ _ (by simp [here,Phase.pending,Phase.between]) rfl
  | finished here threw =>
    refine alone.of_less _ _ ?_ rfl
    cases threw <;> simp [Phase.pending,Phase.between,Phase.isExecuting]
  | unlocked here => exact alone.of_less _ _ (by simp [Phase.pending,Phase.between,Phase.isExecuting]) rfl

/-- A handler that meets a run is turned away, starts none and waits for none. -/
structure NeverQueues (requests : Nat → Bytes) (s : State) : Prop where
  refused : ∀ i j next, (s.phase j).isExecuting = true → step requests (.look i) s = some next →
    next = s.setPhase i (.answered 409)
  alone : ∀ i j, (s.phase j).isExecuting = true → i ≠ j → (s.phase i).pending = false
  unblocked : ∀ i j, (s.phase i).isQueued = true → s.holder = some j → ∃ status, s.phase j = .finished status

theorem neverQueues_of (sound : Sound s) (alone : Alone s) : NeverQueues requests s where
  refused i j next executing taken := by
    have up := sound.flagged.mpr ⟨j,executing⟩
    cases here : s.phase i <;> simp only [step,here,reduceCtorEq] at taken
    rw [if_pos up] at taken
    exact (Option.some.inj taken).symm
  alone i j executing other := by
    rw [Bool.eq_false_iff]
    exact fun pending => other (alone i j pending (by simp [Phase.pending,executing]))
  unblocked i j queued holder := by
    have holds := (sound.held j).mpr holder
    have waiting : (s.phase i).pending = true := by
      cases here : s.phase i <;> simp_all [Phase.isQueued,Phase.pending,Phase.between]
    have different : (s.phase j).pending = true → False := fun pending => by
      obtain rfl := alone i j waiting pending
      cases here : s.phase i <;> simp_all [Phase.isQueued,Phase.holds]
    cases here : s.phase j with
    | finished status => exact ⟨status,rfl⟩
    | entered options => exact (different (by simp [here,Phase.pending,Phase.between])).elim
    | executing options => exact (different (by simp [here,Phase.pending,Phase.isExecuting])).elim
    | arrived | admitted | queued | answered => simp [here,Phase.holds] at holds

theorem runs_neverQueue (requests : Nat → Bytes) (labels : List Action) (s : State)
    (path : Transition.run (step requests) labels {} = some s)
    (along : Transition.Along (step requests) Undisturbed labels {}) : NeverQueues requests s := by
  have whole := Transition.run_invariant_along (step requests) Undisturbed (fun s => Sound s ∧ Alone s)
    (fun action s next valid undisturbed taken =>
      ⟨valid.1.step taken,valid.2.step valid.1 undisturbed taken⟩) labels {} s along path
    ⟨Sound.initial,fun i j pending => by simp [Phase.pending,Phase.between,Phase.isExecuting] at pending⟩
  exact neverQueues_of whole.1 whole.2

/-- A run to its end, with a second request while it executes. -/
theorem runs_neverQueue_turnedAway : ∃ s, Transition.run (step fun _ => [])
    [.look 0,.read 0,.lock 0,.raise 0,.look 1,.finish 0 false,.unlock 0] {} = some s ∧
      s.phase 1 = .answered 409 ∧ NeverQueues (fun _ => []) s := by
  refine ⟨_,rfl,rfl,runs_neverQueue _ [.look 0,.read 0,.lock 0,.raise 0,.look 1,.finish 0 false,.unlock 0] _ rfl ?_⟩
  simp [Transition.Along,Undisturbed,step,State.setPhase,Phase.between,RestApiServer.requestBody]

/-- Two handlers look before either raises the flag: the second waits for the first one's
run and then starts its own. -/
theorem secondRequest_queues : ∃ waiting later, Transition.run (step fun _ => [])
      [.look 0,.look 1,.read 0,.read 1,.lock 0,.raise 0] {} = some waiting ∧
    (waiting.phase 0).isExecuting = true ∧ (waiting.phase 1).isQueued = true ∧ waiting.holder = some 0 ∧
    Transition.run (step fun _ => []) [.finish 0 false,.unlock 0,.lock 1,.raise 1,.finish 1 false,.unlock 1] waiting =
      some later ∧
    later.started.map (·.1) = [0,1] ∧ later.phase 1 = .answered 200 ∧ ¬NeverQueues (fun _ => []) waiting := by
  refine ⟨_,_,rfl,rfl,rfl,rfl,rfl,rfl,rfl,fun never => ?_⟩
  have pending := never.alone 1 0 rfl (by decide)
  cases pending

end TestForge.RestRuns
