import TestForge.Transition
import Mathlib.Logic.Function.Basic

/-! The worker pool as a transition system: workers, and threads that call the pool.
A section under `mutex_` is one step, and a notification is a step of its own. -/
namespace TestForge.ThreadPool

/-- What a task does is left out: it ends some time, and whatever it throws is caught. -/
inductive Worker where
  | arriving
  | parked
  | running (task : Nat)
  | finishing (task : Nat)
  | exited
  deriving DecidableEq, Repr

/-- The destructor makes the call that `shutdown` makes. -/
inductive Call where
  | submit | waitIdle | shutdown | shutdownNow | destroy
  deriving DecidableEq, Repr

/-- Where a thread is that calls the pool. -/
inductive Caller where
  | outside
  | submitting
  | notifying
  | waiting
  | asleep
  | stopping (discard : Bool)
  | waking
  | locking
  | joining (next : Nat)
  deriving DecidableEq, Repr

def Call.entry : Call → Caller
  | .submit => .submitting
  | .waitIdle => .waiting
  | .shutdown => .stopping false
  | .shutdownNow => .stopping true
  | .destroy => .stopping false

/-- A task is the number of tasks accepted before it. What became of the tasks that
left the queue is kept in `ran` and `dropped`. `pending_` may go below zero here, where
the source would wrap around. -/
structure State where
  workers : Nat → Worker := fun _ => .arriving
  callers : Nat → Caller := fun _ => .outside
  queue : List Nat := []
  pending : Int := 0
  stopping : Bool := false
  discardQueued : Bool := false
  joinHolder : Option Nat := none
  joined : Bool := false
  accepted : Nat := 0
  ran : List Nat := []
  dropped : List Nat := []

/-- A waiting worker or caller may also wake up without a notification. -/
inductive Action where
  | call (caller : Nat) (call : Call)
  | enter (caller : Nat)
  | notifyOne (caller : Nat) (woken : Option Nat)
  | notifyAll (caller : Nat)
  | lockJoin (caller : Nat)
  | join (caller : Nat)
  | look (worker : Nat)
  | taskEnds (worker : Nat)
  | account (worker : Nat)
  | spuriousWorker (worker : Nat)
  | spuriousCaller (caller : Nat)

/-- The size of the pool built for a requested number of workers. -/
def workerCount (requested : Nat) : Nat := max 1 requested

namespace State

def setWorker (s : State) (w : Nat) (worker : Worker) : State :=
  { s with workers := Function.update s.workers w worker }

def setCaller (s : State) (c : Nat) (caller : Caller) : State :=
  { s with callers := Function.update s.callers c caller }

/-- `idle_.notify_all()` -/
def wakeIdle (s : State) : State :=
  { s with callers := fun c => if s.callers c = .asleep then .waiting else s.callers c }

/-- `workAvailable_.notify_all()` -/
def wakeWorkers (s : State) : State :=
  { s with workers := fun w => if s.workers w = .parked then .arriving else s.workers w }

end State

/-- The first section of the loop: wait, leave, discard or take a task. -/
def look (s : State) (w : Nat) : State :=
  match s.queue with
  | [] => s.setWorker w (if s.stopping then .exited else .parked)
  | task :: rest =>
    if s.stopping ∧ s.discardQueued then
      ({ s.setWorker w .exited with
        queue := []
        pending := s.pending - (task :: rest).length
        dropped := s.dropped ++ task :: rest } : State).wakeIdle
    else { s.setWorker w (.running task) with queue := rest, ran := s.ran ++ [task] }

/-- `--pending_` -/
def release (s : State) (w : Nat) : State :=
  { s.setWorker w .arriving with pending := s.pending - 1 }

/-- The last section of the loop. -/
def account (s : State) (w : Nat) : State :=
  if (release s w).pending = 0 then (release s w).wakeIdle else release s w

/-- The locked section of a call. -/
def enter (s : State) (c : Nat) : Option State :=
  match s.callers c with
  | .submitting =>
    if s.stopping then some (s.setCaller c .outside)
    else some { s.setCaller c .notifying with
      queue := s.queue ++ [s.accepted], pending := s.pending + 1, accepted := s.accepted + 1 }
  | .waiting => some (s.setCaller c (if s.pending = 0 then .outside else .asleep))
  | .stopping discard =>
    some { s.setCaller c .waking with stopping := true, discardQueued := discard }
  | _ => none

/-- `workAvailable_.notify_one()` wakes one worker if any waits. -/
def notifyOne (n : Nat) (s : State) (c : Nat) : Option Nat → Option State
  | some w =>
    if w < n ∧ s.workers w = .parked then some ((s.setWorker w .arriving).setCaller c .outside)
    else none
  | none => if ∀ w < n, s.workers w ≠ .parked then some (s.setCaller c .outside) else none

def step (n : Nat) (action : Action) (s : State) : Option State :=
  match action with
  | .call c call => if s.callers c = .outside then some (s.setCaller c call.entry) else none
  | .enter c => enter s c
  | .notifyOne c woken => if s.callers c = .notifying then notifyOne n s c woken else none
  | .notifyAll c =>
    if s.callers c = .waking then some (s.wakeWorkers.setCaller c .locking) else none
  | .lockJoin c =>
    if s.callers c = .locking ∧ s.joinHolder = none then
      if s.joined then some (s.setCaller c .outside)
      else some { s.setCaller c (.joining 0) with joinHolder := some c }
    else none
  | .join c =>
    match s.callers c with
    | .joining k =>
      if k < n then
        if s.workers k = .exited then some (s.setCaller c (.joining (k + 1))) else none
      else some { s.setCaller c .outside with joined := true, joinHolder := none }
    | _ => none
  | .look w => if w < n ∧ s.workers w = .arriving then some (look s w) else none
  | .taskEnds w =>
    match s.workers w with
    | .running task => if w < n then some (s.setWorker w (.finishing task)) else none
    | _ => none
  | .account w =>
    match s.workers w with
    | .finishing _ => if w < n then some (account s w) else none
    | _ => none
  | .spuriousWorker w =>
    if w < n ∧ s.workers w = .parked then some (s.setWorker w .arriving) else none
  | .spuriousCaller c => if s.callers c = .asleep then some (s.setCaller c .waiting) else none

def initial : State := {}

/-- The steps of the pool by label and target. -/
inductive Move (n : Nat) (s : State) : Action → State → Prop where
  | call (c : Nat) (call : Call) (here : s.callers c = .outside) :
      Move n s (.call c call) (s.setCaller c call.entry)
  | refused (c : Nat) (here : s.callers c = .submitting) (stopped : s.stopping = true) :
      Move n s (.enter c) (s.setCaller c .outside)
  | accepted (c : Nat) (here : s.callers c = .submitting) (open_ : s.stopping = false) :
      Move n s (.enter c) { s.setCaller c .notifying with
        queue := s.queue ++ [s.accepted], pending := s.pending + 1, accepted := s.accepted + 1 }
  | idle (c : Nat) (here : s.callers c = .waiting) (done : s.pending = 0) :
      Move n s (.enter c) (s.setCaller c .outside)
  | sleep (c : Nat) (here : s.callers c = .waiting) (busy : s.pending ≠ 0) :
      Move n s (.enter c) (s.setCaller c .asleep)
  | stop (c : Nat) (discard : Bool) (here : s.callers c = .stopping discard) :
      Move n s (.enter c)
        { s.setCaller c .waking with stopping := true, discardQueued := discard }
  | notifyOne (c w : Nat) (here : s.callers c = .notifying) (inside : w < n)
      (parked : s.workers w = .parked) :
      Move n s (.notifyOne c (some w)) ((s.setWorker w .arriving).setCaller c .outside)
  | notifyNone (c : Nat) (here : s.callers c = .notifying)
      (awake : ∀ w < n, s.workers w ≠ .parked) :
      Move n s (.notifyOne c none) (s.setCaller c .outside)
  | notifyAll (c : Nat) (here : s.callers c = .waking) :
      Move n s (.notifyAll c) (s.wakeWorkers.setCaller c .locking)
  | joined (c : Nat) (here : s.callers c = .locking) (free : s.joinHolder = none)
      (done : s.joined = true) : Move n s (.lockJoin c) (s.setCaller c .outside)
  | lockJoin (c : Nat) (here : s.callers c = .locking) (free : s.joinHolder = none)
      (first : s.joined = false) :
      Move n s (.lockJoin c) { s.setCaller c (.joining 0) with joinHolder := some c }
  | joinOne (c k : Nat) (here : s.callers c = .joining k) (inside : k < n)
      (gone : s.workers k = .exited) : Move n s (.join c) (s.setCaller c (.joining (k + 1)))
  | joinedAll (c k : Nat) (here : s.callers c = .joining k) (all : n ≤ k) :
      Move n s (.join c) { s.setCaller c .outside with joined := true, joinHolder := none }
  | park (w : Nat) (inside : w < n) (here : s.workers w = .arriving) (empty : s.queue = [])
      (open_ : s.stopping = false) : Move n s (.look w) (s.setWorker w .parked)
  | leave (w : Nat) (inside : w < n) (here : s.workers w = .arriving) (empty : s.queue = [])
      (stopped : s.stopping = true) : Move n s (.look w) (s.setWorker w .exited)
  | discard (w : Nat) (inside : w < n) (here : s.workers w = .arriving) (some_ : s.queue ≠ [])
      (stopped : s.stopping = true) (discarding : s.discardQueued = true) :
      Move n s (.look w) ({ s.setWorker w .exited with
        queue := []
        pending := s.pending - s.queue.length
        dropped := s.dropped ++ s.queue } : State).wakeIdle
  | take (w task : Nat) (rest : List Nat) (inside : w < n) (here : s.workers w = .arriving)
      (queued : s.queue = task :: rest) :
      Move n s (.look w)
        { s.setWorker w (.running task) with queue := rest, ran := s.ran ++ [task] }
  | taskEnds (w task : Nat) (inside : w < n) (here : s.workers w = .running task) :
      Move n s (.taskEnds w) (s.setWorker w (.finishing task))
  | account (w task : Nat) (inside : w < n) (here : s.workers w = .finishing task) :
      Move n s (.account w) (account s w)
  | spuriousWorker (w : Nat) (inside : w < n) (here : s.workers w = .parked) :
      Move n s (.spuriousWorker w) (s.setWorker w .arriving)
  | spuriousCaller (c : Nat) (here : s.callers c = .asleep) :
      Move n s (.spuriousCaller c) (s.setCaller c .waiting)

theorem look_move {n : Nat} {s : State} (w : Nat) (inside : w < n)
    (here : s.workers w = .arriving) : Move n s (.look w) (look s w) := by
  unfold look
  split
  next empty =>
    split
    next stopped => exact .leave w inside here empty stopped
    next going => exact .park w inside here empty (Bool.eq_false_iff.mpr going)
  next task rest queued =>
    split
    next discarding =>
      rw [← queued]
      exact .discard w inside here (by simp [queued]) discarding.1 discarding.2
    next => exact .take w task rest inside here queued

theorem enter_move {n : Nat} {s next : State} (c : Nat) (taken : enter s c = some next) :
    Move n s (.enter c) next := by
  unfold enter at taken
  split at taken
  next here =>
    split at taken <;> cases taken
    next stopped => exact .refused c here stopped
    next going => exact .accepted c here (Bool.eq_false_iff.mpr going)
  next here =>
    cases taken
    by_cases done : s.pending = 0
    · rw [if_pos done]
      exact .idle c here done
    · rw [if_neg done]
      exact .sleep c here done
  next discard here =>
    cases taken
    exact .stop c discard here
  next => contradiction

theorem join_move {n : Nat} {s next : State} (caller : Nat) (taken : step n (.join caller) s = some next) :
    Move n s (.join caller) next := by
  simp only [step] at taken
  split at taken
  next k here =>
    split at taken
    next inside =>
      split at taken <;> cases taken
      next gone => exact .joinOne _ k here inside gone
    next all =>
      cases taken
      exact .joinedAll _ k here (Nat.le_of_not_lt all)
  next => contradiction

theorem step_move {n : Nat} {s next : State} {action : Action}
    (taken : step n action s = some next) : Move n s action next := by
  cases action with
  | call caller call =>
    simp only [step] at taken
    split at taken <;> cases taken
    next here => exact .call _ _ here
  | enter caller => exact enter_move _ taken
  | notifyOne caller woken =>
    simp only [step] at taken
    split at taken
    next here =>
      unfold notifyOne at taken
      split at taken <;> split at taken <;> cases taken
      next parked => exact .notifyOne _ _ here parked.1 parked.2
      next awake => exact .notifyNone _ here awake
    next => contradiction
  | notifyAll caller =>
    simp only [step] at taken
    split at taken <;> cases taken
    next here => exact .notifyAll _ here
  | lockJoin caller =>
    simp only [step] at taken
    split at taken
    next here =>
      split at taken <;> cases taken
      next done => exact .joined _ here.1 here.2 done
      next first => exact .lockJoin _ here.1 here.2 (Bool.eq_false_iff.mpr first)
    next => contradiction
  | join caller => exact join_move _ taken
  | look worker =>
    simp only [step] at taken
    split at taken <;> cases taken
    next here => exact look_move _ here.1 here.2
  | taskEnds worker =>
    simp only [step] at taken
    split at taken
    next task here =>
      split at taken <;> cases taken
      next inside => exact .taskEnds _ task inside here
    next => contradiction
  | account worker =>
    simp only [step] at taken
    split at taken
    next task here =>
      split at taken <;> cases taken
      next inside => exact .account _ task inside here
    next => contradiction
  | spuriousWorker worker =>
    simp only [step] at taken
    split at taken <;> cases taken
    next here => exact .spuriousWorker _ here.1 here.2
  | spuriousCaller caller =>
    simp only [step] at taken
    split at taken <;> cases taken
    next here => exact .spuriousCaller _ here

end TestForge.ThreadPool
