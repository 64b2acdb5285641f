import Mathlib.Algebra.BigOperators.Group.Finset.Basic
import Mathlib.Data.List.Count
import TestForge.AcceptLoop
import TestForge.ThreadPoolAccounting

/-! Connections and descriptors. The counter is that of the connections between their admission
and the end of their closure, and each descriptor has one owner until it is closed. -/
namespace TestForge.HttpServer

open Settings Finset

/-! ### The steps -/

/-- The steps of the threads by event and target. -/
inductive Happens (cap : Int) (n : Nat) (s : Threads) : Event → Threads → Prop where
  | poll (here : s.acceptor = .looping) (up : s.running = true) :
      Happens cap n s .poll { s with acceptor := .watching }
  | leave (here : s.acceptor = .looping) (down : s.running = false) :
      Happens cap n s .poll { s with acceptor := .exited }
  | nothing (here : s.acceptor = .watching) : Happens cap n s .nothing { s with acceptor := .looping }
  | accept (here : s.acceptor = .watching) :
      Happens cap n s .accept { s with acceptor := .holding s.connections, connections := s.connections + 1 }
  | full (c : Nat) (here : s.acceptor = .holding c) (full : cap ≤ s.inFlight) :
      Happens cap n s .check { s with acceptor := .rejecting c }
  | room (c : Nat) (here : s.acceptor = .holding c) (room : s.inFlight < cap) :
      Happens cap n s .check { s with acceptor := .admitting c }
  | reject (c : Nat) (here : s.acceptor = .rejecting c) : Happens cap n s .reject
      { s with acceptor := .looping, rejected := s.rejected + 1, closed := s.closed ++ [c] }
  | countIn (c : Nat) (here : s.acceptor = .admitting c) :
      Happens cap n s .countIn { s with acceptor := .submitting c, inFlight := s.inFlight + 1 }
  | submit (c : Nat) (pool : ThreadPool.State) (here : s.acceptor = .submitting c)
      (taken : ThreadPool.step n (.call 0 .submit) s.pool = some pool) :
      Happens cap n s .submit { s with acceptor := .entering c, pool }
  | throw (c : Nat) (here : s.acceptor = .submitting c) : Happens cap n s .throw { s with acceptor := .failing c }
  | refused (c : Nat) (pool : ThreadPool.State) (here : s.acceptor = .entering c) (stopped : s.pool.stopping = true)
      (taken : ThreadPool.step n (.enter 0) s.pool = some pool) :
      Happens cap n s .enqueue { s with acceptor := .failing c, pool }
  | enqueued (c : Nat) (pool : ThreadPool.State) (here : s.acceptor = .entering c) (open_ : s.pool.stopping = false)
      (taken : ThreadPool.step n (.enter 0) s.pool = some pool) : Happens cap n s .enqueue { s with
        acceptor := .notifying, connectionOf := Function.update s.connectionOf s.pool.accepted c, pool }
  | submitted (here : s.acceptor = .notifying) : Happens cap n s .submitted { s with acceptor := .looping }
  | release (c : Nat) (here : s.acceptor = .failing c) :
      Happens cap n s .release { s with acceptor := .closing c, inFlight := s.inFlight - 1 }
  | close (c : Nat) (here : s.acceptor = .closing c) :
      Happens cap n s .close { s with acceptor := .looping, closed := s.closed ++ [c] }
  | take (w : Nat) (pool : ThreadPool.State) (taken : ThreadPool.step n (.look w) s.pool = some pool) :
      Happens cap n s (.take w) (begin s w pool)
  | hangUp (w c : Nat) (inside : w < n) (here : s.stages w = .opened c) :
      Happens cap n s (.hangUp w) { s.setStage w .closed with closed := s.closed ++ [c] }
  | decrement (w : Nat) (inside : w < n) (here : s.stages w = .closed) :
      Happens cap n s (.decrement w) { s.setStage w .ended with inFlight := s.inFlight - 1 }
  | taskEnds (w : Nat) (pool : ThreadPool.State) (here : s.stages w = .ended)
      (taken : ThreadPool.step n (.taskEnds w) s.pool = some pool) : Happens cap n s (.taskEnds w) { s with pool }
  | pool (action : ThreadPool.Action) (pool : ThreadPool.State) (inside : internal action = true)
      (taken : ThreadPool.step n action s.pool = some pool) : Happens cap n s (.pool action) { s with pool }
  | stop (i : Nat) (here : s.stoppers i = .outside) : Happens cap n s (.stop i) (s.setStopper i .exchanging)
  | exchange (i : Nat) (here : s.stoppers i = .exchanging) : Happens cap n s (.exchange i)
      { s.setStopper i (if s.running then .joining else .ignored) with running := false }
  | joinAcceptor (i : Nat) (here : s.stoppers i = .joining) (gone : s.acceptor = .exited) :
      Happens cap n s (.joinAcceptor i) (s.setStopper i .shutting)
  | shutdown (i : Nat) (pool : ThreadPool.State) (here : s.stoppers i = .shutting)
      (taken : ThreadPool.step n (.call (i + 1) .shutdown) s.pool = some pool) :
      Happens cap n s (.shutdown i) { s.setStopper i .draining with pool }
  | reset (i : Nat) (pool : ThreadPool.State) (here : s.stoppers i = .draining)
      (taken : ThreadPool.step n (.call (i + 1) .destroy) s.pool = some pool) :
      Happens cap n s (.reset i) { s.setStopper i .resetting with pool }
  | drained (i : Nat) (here : s.stoppers i = .resetting) (returned : s.pool.callers (i + 1) = .outside) :
      Happens cap n s (.drained i) (s.setStopper i .notifying)
  | announce (i : Nat) (here : s.stoppers i = .notifying) :
      Happens cap n s (.announce i) (s.setStopper i .performed)

theorem acceptStep_happens {cap : Int} {n : Nat} {event : Event} {s next : Threads}
    (taken : acceptStep cap n s event = some next) : Happens cap n s event next := by
  cases event <;> simp only [acceptStep,reduceCtorEq] at taken
  case poll =>
    split at taken <;> cases taken
    next here =>
      by_cases up : s.running = true
      · rw [if_pos up]
        exact .poll here up
      · rw [if_neg up]
        exact .leave here (by simpa using up)
  case nothing => split at taken <;> cases taken; exact .nothing ‹_›
  case accept => split at taken <;> cases taken; exact .accept ‹_›
  case check =>
    split at taken <;> cases taken
    next c here =>
      by_cases full : cap ≤ s.inFlight
      · rw [if_pos full]
        exact .full c here full
      · rw [if_neg full]
        exact .room c here (by omega)
  case reject => split at taken <;> cases taken; exact .reject _ ‹_›
  case countIn => split at taken <;> cases taken; exact .countIn _ ‹_›
  case submit =>
    split at taken
    · next here =>
      obtain ⟨pool,step,rfl⟩ := Option.map_eq_some_iff.mp taken
      exact .submit _ pool here step
    · cases taken
  case throw => split at taken <;> cases taken; exact .throw _ ‹_›
  case enqueue =>
    split at taken
    · next here =>
      obtain ⟨pool,step,rfl⟩ := Option.map_eq_some_iff.mp taken
      cases stopped : s.pool.stopping with
      | true => exact .refused _ pool here stopped step
      | false => exact .enqueued _ pool here stopped step
    · cases taken
  case submitted => split at taken <;> cases taken; next here => exact .submitted here.1
  case release => split at taken <;> cases taken; exact .release _ ‹_›
  case close => split at taken <;> cases taken; exact .close _ ‹_›

theorem workStep_happens {cap : Int} {n : Nat} {event : Event} {s next : Threads}
    (taken : workStep n s event = some next) : Happens cap n s event next := by
  cases event <;> simp only [workStep,reduceCtorEq] at taken
  case take w =>
    obtain ⟨pool,step,rfl⟩ := Option.map_eq_some_iff.mp taken
    exact .take w pool step
  case hangUp w =>
    split at taken
    · next here =>
      split at taken <;> cases taken
      exact .hangUp w _ ‹_› here
    · cases taken
  case decrement w => split at taken <;> cases taken; next here => exact .decrement w here.1 here.2
  case taskEnds w =>
    split at taken
    · next here =>
      obtain ⟨pool,step,rfl⟩ := Option.map_eq_some_iff.mp taken
      exact .taskEnds w pool here step
    · cases taken
  case pool action =>
    split at taken
    · next inside =>
      obtain ⟨pool,step,rfl⟩ := Option.map_eq_some_iff.mp taken
      exact .pool action pool inside step
    · cases taken

theorem stopStep_happens {cap : Int} {n : Nat} {event : Event} {s next : Threads}
    (taken : stopStep n s event = some next) : Happens cap n s event next := by
  cases event <;> simp only [stopStep,reduceCtorEq] at taken
  case stop i => split at taken <;> cases taken; exact .stop i ‹_›
  case exchange i => split at taken <;> cases taken; exact .exchange i ‹_›
  case joinAcceptor i => split at taken <;> cases taken; next here => exact .joinAcceptor i here.1 here.2
  case shutdown i =>
    split at taken
    · next here =>
      obtain ⟨pool,step,rfl⟩ := Option.map_eq_some_iff.mp taken
      exact .shutdown i pool here step
    · cases taken
  case reset i =>
    split at taken
    · next here =>
      obtain ⟨pool,step,rfl⟩ := Option.map_eq_some_iff.mp taken
      exact .reset i pool here step
    · cases taken
  case drained i => split at taken <;> cases taken; next here => exact .drained i here.1 here.2
  case announce i => split at taken <;> cases taken; exact .announce i ‹_›

theorem threadStep_happens {config : ServerConfig} {event : Event} {s next : Threads}
    (taken : threadStep config event s = some next) :
    Happens (admissionCap config) (poolSize config) s event next := by
  rcases Option.or_eq_some_iff.mp taken with accepted | ⟨-,others⟩
  · exact acceptStep_happens accepted
  · rcases Option.or_eq_some_iff.mp others with worked | ⟨-,stopped⟩
    · exact workStep_happens worked
    · exact stopStep_happens stopped

/-! ### Owners and the counter -/

/-- The descriptors the acceptor still has to hand on or to close. -/
def Acceptor.holds : Acceptor → List Nat
  | .holding c => [c]
  | .rejecting c => [c]
  | .admitting c => [c]
  | .submitting c => [c]
  | .entering c => [c]
  | .failing c => [c]
  | .closing c => [c]
  | _ => []

/-- Whether the acceptor has a connection on its way into the queue. -/
def Acceptor.admitted : Acceptor → Nat
  | .submitting _ => 1
  | .entering _ => 1
  | .failing _ => 1
  | _ => 0

def Stage.holds : Stage → List Nat
  | .opened c => [c]
  | _ => []

def Stage.handled : Stage → Nat
  | .ended => 0
  | _ => 1

/-- The connections on their way into the queue, queued, or being handled. -/
def held (n : Nat) (s : Threads) : Nat :=
  s.acceptor.admitted + s.pool.queue.length + ∑ w ∈ range n, (s.stages w).handled

/-- How many owners a descriptor has among the acceptor, the queue and the closures. -/
def owners (n : Nat) (s : Threads) (c : Nat) : Nat :=
  s.acceptor.holds.count c + (s.pool.queue.map s.connectionOf).count c + ∑ w ∈ range n, (s.stages w).holds.count c

structure Tallied (n : Nat) (cap : Int) (s : Threads) : Prop where
  accounts : ThreadPool.Accounts n s.pool
  draining : ThreadPool.Draining s.pool
  tally : s.inFlight = held n s
  bounded : s.inFlight ≤ cap
  room : ∀ c, s.acceptor = .admitting c → s.inFlight < cap
  owned : ∀ c, s.closed.count c + owners n s c = (List.range s.connections).count c
  running : ∀ w, s.stages w ≠ .ended → ∃ task, s.pool.workers w = .running task

theorem sum_stage {n w : Nat} (weight : Stage → Nat) (stages : Nat → Stage) (stage : Stage) (inside : w < n) :
    ∑ v ∈ range n, weight (Function.update stages w stage v) + weight (stages w) =
      ∑ v ∈ range n, weight (stages v) + weight stage := by
  have member : w ∈ range n := mem_range.mpr inside
  have others : ∑ v ∈ (range n).erase w, weight (Function.update stages w stage v) =
      ∑ v ∈ (range n).erase w, weight (stages v) :=
    sum_congr rfl fun v apart => by rw [Function.update_of_ne (ne_of_mem_erase apart)]
  have left := add_sum_erase (range n) (fun v => weight (Function.update stages w stage v)) member
  have right := add_sum_erase (range n) (fun v => weight (stages v)) member
  simp only [Function.update_self] at left
  omega

variable {n : Nat} {cap : Int} {s next : Threads} {pool : ThreadPool.State}

/-- A step that leaves queue and closures alone and passes descriptors and the counter on. -/
theorem Tallied.moved (tallied : Tallied n cap s) (accounts : ThreadPool.Accounts n next.pool)
    (draining : ThreadPool.Draining next.pool) (queue : next.pool.queue = s.pool.queue)
    (running : ∀ w task, s.pool.workers w = .running task → s.stages w ≠ .ended → next.pool.workers w = .running task)
    (connectionOf : next.connectionOf = s.connectionOf) (stages : next.stages = s.stages)
    (flight : next.inFlight + s.acceptor.admitted = s.inFlight + next.acceptor.admitted)
    (bounded : next.inFlight ≤ cap) (room : ∀ c, next.acceptor = .admitting c → next.inFlight < cap)
    (passed : ∀ c, next.closed.count c + next.acceptor.holds.count c + (List.range s.connections).count c =
      s.closed.count c + s.acceptor.holds.count c + (List.range next.connections).count c) : Tallied n cap next where
  accounts := accounts
  draining := draining
  tally := by
    have tally := tallied.tally
    simp only [held,queue,stages] at tally ⊢
    push_cast at tally ⊢
    omega
  bounded := bounded
  room := room
  owned c := by
    have owned := tallied.owned c
    have passed := passed c
    simp only [owners,queue,stages,connectionOf] at owned ⊢
    omega
  running w going := by
    rw [stages] at going
    obtain ⟨task,here⟩ := tallied.running w going
    exact ⟨task,running w task here going⟩

theorem Tallied.acceptor (tallied : Tallied n cap s) (pool : next.pool = s.pool)
    (connectionOf : next.connectionOf = s.connectionOf) (stages : next.stages = s.stages)
    (flight : next.inFlight + s.acceptor.admitted = s.inFlight + next.acceptor.admitted)
    (bounded : next.inFlight ≤ cap) (room : ∀ c, next.acceptor = .admitting c → next.inFlight < cap)
    (passed : ∀ c, next.closed.count c + next.acceptor.holds.count c + (List.range s.connections).count c =
      s.closed.count c + s.acceptor.holds.count c + (List.range next.connections).count c) : Tallied n cap next :=
  tallied.moved (pool ▸ tallied.accounts) (pool ▸ tallied.draining) (by rw [pool]) (fun _ _ here _ => by rwa [pool])
    connectionOf stages flight bounded room passed

/-- A step of the pool that leaves the queue and the running tasks alone. -/
theorem Tallied.inPool (tallied : Tallied n cap s) (accounts : ThreadPool.Accounts n pool)
    (draining : ThreadPool.Draining pool) (queue : pool.queue = s.pool.queue)
    (running : ∀ w task, s.pool.workers w = .running task → s.stages w ≠ .ended → pool.workers w = .running task)
    (stoppers : Nat → Stopper) : Tallied n cap { s with pool, stoppers } :=
  tallied.moved accounts draining queue running rfl rfl rfl tallied.bounded tallied.room fun _ => rfl

/-! ### The pool's part -/

/-- Where a thread can be that calls the pool only to shut it down. -/
def stops : ThreadPool.Caller → Bool
  | .outside => true
  | .stopping false => true
  | .waking => true
  | .locking => true
  | .joining _ => true
  | _ => false

section Pool

variable {p after : ThreadPool.State} {action : ThreadPool.Action}

theorem call_quiet (c : Nat) (call : ThreadPool.Call) (taken : ThreadPool.step n (.call c call) p = some after) :
    after = p.setCaller c call.entry := by
  rw [ThreadPool.step] at taken
  split at taken <;> cases taken
  rfl

theorem update_running {workers : Nat → ThreadPool.Worker} {w : Nat} {worker : ThreadPool.Worker}
    (resting : ∀ task, workers w ≠ .running task) (v task : Nat) (here : workers v = .running task) :
    Function.update workers w worker v = .running task := by
  have other : v ≠ w := by
    rintro rfl
    exact resting task here
  rwa [Function.update_of_ne other]

/-- The steps of the pool that are events of their own leave the queue and the running tasks
alone. -/
theorem internal_quiet (inside : internal action = true) (stopping : ∀ i, stops (p.callers (i + 1)) = true)
    (taken : ThreadPool.step n action p = some after) :
    after.queue = p.queue ∧ ∀ w task, p.workers w = .running task → after.workers w = .running task := by
  cases ThreadPool.step_move taken with
  | accepted c here open_ =>
    cases c with
    | zero => cases inside
    | succ i =>
      have outside := stopping i
      rw [here] at outside
      cases outside
  | call => cases inside
  | park => cases inside
  | leave => cases inside
  | discard => cases inside
  | take => cases inside
  | taskEnds => cases inside
  | notifyOne c w here below parked => exact ⟨rfl,update_running (by simp [parked])⟩
  | notifyAll c here =>
    refine ⟨rfl,fun w task here => ?_⟩
    simp [ThreadPool.State.wakeWorkers,ThreadPool.State.setCaller,here]
  | account w task below here =>
    unfold ThreadPool.account
    split
    · exact ⟨rfl,update_running (by simp [here])⟩
    · exact ⟨rfl,update_running (by simp [here])⟩
  | spuriousWorker w below here => exact ⟨rfl,update_running (by simp [here])⟩
  | _ => exact ⟨rfl,fun _ _ => id⟩

theorem caller_update {callers : Nat → ThreadPool.Caller} {c : Nat} {caller : ThreadPool.Caller} (d : Nat)
    (stopping : stops (callers d) = true) (joined : Prop) (mine : d = c → stops caller = true ∧
      (caller = .outside → joined)) :
    stops (Function.update callers c caller d) = true ∧
      (Function.update callers c caller d = .outside → callers d = .outside ∨ joined) := by
  by_cases equal : d = c
  · subst equal
    rw [Function.update_self]
    exact ⟨(mine rfl).1,fun outside => .inr ((mine rfl).2 outside)⟩
  · rw [Function.update_of_ne equal]
    exact ⟨stopping,.inl⟩

theorem caller_wake {callers : Nat → ThreadPool.Caller} (d : Nat) (stopping : stops (callers d) = true) :
    (if callers d = .asleep then .waiting else callers d) = callers d := by
  split
  · next asleep => rw [asleep] at stopping; cases stopping
  · rfl

/-- A thread that shuts the pool down returns when the workers are joined. -/
theorem caller_returns (d : Nat) (stopping : stops (p.callers d) = true)
    (entry : ∀ call, action = .call d call → call = .shutdown ∨ call = .destroy)
    (taken : ThreadPool.step n action p = some after) : stops (after.callers d) = true ∧
      (after.callers d = .outside → p.callers d = .outside ∨ after.joined = true) := by
  have elsewhere {c : Nat} {caller : ThreadPool.Caller} (here : p.callers c = caller) (other : stops caller = false) :
      d = c → False := by
    rintro rfl
    rw [here,other] at stopping
    cases stopping
  cases ThreadPool.step_move taken with
  | call c call here =>
    refine caller_update d stopping _ fun equal => ?_
    rcases entry call (by rw [equal]) with rfl | rfl
    · exact ⟨rfl,fun outside => by cases outside⟩
    · exact ⟨rfl,fun outside => by cases outside⟩
  | refused c here => exact caller_update d stopping _ fun equal => (elsewhere here rfl equal).elim
  | accepted c here => exact caller_update d stopping _ fun equal => (elsewhere here rfl equal).elim
  | idle c here => exact caller_update d stopping _ fun equal => (elsewhere here rfl equal).elim
  | sleep c here => exact caller_update d stopping _ fun equal => (elsewhere here rfl equal).elim
  | notifyOne c w here => exact caller_update d stopping _ fun equal => (elsewhere here rfl equal).elim
  | notifyNone c here => exact caller_update d stopping _ fun equal => (elsewhere here rfl equal).elim
  | spuriousCaller c here => exact caller_update d stopping _ fun equal => (elsewhere here rfl equal).elim
  | stop c discard here => exact caller_update d stopping _ fun _ => ⟨rfl,fun outside => by cases outside⟩
  | notifyAll c here => exact caller_update d stopping _ fun _ => ⟨rfl,fun outside => by cases outside⟩
  | lockJoin c here => exact caller_update d stopping _ fun _ => ⟨rfl,fun outside => by cases outside⟩
  | joinOne c k here => exact caller_update d stopping _ fun _ => ⟨rfl,fun outside => by cases outside⟩
  | joined c here free done => exact caller_update d stopping _ fun _ => ⟨rfl,fun _ => done⟩
  | joinedAll c k here all => exact caller_update d stopping _ fun _ => ⟨rfl,fun _ => rfl⟩
  | discard w below here =>
    have same := caller_wake d stopping
    exact ⟨(congrArg stops same).trans stopping,fun outside => .inl (same.symm.trans outside)⟩
  | account w task below here =>
    have same := caller_wake d stopping
    unfold ThreadPool.account
    split
    · exact ⟨(congrArg stops same).trans stopping,fun outside => .inl (same.symm.trans outside)⟩
    · exact ⟨stopping,.inl⟩
  | _ => exact ⟨stopping,.inl⟩

theorem submitting_stays (d : Nat) (here : p.callers d = .submitting) (other : action ≠ .enter d)
    (taken : ThreadPool.step n action p = some after) : after.callers d = .submitting := by
  have elsewhere {c : Nat} {caller : ThreadPool.Caller} (found : p.callers c = caller) (different : caller ≠ .submitting)
      (caller' : ThreadPool.Caller) : Function.update p.callers c caller' d = .submitting := by
    have apart : d ≠ c := by
      rintro rfl
      exact different (found.symm.trans here)
    rwa [Function.update_of_ne apart]
  have awake : (if p.callers d = .asleep then .waiting else p.callers d) = .submitting := by simp [here]
  cases ThreadPool.step_move taken with
  | refused c found =>
    have apart : d ≠ c := fun equal => other (by rw [equal])
    exact (Function.update_of_ne apart _ _).trans here
  | accepted c found =>
    have apart : d ≠ c := fun equal => other (by rw [equal])
    exact (Function.update_of_ne apart _ _).trans here
  | discard => exact awake
  | account =>
    unfold ThreadPool.account
    split
    · exact awake
    · exact here
  | call c call found => exact elsewhere found (by simp) _
  | idle c found => exact elsewhere found (by simp) _
  | sleep c found => exact elsewhere found (by simp) _
  | stop c discard found => exact elsewhere found (by simp) _
  | notifyOne c w found => exact elsewhere found (by simp) _
  | notifyNone c found => exact elsewhere found (by simp) _
  | notifyAll c found => exact elsewhere found (by simp) _
  | joined c found => exact elsewhere found (by simp) _
  | lockJoin c found => exact elsewhere found (by simp) _
  | joinOne c k found => exact elsewhere found (by simp) _
  | joinedAll c k found => exact elsewhere found (by simp) _
  | spuriousCaller c found => exact elsewhere found (by simp) _
  | _ => exact here

theorem joined_kept (taken : ThreadPool.step n action p = some after) (joined : p.joined = true) :
    after.joined = true := by
  cases ThreadPool.step_move taken with
  | joinedAll => rfl
  | account =>
    unfold ThreadPool.account
    split <;> exact joined
  | _ => exact joined

end Pool

/-! ### The two invariants -/

/-- The acceptor has left the loop before this part of `stop`. -/
def Stopper.pastAcceptor : Stopper → Bool
  | .shutting => true
  | .draining => true
  | .resetting => true
  | .notifying => true
  | .performed => true
  | _ => false

structure Wound (n : Nat) (s : Threads) : Prop where
  joins : ThreadPool.Joins n s.pool
  stopping : ∀ i, stops (s.pool.callers (i + 1)) = true
  entering : ∀ c, s.acceptor = .entering c → s.pool.callers 0 = .submitting
  exited : ∀ i, (s.stoppers i).pastAcceptor = true → s.acceptor = .exited
  drained : ∀ i, s.stoppers i = .draining ∨ s.stoppers i = .resetting → s.pool.callers (i + 1) = .outside →
    s.pool.joined = true
  finished : ∀ i, s.stoppers i = .notifying ∨ s.stoppers i = .performed → s.pool.joined = true

/-- A new task enters the queue with the connection that it is for. -/
theorem Tallied.enqueued (tallied : Tallied n cap s) {c : Nat} (here : s.acceptor = .entering c)
    (caller : s.pool.callers 0 = .submitting) (open_ : s.pool.stopping = false)
    (taken : ThreadPool.step n (.enter 0) s.pool = some pool) : Tallied n cap { s with
      acceptor := .notifying, connectionOf := Function.update s.connectionOf s.pool.accepted c, pool } := by
  have shape : pool.queue = s.pool.queue ++ [s.pool.accepted] ∧ pool.workers = s.pool.workers := by
    cases ThreadPool.step_move taken with
    | accepted => exact ⟨rfl,rfl⟩
    | refused _ _ stopped => rw [open_] at stopped; cases stopped
    | idle _ here => rw [caller] at here; cases here
    | sleep _ here => rw [caller] at here; cases here
    | stop _ _ here => rw [caller] at here; cases here
  have older : s.pool.queue.map (Function.update s.connectionOf s.pool.accepted c) =
      s.pool.queue.map s.connectionOf := by
    refine List.map_congr_left fun task queued => Function.update_of_ne ?_ _ _
    have below := tallied.accounts.tasks.subset (List.mem_append_right _ queued)
    exact (List.mem_range.mp below).ne
  refine ⟨tallied.accounts.step taken,tallied.draining.step (by simp) taken,?_,tallied.bounded,by simp,fun d => ?_,
    fun w going => ?_⟩
  · have tally := tallied.tally
    simp only [held,here,Acceptor.admitted,shape.1,List.length_append,List.length_singleton] at tally ⊢
    omega
  · have owned := tallied.owned d
    simp only [owners,here,Acceptor.holds,shape.1,List.map_append,older,List.map_cons,Function.update_self,
      List.map_nil,List.count_append,List.count_nil] at owned ⊢
    omega
  · obtain ⟨task,running⟩ := tallied.running w going
    exact ⟨task,by rw [shape.2]; exact running⟩

/-- A worker's look at the queue, from which it comes back with a task, or to sleep or to end. -/
theorem Tallied.looked (tallied : Tallied n cap s) {w : Nat} (taken : ThreadPool.step n (.look w) s.pool = some pool) :
    Tallied n cap (begin s w pool) := by
  have draining := tallied.draining.step (by simp) taken
  have accounts := tallied.accounts.step taken
  cases ThreadPool.step_move taken with
  | park _ inside here =>
    have kept : begin s w (s.pool.setWorker w .parked) = { s with pool := s.pool.setWorker w .parked } := by
      simp [begin,ThreadPool.State.setWorker]
    rw [kept]
    exact tallied.inPool accounts draining rfl (fun v task running _ => update_running (by simp [here]) v task running) _
  | leave _ inside here =>
    have kept : begin s w (s.pool.setWorker w .exited) = { s with pool := s.pool.setWorker w .exited } := by
      simp [begin,ThreadPool.State.setWorker]
    rw [kept]
    exact tallied.inPool accounts draining rfl (fun v task running _ => update_running (by simp [here]) v task running) _
  | discard _ inside here some_ stopped discarding =>
    rw [tallied.draining.kept] at discarding
    cases discarding
  | take _ task rest inside here queued =>
    have idle : s.stages w = .ended := by
      by_contra going
      obtain ⟨_,running⟩ := tallied.running w going
      rw [here] at running
      cases running
    have shape : begin s w { s.pool.setWorker w (.running task) with queue := rest, ran := s.pool.ran ++ [task] } =
        { s.setStage w (.opened (s.connectionOf task)) with
          pool := { s.pool.setWorker w (.running task) with queue := rest, ran := s.pool.ran ++ [task] } } := by
      simp [begin,ThreadPool.State.setWorker]
    rw [shape]
    refine ⟨accounts,draining,?_,tallied.bounded,tallied.room,fun c => ?_,fun v going => ?_⟩
    · have tally := tallied.tally
      have more := sum_stage Stage.handled s.stages (.opened (s.connectionOf task)) inside
      simp only [held,queued,List.length_cons,idle,Stage.handled,Threads.setStage] at tally more ⊢
      omega
    · have owned := tallied.owned c
      have more := sum_stage (fun stage => stage.holds.count c) s.stages (.opened (s.connectionOf task)) inside
      simp only [owners,queued,List.map_cons,idle,Stage.holds,Threads.setStage,List.count_cons,List.count_nil]
        at owned more ⊢
      omega
    · by_cases equal : v = w
      · exact ⟨task,by rw [equal]; exact Function.update_self ..⟩
      · simp only [Threads.setStage,Function.update_of_ne equal] at going
        obtain ⟨other,running⟩ := tallied.running v going
        exact ⟨other,(Function.update_of_ne equal _ _).trans running⟩

theorem Tallied.staged (tallied : Tallied n cap s) {w : Nat} {stage : Stage} {closed : List Nat} {inFlight : Int}
    (inside : w < n) (going : s.stages w ≠ .ended)
    (flight : inFlight + (s.stages w).handled = s.inFlight + stage.handled) (fewer : inFlight ≤ s.inFlight)
    (passed : ∀ c, closed.count c + stage.holds.count c = s.closed.count c + (s.stages w).holds.count c) :
    Tallied n cap { s.setStage w stage with closed, inFlight } := by
  refine ⟨tallied.accounts,tallied.draining,?_,fewer.trans tallied.bounded,
    fun c found => fewer.trans_lt (tallied.room c found),fun c => ?_,fun v still => ?_⟩
  · have tally := tallied.tally
    have moved := sum_stage Stage.handled s.stages stage inside
    simp only [held,Threads.setStage] at tally ⊢
    omega
  · have owned := tallied.owned c
    have moved := sum_stage (fun stage => stage.holds.count c) s.stages stage inside
    have passed := passed c
    simp only [owners,Threads.setStage] at owned ⊢
    omega
  · refine tallied.running v fun ended => ?_
    by_cases equal : v = w
    · exact going (equal ▸ ended)
    · exact still ((Function.update_of_ne equal _ _).trans ended)

/-- A call of the pool does not touch the queue. -/
theorem Tallied.called (tallied : Tallied n cap s) (c : Nat) (call : ThreadPool.Call)
    (gentle : ∀ d, ThreadPool.Action.call c call ≠ .call d .shutdownNow)
    (taken : ThreadPool.step n (.call c call) s.pool = some pool) (stoppers : Nat → Stopper) :
    Tallied n cap { s with pool, stoppers } := by
  have draining := tallied.draining.step gentle taken
  have accounts := tallied.accounts.step taken
  obtain rfl := call_quiet c call taken
  exact tallied.inPool accounts draining rfl (fun _ _ here _ => here) stoppers

theorem Tallied.refused (tallied : Tallied n cap s) {c : Nat} (here : s.acceptor = .entering c)
    (stopped : s.pool.stopping = true) (taken : ThreadPool.step n (.enter 0) s.pool = some pool) :
    Tallied n cap { s with acceptor := .failing c, pool } := by
  have quiet : pool.queue = s.pool.queue ∧ pool.workers = s.pool.workers := by
    cases ThreadPool.step_move taken with
    | accepted _ _ open_ => rw [open_] at stopped; cases stopped
    | _ => exact ⟨rfl,rfl⟩
  exact tallied.moved (tallied.accounts.step taken) (tallied.draining.step (by simp) taken) quiet.1
    (fun w _ here _ => by rwa [quiet.2]) rfl rfl (by simp [here,Acceptor.admitted]) tallied.bounded (by simp)
    (by simp [here,Acceptor.holds])

theorem Tallied.taskEnded (tallied : Tallied n cap s) {w : Nat} (here : s.stages w = .ended)
    (taken : ThreadPool.step n (.taskEnds w) s.pool = some pool) : Tallied n cap { s with pool } := by
  have draining := tallied.draining.step (by simp) taken
  have accounts := tallied.accounts.step taken
  cases ThreadPool.step_move taken with
  | taskEnds _ task inside running =>
    refine tallied.inPool accounts draining rfl (fun v other found going => ?_) _
    have apart : v ≠ w := by
      rintro rfl
      exact going here
    exact (Function.update_of_ne apart _ _).trans found

theorem Tallied.step (tallied : Tallied n cap s) (wound : Wound n s) (happens : Happens cap n s event next) :
    Tallied n cap next := by
  have bounded := tallied.bounded
  cases happens with
  | poll here | leave here | nothing here | submitted here =>
    exact tallied.acceptor rfl rfl rfl (by simp [here,Acceptor.admitted]) bounded (by simp)
      (by simp [here,Acceptor.holds])
  | accept here =>
    refine tallied.acceptor rfl rfl rfl (by simp [here,Acceptor.admitted]) bounded (by simp) fun c => ?_
    simp only [here,Acceptor.holds,List.range_succ,List.count_append,List.count_nil]
    omega
  | full c here | reject c here | throw c here | close c here =>
    exact tallied.acceptor rfl rfl rfl (by simp [here,Acceptor.admitted]) bounded (by simp)
      (by simp [here,Acceptor.holds])
  | room c here room =>
    exact tallied.acceptor rfl rfl rfl (by simp [here,Acceptor.admitted]) bounded
      (fun _ _ => room) (by simp [here,Acceptor.holds])
  | countIn c here =>
    have room := tallied.room c here
    exact tallied.acceptor rfl rfl rfl (by simp [here,Acceptor.admitted]) (by simp only; omega) (by simp)
      (by simp [here,Acceptor.holds])
  | release c here =>
    exact tallied.acceptor rfl rfl rfl (by simp [here,Acceptor.admitted]) (by simp only; omega) (by simp)
      (by simp [here,Acceptor.holds])
  | submit c pool here taken =>
    have called := tallied.called 0 .submit (by simp) taken s.stoppers
    exact called.acceptor rfl rfl rfl (by simp [here,Acceptor.admitted]) bounded (by simp)
      (by simp [here,Acceptor.holds])
  | refused c pool here stopped taken => exact tallied.refused here stopped taken
  | enqueued c pool here open_ taken => exact tallied.enqueued here (wound.entering c here) open_ taken
  | take w pool taken => exact tallied.looked taken
  | hangUp w c inside here =>
    exact tallied.staged inside (by simp [here]) (by simp [here,Stage.handled,Threads.setStage]) le_rfl
      fun d => by simp [here,Stage.holds]
  | decrement w inside here =>
    exact tallied.staged inside (by simp [here]) (by simp [here,Stage.handled]) (by omega)
      fun d => by simp [here,Stage.holds,Threads.setStage]
  | taskEnds w pool here taken => exact tallied.taskEnded here taken
  | pool action pool inside taken =>
    have gentle : ∀ c, action ≠ .call c .shutdownNow := by
      rintro c rfl
      cases inside
    obtain ⟨queue,running⟩ := internal_quiet inside wound.stopping taken
    exact tallied.inPool (tallied.accounts.step taken) (tallied.draining.step gentle taken) queue
      (fun w task here _ => running w task here) _
  | shutdown i pool here taken => exact tallied.called (i + 1) .shutdown (by simp) taken _
  | reset i pool here taken => exact tallied.called (i + 1) .destroy (by simp) taken _
  | _ => exact tallied.acceptor rfl rfl rfl rfl bounded tallied.room fun _ => rfl

theorem Wound.quiet (wound : Wound n s) (pool : next.pool = s.pool)
    (entering : ∀ c, next.acceptor = .entering c → s.acceptor = .entering c)
    (exited : ∀ i, (next.stoppers i).pastAcceptor = true → next.acceptor = .exited)
    (drained : ∀ i, next.stoppers i = .draining ∨ next.stoppers i = .resetting →
      s.stoppers i = .draining ∨ s.stoppers i = .resetting)
    (finished : ∀ i, next.stoppers i = .notifying ∨ next.stoppers i = .performed → s.pool.joined = true) :
    Wound n next where
  joins := pool ▸ wound.joins
  stopping := pool ▸ wound.stopping
  entering c here := by rw [pool]; exact wound.entering c (entering c here)
  exited := exited
  drained i here := by rw [pool]; exact wound.drained i (drained i here)
  finished i here := by rw [pool]; exact finished i here

theorem Wound.accepting (wound : Wound n s) (pool : next.pool = s.pool) (stoppers : next.stoppers = s.stoppers)
    (inLoop : s.acceptor ≠ .exited) (entering : ∀ c, next.acceptor ≠ .entering c) : Wound n next :=
  wound.quiet pool (fun c here => absurd here (entering c))
    (fun i past => absurd (wound.exited i (stoppers ▸ past)) inLoop) (fun i => by rw [stoppers]; exact id)
    fun i => by rw [stoppers]; exact wound.finished i

theorem Wound.stopper (wound : Wound n s) (i : Nat) (stopper : Stopper) (running : Bool)
    (past : stopper.pastAcceptor = true → s.acceptor = .exited)
    (early : stopper ≠ .draining ∧ stopper ≠ .resetting)
    (late : stopper = .notifying ∨ stopper = .performed → s.pool.joined = true) :
    Wound n { s.setStopper i stopper with running } := by
  refine wound.quiet rfl (fun _ => id) (fun j here => ?_) (fun j here => ?_) fun j here => ?_
  all_goals
    by_cases equal : j = i
    · simp only [Threads.setStopper,equal,Function.update_self] at here
      first
        | exact past here
        | exact absurd here (not_or.mpr early)
        | exact late here
    · simp only [Threads.setStopper,Function.update_of_ne equal] at here
      first
        | exact wound.exited j here
        | exact here
        | exact wound.finished j here

theorem Wound.pooled (wound : Wound n s) (action : ThreadPool.Action)
    (taken : ThreadPool.step n action s.pool = some next.pool)
    (entry : ∀ i call, action = .call (i + 1) call → call = .shutdown ∨ call = .destroy)
    (entering : ∀ c, next.acceptor = .entering c → next.pool.callers 0 = .submitting)
    (exited : ∀ i, (next.stoppers i).pastAcceptor = true → next.acceptor = .exited)
    (drained : ∀ i, next.stoppers i = .draining ∨ next.stoppers i = .resetting →
      next.pool.callers (i + 1) = .outside → s.stoppers i = .draining ∨ s.stoppers i = .resetting)
    (finished : ∀ i, next.stoppers i = .notifying ∨ next.stoppers i = .performed →
      s.stoppers i = .notifying ∨ s.stoppers i = .performed) : Wound n next where
  joins := wound.joins.step taken
  stopping i := (caller_returns (i + 1) (wound.stopping i) (entry i) taken).1
  entering := entering
  exited := exited
  drained i here returned := by
    rcases (caller_returns (i + 1) (wound.stopping i) (entry i) taken).2 returned with before | joined
    · exact joined_kept taken (wound.drained i (drained i here returned) before)
    · exact joined
  finished i here := joined_kept taken (wound.finished i (finished i here))

/-- No `stop` is past the acceptor while that has not left its loop. -/
theorem Wound.before (wound : Wound n s) (alive : s.acceptor ≠ .exited) (i : Nat)
    (past : (s.stoppers i).pastAcceptor = true) : next.acceptor = .exited :=
  absurd (wound.exited i past) alive

theorem Wound.looked (wound : Wound n s) {w : Nat} (taken : ThreadPool.step n (.look w) s.pool = some pool) :
    Wound n (begin s w pool) := by
  have kept : (begin s w pool).pool = pool ∧ (begin s w pool).acceptor = s.acceptor ∧
      (begin s w pool).stoppers = s.stoppers := by
    rw [begin]
    split <;> exact ⟨rfl,rfl,rfl⟩
  refine wound.pooled (.look w) (by rw [kept.1]; exact taken) (by simp) ?_ ?_ ?_ ?_
  · rw [kept.1,kept.2.1]
    exact fun c here => submitting_stays 0 (wound.entering c here) (by simp) taken
  · rw [kept.2.1,kept.2.2]
    exact wound.exited
  · rw [kept.2.2]
    exact fun _ here _ => here
  · rw [kept.2.2]
    exact fun _ => id

theorem Wound.shuts (wound : Wound n s) {i : Nat} (here : s.stoppers i = .shutting)
    (taken : ThreadPool.step n (.call (i + 1) .shutdown) s.pool = some pool) :
    Wound n { s.setStopper i .draining with pool } := by
  have gone := wound.exited i (by rw [here]; rfl)
  have called := call_quiet (i + 1) .shutdown taken
  refine wound.pooled _ taken (by simp) (fun c entering => ?_) (fun _ _ => gone) (fun j past returned => ?_)
    fun j late => ?_
  · rw [show s.acceptor = .entering c from entering] at gone
    cases gone
  · by_cases equal : j = i
    · rw [equal,show _ = pool.callers from rfl,called] at returned
      rw [show (s.pool.setCaller (i + 1) ThreadPool.Call.shutdown.entry).callers (i + 1) = .stopping false from
        Function.update_self ..] at returned
      cases returned
    · simpa only [Threads.setStopper,Function.update_of_ne equal] using past
  · by_cases equal : j = i
    · simp [Threads.setStopper,equal] at late
    · simpa only [Threads.setStopper,Function.update_of_ne equal] using late

theorem Wound.resets (wound : Wound n s) {i : Nat} (here : s.stoppers i = .draining)
    (taken : ThreadPool.step n (.call (i + 1) .destroy) s.pool = some pool) :
    Wound n { s.setStopper i .resetting with pool } := by
  have gone := wound.exited i (by rw [here]; rfl)
  refine wound.pooled _ taken (by simp) (fun c entering => ?_) (fun _ _ => gone) (fun j past returned => ?_)
    fun j late => ?_
  · rw [show s.acceptor = .entering c from entering] at gone
    cases gone
  · by_cases equal : j = i
    · exact .inl (equal ▸ here)
    · simpa only [Threads.setStopper,Function.update_of_ne equal] using past
  · by_cases equal : j = i
    · simp [Threads.setStopper,equal] at late
    · simpa only [Threads.setStopper,Function.update_of_ne equal] using late

theorem Wound.step (wound : Wound n s) (happens : Happens cap n s event next) : Wound n next := by
  cases happens with
  | poll here | nothing here | submitted here | leave here | accept here =>
    exact wound.accepting rfl rfl (by simp [here]) (by simp)
  | full c here | room c here | reject c here | countIn c here | throw c here | release c here | close c here =>
    exact wound.accepting rfl rfl (by simp [here]) (by simp)
  | submit c pool here taken =>
    refine wound.pooled _ taken (by simp) (fun _ _ => ?_) (wound.before (by simp [here])) (fun _ here _ => here)
      fun _ => id
    simp [call_quiet 0 .submit taken,ThreadPool.State.setCaller,ThreadPool.Call.entry]
  | refused c pool here stopped taken | enqueued c pool here open_ taken =>
    exact wound.pooled _ taken (by simp) (by simp) (wound.before (by simp [here])) (fun _ here _ => here) fun _ => id
  | take w pool taken => exact wound.looked taken
  | taskEnds w pool here taken =>
    exact wound.pooled _ taken (by simp) (fun c here => submitting_stays 0 (wound.entering c here) (by simp) taken)
      wound.exited (fun _ here _ => here) fun _ => id
  | pool action pool inside taken =>
    refine wound.pooled action taken ?_ (fun c here => submitting_stays 0 (wound.entering c here) ?_ taken)
      wound.exited (fun _ here _ => here) fun _ => id
    · rintro i call rfl
      cases inside
    · rintro rfl
      cases inside
  | shutdown i pool here taken => exact wound.shuts here taken
  | reset i pool here taken => exact wound.resets here taken
  | hangUp => exact wound.quiet rfl (fun _ => id) wound.exited (fun _ => id) wound.finished
  | decrement => exact wound.quiet rfl (fun _ => id) wound.exited (fun _ => id) wound.finished
  | stop i here => exact wound.stopper i .exchanging s.running (by simp [Stopper.pastAcceptor]) (by simp) (by simp)
  | exchange i here =>
    refine wound.stopper i _ false ?_ ?_ ?_ <;> split <;> simp [Stopper.pastAcceptor]
  | joinAcceptor i here gone => exact wound.stopper i .shutting s.running (fun _ => gone) (by simp) (by simp)
  | drained i here returned =>
    exact wound.stopper i .notifying s.running (fun _ => wound.exited i (by rw [here]; rfl)) (by simp)
      fun _ => wound.drained i (.inr here) returned
  | announce i here =>
    exact wound.stopper i .performed s.running (fun _ => wound.exited i (by rw [here]; rfl)) (by simp)
      fun _ => wound.finished i (.inl here)

/-! ### Every run -/

theorem poolSize_pos (config : ServerConfig) : 0 < poolSize config := Nat.le_max_left 1 _

theorem tallied_started (config : ServerConfig) :
    Tallied (poolSize config) (admissionCap config) started ∧ Wound (poolSize config) started := by
  have bounded : (0 : Int) ≤ admissionCap config := by
    rw [admissionCap]
    omega
  refine ⟨⟨.initial _,⟨rfl,rfl,fun _ => by simp [started]⟩,?_,bounded,by simp [started],fun c => ?_,?_⟩,
    ⟨.initial _,fun _ => rfl,by simp [started],?_,?_,?_⟩⟩
  · simp [started,held,Acceptor.admitted,Stage.handled]
  · simp [started,owners,Acceptor.holds,Stage.holds]
  · exact fun w going => absurd rfl going
  · exact fun i past => by cases past
  · exact fun i here => by rcases here with here | here <;> cases here
  · exact fun i here => by rcases here with here | here <;> cases here

/-- In every state the threads get into, the counter is that of the connections admitted and not
yet let go, within the cap, and no descriptor is closed twice. When the call of `stop` that
stopped the server has returned, the counter is zero and every descriptor is closed. -/
theorem connections_accounted (config : ServerConfig) (events : List Event) (s : Threads)
    (path : Transition.run (threadStep config) events started = some s) :
    s.inFlight = held (poolSize config) s ∧ s.inFlight ≤ max 1 config.maxPendingConnections.toInt ∧
      s.closed.Nodup ∧ ∀ i, s.stoppers i = .performed →
        s.inFlight = 0 ∧ s.closed.Perm (List.range s.connections) := by
  obtain ⟨tallied,wound⟩ := Transition.run_invariant (threadStep config)
    (fun s => Tallied (poolSize config) (admissionCap config) s ∧ Wound (poolSize config) s)
    (fun _ _ _ held taken => ⟨held.1.step held.2 (threadStep_happens taken),held.2.step (threadStep_happens taken)⟩)
    events started s path (tallied_started config)
  refine ⟨tallied.tally,tallied.bounded,?_,fun i performed => ?_⟩
  · refine List.nodup_iff_count_le_one.mpr fun c => ?_
    have once := List.nodup_iff_count_le_one.mp (List.nodup_range (n := s.connections)) c
    have owned := tallied.owned c
    omega
  · have gone := wound.exited i (by rw [performed]; rfl)
    have exited := wound.joins.joined (wound.finished i (.inr performed))
    have empty := (tallied.accounts.exited 0 (poolSize_pos config) (exited 0 (poolSize_pos config))).2
    have ended (w : Nat) (inside : w ∈ range (poolSize config)) : s.stages w = .ended := by
      by_contra going
      obtain ⟨task,running⟩ := tallied.running w going
      rw [exited w (mem_range.mp inside)] at running
      cases running
    refine ⟨?_,List.perm_iff_count.mpr fun c => ?_⟩
    · have none : ∑ w ∈ range (poolSize config), (s.stages w).handled = 0 :=
        sum_eq_zero fun w inside => by rw [ended w inside]; rfl
      have tally := tallied.tally
      simpa [held,gone,Acceptor.admitted,empty,none] using tally
    · have none : ∑ w ∈ range (poolSize config), (s.stages w).holds.count c = 0 :=
        sum_eq_zero fun w inside => by rw [ended w inside]; rfl
      have owned := tallied.owned c
      simpa [owners,gone,Acceptor.holds,empty,none] using owned

def oneWorker : ServerConfig := { workers := 1 }

/-- One connection is served, and the server is stopped while its closure ends. -/
def servedRun : List Event :=
  [.poll,.accept,.check,.countIn,.submit,.enqueue,.pool (.notifyOne 0 none),.submitted,.take 0,.hangUp 0,.stop 0,
    .exchange 0,.poll,.joinAcceptor 0,.decrement 0,.taskEnds 0,.pool (.account 0),.shutdown 0,.pool (.enter 1),
    .pool (.notifyAll 1),.take 0,.pool (.lockJoin 1),.pool (.join 1),.pool (.join 1),.reset 0,.pool (.enter 1),
    .pool (.notifyAll 1),.pool (.lockJoin 1),.drained 0,.announce 0]

theorem connections_accounted_servedRun : ∃ s, Transition.run (threadStep oneWorker) servedRun started = some s ∧
    s.connections = 1 ∧ s.inFlight = 0 ∧ s.closed.Perm (List.range s.connections) := by
  have ends : (Transition.run (threadStep oneWorker) servedRun started).isSome = true := by decide
  obtain ⟨s,path⟩ := Option.isSome_iff_exists.mp ends
  have seen : (Transition.run (threadStep oneWorker) servedRun started).map
      (fun s => (s.connections,s.stoppers 0)) = some (1,.performed) := by decide
  simp only [path,Option.map_some,Option.some.injEq,Prod.mk.injEq] at seen
  exact ⟨s,path,seen.1,(connections_accounted oneWorker servedRun s path).2.2.2 0 seen.2⟩

end TestForge.HttpServer
