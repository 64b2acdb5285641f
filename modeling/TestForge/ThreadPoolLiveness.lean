import TestForge.ThreadPoolAccounting

/-! No wake-up is lost and no call of the pool is left behind. -/
namespace TestForge.ThreadPool

variable {n : Nat} {s next : State} {action : Action}

/-- Neither parked nor gone: the worker looks at the queue once more. -/
def Worker.awake : Worker → Bool
  | .parked => false
  | .exited => false
  | _ => true

/-- A notification of the workers is still to come. -/
def Caller.notifies : Caller → Bool
  | .notifying => true
  | .waking => true
  | _ => false

/-- Behind the section of a call of `shutdown` that sets `stopping_`. -/
def Caller.shuttingDown : Caller → Bool
  | .waking => true
  | .locking => true
  | .joining _ => true
  | _ => false

structure Live (n : Nat) (s : State) : Prop where
  served : s.queue ≠ [] → (∃ w < n, (s.workers w).awake = true) ∨ ∃ c, (s.callers c).notifies = true
  told : s.stopping = true → ∀ w < n, s.workers w = .parked → ∃ c, s.callers c = .waking
  asleep : ∀ c, s.callers c = .asleep → s.pending ≠ 0
  stopped : ∀ c, (s.callers c).shuttingDown = true → s.stopping = true
  holder : ∀ c, s.joinHolder = some c → ∃ k, s.callers c = .joining k

theorem Live.initial (n : Nat) : Live n initial where
  served := by simp [ThreadPool.initial]
  told := by simp [ThreadPool.initial]
  asleep := by simp [ThreadPool.initial]
  stopped := by simp [ThreadPool.initial,Caller.shuttingDown]
  holder := by simp [ThreadPool.initial]

/-- A thread that owes nobody a notification moves on. -/
theorem Live.caller_moves (live : Live n s) (c : Nat) (caller : Caller)
    (silent : (s.callers c).notifies = false) (busy : caller = .asleep → s.pending ≠ 0)
    (behind : caller.shuttingDown = true → s.stopping = true)
    (keeps : s.joinHolder = some c → ∃ k, caller = .joining k) : Live n (s.setCaller c caller) := by
  have other (d : Nat) (owes : (s.callers d).notifies = true) : d ≠ c := fun equal => by
    rw [equal,silent] at owes
    contradiction
  refine ⟨fun queued => ?_,fun stopped w inside parked => ?_,fun d => ?_,fun d => ?_,fun d held => ?_⟩
  · refine (live.served queued).imp_right fun ⟨d,owes⟩ => ⟨d,?_⟩
    simpa [State.setCaller,other d owes] using owes
  · obtain ⟨d,waking⟩ := live.told stopped w inside parked
    exact ⟨d,(Function.update_of_ne (other d (by rw [waking]; rfl)) _ _).trans waking⟩
  · by_cases equal : d = c
    · simpa [State.setCaller,equal] using busy
    · simpa [State.setCaller,equal] using live.asleep d
  · by_cases equal : d = c
    · simpa [State.setCaller,equal] using behind
    · simpa [State.setCaller,equal] using live.stopped d
  · by_cases equal : d = c
    · rw [equal] at held
      simpa [State.setCaller,equal] using keeps held
    · simpa [State.setCaller,equal] using live.holder d held

theorem Live.worker_moves (live : Live n s) (w : Nat) (worker : Worker) (inside : w < n)
    (awake : worker.awake = true) : Live n (s.setWorker w worker) := by
  refine ⟨fun _ => .inl ⟨w,inside,by simp [State.setWorker,awake]⟩,fun stopped v below parked => ?_,
    live.asleep,live.stopped,live.holder⟩
  by_cases equal : v = w
  · simp only [State.setWorker,equal,Function.update_self] at parked
    rw [parked] at awake
    contradiction
  · exact live.told stopped v below (by simpa [State.setWorker,equal] using parked)

/-- A worker that waits or leaves behind an empty queue. -/
theorem Live.worker_rests (live : Live n s) (w : Nat) (worker : Worker) (empty : s.queue = [])
    (told : worker = .parked → s.stopping = false) : Live n (s.setWorker w worker) := by
  refine ⟨fun queued => absurd empty queued,fun stopped v below parked => ?_,
    live.asleep,live.stopped,live.holder⟩
  by_cases equal : v = w
  · simp only [State.setWorker,equal,Function.update_self] at parked
    have going := told parked
    rw [show s.stopping = true from stopped] at going
    contradiction
  · exact live.told stopped v below (by simpa [State.setWorker,equal] using parked)

theorem wakeIdle_live (served : s.queue ≠ [] →
      (∃ w < n, (s.workers w).awake = true) ∨ ∃ c, (s.callers c).notifies = true)
    (told : s.stopping = true → ∀ w < n, s.workers w = .parked → ∃ c, s.callers c = .waking)
    (stopped : ∀ c, (s.callers c).shuttingDown = true → s.stopping = true)
    (holder : ∀ c, s.joinHolder = some c → ∃ k, s.callers c = .joining k) :
    Live n s.wakeIdle := by
  refine ⟨fun queued => ?_,fun going w inside parked => ?_,fun c sleeping => ?_,fun c down => ?_,
    fun c held => ?_⟩
  · refine (served queued).imp_right fun ⟨c,owes⟩ => ⟨c,?_⟩
    have awake : s.callers c ≠ .asleep := fun sleeping => by rw [sleeping] at owes; contradiction
    simpa [State.wakeIdle,awake] using owes
  · obtain ⟨c,waking⟩ := told going w inside parked
    exact ⟨c,by simp [State.wakeIdle,waking]⟩
  · by_cases sleeps : s.callers c = .asleep
    · simp [State.wakeIdle,sleeps] at sleeping
    · simp [State.wakeIdle,sleeps] at sleeping
  · by_cases sleeps : s.callers c = .asleep
    · simp [State.wakeIdle,sleeps,Caller.shuttingDown] at down
    · exact stopped c (by simpa [State.wakeIdle,sleeps] using down)
  · obtain ⟨k,joining⟩ := holder c held
    exact ⟨k,by simp [State.wakeIdle,joining]⟩

/-- With no worker parked and the queue not empty, some worker is awake. -/
theorem Accounts.some_awake (accounts : Accounts n s) (several : 0 < n) (queued : s.queue ≠ [])
    (none : ∀ w < n, s.workers w ≠ .parked) : ∃ w < n, (s.workers w).awake = true := by
  refine ⟨0,several,?_⟩
  have parked := none 0 several
  cases here : s.workers 0 with
  | parked => exact absurd here parked
  | exited => exact absurd (accounts.exited 0 several here).2 queued
  | _ => rfl

/-- A caller that moves leaves the others what they had, and itself comes to no `p`. -/
theorem caller_else {p : Caller → Prop} {c d : Nat} {caller : Caller} (now : p (Function.update s.callers c caller d))
    (never : ¬p caller) : p (s.callers d) := by
  have different : d ≠ c := by
    rintro rfl
    exact never (by simpa using now)
  rwa [Function.update_of_ne different] at now

theorem Live.holder_else (live : Live n s) {c d : Nat} {caller : Caller} (away : ∀ k, s.callers c ≠ .joining k)
    (held : s.joinHolder = some d) : ∃ k, Function.update s.callers c caller d = .joining k := by
  obtain ⟨k,joining⟩ := live.holder d held
  have different : d ≠ c := by
    rintro rfl
    exact away k joining
  exact ⟨k,(Function.update_of_ne different _ _).trans joining⟩

/-! ### The sections, one by one -/

theorem Live.accepts (accounts : Accounts n s) (live : Live n s) (c : Nat) (here : s.callers c = .submitting)
    (open_ : s.stopping = false) : Live n { s.setCaller c .notifying with
      queue := s.queue ++ [s.accepted], pending := s.pending + 1, accepted := s.accepted + 1 } := by
  refine ⟨fun _ => .inr ⟨c,by simp [State.setCaller,Caller.notifies]⟩,fun stopped => ?_,fun d asleep => ?_,
    fun d down => ?_,fun d held => ?_⟩
  · have stopped : s.stopping = true := stopped
    simp [open_] at stopped
  · have pending := accounts.pending
    show s.pending + 1 ≠ 0
    omega
  · exact live.stopped d (caller_else (p := fun caller => caller.shuttingDown = true) down (by simp [Caller.shuttingDown]))
  · exact live.holder_else (by simp [here]) held

theorem Live.stops (live : Live n s) (c : Nat) (discard : Bool) (here : s.callers c = .stopping discard) :
    Live n { s.setCaller c .waking with stopping := true, discardQueued := discard } := by
  refine ⟨fun _ => .inr ⟨c,by simp [State.setCaller,Caller.notifies]⟩,
    fun _ w inside parked => ⟨c,by simp [State.setCaller]⟩,fun d asleep => ?_,fun _ _ => rfl,
    fun d held => ?_⟩
  · exact live.asleep d (caller_else (p := (· = .asleep)) asleep (by simp))
  · exact live.holder_else (by simp [here]) held

theorem Live.wakesOne (live : Live n s) (c w : Nat) (here : s.callers c = .notifying) (inside : w < n) :
    Live n ((s.setWorker w .arriving).setCaller c .outside) := by
  have woken := live.worker_moves w .arriving inside rfl
  refine ⟨fun _ => .inl ⟨w,inside,by simp [State.setWorker,State.setCaller,Worker.awake]⟩,
    fun stopped v below still => ?_,fun d asleep => ?_,fun d down => ?_,fun d held => ?_⟩
  · obtain ⟨d,waking⟩ := woken.told stopped v below still
    have different : d ≠ c := fun equal => by
      rw [equal,show (s.setWorker w .arriving).callers c = s.callers c from rfl,here] at waking
      contradiction
    exact ⟨d,(Function.update_of_ne different _ _).trans waking⟩
  · exact live.asleep d (caller_else (p := (· = .asleep)) asleep (by simp))
  · exact live.stopped d (caller_else (p := fun caller => caller.shuttingDown = true) down (by simp [Caller.shuttingDown]))
  · exact live.holder_else (by simp [here]) held

/-- With no worker parked the notification is lost and not missed. -/
theorem Live.wakesNone (several : 0 < n) (accounts : Accounts n s) (live : Live n s) (c : Nat)
    (here : s.callers c = .notifying) (awake : ∀ w < n, s.workers w ≠ .parked) : Live n (s.setCaller c .outside) := by
  refine ⟨fun queued => .inl (accounts.some_awake several queued awake),
    fun _ w inside parked => absurd parked (awake w inside),fun d asleep => ?_,fun d down => ?_,
    fun d held => ?_⟩
  · exact live.asleep d (caller_else (p := (· = .asleep)) asleep (by simp))
  · exact live.stopped d (caller_else (p := fun caller => caller.shuttingDown = true) down (by simp [Caller.shuttingDown]))
  · exact live.holder_else (by simp [here]) held

theorem roused (s : State) (w : Nat) : s.wakeWorkers.workers w ≠ .parked ∧
    (s.wakeWorkers.workers w = .exited → s.workers w = .exited) := by
  simp only [State.wakeWorkers]
  split
  · simp
  · next awake => exact ⟨awake,id⟩

theorem Live.wakesAll (several : 0 < n) (accounts : Accounts n s) (live : Live n s) (c : Nat)
    (here : s.callers c = .waking) : Live n (s.wakeWorkers.setCaller c .locking) := by
  have stopping := live.stopped c (by rw [here]; rfl)
  refine ⟨fun queued => .inl ⟨0,several,?_⟩,fun _ w _ parked => absurd parked (roused s w).1,fun d asleep => ?_,
    fun _ _ => stopping,fun d held => ?_⟩
  · cases now : (s.wakeWorkers.setCaller c .locking).workers 0 with
    | parked => exact absurd now (roused s 0).1
    | exited => exact absurd (accounts.exited 0 several ((roused s 0).2 now)).2 queued
    | _ => rfl
  · exact live.asleep d (caller_else (p := (· = .asleep)) asleep (by simp))
  · exact live.holder_else (by simp [here]) held

theorem Live.locksJoin (live : Live n s) (c : Nat) (here : s.callers c = .locking) :
    Live n { s.setCaller c (.joining 0) with joinHolder := some c } := by
  have stopping := live.stopped c (by rw [here]; rfl)
  have moved := live.caller_moves c (.joining 0) (by rw [here]; rfl) (by simp) (fun _ => stopping) fun _ => ⟨0,rfl⟩
  refine ⟨moved.served,moved.told,moved.asleep,moved.stopped,fun d held => ?_⟩
  obtain rfl : c = d := Option.some.inj held
  exact ⟨0,by simp [State.setCaller]⟩

theorem Live.joinsAll (live : Live n s) (c k : Nat) (here : s.callers c = .joining k) :
    Live n { s.setCaller c .outside with joined := true, joinHolder := none } := by
  have moved := Live.caller_moves (s := { s with joinHolder := none })
    ⟨live.served,live.told,live.asleep,live.stopped,by simp⟩ c .outside
    (by show (s.callers c).notifies = false; rw [here]; rfl) (by simp) (by simp [Caller.shuttingDown])
    (by simp)
  exact ⟨moved.served,moved.told,moved.asleep,moved.stopped,moved.holder⟩

theorem Live.discards (live : Live n s) (w : Nat) :
    Live n ({ s.setWorker w .exited with
      queue := [], pending := s.pending - s.queue.length, dropped := s.dropped ++ s.queue } : State).wakeIdle := by
  refine wakeIdle_live (by simp) (fun going v below parked => ?_) live.stopped live.holder
  have different : v ≠ w := fun equal => by simp [State.setWorker,equal] at parked
  exact live.told going v below (by simpa [State.setWorker,different] using parked)

theorem Live.takes (live : Live n s) (w task : Nat) (rest : List Nat) (inside : w < n) :
    Live n { s.setWorker w (.running task) with queue := rest, ran := s.ran ++ [task] } := by
  have moved := live.worker_moves w (.running task) inside rfl
  exact ⟨fun _ => .inl ⟨w,inside,by simp [State.setWorker,Worker.awake]⟩,moved.told,moved.asleep,moved.stopped,moved.holder⟩

theorem Live.accounted (live : Live n s) (w : Nat) (inside : w < n) : Live n (account s w) := by
  have moved := live.worker_moves w .arriving inside rfl
  unfold account
  split
  next zero => exact wakeIdle_live moved.served moved.told moved.stopped moved.holder
  next busy => exact ⟨moved.served,moved.told,fun _ _ => busy,moved.stopped,moved.holder⟩

theorem Live.step (several : 0 < n) (accounts : Accounts n s) (live : Live n s)
    (taken : ThreadPool.step n action s = some next) : Live n next := by
  have free (c : Nat) (away : ∀ k, s.callers c ≠ .joining k) : s.joinHolder ≠ some c := fun held => by
    obtain ⟨k,joining⟩ := live.holder c held
    exact away k joining
  cases step_move taken with
  | call c call here =>
    refine live.caller_moves c call.entry (by rw [here]; rfl) (fun asleep => ?_) (fun down => ?_)
      fun held => absurd held (free c (by simp [here]))
    · cases call <;> simp [Call.entry] at asleep
    · cases call <;> simp [Call.entry,Caller.shuttingDown] at down
  | refused c here stopped =>
    exact live.caller_moves c _ (by rw [here]; rfl) (by simp) (by simp [Caller.shuttingDown])
      fun held => absurd held (free c (by simp [here]))
  | accepted c here open_ => exact live.accepts accounts c here open_
  | idle c here done =>
    exact live.caller_moves c _ (by rw [here]; rfl) (by simp) (by simp [Caller.shuttingDown])
      fun held => absurd held (free c (by simp [here]))
  | sleep c here busy =>
    exact live.caller_moves c _ (by rw [here]; rfl) (fun _ => busy) (by simp [Caller.shuttingDown])
      fun held => absurd held (free c (by simp [here]))
  | stop c discard here => exact live.stops c discard here
  | notifyOne c w here inside parked => exact live.wakesOne c w here inside
  | notifyNone c here awake => exact live.wakesNone several accounts c here awake
  | notifyAll c here => exact live.wakesAll several accounts c here
  | joined c here unheld done =>
    exact live.caller_moves c _ (by rw [here]; rfl) (by simp) (by simp [Caller.shuttingDown])
      fun held => by rw [unheld] at held; contradiction
  | lockJoin c here unheld first => exact live.locksJoin c here
  | joinOne c k here inside gone =>
    have stopping := live.stopped c (by rw [here]; rfl)
    exact live.caller_moves c _ (by rw [here]; rfl) (by simp) (fun _ => stopping) fun _ => ⟨k + 1,rfl⟩
  | joinedAll c k here all => exact live.joinsAll c k here
  | park w inside here empty open_ => exact live.worker_rests w _ empty fun _ => open_
  | leave w inside here empty stopped => exact live.worker_rests w _ empty (by simp)
  | discard w inside here some_ stopped discarding => exact live.discards w
  | take w task rest inside here queued => exact live.takes w task rest inside
  | taskEnds w task inside here => exact live.worker_moves w _ inside rfl
  | account w task inside here => exact live.accounted w inside
  | spuriousWorker w inside here => exact live.worker_moves w _ inside rfl
  | spuriousCaller c here =>
    exact live.caller_moves c _ (by rw [here]; rfl) (by simp) (by simp [Caller.shuttingDown])
      fun held => absurd held (free c (by simp [here]))

/-- The steps of the threads that are in the pool: nobody calls it, and a wait ends
with a notification only. -/
def Internal : Action → Prop
  | .call _ _ => False
  | .spuriousWorker _ => False
  | .spuriousCaller _ => False
  | _ => True

section Settled

variable (accounts : Accounts n s) (live : Live n s)
  (settled : Transition.Settled (step n) (fun _ => Internal) s)
include settled

/-- A settled pool has no notification to deliver, no worker at its first section and
no task under way. -/
theorem settled_quiet : (∀ c, (s.callers c).notifies = false) ∧
    ∀ w < n, (s.workers w).awake = false := by
  have workers (w : Nat) (inside : w < n) : (s.workers w).awake = false := by
    cases here : s.workers w with
    | arriving => simpa [step,inside,here] using settled (.look w) trivial
    | running task => simpa [step,inside,here] using settled (.taskEnds w) trivial
    | finishing task => simpa [step,inside,here] using settled (.account w) trivial
    | _ => rfl
  refine ⟨fun c => ?_,workers⟩
  cases here : s.callers c with
  | notifying =>
    by_cases parked : ∃ w < n, s.workers w = .parked
    · obtain ⟨w,inside,waits⟩ := parked
      simpa [step,here,notifyOne,inside,waits] using settled (.notifyOne c (some w)) trivial
    · have idle : ∀ w < n, s.workers w ≠ .parked := by simpa using parked
      have stuck := settled (.notifyOne c none) trivial
      simp only [step,if_pos here,notifyOne,if_pos idle] at stuck
      contradiction
  | waking => simpa [step,here] using settled (.notifyAll c) trivial
  | _ => rfl

include live

theorem settled_queue : s.queue = [] := by
  obtain ⟨silent,resting⟩ := settled_quiet settled
  by_contra queued
  rcases live.served queued with ⟨w,inside,awake⟩ | ⟨c,owes⟩
  · rw [resting w inside] at awake
    contradiction
  · rw [silent c] at owes
    contradiction

/-- With `stopping_` set nobody is parked, so every worker has left. -/
theorem settled_exited (stopped : s.stopping = true) (w : Nat) (inside : w < n) :
    s.workers w = .exited := by
  obtain ⟨silent,resting⟩ := settled_quiet settled
  have rests := resting w inside
  cases here : s.workers w with
  | parked =>
    obtain ⟨c,waking⟩ := live.told stopped w inside here
    have quiet := silent c
    rw [waking] at quiet
    contradiction
  | exited => rfl
  | _ => rw [here] at rests; contradiction

theorem settled_not_joining (c k : Nat) : s.callers c ≠ .joining k := by
  intro here
  have stopped := live.stopped c (by rw [here]; rfl)
  by_cases inside : k < n
  · have gone := settled_exited live settled stopped k inside
    simpa [step,here,inside,gone] using settled (.join c) trivial
  · simpa [step,here,inside] using settled (.join c) trivial

theorem settled_returned (c : Nat) :
    (s.callers c).shuttingDown = false ∧ ∀ discard, s.callers c ≠ .stopping discard := by
  obtain ⟨silent,_⟩ := settled_quiet settled
  have quiet := silent c
  cases here : s.callers c with
  | stopping discard => simpa [step,enter,here] using settled (.enter c) trivial
  | waking => rw [here] at quiet; contradiction
  | joining k => exact absurd here (settled_not_joining live settled c k)
  | locking =>
    have free : s.joinHolder = none := by
      cases held : s.joinHolder with
      | none => rfl
      | some d =>
        obtain ⟨k,joining⟩ := live.holder d held
        exact absurd joining (settled_not_joining live settled d k)
    have stuck := settled (.lockJoin c) trivial
    rw [step,if_pos ⟨here,free⟩] at stuck
    split at stuck <;> contradiction
  | _ => exact ⟨rfl,by simp⟩

end Settled

/-- In every state a pool gets into: while a task is queued, a caller of `waitIdle`
waits although `pending_` is zero, or a call that shuts the pool down has not returned,
some thread can take a step. -/
theorem pool_never_stuck (requested : Nat) (labels : List Action) (s : State)
    (path : Transition.run (step (workerCount requested)) labels initial = some s)
    (work : s.queue ≠ [] ∨
      (∃ c, (s.callers c = .waiting ∨ s.callers c = .asleep) ∧ s.pending = 0) ∨
      ∃ c, (s.callers c).shuttingDown = true ∨ ∃ discard, s.callers c = .stopping discard) :
    ∃ action, Internal action ∧ step (workerCount requested) action s ≠ none := by
  have several : 0 < workerCount requested := Nat.le_max_left 1 requested
  have live := (Transition.run_invariant (step (workerCount requested))
    (fun s => Accounts (workerCount requested) s ∧ Live (workerCount requested) s)
    (fun _ _ _ held taken => ⟨held.1.step taken,held.2.step several held.1 taken⟩)
    labels initial s path ⟨.initial _,.initial _⟩).2
  by_contra stuck
  have settled : Transition.Settled (step (workerCount requested)) (fun _ => Internal) s :=
    fun action internal => by_contra fun enabled => stuck ⟨action,internal,enabled⟩
  rcases work with queued | ⟨c,waits,zero⟩ | ⟨c,call⟩
  · exact queued (settled_queue live settled)
  · rcases waits with here | here
    · simpa [step,enter,here] using settled (.enter c) trivial
    · exact live.asleep c here zero
  · obtain ⟨returned,unstopped⟩ := settled_returned live settled c
    rcases call with down | ⟨discard,here⟩
    · rw [returned] at down
      contradiction
    · exact unstopped discard here

/-- A call of `shutdown` while the only worker waits. -/
theorem pool_never_stuck_parked : ∃ s,
    Transition.run (step (workerCount 1)) [.look 0,.call 0 .shutdown,.enter 0] initial = some s ∧
      ∃ action, Internal action ∧ step (workerCount 1) action s ≠ none := by
  refine ⟨_,rfl,pool_never_stuck 1 [.look 0,.call 0 .shutdown,.enter 0] _ rfl ?_⟩
  exact .inr (.inr ⟨0,.inl (by decide)⟩)

end TestForge.ThreadPool
