import TestForge.ThreadPool
import Mathlib.Data.Finset.Card
import Mathlib.Data.Finset.Range

/-! Every accepted task is accounted for, and so is `pending_`. -/
namespace TestForge.ThreadPool

variable {n : Nat} {s next : State} {action : Action}

def Worker.busy : Worker → Bool
  | .running _ => true
  | .finishing _ => true
  | _ => false

/-- The workers that hold a task. -/
def busyWorkers (n : Nat) (workers : Nat → Worker) : Finset Nat :=
  (Finset.range n).filter fun w => (workers w).busy

/-- A worker whose step neither takes a task nor gives one back. -/
theorem busyWorkers_same (workers : Nat → Worker) (w : Nat) (worker : Worker)
    (same : worker.busy = (workers w).busy) :
    busyWorkers n (Function.update workers w worker) = busyWorkers n workers := by
  refine Finset.filter_congr fun v _ => ?_
  by_cases equal : v = w
  · subst equal
    rw [Function.update_self,same]
  · rw [Function.update_of_ne equal]

theorem busyWorkers_take (workers : Nat → Worker) (w : Nat) (worker : Worker) (inside : w < n)
    (before : (workers w).busy = false) (after : worker.busy = true) :
    (busyWorkers n (Function.update workers w worker)).card = (busyWorkers n workers).card + 1 := by
  have grown : busyWorkers n (Function.update workers w worker) =
      insert w (busyWorkers n workers) := by
    ext v
    by_cases equal : v = w
    · subst equal
      simp [busyWorkers,inside,after]
    · simp [busyWorkers,equal]
  rw [grown,Finset.card_insert_of_notMem (by simp [busyWorkers,before])]

theorem busyWorkers_give (workers : Nat → Worker) (w : Nat) (worker : Worker) (inside : w < n)
    (before : (workers w).busy = true) (after : worker.busy = false) :
    (busyWorkers n (Function.update workers w worker)).card + 1 = (busyWorkers n workers).card := by
  have shrunk : busyWorkers n (Function.update workers w worker) =
      (busyWorkers n workers).erase w := by
    ext v
    by_cases equal : v = w
    · subst equal
      simp [busyWorkers,after]
    · simp [busyWorkers,equal]
  rw [shrunk]
  exact Finset.card_erase_add_one (by simp [busyWorkers,inside,before])

theorem busyWorkers_wake (workers : Nat → Worker) :
    busyWorkers n (fun w => if workers w = .parked then .arriving else workers w) =
      busyWorkers n workers := by
  refine Finset.filter_congr fun w _ => ?_
  by_cases parked : workers w = .parked
  · simp [parked,Worker.busy]
  · simp [parked]

structure Accounts (n : Nat) (s : State) : Prop where
  pending : s.pending = s.queue.length + (busyWorkers n s.workers).card
  tasks : (s.ran ++ s.dropped ++ s.queue).Perm (List.range s.accepted)
  exited : ∀ w < n, s.workers w = .exited → s.stopping = true ∧ s.queue = []

theorem Accounts.initial (n : Nat) : Accounts n initial where
  pending := by
    have none : busyWorkers n ThreadPool.initial.workers = ∅ :=
      Finset.filter_eq_empty_iff.mpr fun w _ => by simp [ThreadPool.initial,Worker.busy]
    rw [none]
    rfl
  tasks := by simp [ThreadPool.initial]
  exited := by simp [ThreadPool.initial]

/-- A step that leaves tasks and workers as they are, but may set `stopping_`. -/
theorem Accounts.of_same (accounts : Accounts n s) (pending : next.pending = s.pending)
    (queue : next.queue = s.queue) (ran : next.ran = s.ran) (dropped : next.dropped = s.dropped)
    (accepted : next.accepted = s.accepted) (busy : busyWorkers n next.workers = busyWorkers n s.workers)
    (exited : ∀ w, next.workers w = .exited → s.workers w = .exited)
    (stopping : s.stopping = true → next.stopping = true) : Accounts n next := by
  refine ⟨?_,?_,fun w inside gone => ?_⟩
  · rw [pending,queue,busy]
    exact accounts.pending
  · rw [ran,dropped,queue,accepted]
    exact accounts.tasks
  · rw [queue]
    exact (accounts.exited w inside (exited w gone)).imp_left stopping

theorem update_exited {workers : Nat → Worker} {w : Nat} {worker : Worker} (going : worker ≠ .exited)
    (v : Nat) (gone : Function.update workers w worker v = .exited) : workers v = .exited := by
  by_cases equal : v = w
  · subst equal
    rw [Function.update_self] at gone
    exact absurd gone going
  · rwa [Function.update_of_ne equal] at gone

theorem Accounts.worker_moves (accounts : Accounts n s) (w : Nat) (worker : Worker)
    (same : worker.busy = (s.workers w).busy) (going : worker ≠ .exited) : Accounts n (s.setWorker w worker) :=
  accounts.of_same rfl rfl rfl rfl rfl (busyWorkers_same s.workers w worker same) (update_exited going) id

theorem Accounts.accepts (accounts : Accounts n s) (c : Nat) (open_ : s.stopping = false) :
    Accounts n { s.setCaller c .notifying with
      queue := s.queue ++ [s.accepted], pending := s.pending + 1, accepted := s.accepted + 1 } := by
  refine ⟨?_,?_,fun w inside gone => ?_⟩
  · show s.pending + 1 = ((s.queue ++ [s.accepted]).length : Int) + (busyWorkers n s.workers).card
    rw [accounts.pending,List.length_append,List.length_singleton]
    omega
  · show (s.ran ++ s.dropped ++ (s.queue ++ [s.accepted])).Perm (List.range (s.accepted + 1))
    rw [← List.append_assoc,List.range_succ]
    exact accounts.tasks.append_right _
  · have stopped := (accounts.exited w inside gone).1
    simp [open_] at stopped

theorem Accounts.discards (accounts : Accounts n s) (w : Nat) (idle : (s.workers w).busy = false)
    (stopped : s.stopping = true) : Accounts n ({ s.setWorker w .exited with
      queue := [], pending := s.pending - s.queue.length, dropped := s.dropped ++ s.queue } : State).wakeIdle := by
  refine ⟨?_,?_,fun v below gone => ⟨stopped,rfl⟩⟩
  · show s.pending - s.queue.length = (([] : List Nat).length : Int) +
      (busyWorkers n (Function.update s.workers w .exited)).card
    rw [busyWorkers_same s.workers w .exited idle.symm,accounts.pending,List.length_nil]
    omega
  · show (s.ran ++ (s.dropped ++ s.queue) ++ []).Perm (List.range s.accepted)
    rw [List.append_nil,← List.append_assoc]
    exact accounts.tasks

theorem Accounts.takes (accounts : Accounts n s) (w task : Nat) (rest : List Nat) (inside : w < n)
    (idle : (s.workers w).busy = false) (queued : s.queue = task :: rest) :
    Accounts n { s.setWorker w (.running task) with queue := rest, ran := s.ran ++ [task] } := by
  refine ⟨?_,?_,fun v below gone => ?_⟩
  · show s.pending = (rest.length : Int) +
      (busyWorkers n (Function.update s.workers w (.running task))).card
    rw [busyWorkers_take _ _ _ inside idle rfl,accounts.pending,queued,List.length_cons]
    omega
  · show (s.ran ++ [task] ++ s.dropped ++ rest).Perm (List.range s.accepted)
    have tasks := accounts.tasks
    rw [queued] at tasks
    refine List.Perm.trans ?_ tasks
    simp only [List.append_assoc,List.singleton_append]
    exact List.Perm.append_left _ List.perm_middle.symm
  · have gone := accounts.exited v below (update_exited (by simp) v gone)
    simp [queued] at gone

theorem Accounts.accounted (accounts : Accounts n s) (w : Nat) (inside : w < n)
    (held : (s.workers w).busy = true) : Accounts n (account s w) := by
  have given := busyWorkers_give s.workers w .arriving inside held rfl
  have counted : Accounts n (release s w) := by
    refine ⟨?_,accounts.tasks,fun v below gone =>
      accounts.exited v below (update_exited (by simp) v gone)⟩
    show s.pending - 1 = (s.queue.length : Int) +
      (busyWorkers n (Function.update s.workers w .arriving)).card
    rw [accounts.pending]
    omega
  unfold account
  split
  · exact counted.of_same rfl rfl rfl rfl rfl rfl (fun _ => id) id
  · exact counted

theorem Accounts.leaves (accounts : Accounts n s) (w : Nat) (idle : (s.workers w).busy = false)
    (empty : s.queue = []) (stopped : s.stopping = true) : Accounts n (s.setWorker w .exited) := by
  refine ⟨?_,accounts.tasks,fun v below gone => ⟨stopped,empty⟩⟩
  show s.pending = (s.queue.length : Int) +
    (busyWorkers n (Function.update s.workers w .exited)).card
  rw [busyWorkers_same s.workers w .exited idle.symm]
  exact accounts.pending

theorem Accounts.step (accounts : Accounts n s) (taken : step n action s = some next) :
    Accounts n next := by
  cases step_move taken with
  | accepted c here open_ => exact accounts.accepts c open_
  | discard w inside here some_ stopped discarding => exact accounts.discards w (by rw [here]; rfl) stopped
  | take w task rest inside here queued => exact accounts.takes w task rest inside (by rw [here]; rfl) queued
  | account w task inside here => exact accounts.accounted w inside (by rw [here]; rfl)
  | leave w inside here empty stopped => exact accounts.leaves w (by rw [here]; rfl) empty stopped
  | park w inside here empty open_ => exact accounts.worker_moves w .parked (by rw [here]; rfl) (by simp)
  | taskEnds w task inside here => exact accounts.worker_moves w (.finishing task) (by rw [here]; rfl) (by simp)
  | spuriousWorker w inside here => exact accounts.worker_moves w .arriving (by rw [here]; rfl) (by simp)
  | notifyOne c w here inside parked =>
    have moved := accounts.worker_moves w .arriving (by rw [parked]; rfl) (by simp)
    exact moved.of_same rfl rfl rfl rfl rfl rfl (fun _ => id) id
  | notifyAll c here =>
    refine accounts.of_same rfl rfl rfl rfl rfl (busyWorkers_wake s.workers) (fun w gone => ?_) id
    change (if _ then _ else _) = _ at gone
    split at gone
    next => contradiction
    next => exact gone
  | stop c discard here => exact accounts.of_same rfl rfl rfl rfl rfl rfl (fun _ => id) fun _ => rfl
  | _ => exact accounts.of_same rfl rfl rfl rfl rfl rfl (fun _ => id) id

/-- Without a call of `shutdownNow` nothing is dropped. -/
structure Draining (s : State) : Prop where
  kept : s.discardQueued = false
  dropped : s.dropped = []
  callers : ∀ c, s.callers c ≠ .stopping true

theorem Draining.moved (draining : Draining s) (c : Nat) (caller : Caller)
    (gentle : caller ≠ .stopping true) (kept : next.discardQueued = s.discardQueued)
    (dropped : next.dropped = s.dropped)
    (callers : next.callers = Function.update s.callers c caller) : Draining next := by
  refine ⟨kept.trans draining.kept,dropped.trans draining.dropped,fun d => ?_⟩
  rw [callers]
  by_cases equal : d = c
  · subst equal
    rwa [Function.update_self]
  · rw [Function.update_of_ne equal]
    exact draining.callers d

theorem Draining.wakeIdle (draining : Draining s) : Draining s.wakeIdle := by
  refine ⟨draining.kept,draining.dropped,fun c => ?_⟩
  show (if _ then _ else _) ≠ _
  split
  · simp
  · exact draining.callers c

theorem Draining.step (draining : Draining s) (gentle : ∀ c, action ≠ .call c .shutdownNow)
    (taken : ThreadPool.step n action s = some next) : Draining next := by
  cases step_move taken with
  | call c call here =>
    refine draining.moved c call.entry ?_ rfl rfl rfl
    cases call <;> simp [Call.entry] at gentle ⊢
  | stop c discard here =>
    have gently : discard = false := by
      cases discard with
      | false => rfl
      | true => exact absurd here (draining.callers c)
    refine ⟨gently,draining.dropped,fun d => ?_⟩
    by_cases equal : d = c
    · simp [State.setCaller,equal]
    · simpa [State.setCaller,equal] using draining.callers d
  | discard w inside here some_ stopped discarding => simp [draining.kept] at discarding
  | account w task inside here =>
    unfold account
    split
    · exact Draining.wakeIdle (s := release s w)
        ⟨draining.kept,draining.dropped,draining.callers⟩
    · exact ⟨draining.kept,draining.dropped,draining.callers⟩
  | refused c here stopped => exact draining.moved c _ (by simp) rfl rfl rfl
  | accepted c here open_ => exact draining.moved c _ (by simp) rfl rfl rfl
  | idle c here done => exact draining.moved c _ (by simp) rfl rfl rfl
  | sleep c here busy => exact draining.moved c _ (by simp) rfl rfl rfl
  | notifyOne c w here inside parked => exact draining.moved c _ (by simp) rfl rfl rfl
  | notifyNone c here awake => exact draining.moved c _ (by simp) rfl rfl rfl
  | notifyAll c here => exact draining.moved c _ (by simp) rfl rfl rfl
  | joined c here free done => exact draining.moved c _ (by simp) rfl rfl rfl
  | lockJoin c here free first => exact draining.moved c _ (by simp) rfl rfl rfl
  | joinOne c k here inside gone => exact draining.moved c _ (by simp) rfl rfl rfl
  | joinedAll c k here all => exact draining.moved c _ (by simp) rfl rfl rfl
  | spuriousCaller c here => exact draining.moved c _ (by simp) rfl rfl rfl
  | _ => exact ⟨draining.kept,draining.dropped,draining.callers⟩

/-- `stopping_` is never reset, and nothing is accepted behind it. -/
structure Closed (accepted : Nat) (s : State) : Prop where
  stopping : s.stopping = true
  accepted : s.accepted = accepted

theorem Closed.step {accepted : Nat} (closed : Closed accepted s)
    (taken : ThreadPool.step n action s = some next) : Closed accepted next := by
  cases step_move taken with
  | accepted c here open_ =>
    have stopping := closed.stopping
    simp [open_] at stopping
  | stop c discard here => exact ⟨rfl,closed.accepted⟩
  | account w task inside here =>
    unfold account
    split <;> exact ⟨closed.stopping,closed.accepted⟩
  | _ => exact ⟨closed.stopping,closed.accepted⟩

/-- Whoever joins goes on past a worker only when it has exited, and so does whoever comes
later. -/
structure Joins (n : Nat) (s : State) : Prop where
  partly : ∀ c k, s.callers c = .joining k → ∀ w < k, s.workers w = .exited
  joined : s.joined = true → ∀ w < n, s.workers w = .exited

theorem Joins.initial (n : Nat) : Joins n ThreadPool.initial :=
  ⟨fun _ _ joining => by simp [ThreadPool.initial] at joining,fun joined => by simp [ThreadPool.initial] at joined⟩

/-- A step after which the exited workers are still exited and nobody has joined more. -/
theorem Joins.of_same (joins : Joins n s) (joined : next.joined = s.joined)
    (callers : ∀ c k, next.callers c = .joining k → s.callers c = .joining k)
    (exited : ∀ w, s.workers w = .exited → next.workers w = .exited) : Joins n next :=
  ⟨fun c k joining w below => exited w (joins.partly c k (callers c k joining) w below),
    fun done w inside => exited w (joins.joined (joined ▸ done) w inside)⟩

theorem update_caller {callers : Nat → Caller} {c : Nat} {caller : Caller} (other : ∀ k, caller ≠ .joining k)
    (d k : Nat) (joining : Function.update callers c caller d = .joining k) : callers d = .joining k := by
  by_cases equal : d = c
  · rw [equal,Function.update_self] at joining
    exact absurd joining (other k)
  · rwa [Function.update_of_ne equal] at joining

theorem wake_joining {callers : Nat → Caller} (c k : Nat)
    (joining : (if callers c = .asleep then .waiting else callers c) = Caller.joining k) : callers c = .joining k := by
  split at joining
  · cases joining
  · exact joining

theorem update_gone {workers : Nat → Worker} {w : Nat} {worker : Worker} (going : workers w ≠ .exited) (v : Nat)
    (gone : workers v = .exited) : Function.update workers w worker v = .exited := by
  have other : v ≠ w := by
    rintro rfl
    exact going gone
  rwa [Function.update_of_ne other]

theorem Joins.step (joins : Joins n s) (taken : ThreadPool.step n action s = some next) : Joins n next := by
  cases step_move taken with
  | call c call here =>
    exact joins.of_same rfl (update_caller (by cases call <;> simp [Call.entry])) fun _ => id
  | notifyOne c w here inside parked =>
    exact joins.of_same rfl (update_caller (by simp)) (update_gone (by simp [parked]))
  | notifyAll c here =>
    refine joins.of_same rfl (update_caller (by simp)) fun w gone => ?_
    simp [State.wakeWorkers,State.setCaller,gone]
  | lockJoin c here free first =>
    refine ⟨fun d k joining w below => ?_,fun done => joins.joined done⟩
    by_cases equal : d = c
    · simp only [State.setCaller,equal,Function.update_self,Caller.joining.injEq] at joining
      omega
    · simp only [State.setCaller,Function.update_of_ne equal] at joining
      exact joins.partly d k joining w below
  | joinOne c k here inside gone =>
    refine ⟨fun d l joining w below => ?_,joins.joined⟩
    by_cases equal : d = c
    · simp only [State.setCaller,equal,Function.update_self,Caller.joining.injEq] at joining
      by_cases last : w = k
      · exact last ▸ gone
      · exact joins.partly c k here w (by omega)
    · simp only [State.setCaller,Function.update_of_ne equal] at joining
      exact joins.partly d l joining w below
  | joinedAll c k here all =>
    refine ⟨fun d l joining => joins.partly d l (update_caller (by simp) d l joining),fun _ w inside => ?_⟩
    exact joins.partly c k here w (by omega)
  | park w inside here empty open_ => exact joins.of_same rfl (fun _ _ => id) (update_gone (by simp [here]))
  | leave w inside here empty stopped => exact joins.of_same rfl (fun _ _ => id) (update_gone (by simp [here]))
  | discard w inside here some_ stopped discarding =>
    exact joins.of_same rfl wake_joining (update_gone (by simp [here]))
  | take w task rest inside here queued => exact joins.of_same rfl (fun _ _ => id) (update_gone (by simp [here]))
  | taskEnds w task inside here => exact joins.of_same rfl (fun _ _ => id) (update_gone (by simp [here]))
  | account w task inside here =>
    have kept (v : Nat) (gone : s.workers v = .exited) : Function.update s.workers w .arriving v = .exited :=
      update_gone (by simp [here]) v gone
    unfold account
    split
    · exact joins.of_same rfl wake_joining kept
    · exact joins.of_same rfl (fun _ _ => id) kept
  | spuriousWorker w inside here => exact joins.of_same rfl (fun _ _ => id) (update_gone (by simp [here]))
  | _ => exact joins.of_same rfl (update_caller (by simp)) fun _ => id

/-- What holds in every state a pool of the requested size gets into. -/
theorem pool_accounts (requested : Nat) (labels : List Action) (s : State)
    (path : Transition.run (step (workerCount requested)) labels initial = some s) :
    s.pending = s.queue.length + (busyWorkers (workerCount requested) s.workers).card ∧
    (s.ran ++ s.dropped ++ s.queue).Perm (List.range s.accepted) ∧
    (s.dropped ≠ [] → ∃ c, .call c .shutdownNow ∈ labels) ∧
    (s.stopping = true → ∀ more later,
      Transition.run (step (workerCount requested)) more s = some later →
      later.accepted = s.accepted) ∧
    ((∀ w < workerCount requested, s.workers w = .exited) →
      s.queue = [] ∧ s.pending = 0 ∧ (s.ran ++ s.dropped).Perm (List.range s.accepted)) := by
  have accounts := Transition.run_invariant (step (workerCount requested))
    (Accounts (workerCount requested)) (fun _ _ _ accounts taken => accounts.step taken)
    labels initial s path (.initial _)
  refine ⟨accounts.pending,accounts.tasks,fun lost => ?_,fun stopped more later onward => ?_,
    fun gone => ?_⟩
  · by_contra gentle
    simp only [not_exists] at gentle
    have draining := Transition.run_invariant_along (step (workerCount requested))
      (fun _ action => ∀ c, action ≠ .call c .shutdownNow) Draining
      (fun _ _ _ draining gentle taken => draining.step gentle taken) labels initial s
      (Transition.along_of_forall _ _ _ _ fun _ action member c equal => gentle c (equal ▸ member))
      path ⟨rfl,rfl,fun _ => by simp [initial]⟩
    exact lost draining.dropped
  · exact (Transition.run_invariant (step (workerCount requested)) (Closed s.accepted)
      (fun _ _ _ closed taken => closed.step taken) more s later onward ⟨stopped,rfl⟩).accepted
  · have empty := (accounts.exited 0 (Nat.le_max_left 1 requested)
      (gone 0 (Nat.le_max_left 1 requested))).2
    have none : busyWorkers (workerCount requested) s.workers = ∅ :=
      Finset.filter_eq_empty_iff.mpr fun w inside => by
        simp [gone w (Finset.mem_range.mp inside),Worker.busy]
    have pending := accounts.pending
    have tasks := accounts.tasks
    rw [none,empty] at pending
    rw [empty,List.append_nil] at tasks
    exact ⟨empty,pending,tasks⟩

/-- The only worker runs the first of two tasks when the second one is discarded. -/
def discardedRun : List Action :=
  [.call 0 .submit,.enter 0,.notifyOne 0 none,.call 0 .submit,.enter 0,.notifyOne 0 none,.look 0,
    .call 0 .shutdownNow,.enter 0,.notifyAll 0,.taskEnds 0,.account 0,.look 0]

theorem pool_accounts_discardedRun : ∃ s,
    Transition.run (step (workerCount 1)) discardedRun initial = some s ∧ s.dropped = [1] ∧
      s.queue = [] ∧ s.pending = 0 ∧ (s.ran ++ s.dropped).Perm (List.range s.accepted) := by
  have ends : (Transition.run (step (workerCount 1)) discardedRun initial).isSome = true := by
    decide
  obtain ⟨s,path⟩ := Option.isSome_iff_exists.mp ends
  have seen : (Transition.run (step (workerCount 1)) discardedRun initial).map (fun s =>
      (s.workers 0,s.dropped)) = some (.exited,[1]) := by
    decide
  simp only [path,Option.map_some,Option.some.injEq,Prod.mk.injEq] at seen
  have facts := pool_accounts 1 discardedRun s path
  refine ⟨s,path,seen.2,facts.2.2.2.2 fun w inside => ?_⟩
  have first : w = 0 := by
    simp only [workerCount] at inside
    omega
  rw [first,seen.1]

end TestForge.ThreadPool
