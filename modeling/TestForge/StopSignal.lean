import TestForge.ConnectionAccounts

/-! Calls of `wait` and `waitFor` beside the threads of the server. `stop` clears `running`
without `stopMutex`, so its one notification can fall between a waiter's look at `running` and
the start of its wait. -/
namespace TestForge.HttpServer

open Settings

/-- A call of `wait`, or of `waitFor` where it is timed. -/
inductive Waiter where
  | outside
  | locking (timed : Bool)
  /-- With the mutex, before the predicate is tested. -/
  | looking (timed expired : Bool)
  /-- With the mutex: the server is running, and the wait has not begun. -/
  | unsatisfied (timed : Bool)
  | waiting (timed : Bool)
  | waking (timed expired : Bool)
  | returned (stopped : Bool)
  deriving DecidableEq, Repr

structure Waits where
  threads : Threads := started
  waiters : Nat → Waiter := fun _ => .outside
  stopMutex : Option Nat := none

inductive WaitEvent where
  | server (event : Event)
  | call (waiter : Nat) (timed : Bool)
  | lock (waiter : Nat)
  | look (waiter : Nat)
  | sleep (waiter : Nat)
  /-- Without a notification. -/
  | wake (waiter : Nat)
  | expire (waiter : Nat)

/-- `stopSignal.notify_all()` -/
def Waiter.notified : Waiter → Waiter
  | .waiting timed => .waking timed false
  | other => other

def Waits.setWaiter (s : Waits) (c : Nat) (waiter : Waiter) : Waits :=
  { s with waiters := Function.update s.waiters c waiter }

def notify (event : Event) (waiters : Nat → Waiter) : Nat → Waiter :=
  match event with
  | .announce _ => fun c => (waiters c).notified
  | _ => waiters

def waitStep (config : ServerConfig) (event : WaitEvent) (s : Waits) : Option Waits :=
  match event with
  | .server event => (threadStep config event s.threads).map fun threads =>
    { s with threads, waiters := notify event s.waiters }
  | .call c timed => if s.waiters c = .outside then some (s.setWaiter c (.locking timed)) else none
  | .lock c =>
    match s.waiters c,s.stopMutex with
    | .locking timed,none => some { s.setWaiter c (.looking timed false) with stopMutex := some c }
    | .waking timed expired,none => some { s.setWaiter c (.looking timed expired) with stopMutex := some c }
    | _,_ => none
  | .look c =>
    match s.waiters c with
    | .looking timed expired =>
      if s.threads.running = false then some { s.setWaiter c (.returned true) with stopMutex := none }
      else if expired then some { s.setWaiter c (.returned false) with stopMutex := none }
      else some (s.setWaiter c (.unsatisfied timed))
    | _ => none
  | .sleep c =>
    match s.waiters c with
    | .unsatisfied timed => some { s.setWaiter c (.waiting timed) with stopMutex := none }
    | _ => none
  | .wake c =>
    match s.waiters c with
    | .waiting timed => some (s.setWaiter c (.waking timed false))
    | _ => none
  | .expire c => if s.waiters c = .waiting true then some (s.setWaiter c (.waking true true)) else none

/-- Past the exchange, with the notification still in front of it. -/
def Stopper.pending : Stopper → Bool
  | .joining => true
  | .shutting => true
  | .draining => true
  | .resetting => true
  | .notifying => true
  | _ => false

/-- A call of `stop` has returned, a waiter waits, and no notification is to come. -/
def Missed (s : Waits) : Prop :=
  (∃ i, s.threads.stoppers i = .performed ∨ s.threads.stoppers i = .ignored) ∧
    (∃ c timed, s.waiters c = .waiting timed) ∧
      s.threads.running = false ∧ ∀ i, (s.threads.stoppers i).pending = false

/-- The thread with the mutex has seen the server running and does not wait yet. -/
def between (s : Waits) : Bool :=
  match s.stopMutex with
  | none => false
  | some c => match s.waiters c with
    | .unsatisfied _ => true
    | _ => false

/-- The notification of `stop` does not fall between a waiter's look and its wait. -/
def Timely (s : Waits) (event : WaitEvent) : Prop :=
  match event with
  | .server (.announce _) => between s = false
  | _ => True

instance (s : Waits) (event : WaitEvent) : Decidable (Timely s event) := by
  unfold Timely
  split <;> infer_instance

/-! ### One call stops the server -/

variable {config : ServerConfig}

/-- The call that stopped the server is one, and there is one when it is stopped. -/
structure Once (s : Threads) : Prop where
  up : s.running = true → ∀ i, (s.stoppers i).pending = false ∧ s.stoppers i ≠ .performed
  one : ∀ i j, (s.stoppers i).pending = true ∨ s.stoppers i = .performed →
    (s.stoppers j).pending = true ∨ s.stoppers j = .performed → i = j
  down : s.running = false → ∃ i, (s.stoppers i).pending = true ∨ s.stoppers i = .performed

theorem Once.setStopper (once : Once s) (i : Nat) (stopper : Stopper)
    (same : stopper.pending = true ∨ stopper = .performed ↔ (s.stoppers i).pending = true ∨ s.stoppers i = .performed) :
    Once (s.setStopper i stopper) := by
  have active (j : Nat) : ((s.setStopper i stopper).stoppers j).pending = true ∨
      (s.setStopper i stopper).stoppers j = .performed ↔
        (s.stoppers j).pending = true ∨ s.stoppers j = .performed := by
    by_cases equal : j = i
    · simp only [Threads.setStopper,equal,Function.update_self]
      exact same
    · simp only [Threads.setStopper,Function.update_of_ne equal]
  refine ⟨fun up j => ?_,fun j k one other => once.one j k ((active j).mp one) ((active k).mp other),fun down => ?_⟩
  · have idle := once.up up j
    have inactive : ¬(((s.setStopper i stopper).stoppers j).pending = true ∨
        (s.setStopper i stopper).stoppers j = .performed) := by
      rw [active j,idle.1]
      simp [idle.2]
    simpa [not_or] using inactive
  · obtain ⟨j,here⟩ := once.down down
    exact ⟨j,(active j).mpr here⟩

theorem Once.step (once : Once s) (happens : Happens cap n s event next) : Once next := by
  cases happens with
  | stop i here => exact once.setStopper i _ (by simp [here,Stopper.pending])
  | joinAcceptor i here => exact once.setStopper i _ (by simp [here,Stopper.pending])
  | drained i here => exact once.setStopper i _ (by simp [here,Stopper.pending])
  | announce i here => exact once.setStopper i _ (by simp [here,Stopper.pending])
  | shutdown i pool here =>
    have set := once.setStopper i .draining (by simp [here,Stopper.pending])
    exact ⟨set.up,set.one,set.down⟩
  | reset i pool here =>
    have set := once.setStopper i .resetting (by simp [here,Stopper.pending])
    exact ⟨set.up,set.one,set.down⟩
  | exchange i here =>
    by_cases up : s.running = true
    · rw [if_pos up]
      have mine (j : Nat) (active : ((s.setStopper i .joining).stoppers j).pending = true ∨
          (s.setStopper i .joining).stoppers j = .performed) : j = i := by
        by_contra equal
        simp only [Threads.setStopper,Function.update_of_ne equal] at active
        have idle := once.up up j
        rw [idle.1] at active
        simp [idle.2] at active
      refine ⟨fun risen => ?_,fun j k one other => (mine j one).trans (mine k other).symm,
        fun _ => ⟨i,.inl (by simp [Threads.setStopper,Stopper.pending])⟩⟩
      cases risen
    · rw [if_neg up]
      have set := once.setStopper i .ignored (by simp [here,Stopper.pending])
      refine ⟨fun risen => ?_,set.one,fun _ => set.down (Bool.eq_false_iff.mpr up)⟩
      cases risen
  | take w pool =>
    have kept : (begin s w pool).running = s.running ∧ (begin s w pool).stoppers = s.stoppers := by
      rw [begin]
      split <;> exact ⟨rfl,rfl⟩
    refine ⟨?_,?_,?_⟩
    · rw [kept.1,kept.2]
      exact once.up
    · rw [kept.2]
      exact once.one
    · rw [kept.1,kept.2]
      exact once.down
  | _ => exact ⟨once.up,once.one,once.down⟩

theorem Once.waitStep {event : WaitEvent} {s next : Waits} (once : Once s.threads)
    (taken : HttpServer.waitStep config event s = some next) : Once next.threads := by
  cases event with
  | server event =>
    obtain ⟨threads,step,rfl⟩ := Option.map_eq_some_iff.mp taken
    exact once.step (threadStep_happens step)
  | call | lock | look | sleep | wake | expire =>
    simp only [HttpServer.waitStep] at taken
    repeat' split at taken
    all_goals cases taken <;> exact once

theorem Once.started : Once started :=
  ⟨fun _ _ => ⟨rfl,by simp [HttpServer.started]⟩,by simp [HttpServer.started,Stopper.pending],fun down => nomatch down⟩

/-! ### Who waits -/

/-- Has seen the server running, and is on its way into the wait or in it. -/
def Waiter.listens : Waiter → Bool
  | .unsatisfied _ => true
  | .waiting _ => true
  | _ => false

/-- Holds the mutex. -/
def Waiter.inside : Waiter → Bool
  | .looking _ _ => true
  | .unsatisfied _ => true
  | _ => false

/-- Whoever listens will still be notified, and the look is taken with the mutex. -/
structure Heard (s : Waits) : Prop where
  once : Once s.threads
  mutex : ∀ c, s.stopMutex = some c ↔ (s.waiters c).inside = true
  notified : ∀ c, (s.waiters c).listens = true → s.threads.running = true ∨
    ∃ i, (s.threads.stoppers i).pending = true

theorem between_iff (heard : Heard s) : between s = false ↔ ∀ c timed, s.waiters c ≠ .unsatisfied timed := by
  rw [between]
  cases held : s.stopMutex with
  | none =>
    refine iff_of_true rfl fun c timed here => ?_
    rw [(heard.mutex c).mpr (by rw [here]; rfl)] at held
    cases held
  | some d =>
    constructor
    · intro clear c timed here
      obtain rfl := Option.some.inj (((heard.mutex c).mpr (by rw [here]; rfl)).symm.trans held)
      simp [here] at clear
    · intro none
      simp only
      split
      · next timed here => exact absurd here (none d timed)
      · rfl

theorem still_pending (happens : Happens cap n s event next) (silent : ∀ i, event ≠ .announce i)
    (before : s.running = true ∨ ∃ i, (s.stoppers i).pending = true) :
    next.running = true ∨ ∃ i, (next.stoppers i).pending = true := by
  have moved (j : Nat) (stopper : Stopper) (pending : stopper.pending = true ∨ (s.stoppers j).pending = false) :
      s.running = true ∨ ∃ i, ((s.setStopper j stopper).stoppers i).pending = true := by
    rcases before with up | ⟨i,here⟩
    · exact .inl up
    · refine .inr ⟨i,?_⟩
      by_cases equal : i = j
      · rw [equal] at here
        rw [here] at pending
        simpa [Threads.setStopper,equal] using pending
      · simpa [Threads.setStopper,Function.update_of_ne equal] using here
  cases happens with
  | announce i => exact absurd rfl (silent i)
  | stop i here => exact moved i _ (by simp [here,Stopper.pending])
  | joinAcceptor i here => exact moved i _ (by simp [Stopper.pending])
  | shutdown i pool here => exact moved i .draining (by simp [Stopper.pending])
  | reset i pool here => exact moved i .resetting (by simp [Stopper.pending])
  | drained i here => exact moved i _ (by simp [Stopper.pending])
  | exchange i here =>
    by_cases up : s.running = true
    · exact .inr ⟨i,by simp [Threads.setStopper,up,Stopper.pending]⟩
    · rw [if_neg up]
      exact .inr ((moved i .ignored (by simp [here,Stopper.pending])).resolve_left up)
  | take w pool =>
    rw [begin]
    split <;> exact before
  | _ => exact before

theorem Heard.waiter (heard : Heard s) (c : Nat) (waiter : Waiter) (stopMutex : Option Nat)
    (mutex : stopMutex = some c ↔ waiter.inside = true)
    (others : ∀ d, d ≠ c → (stopMutex = some d ↔ s.stopMutex = some d))
    (notified : waiter.listens = true → (s.waiters c).listens = true ∨ s.threads.running = true) :
    Heard { s.setWaiter c waiter with stopMutex } := by
  refine ⟨heard.once,fun d => ?_,fun d listens => ?_⟩
  all_goals
    by_cases equal : d = c
    · subst equal
      simp only [Waits.setWaiter,Function.update_self] at *
      first
        | exact mutex
        | exact (notified listens).elim (heard.notified d) .inl
    · simp only [Waits.setWaiter,Function.update_of_ne equal] at *
      first
        | exact (others d equal).trans (heard.mutex d)
        | exact heard.notified d listens

theorem Heard.keeps (heard : Heard s) (c : Nat) (waiter : Waiter) (same : waiter.inside = (s.waiters c).inside)
    (notified : waiter.listens = true → (s.waiters c).listens = true ∨ s.threads.running = true) :
    Heard (s.setWaiter c waiter) :=
  heard.waiter c waiter s.stopMutex (by rw [same]; exact heard.mutex c) (fun _ _ => Iff.rfl) notified

theorem Heard.leaves (heard : Heard s) (c : Nat) (waiter : Waiter) (held : (s.waiters c).inside = true)
    (outside : waiter.inside = false)
    (notified : waiter.listens = true → (s.waiters c).listens = true ∨ s.threads.running = true) :
    Heard { s.setWaiter c waiter with stopMutex := none } :=
  heard.waiter c waiter none (by simp [outside]) (fun d apart => by simp [(heard.mutex c).mpr held,apart.symm]) notified

theorem notified_inside {waiter : Waiter} : waiter.notified.inside = waiter.inside := by
  cases waiter <;> rfl

/-- Nobody listens after a notification that found nobody between look and wait. -/
theorem notified_deaf {waiter : Waiter} (waits : ∀ timed, waiter ≠ .unsatisfied timed) :
    waiter.notified.listens = false := by
  cases waiter with
  | unsatisfied timed => exact absurd rfl (waits timed)
  | _ => rfl

theorem Heard.step {event : WaitEvent} {s next : Waits} (heard : Heard s) (timely : Timely s event)
    (taken : waitStep config event s = some next) : Heard next := by
  cases event with
  | server event =>
    obtain ⟨threads,step,rfl⟩ := Option.map_eq_some_iff.mp taken
    have happens := threadStep_happens step
    cases event with
    | announce i =>
      have waits := (between_iff heard).mp timely
      refine ⟨heard.once.step happens,fun c => ?_,fun c listens => ?_⟩
      · exact (heard.mutex c).trans (by exact iff_of_eq (congrArg (· = true) notified_inside.symm))
      · exact absurd ((notified_deaf (waits c)).symm.trans listens) Bool.false_ne_true
    | _ => exact ⟨heard.once.step happens,heard.mutex,
        fun c listens => still_pending happens (fun _ => nofun) (heard.notified c listens)⟩
  | call c timed =>
    simp only [waitStep] at taken
    split at taken <;> cases taken
    next here => exact heard.keeps c _ (by rw [here]; rfl) nofun
  | lock c =>
    simp only [waitStep] at taken
    split at taken <;> cases taken
    all_goals
      next free =>
        exact heard.waiter c _ _ (iff_of_true rfl rfl) (fun d apart => by simp [free,apart.symm]) nofun
  | look c =>
    simp only [waitStep] at taken
    split at taken
    · next timed expired here =>
      have held : (s.waiters c).inside = true := by rw [here]; rfl
      split at taken
      · cases taken
        exact heard.leaves c _ held rfl nofun
      · next up =>
        split at taken <;> cases taken
        · exact heard.leaves c _ held rfl nofun
        · exact heard.keeps c _ held.symm fun _ => .inr (Bool.eq_true_of_not_eq_false up)
    · cases taken
  | sleep c =>
    simp only [waitStep] at taken
    split at taken <;> cases taken
    next timed here => exact heard.leaves c _ (by rw [here]; rfl) rfl fun _ => .inl (by rw [here]; rfl)
  | wake c =>
    simp only [waitStep] at taken
    split at taken <;> cases taken
    next timed here => exact heard.keeps c _ (by rw [here]; rfl) nofun
  | expire c =>
    simp only [waitStep] at taken
    split at taken <;> cases taken
    next here => exact heard.keeps c _ (by rw [here]; rfl) nofun

theorem Heard.initial : Heard {} := ⟨Once.started,fun _ => by simp [Waiter.inside],nofun⟩

theorem Heard.missed {s : Waits} (heard : Heard s) : ¬Missed s := by
  rintro ⟨-,⟨c,timed,here⟩,down,silent⟩
  rcases heard.notified c (by rw [here]; rfl) with up | ⟨i,pending⟩
  · exact absurd (up.symm.trans down) Bool.true_eq_false_eq_False
  · exact absurd (pending.symm.trans (silent i)) Bool.true_eq_false_eq_False

/-- No stop is missed while the notification falls on nobody between look and wait. -/
theorem no_stop_missed (config : ServerConfig) (events : List WaitEvent) (s : Waits)
    (path : Transition.run (waitStep config) events {} = some s)
    (timely : Transition.Along (waitStep config) Timely events {}) : ¬Missed s :=
  (Transition.run_invariant_along (waitStep config) Timely Heard
    (fun _ _ _ heard timely taken => heard.step timely taken) events {} s timely path Heard.initial).missed

theorem stopped_step {cap : Int} {n : Nat} {event : Event} {s next : Threads} (happens : Happens cap n s event next)
    (down : s.running = false) (silent : ∀ i, (s.stoppers i).pending = false) :
    (∀ i, event ≠ .announce i) ∧ next.running = false ∧ ∀ i, (next.stoppers i).pending = false := by
  have active {i : Nat} {stopper : Stopper} (here : s.stoppers i = stopper) (pending : stopper.pending = true) : False := by
    have quiet := silent i
    rw [here,pending] at quiet
    cases quiet
  have moved (i : Nat) (stopper : Stopper) (quiet : stopper.pending = false) (j : Nat) :
      ((s.setStopper i stopper).stoppers j).pending = false := by
    by_cases equal : j = i
    · simpa [Threads.setStopper,equal] using quiet
    · simpa [Threads.setStopper,Function.update_of_ne equal] using silent j
  cases happens with
  | joinAcceptor i here => exact (active here rfl).elim
  | shutdown i pool here => exact (active here rfl).elim
  | reset i pool here => exact (active here rfl).elim
  | drained i here => exact (active here rfl).elim
  | announce i here => exact (active here rfl).elim
  | stop i here => exact ⟨fun _ same => (by cases same),down,moved i _ rfl⟩
  | exchange i here => exact ⟨fun _ same => (by cases same),rfl,moved i _ (by rw [down]; rfl)⟩
  | take w pool =>
    rw [begin]
    split <;> exact ⟨fun _ same => (by cases same),down,silent⟩
  | _ => exact ⟨fun _ same => (by cases same),down,silent⟩

theorem silent_step {c : Nat} {timed : Bool} {event : WaitEvent} {s next : Waits}
    (taken : waitStep config event s = some next) (asleep : event ≠ .wake c ∧ event ≠ .expire c)
    (down : s.threads.running = false) (silent : ∀ i, (s.threads.stoppers i).pending = false)
    (waiting : s.waiters c = .waiting timed) : next.threads.running = false ∧
      (∀ i, (next.threads.stoppers i).pending = false) ∧ next.waiters c = .waiting timed := by
  have other {d : Nat} {before waiter : Waiter} (here : s.waiters d = before) (apart : before ≠ .waiting timed) :
      (s.setWaiter d waiter).waiters c = .waiting timed := by
    have different : c ≠ d := by
      rintro rfl
      exact apart (here.symm.trans waiting)
    simpa [Waits.setWaiter,Function.update_of_ne different] using waiting
  cases event with
  | server event =>
    obtain ⟨threads,step,rfl⟩ := Option.map_eq_some_iff.mp taken
    obtain ⟨quiet,down,silent⟩ := stopped_step (threadStep_happens step) down silent
    refine ⟨down,silent,?_⟩
    cases event with
    | announce i => exact absurd rfl (quiet i)
    | _ => exact waiting
  | wake d =>
    have different : c ≠ d := fun equal => asleep.1 (by rw [equal])
    simp only [waitStep] at taken
    split at taken <;> cases taken
    exact ⟨down,silent,by simpa [Waits.setWaiter,Function.update_of_ne different] using waiting⟩
  | expire d =>
    have different : c ≠ d := fun equal => asleep.2 (by rw [equal])
    simp only [waitStep] at taken
    split at taken <;> cases taken
    exact ⟨down,silent,by simpa [Waits.setWaiter,Function.update_of_ne different] using waiting⟩
  | call d timed' =>
    simp only [waitStep] at taken
    split at taken <;> cases taken
    next here => exact ⟨down,silent,other here nofun⟩
  | lock d =>
    simp only [waitStep] at taken
    split at taken <;> cases taken
    · next here _ => exact ⟨down,silent,other here nofun⟩
    · next here _ => exact ⟨down,silent,other here nofun⟩
  | look d =>
    simp only [waitStep,down,if_true] at taken
    split at taken <;> cases taken
    next here => exact ⟨down,silent,other here nofun⟩
  | sleep d =>
    simp only [waitStep] at taken
    split at taken <;> cases taken
    next here => exact ⟨down,silent,other here nofun⟩

/-- Beside a stopped server with no notification to come a waiter waits on, unless it wakes of
itself. -/
theorem waits_on {c : Nat} {timed : Bool} (events : List WaitEvent) (s final : Waits)
    (asleep : ∀ event ∈ events, event ≠ .wake c ∧ event ≠ .expire c)
    (path : Transition.run (waitStep config) events s = some final) (down : s.threads.running = false)
    (silent : ∀ i, (s.threads.stoppers i).pending = false) (waiting : s.waiters c = .waiting timed) :
    final.waiters c = .waiting timed := by
  induction events generalizing s with
  | nil =>
    obtain rfl : s = final := by simpa using path
    exact waiting
  | cons event rest ih =>
    obtain ⟨next,taken,path⟩ := (Transition.run_cons_some _ _ _ _ _).mp path
    have kept := silent_step taken (asleep event (by simp)) down silent waiting
    exact ih next (fun other member => asleep other (by simp [member])) path kept.1 kept.2.1 kept.2.2

/-! ### The lost wake-up -/

/-- `stop` of a server that has had no connection. -/
def idleStop : List Event :=
  [.stop 0,.exchange 0,.poll,.joinAcceptor 0,.shutdown 0,.pool (.enter 1),.pool (.notifyAll 1),.take 0,
    .pool (.lockJoin 1),.pool (.join 1),.pool (.join 1),.reset 0,.pool (.enter 1),.pool (.notifyAll 1),
    .pool (.lockJoin 1),.drained 0,.announce 0]

/-- The waiter sleeps before the server is stopped, and is woken. -/
def wokenRun : List WaitEvent :=
  [.call 0 false,.lock 0,.look 0,.sleep 0] ++ idleStop.map .server ++ [.lock 0,.look 0]

/-- The server is stopped between the waiter's look and its wait. -/
def lostRun : List WaitEvent :=
  [.call 0 false,.lock 0,.look 0] ++ idleStop.map .server ++ [.sleep 0]

theorem no_stop_missed_wokenRun : ∃ s, Transition.run (waitStep oneWorker) wokenRun {} = some s ∧
    s.waiters 0 = .returned true ∧ ¬Missed s := by
  have seen : (Transition.run (waitStep oneWorker) wokenRun {}).map (fun s => s.waiters 0) = some (.returned true) := by
    decide
  obtain ⟨s,path,woken⟩ := Option.map_eq_some_iff.mp seen
  exact ⟨s,path,woken,no_stop_missed oneWorker wokenRun s path (by decide)⟩

theorem stop_missed : ∃ s, Transition.run (waitStep oneWorker) lostRun {} = some s ∧ Missed s := by
  have seen : (Transition.run (waitStep oneWorker) lostRun {}).map
      (fun s => (s.waiters 0,s.threads.stoppers 0,s.threads.running)) = some (.waiting false,.performed,false) := by
    decide
  obtain ⟨s,path,shape⟩ := Option.map_eq_some_iff.mp seen
  simp only [Prod.mk.injEq] at shape
  refine ⟨s,path,⟨0,.inl shape.2.1⟩,⟨0,false,shape.1⟩,shape.2.2,fun i => ?_⟩
  have once : Once s.threads := Transition.run_invariant (waitStep oneWorker) (fun s => Once s.threads)
    (fun _ _ _ once taken => once.waitStep taken) lostRun {} s path Once.started
  by_contra pending
  have equal := once.one i 0 (.inl (Bool.eq_true_of_not_eq_false pending)) (.inr shape.2.1)
  rw [equal,shape.2.1] at pending
  exact pending rfl

end TestForge.HttpServer
