import TestForge.Interrupt

/-! The thread that calls `Commands::run`, with the watcher as the object it constructs, joins
and destroys, and the handlers of `main` around it. The watcher, the service and the runner are
those of `Interrupt`. -/
namespace TestForge.RunCommand

/-- As far as the handlers of `main` tell exceptions apart. -/
inductive Thrown where
  | configurationError
  | securityError
  | testForgeError
  | stdException
  | other
  deriving DecidableEq, Repr

def Thrown.escape : Thrown → Runner.Escape
  | .other => .other
  | _ => .stdException

def kUsageError : Nat := 2
def kFrameworkError : Nat := 3

def exitcodeOf : Thrown → Nat
  | .configurationError => kUsageError
  | .securityError => kUsageError
  | .testForgeError => kFrameworkError
  | .stdException => kFrameworkError
  | .other => kFrameworkError

/-- Where the thread is, from the call of `TestForgeService::run` on. -/
inductive Frame where
  | serving
  | joining (run : TestRun)
  /-- Returns from `Commands::run`: its locals are destroyed next. -/
  | leaving (code : Nat)
  /-- An exception leaves `Commands::run`: its locals are destroyed next. -/
  | unwinding (thrown : Thrown)
  | handling (thrown : Thrown)
  | exited (code : Nat)
  /-- `std::terminate` -/
  | terminated

def Frame.over : Frame → Bool
  | .exited _ => true
  | .terminated => true
  | _ => false

/-- `joinable` is that of `interruptWatcher`. Its thread may have ended: only a join clears it. -/
structure Process where
  inner : Interrupt.State := Interrupt.initial
  joinable : Bool := true
  frame : Frame := .serving

inductive Action where
  /-- A step of the watcher, the service or the runner. -/
  | inner (action : Interrupt.Action)
  | finish
  | join
  | rethrow (thrown : Thrown)
  | destroy
  | handle

/-- Steps of the thread itself in `Interrupt`. -/
def ofCommand : Interrupt.Action → Bool
  | .finish => true
  | .join => true
  | _ => false

/-- What the service threw is what its runner threw, or came from the report writer. -/
def throws (inner : Interrupt.State) (thrown : Thrown) : Bool :=
  match inner.service, inner.runner.main with
  | .threw, .threw escape => thrown.escape == escape
  | .threw, _ => true
  | _, _ => false

def step (plan : Runner.Plan) (action : Action) (s : Process) : Option Process :=
  match action, s.frame with
  | .inner action, frame =>
    if frame.over || ofCommand action then none
    else (Interrupt.step plan action s.inner).map fun inner => { s with inner }
  | .finish, .serving =>
    match s.inner.service with
    | .returned run => (Interrupt.step plan .finish s.inner).map fun inner =>
      { s with inner, frame := .joining run }
    | _ => none
  | .join, .joining run => (Interrupt.step plan .join s.inner).map fun inner =>
    { inner, joinable := false, frame := .leaving (Interrupt.exitStatus s.inner.signal run) }
  | .rethrow thrown, .serving =>
    if throws s.inner thrown then some { s with frame := .unwinding thrown } else none
  -- the destructor of a joinable thread terminates
  | .destroy, .leaving code => some { s with frame := if s.joinable then .terminated else .exited code }
  | .destroy, .unwinding thrown =>
    some { s with frame := if s.joinable then .terminated else .handling thrown }
  | .handle, .handling thrown => some { s with frame := .exited (exitcodeOf thrown) }
  | _, _ => none

/-- Where the thread is, beside what it has joined and what the service has done. -/
def Standing (s : Process) : Prop :=
  match s.frame with
  | .serving => s.joinable = true ∧ (s.inner.command = .serving ∨ s.inner.command = .terminated)
  | .joining run => s.joinable = true ∧ s.inner.command = .joining run
  | .leaving code => s.joinable = false ∧ s.inner.watcher = .done ∧ s.inner.command = .exited code
  | .exited code => s.joinable = false ∧ s.inner.watcher = .done ∧ s.inner.command = .exited code
  | .unwinding _ => s.joinable = true ∧ s.inner.command = .terminated
  | .terminated => s.joinable = true ∧ s.inner.command = .terminated
  | .handling _ => False

/-- The watcher is stopped and joined, and an exception of the service is reported. -/
def EndsCleanly (s : Process) : Prop :=
  s.joinable = false ∧ s.inner.watcher = .done ∧
    ∃ code, s.frame = .exited code ∧ (s.inner.service = .threw → code = kFrameworkError)

variable {plan : Runner.Plan}

/-- What the steps of the other threads leave to the one that serves. -/
theorem inner_step {action : Interrupt.Action} {inner next : Interrupt.State} (linked : Interrupt.Linked inner)
    (others : ofCommand action = false) (taken : Interrupt.step plan action inner = some next) :
    (next.command = inner.command ∨ inner.command = .serving ∧ next.command = .terminated) ∧
      (inner.watcher = .done → next.watcher = .done) := by
  cases Interrupt.step_move taken with
  | look here | poll here | acquire here | release here | tooEarlyOrLate here _ =>
    exact ⟨.inl rfl,fun done => by simp [here] at done⟩
  | request _ here => exact ⟨.inl rfl,fun done => by simp [here] at done⟩
  | retireThrowing here =>
    refine ⟨.inr ⟨?_,rfl⟩,id⟩
    unfold Interrupt.Linked at linked
    cases command : inner.command <;> simp_all
  | finish => cases others
  | join => cases others
  | _ => exact ⟨.inl rfl,id⟩

theorem join_done {inner next : Interrupt.State} (taken : Interrupt.step plan .join inner = some next) :
    inner.watcher = .done ∧ ∃ run, inner.command = .joining run ∧
      next = { inner with command := .exited (Interrupt.exitStatus inner.signal run) } := by
  cases watcher : inner.watcher <;> cases command : inner.command <;>
    simp only [Interrupt.step,watcher,command,reduceCtorEq] at taken
  next run =>
    cases taken
    exact ⟨rfl,run,rfl,rfl⟩

theorem command_terminated {inner : Interrupt.State} (linked : Interrupt.Linked inner) :
    inner.command = .terminated ↔ inner.service = .threw := by
  unfold Interrupt.Linked at linked
  cases service : inner.service <;> cases command : inner.command <;> simp_all

theorem throws_threw {inner : Interrupt.State} {thrown : Thrown} (threw : throws inner thrown = true) :
    inner.service = .threw := by
  unfold throws at threw
  split at threw
  case h_1 here _ => exact here
  case h_2 here _ => exact here
  case h_3 => cases threw

/-- The steps of the other threads leave the serving thread where it stands. -/
theorem Standing.inner {action : Interrupt.Action} {s : Process} {inner : Interrupt.State} (standing : Standing s)
    (linked : Interrupt.Linked s.inner) (others : ofCommand action = false)
    (moved : Interrupt.step plan action s.inner = some inner) : Standing { s with inner } := by
  obtain ⟨command,watcher⟩ := inner_step linked others moved
  have stays {ending : Interrupt.Command} (reached : s.inner.command = ending) (beyond : ending ≠ .serving) :
      inner.command = ending := by
    rcases command with same | ⟨serving,-⟩
    · exact same.trans reached
    · exact absurd (reached.symm.trans serving) beyond
  unfold Standing at standing ⊢
  cases frame : s.frame <;> simp only [frame] at standing ⊢
  case serving =>
    refine ⟨standing.1,?_⟩
    rcases command with same | ⟨-,ended⟩
    · exact same ▸ standing.2
    · exact .inr ended
  case joining => exact ⟨standing.1,stays standing.2 nofun⟩
  case leaving => exact ⟨standing.1,watcher standing.2.1,stays standing.2.2 nofun⟩
  case exited => exact ⟨standing.1,watcher standing.2.1,stays standing.2.2 nofun⟩
  case unwinding => exact ⟨standing.1,stays standing.2 nofun⟩
  case terminated => exact ⟨standing.1,stays standing.2 nofun⟩

theorem Standing.step {action : Action} {s next : Process} (linked : Interrupt.Linked s.inner) (standing : Standing s)
    (taken : RunCommand.step plan action s = some next) : Standing next := by
  unfold RunCommand.step at taken
  split at taken
  case h_1 action frame here =>
    split at taken
    · cases taken
    · next alive =>
      rw [Bool.or_eq_true,not_or,Bool.not_eq_true,Bool.not_eq_true] at alive
      obtain ⟨inner,moved,rfl⟩ := Option.map_eq_some_iff.mp taken
      exact standing.inner linked alive.2 moved
  case h_2 here =>
    split at taken
    · next run service =>
      obtain ⟨inner,moved,rfl⟩ := Option.map_eq_some_iff.mp taken
      unfold Standing at standing ⊢
      simp only [here] at standing ⊢
      cases Interrupt.step_move moved with
      | finish joined found =>
        obtain rfl := Interrupt.Service.returned.inj (found.symm.trans service)
        exact ⟨standing.1,rfl⟩
    · cases taken
  case h_3 run here =>
    obtain ⟨inner,moved,rfl⟩ := Option.map_eq_some_iff.mp taken
    unfold Standing at standing ⊢
    simp only [here] at standing ⊢
    obtain ⟨done,ended,found,rfl⟩ := join_done moved
    obtain rfl := Interrupt.Command.joining.inj (found.symm.trans standing.2)
    exact ⟨trivial,done,rfl⟩
  case h_4 thrown here =>
    split at taken <;> cases taken
    next threw =>
      unfold Standing at standing ⊢
      simp only [here] at standing ⊢
      exact ⟨standing.1,(command_terminated linked).mpr (throws_threw threw)⟩
  case h_5 code here =>
    cases taken
    unfold Standing at standing ⊢
    simp only [here] at standing
    simp only [standing.1,Bool.false_eq_true,if_false]
    exact standing.imp_left fun _ => trivial
  case h_6 thrown here =>
    cases taken
    unfold Standing at standing ⊢
    simp only [here] at standing
    simp only [standing.1,if_true]
    exact standing.imp_left fun _ => trivial
  case h_7 thrown here =>
    unfold Standing at standing
    simp only [here] at standing
  case h_8 => cases taken

theorem Standing.initial : Standing {} := ⟨rfl,.inl rfl⟩

theorem inner_linked {action : Action} {s next : Process} (linked : Interrupt.Linked s.inner)
    (taken : RunCommand.step plan action s = some next) : Interrupt.Linked next.inner := by
  unfold RunCommand.step at taken
  split at taken
  case h_1 =>
    split at taken
    · cases taken
    · obtain ⟨inner,moved,rfl⟩ := Option.map_eq_some_iff.mp taken
      exact linked.step moved
  case h_2 =>
    split at taken
    · obtain ⟨inner,moved,rfl⟩ := Option.map_eq_some_iff.mp taken
      exact linked.step moved
    · cases taken
  case h_3 =>
    obtain ⟨inner,moved,rfl⟩ := Option.map_eq_some_iff.mp taken
    exact linked.step moved
  case h_4 => split at taken <;> cases taken; exact linked
  case h_5 => cases taken; exact linked
  case h_6 => cases taken; exact linked
  case h_7 => cases taken; exact linked
  case h_8 => cases taken

theorem standing_run {labels : List Action} {s : Process} (path : Transition.run (step plan) labels {} = some s) :
    Interrupt.Linked s.inner ∧ Standing s :=
  Transition.run_invariant (step plan) (fun s => Interrupt.Linked s.inner ∧ Standing s)
    (fun _ _ _ held taken => ⟨inner_linked held.1 taken,held.2.step held.1 taken⟩) labels {} s path ⟨trivial,.initial⟩

/-- The process ends as `Interrupt` says. -/
theorem over_command {s : Process} (standing : Standing s) (stopped : s.frame.over = true) :
    (∃ code, s.frame = .exited code ∧ s.inner.command = .exited code) ∨
      s.frame = .terminated ∧ s.inner.command = .terminated := by
  unfold Standing at standing
  cases frame : s.frame <;> simp only [frame] at standing stopped
  case exited code => exact .inl ⟨code,rfl,standing.2.2⟩
  case terminated => exact .inr ⟨rfl,standing.2⟩
  all_goals cases stopped

/-- Some handler of `main` would take what the service threw. -/
theorem throws_some {inner : Interrupt.State} (threw : inner.service = .threw) :
    ∃ thrown, throws inner thrown = true := by
  cases main : inner.runner.main with
  | threw escape =>
    cases escape with
    | stdException => exact ⟨.stdException,by simp [throws,threw,main,Thrown.escape]⟩
    | other => exact ⟨.other,by simp [throws,threw,main,Thrown.escape]⟩
  | _ => exact ⟨.other,by simp [throws,threw,main]⟩

/-- Past its escape an exception can only terminate the process. -/
theorem escape_terminates (s : Process) (linked : Interrupt.Linked s.inner) (standing : Standing s)
    (threw : s.inner.service = .threw) (alive : s.frame.over = false) :
    ∃ rest final, Transition.run (step plan) rest s = some final ∧ final.frame = .terminated := by
  have ended := (command_terminated linked).mpr threw
  unfold Standing at standing
  cases frame : s.frame <;> simp only [frame] at standing alive
  case serving =>
    obtain ⟨thrown,thrown_⟩ := throws_some threw
    refine ⟨[.rethrow thrown,.destroy],{ s with frame := .terminated },?_,rfl⟩
    simp [Transition.run,step,frame,thrown_,standing.1]
  case unwinding thrown =>
    refine ⟨[.destroy],{ s with frame := .terminated },?_,rfl⟩
    simp [Transition.run,step,frame,standing.1]
  case joining run => simp [ended] at standing
  case leaving code => simp [ended] at standing
  case exited code => cases alive
  case terminated => cases alive

/-- The process ends cleanly exactly when nothing escapes the service: what escapes destroys the
watcher unjoined. -/
theorem endsCleanly_iff (plan : Runner.Plan) (labels : List Action) (s : Process)
    (path : Transition.run (step plan) labels {} = some s) :
    (s.frame.over = true → (EndsCleanly s ↔ s.inner.service ≠ .threw)) ∧
      (s.inner.service = .threw → ¬EndsCleanly s ∧
        (s.frame.over = false → ∃ rest final, Transition.run (step plan) rest s = some final ∧
          final.frame = .terminated)) := by
  obtain ⟨linked,standing⟩ := standing_run path
  have escaped (clean : EndsCleanly s) : s.inner.service ≠ .threw := by
    obtain ⟨-,-,code,exited,-⟩ := clean
    intro threw
    have ended := (command_terminated linked).mpr threw
    rcases over_command standing (by rw [exited]; rfl) with ⟨_,-,command⟩ | ⟨terminated,-⟩
    · cases command.symm.trans ended
    · cases exited.symm.trans terminated
  refine ⟨fun stopped => ⟨escaped,fun calm => ?_⟩,fun threw => ⟨fun clean => escaped clean threw,fun alive =>
    escape_terminates s linked standing threw alive⟩⟩
  rcases over_command standing stopped with ⟨code,exited,-⟩ | ⟨-,ended⟩
  · unfold Standing at standing
    simp only [exited] at standing
    exact ⟨standing.1,standing.2.1,code,exited,fun threw => absurd threw calm⟩
  · exact absurd ((command_terminated linked).mp ended) calm

def escaped (s : Process) : Bool :=
  match s.inner.service with
  | .threw => true
  | _ => false

theorem escaped_iff {s : Process} : escaped s = true ↔ s.inner.service = .threw := by
  cases here : s.inner.service <;> simp [escaped,here]

/-- An observer throws as the run starts. -/
def observerThrows : List Action :=
  [.inner .publish,.inner (.runner (.start (some .stdException))),.inner .unwind,.inner .retire,
    .rethrow .testForgeError,.destroy]

theorem endsCleanly_iff_observerThrows : ∃ s, Transition.run (step Runner.oneTest) observerThrows {} = some s ∧
    s.frame.over = true ∧ ¬EndsCleanly s := by
  have ends : (Transition.run (step Runner.oneTest) observerThrows {}).map
      (fun s => (s.frame.over,escaped s)) = some (true,true) := by decide
  obtain ⟨s,path,seen⟩ := Option.map_eq_some_iff.mp ends
  simp only [Prod.mk.injEq,escaped_iff] at seen
  exact ⟨s,path,seen.1,((endsCleanly_iff Runner.oneTest observerThrows s path).2 seen.2).1⟩

/-- The factory of the only test throws while the watcher has just looked for a signal. -/
def factoryThrows : List Action :=
  [.inner .look,.inner .poll,.inner .publish,.inner (.runner (.start none)),.inner (.runner .call),
    .inner (.runner (.task 0 .begin)),.inner (.runner (.task 0 (.observerStarted none))),
    .inner (.runner (.task 0 (.enter {}))),.inner (.runner (.task 0 (.create (.threw .other) {}))),
    .inner (.runner .advance),.inner .unwind,.inner .retire,.rethrow .other,.destroy]

def terminates (s : Process) : Bool :=
  match s.frame with
  | .terminated => true
  | _ => false

theorem factory_terminates : ∃ s, Transition.run (step Runner.oneTest) factoryThrows {} = some s ∧
    s.inner.service = .threw ∧ s.joinable = true ∧ s.frame = .terminated ∧ ¬EndsCleanly s := by
  have ends : (Transition.run (step Runner.oneTest) factoryThrows {}).map
      (fun s => (terminates s,escaped s,s.joinable)) = some (true,true,true) := by decide
  obtain ⟨s,path,seen⟩ := Option.map_eq_some_iff.mp ends
  simp only [Prod.mk.injEq,escaped_iff] at seen
  have terminated : s.frame = .terminated := by
    have ended := seen.1
    unfold terminates at ended
    split at ended
    · next here => exact here
    · cases ended
  refine ⟨s,path,seen.2.1,seen.2.2,terminated,?_⟩
  rintro ⟨-,-,code,exited,-⟩
  cases exited.symm.trans terminated

end TestForge.RunCommand
