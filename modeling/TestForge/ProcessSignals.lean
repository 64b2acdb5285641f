import TestForge.ProcessCapture

/-! The signals and the reaping of a run, and what the caller of `ProcessRunner::run` gets. -/
namespace TestForge.ProcessRunner

/-! ### The calls of the parent -/

/-- All that the calls of the parent depend on. -/
structure Ledger where
  killSent : Bool
  hardKillSent : Bool
  killAt : Int
  reaped : Bool
  log : List Call

def State.ledger (s : State) : Ledger :=
  ⟨s.killSent,s.hardKillSent,s.killAt,s.reaped,s.log⟩

/-- One SIGTERM, one SIGKILL behind it and the reaping, each if it has happened. -/
def calls (terminated killed reaped : Bool) (first second : Int) : List Call :=
  (if terminated then [.terminate first] else []) ++ ((if killed then [.kill second] else []) ++
    if reaped then [.reap] else [])

theorem calls_sublist (terminated killed reaped : Bool) (first second : Int) :
    (calls terminated killed reaped first second).Sublist [.terminate first,.kill second,.reap] := by
  have single : ∀ (sent : Bool) (call : Call), (if sent then [call] else []).Sublist [call] := by
    intro sent call
    cases sent
    · exact List.nil_sublist _
    · exact List.Sublist.refl _
  exact (single terminated _).append ((single killed _).append (single reaped _))

theorem calls_kill {terminated killed reaped : Bool} {first second time : Int}
    (member : .kill time ∈ calls terminated killed reaped first second) : killed = true := by
  cases killed with
  | true => rfl
  | false => cases terminated <;> cases reaped <;> simp [calls] at member

theorem calls_terminate {terminated killed reaped : Bool} {first second : Int} (sent : terminated = true) :
    .terminate first ∈ calls terminated killed reaped first second := by
  rw [calls,if_pos sent]
  exact List.mem_cons_self

theorem calls_reap (terminated killed reaped : Bool) (first second : Int) :
    (calls terminated killed reaped first second).count .reap = if reaped then 1 else 0 := by
  cases terminated <;> cases killed <;> cases reaped <;> rfl

/-- The clock read `first` when SIGTERM was sent, and `second` when SIGKILL was. -/
structure Ledger.Told (ledger : Ledger) (grace first second : Int) : Prop where
  log : ledger.log = calls ledger.killSent ledger.hardKillSent ledger.reaped first second
  due : ledger.killSent = true → ledger.killAt = first + grace
  behind : ledger.hardKillSent = true → ledger.killSent = true ∧ first + grace ≤ second

namespace State

theorem setChannel_fate (s : State) (pipe : Pipe) (channel : Channel) :
    (s.setChannel pipe channel).child = s.child ∧ (s.setChannel pipe channel).waitStatus = s.waitStatus := by
  cases pipe <;> exact ⟨rfl,rfl⟩

theorem drained_fate (s : State) (options : ProcessOptions) (pipe : Pipe) (close : Bool) (following : Phase)
    (outcome : ReadResult) : (s.drained options pipe close following outcome).child = s.child ∧
      (s.drained options pipe close following outcome).waitStatus = s.waitStatus := by
  rw [drained]
  generalize drain options.maxOutputBytes s.capped (s.channel pipe) outcome = turned
  dsimp only
  cases turned.more with
  | none => exact s.setChannel_fate pipe turned.channel
  | some more => exact s.setChannel_fate pipe _

theorem setChannel_ledger (s : State) (pipe : Pipe) (channel : Channel) : (s.setChannel pipe channel).ledger = s.ledger := by
  cases pipe <;> rfl

theorem drained_ledger (s : State) (options : ProcessOptions) (pipe : Pipe) (close : Bool) (following : Phase)
    (outcome : ReadResult) : (s.drained options pipe close following outcome).ledger = s.ledger := by
  rw [drained]
  generalize drain options.maxOutputBytes s.capped (s.channel pipe) outcome = turned
  dsimp only
  cases turned.more with
  | none => exact s.setChannel_ledger pipe turned.channel
  | some more => exact s.setChannel_ledger pipe _

/-- SIGTERM comes first, then SIGKILL when the grace period is over; a child that was reaped gets neither. -/
theorem decided_told {s : State} {options : ProcessOptions} {first second : Int} (alive : s.reaped = false)
    (told : s.ledger.Told options.killGrace first second) :
    ∃ first second, (s.decided options).ledger.Told options.killGrace first second := by
  have log : s.log = calls s.killSent s.hardKillSent s.reaped first second := told.log
  rw [decided]
  split
  · next sending =>
    have unsent : s.killSent = false := by simpa using (Bool.and_eq_true_iff.mp sending).2
    have soft : s.hardKillSent = false := by
      cases hard : s.hardKillSent with
      | false => rfl
      | true => exact absurd (unsent.symm.trans (told.behind hard).1) (by decide)
    rw [unsent,soft,alive] at log
    refine ⟨s.clock,second,?_,fun _ => rfl,fun hard => ?_⟩
    · simp [State.ledger,log,soft,alive,calls]
    · exact absurd (soft.symm.trans hard) (by decide)
  · split
    · next sending =>
      simp only [Bool.and_eq_true,Bool.not_eq_true',decide_eq_true_eq] at sending
      obtain ⟨⟨sent,soft⟩,late⟩ := sending
      have grace : s.killAt = first + options.killGrace := told.due sent
      rw [sent,soft,alive] at log
      refine ⟨first,s.clock,?_,fun _ => grace,fun _ => ⟨sent,grace ▸ late⟩⟩
      simp [State.ledger,log,sent,alive,calls]
    · exact ⟨first,second,told⟩

end State

theorem initial_told (options : ProcessOptions) (now : Int) :
    (initial options now).ledger.Told options.killGrace 0 0 := by
  refine ⟨rfl,?_,?_⟩ <;> intro sent <;> cases sent

/-- The reaping is told last. -/
theorem Ledger.Told.reap {grace first second : Int} {s : State} (told : s.ledger.Told grace first second)
    (alive : s.reaped = false) :
    Ledger.Told ⟨s.killSent,s.hardKillSent,s.killAt,true,s.log ++ [.reap]⟩ grace first second := by
  have log : s.log = calls s.killSent s.hardKillSent s.reaped first second := told.log
  refine ⟨?_,told.due,told.behind⟩
  rw [alive] at log
  simp [log,calls]

theorem step_told {options : ProcessOptions} {before : Pipe → Bytes} {action : Action} {s next : State}
    (invariant : Invariant options before s) (taken : step options action s = some next)
    (known : ∃ first second, s.ledger.Told options.killGrace first second) :
    ∃ first second, next.ledger.Told options.killGrace first second := by
  have same : ∀ later : State, later.ledger = s.ledger →
      ∃ first second, later.ledger.Told options.killGrace first second := by
    intro later equal
    rw [equal]
    exact known
  obtain ⟨first,second,told⟩ := known
  cases step_moves taken with
  | write | release => exact same _ (s.setChannel_ledger _ _)
  | exit | tick | wait => exact same _ rfl
  | @poll outReady errReady _ =>
    obtain ⟨phase,equal⟩ := s.polled_phase outReady errReady
    rw [equal]
    exact same _ rfl
  | read => exact same _ (s.drained_ledger options _ _ _ _)
  | collect phase _ =>
    have alive : s.reaped = false := by
      rw [invariant.reaped,phase]
      rfl
    exact ⟨first,second,told.reap alive⟩
  | collectLate phase => exact absurd phase invariant.looped
  | decide phase =>
    have alive : s.reaped = false := by
      rw [invariant.reaped,phase]
      rfl
    exact State.decided_told alive told
  | leave phase =>
    have reaped : s.reaped = true := by
      rw [invariant.reaped,phase]
      rfl
    rw [State.left,if_pos reaped]
    exact same _ rfl

/-- What holds in every state of a run. -/
theorem run_told {options : ProcessOptions} {now : Int} {labels : List Action} {s : State}
    (path : Transition.run (step options) labels (initial options now) = some s) :
    Invariant options (fun _ => []) s ∧ ∃ first second, s.ledger.Told options.killGrace first second :=
  Transition.run_invariant (step options)
    (fun s => Invariant options (fun _ => []) s ∧ ∃ first second, s.ledger.Told options.killGrace first second)
    (fun action _ _ known taken => ⟨known.1.step action taken,step_told known.1 taken known.2⟩)
    labels _ s path ⟨Invariant.initial now,0,0,initial_told options now⟩

/-! ### Runs -/

/-- The child exits, and what it exited with is what it is reaped with. -/
theorem step_fate {options : ProcessOptions} {before : Pipe → Bytes} {action : Action} {s next : State}
    (invariant : Invariant options before s) (taken : step options action s = some next) :
    (next.child = s.child ∧ next.waitStatus = s.waitStatus) ∨
    (∃ status, action = .exit status ∧ next.child = .exited status) ∨
    ∃ status, s.child = .exited status ∧ next.child = .reaped status ∧ next.waitStatus = status := by
  cases step_moves taken with
  | write | release => exact .inl (s.setChannel_fate _ _)
  | exit => exact .inr (.inl ⟨_,rfl,rfl⟩)
  | tick | wait => exact .inl ⟨rfl,rfl⟩
  | @poll outReady errReady _ =>
    obtain ⟨phase,equal⟩ := s.polled_phase outReady errReady
    rw [equal]
    exact .inl ⟨rfl,rfl⟩
  | read => exact .inl (s.drained_fate options _ _ _ _)
  | collect _ exited => exact .inr (.inr ⟨_,exited,rfl,rfl⟩)
  | collectLate phase => exact absurd phase invariant.looped
  | decide => exact .inl (s.decided_same options).2.2
  | leave => exact .inl s.left_same.2.2

/-- What the exits of a run make of the child and of `waitStatus`. -/
structure Fated (labels : List Action) (s : State) : Prop where
  exited : ∀ status, s.child = .exited status → .exit status ∈ labels
  reaped : ∀ status, s.child = .reaped status → .exit status ∈ labels ∧ s.waitStatus = status

theorem Fated.initial (options : ProcessOptions) (now : Int) (labels : List Action) :
    Fated labels (initial options now) := by
  constructor <;> intro status gone <;> cases gone

theorem Fated.step {options : ProcessOptions} {before : Pipe → Bytes} {labels : List Action} {action : Action}
    {s next : State} (fated : Fated labels s) (invariant : Invariant options before s) (member : action ∈ labels)
    (taken : ProcessRunner.step options action s = some next) : Fated labels next := by
  rcases step_fate invariant taken with ⟨child,waitStatus⟩ | ⟨status,rfl,exits⟩ | ⟨status,exited,reaped,waitStatus⟩
  · constructor
    · exact fun status gone => fated.exited status (child.symm.trans gone)
    · intro status gone
      rw [waitStatus]
      exact fated.reaped status (child.symm.trans gone)
  · constructor
    · intro other gone
      cases exits.symm.trans gone
      exact member
    · intro other gone
      cases exits.symm.trans gone
  · constructor
    · intro other gone
      cases reaped.symm.trans gone
    · intro other gone
      cases reaped.symm.trans gone
      exact ⟨fated.exited status exited,waitStatus⟩

theorem run_fated {options : ProcessOptions} {now : Int} {labels : List Action} {s : State}
    (path : Transition.run (step options) labels (initial options now) = some s) : Fated labels s := by
  have along := Transition.along_of_forall (step options) (fun _ action => action ∈ labels) labels
    (initial options now) (fun _ _ member => member)
  have kept := Transition.run_invariant_along (step options) _
    (fun s => Invariant options (fun _ => []) s ∧ Fated labels s)
    (fun action _ _ known member taken => ⟨known.1.step action taken,known.2.step known.1 member taken⟩)
    labels _ s along path ⟨Invariant.initial now,Fated.initial options now labels⟩
  exact kept.2

/-- At its exit the child has written all that it is going to: behind the last drain nothing of it is missing. -/
theorem run_complete {options : ProcessOptions} {now : Int} {before after : List Action} {status : WaitStatus} {s : State}
    (path : Transition.run (step options) (before ++ .exit status :: after) (initial options now) = some s)
    (returned : s.phase = .returned) (uncapped : s.capped = false) (pipe : Pipe) :
    writes options pipe before <+: (s.channel pipe).sink := by
  obtain ⟨middle,first,rest⟩ := (Transition.run_append_some _ _ _ _ _).mp path
  obtain ⟨next,taken,_⟩ := (Transition.run_cons_some _ _ _ _ _).mp rest
  have invariant := (run_told first).1
  have running : middle.child = .running := by
    cases step_moves taken with
    | exit running => exact running
  have ahead : middle.phase.final = false := by
    rw [← invariant.reaped]
    by_contra reaped
    obtain ⟨status,gone⟩ := invariant.child.mp (by simpa using reaped)
    cases running.symm.trans gone
  have settled := Transition.run_invariant (step options) _
    (fun action _ _ known taken => Invariant.step known action taken) _ _ _ rest (invariant.later ahead)
  have faithful := settled.channels pipe
  have passed : s.phase.passed pipe = true := by rw [returned]; rfl
  have written := run_written (Invariant.initial now) first pipe
  have empty : ((initial options now).channel pipe).written = [] := by cases pipe <;> rfl
  rw [empty,List.nil_append] at written
  rw [faithful.exact (.inl uncapped),← written]
  exact faithful.settled uncapped passed

/-- A parent that returns has reaped the child, once, and has its status. -/
theorem run_reaped {options : ProcessOptions} {now : Int} {labels : List Action} {s : State}
    (path : Transition.run (step options) labels (initial options now) = some s) (returned : s.phase = .returned) :
    s.child = .reaped s.waitStatus ∧ .exit s.waitStatus ∈ labels ∧ s.log.count .reap = 1 := by
  obtain ⟨invariant,first,second,told⟩ := run_told path
  have log : s.log = calls s.killSent s.hardKillSent s.reaped first second := told.log
  have reaped : s.reaped = true := by
    rw [invariant.reaped,returned]
    rfl
  obtain ⟨status,gone⟩ := invariant.child.mp reaped
  obtain ⟨exited,rfl⟩ := (run_fated path).reaped status gone
  refine ⟨gone,exited,?_⟩
  rw [log,calls_reap,reaped]
  rfl

/-- Whatever the child and the kernel do: a captured stream is a front of what was written to it, within the
bound; SIGTERM is sent once at most, SIGKILL behind it once at most and behind the grace period, and nothing is
sent to a child that was reaped; and when the parent returns, the child is reaped once, with the status it exited
with. Without the cap the caller gets all that was written before the exit, and what a process that was left
behind has added. -/
theorem run_captures (options : ProcessOptions) (now : Int) (labels : List Action) (s : State)
    (path : Transition.run (step options) labels (initial options now) = some s) :
    (∀ pipe, (s.channel pipe).sink <+: writes options pipe labels ∧
      (s.channel pipe).sink.length ≤ options.maxOutputBytes) ∧
    (∃ first second, s.log.Sublist [.terminate first,.kill second,.reap] ∧
      (.kill second ∈ s.log → .terminate first ∈ s.log ∧ first + options.killGrace ≤ second)) ∧
    (s.phase = .returned →
      (result options s).standardOutput = s.out.sink ∧
      (result options s).standardError = s.err.sink ++ (if s.capped && !s.timedOut then marker options else []) ∧
      s.log.count .reap = 1 ∧
      (∃ status, .exit status ∈ labels ∧ s.child = .reaped status ∧ (result options s).exitCode = status.exitCode) ∧
      (s.capped = false → ∀ before status after, labels = before ++ .exit status :: after → ∀ pipe,
        writes options pipe before <+: (s.channel pipe).sink ∧
        (writes options pipe after = [] → (s.channel pipe).sink = writes options pipe before))) := by
  obtain ⟨invariant,first,second,told⟩ := run_told path
  have log : s.log = calls s.killSent s.hardKillSent s.reaped first second := told.log
  have front : ∀ pipe, (s.channel pipe).sink <+: writes options pipe labels := by
    intro pipe
    have written := run_written (Invariant.initial now) path pipe
    have empty : ((initial options now).channel pipe).written = [] := by cases pipe <;> rfl
    rw [empty,List.nil_append] at written
    exact written ▸ (invariant.channels pipe).front
  refine ⟨fun pipe => ⟨front pipe,(invariant.channels pipe).short⟩,⟨first,second,?_,fun killed => ?_⟩,fun returned => ?_⟩
  · exact log ▸ calls_sublist ..
  · rw [log] at killed ⊢
    obtain ⟨sent,late⟩ := told.behind (calls_kill killed)
    exact ⟨calls_terminate sent,late⟩
  · obtain ⟨gone,exited,once⟩ := run_reaped path returned
    refine ⟨rfl,rfl,once,⟨s.waitStatus,exited,gone,rfl⟩,?_⟩
    rintro uncapped before status after rfl pipe
    have whole := run_complete path returned uncapped pipe
    refine ⟨whole,fun quiet => ?_⟩
    have ends := front pipe
    have same : writes options pipe (before ++ .exit status :: after) = writes options pipe before := by
      rw [writes_append]
      exact (congrArg (writes options pipe before ++ ·) quiet).trans (List.append_nil _)
    rw [same] at ends
    exact ends.eq_of_length_le whole.length_le

/-- The child writes to both streams, and exits behind a turn of the loop that found one byte. -/
def bothStreams : List Action :=
  [.write .standardOutput [97],.poll true false,.read (.bytes 1),.read .wouldBlock,.wait .nothing,.tick 20,.decide,
   .write .standardOutput [98],.write .standardError [99],.exit (.exited 3),.release .out,.release .err,
   .poll false false,.wait .child,.read .interrupted,.read (.bytes 1),.read .endOfFile,.read (.bytes 1),.read .endOfFile,
   .leave]

theorem run_captures_bothStreams : ∃ s, Transition.run (step {}) bothStreams (initial {} 0) = some s ∧
    s.phase = .returned ∧ result {} s = ⟨3,false,false,0,[97,98],[99]⟩ ∧ s.log = [.reap] ∧
    (∀ pipe, (s.channel pipe).sink <+: writes {} pipe bothStreams) ∧
    ∃ status, .exit status ∈ bothStreams ∧ s.child = .reaped status := by
  obtain ⟨s,path,returned,output,log⟩ : ∃ s, Transition.run (step {}) bothStreams (initial {} 0) = some s ∧
      s.phase = .returned ∧ result {} s = ⟨3,false,false,0,[97,98],[99]⟩ ∧ s.log = [.reap] := ⟨_,rfl,rfl,rfl,rfl⟩
  obtain ⟨captured,_,ends⟩ := run_captures {} 0 bothStreams s path
  obtain ⟨_,_,_,⟨status,exited,gone,_⟩,_⟩ := ends returned
  exact ⟨s,path,returned,output,log,fun pipe => (captured pipe).1,status,exited,gone⟩

end TestForge.ProcessRunner
