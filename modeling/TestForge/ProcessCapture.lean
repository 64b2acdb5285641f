import TestForge.Process

/-! What `ProcessRunner::run` captures: always the front of what was written, and all that was
written up to the exit of the child unless the cap or the deadline came first. -/
namespace TestForge.ProcessRunner

open Strings

/-- Every way a step can go. -/
inductive Moves (options : ProcessOptions) (s : State) : Action → State → Prop where
  | write {stream : Stream} {text : Bytes} : (s.channel (ProcessOptions.target options stream)).held = true →
      Moves options s (.write stream text) (s.setChannel (ProcessOptions.target options stream)
        { s.channel (ProcessOptions.target options stream) with
            written := (s.channel (ProcessOptions.target options stream)).written ++ text })
  | release {pipe : Pipe} : (s.channel pipe).held = true →
      Moves options s (.release pipe) (s.setChannel pipe { s.channel pipe with held := false })
  | exit {status : WaitStatus} : s.child = .running → Moves options s (.exit status) { s with child := .exited status }
  | tick {elapsed : Nat} : Moves options s (.tick elapsed) { s with clock := s.clock + elapsed }
  | poll {outReady errReady : Bool} : s.phase = .polling →
      Moves options s (.poll outReady errReady) (s.polled outReady errReady)
  | read {pipe : Pipe} {close : Bool} {following : Phase} {outcome : ReadResult} :
      s.draining = some (pipe,close,following) → (s.channel pipe).offers outcome = true →
      Moves options s (.read outcome) (s.drained options pipe close following outcome)
  | collect {status : WaitStatus} : s.phase = .waiting → s.child = .exited status →
      Moves options s (.wait .child)
        { s with child := .reaped status, waitStatus := status, reaped := true, log := s.log ++ [.reap],
                 phase := s.finalOut }
  | wait {outcome : WaitResult} : s.phase = .waiting → Moves options s (.wait outcome) { s with phase := .deciding }
  | collectLate {outcome : WaitResult} {next : State} : s.phase = .reaping → Moves options s (.wait outcome) next
  | decide : s.phase = .deciding → Moves options s .decide (s.decided options)
  | leave : s.phase = .leaving → Moves options s .leave s.left

theorem step_moves {options : ProcessOptions} {action : Action} {s next : State}
    (taken : step options action s = some next) : Moves options s action next := by
  cases action with
  | write | release | exit | poll | decide | leave =>
    simp only [step,Option.ite_none_right_eq_some,Option.some.injEq] at taken
    obtain ⟨known,rfl⟩ := taken
    constructor
    exact known
  | tick =>
    cases taken
    exact .tick
  | read result =>
    rw [step] at taken
    split at taken
    · next inside =>
      obtain ⟨offered,same⟩ := Option.ite_none_right_eq_some.mp taken
      cases same
      exact .read inside offered
    · cases taken
  | wait result =>
    rw [step] at taken
    unfold State.waited at taken
    split at taken
    · next phase exited =>
      cases taken
      exact .collect phase exited
    · next phase _ =>
      cases taken
      exact .wait phase
    · next phase =>
      cases taken
      exact .wait phase
    · next phase _ => exact .collectLate phase
    · next phase => exact .collectLate phase
    · cases taken

/-! ### One pipe -/

/-- What holds of a pipe at every moment. `before` is a front of what was written, `passed` says that the
last drain of the pipe lies behind. -/
structure Channel.Faithful (channel : Channel) (maxBytes : Nat) (before : Bytes) (capped passed : Bool) : Prop where
  front : channel.sink <+: channel.written
  short : channel.sink.length ≤ maxBytes
  bound : channel.taken ≤ channel.written.length
  old : before <+: channel.written
  exact : capped = false ∨ channel.isOpen = true ∧ passed = false → channel.sink = channel.written.take channel.taken
  ended : capped = false → channel.isOpen = false → channel.held = false ∧ channel.taken = channel.written.length
  settled : capped = false → passed = true → before <+: channel.written.take channel.taken

namespace Channel.Faithful

variable {channel : Channel} {maxBytes : Nat} {before : Bytes} {capped passed : Bool}

theorem write (faithful : channel.Faithful maxBytes before capped passed) (held : channel.held = true) (text : Bytes) :
    { channel with written := channel.written ++ text }.Faithful maxBytes before capped passed := by
  have same : (channel.written ++ text).take channel.taken = channel.written.take channel.taken :=
    List.take_append_of_le_length faithful.bound
  refine ⟨?_,faithful.short,?_,?_,?_,?_,?_⟩
  · exact faithful.front.trans (List.prefix_append _ _)
  · exact Nat.le_trans faithful.bound (by simp)
  · exact faithful.old.trans (List.prefix_append _ _)
  · intro known
    exact (faithful.exact known).trans same.symm
  · intro uncapped closed
    have := (faithful.ended uncapped closed).1
    rw [held] at this
    cases this
  · intro uncapped behind
    have settled := faithful.settled uncapped behind
    rwa [← same] at settled

theorem release (faithful : channel.Faithful maxBytes before capped passed) :
    { channel with held := false }.Faithful maxBytes before capped passed :=
  { faithful with ended := fun uncapped closed => ⟨rfl,(faithful.ended uncapped closed).2⟩ }

/-- The cap of the other pipe stops nothing at this one. -/
theorem cap (faithful : channel.Faithful maxBytes before capped passed) :
    channel.Faithful maxBytes before true passed where
  front := faithful.front
  short := faithful.short
  bound := faithful.bound
  old := faithful.old
  exact := fun known => faithful.exact (.inr (known.resolve_left (by decide)))
  ended := fun uncapped => absurd uncapped (by decide)
  settled := fun uncapped => absurd uncapped (by decide)

/-- A closed pipe needs no last drain. -/
theorem pass (faithful : channel.Faithful maxBytes before capped passed) (closed : channel.isOpen = false) :
    channel.Faithful maxBytes before capped true :=
  { faithful with
    exact := fun known => faithful.exact (.inl (known.resolve_right (by simp)))
    settled := fun uncapped _ => by
      rw [(faithful.ended uncapped closed).2,List.take_length]
      exact faithful.old }

theorem advance (faithful : channel.Faithful maxBytes before capped passed) (later : Bool)
    (onward : passed = true → later = true) (closed : later = true → passed = true ∨ channel.isOpen = false) :
    channel.Faithful maxBytes before capped later := by
  cases later with
  | false =>
    cases passed with
    | false => exact faithful
    | true => cases onward rfl
  | true =>
    rcases closed rfl with rfl | closed
    · exact faithful
    · exact faithful.pass closed

/-- After the end of file, and when nothing more would be read, the capture is complete. -/
theorem complete (faithful : channel.Faithful maxBytes before capped false) (empty : channel.unread.isEmpty = true) :
    channel.taken = channel.written.length := by
  have none : channel.written.drop channel.taken = [] := List.isEmpty_iff.mp empty
  exact Nat.le_antisymm faithful.bound (List.drop_eq_nil_iff.mp none)

/-- The last drain ends with nothing unread. -/
theorem last (faithful : channel.Faithful maxBytes before capped false) (opened : channel.isOpen = true)
    (empty : channel.unread.isEmpty = true) : channel.Faithful maxBytes before capped true :=
  { faithful with
    exact := fun known => faithful.exact (.inr ⟨opened,rfl⟩)
    settled := fun _ _ => by
      rw [faithful.complete empty,List.take_length]
      exact faithful.old }

theorem close (faithful : channel.Faithful maxBytes before capped false) (opened : channel.isOpen = true)
    (empty : channel.unread.isEmpty = true) (free : channel.held = false) :
    { channel with isOpen := false }.Faithful maxBytes before capped false :=
  { faithful with
    exact := fun _ => faithful.exact (.inr ⟨opened,rfl⟩)
    ended := fun _ _ => ⟨free,faithful.complete empty⟩ }

/-- More is read, up to the cap. -/
theorem more (faithful : channel.Faithful maxBytes before capped false) (opened : channel.isOpen = true) (count : Nat)
    (room : channel.sink.length + (channel.unread.take count).length ≤ maxBytes) (there : count ≤ channel.unread.length) :
    { channel with taken := channel.taken + count, sink := channel.sink ++ channel.unread.take count }.Faithful
      maxBytes before capped false := by
  have exact := faithful.exact (.inr ⟨opened,rfl⟩)
  have joined : channel.sink ++ channel.unread.take count = channel.written.take (channel.taken + count) := by
    rw [exact]
    exact (List.take_add ..).symm
  have bound : channel.taken + count ≤ channel.written.length := by
    rw [unread,List.length_drop] at there
    have := faithful.bound
    omega
  refine ⟨?_,?_,bound,faithful.old,fun _ => joined,?_,fun _ behind => absurd behind (by decide)⟩
  · rw [joined]
    exact List.take_prefix _ _
  · rw [List.length_append]
    exact room
  · intro _ closed
    rw [opened] at closed
    cases closed

/-- What is behind the cap is dropped, and the pipe is not read again. -/
theorem cut (faithful : channel.Faithful maxBytes before capped false) (opened : channel.isOpen = true) (count : Nat)
    (there : count ≤ channel.unread.length) (open' passed : Bool) (stopped : open' = false ∨ passed = true) :
    { channel with taken := channel.taken + count, isOpen := open',
                   sink := channel.sink ++ (channel.unread.take count).take (maxBytes - channel.sink.length) }.Faithful
      maxBytes before true passed := by
  have exact := faithful.exact (.inr ⟨opened,rfl⟩)
  have bound : channel.taken + count ≤ channel.written.length := by
    rw [unread,List.length_drop] at there
    have := faithful.bound
    omega
  refine ⟨?_,?_,bound,faithful.old,?_,fun uncapped => absurd uncapped (by decide),fun uncapped => absurd uncapped (by decide)⟩
  · rw [List.take_take,exact]
    have joined : channel.written.take channel.taken ++ channel.unread.take (min (maxBytes - channel.sink.length) count) =
        channel.written.take (channel.taken + min (maxBytes - channel.sink.length) count) := (List.take_add ..).symm
    rw [exact] at joined
    rw [joined]
    exact List.take_prefix _ _
  · have short := faithful.short
    rw [List.length_append]
    have := List.length_take_le (maxBytes - channel.sink.length) (channel.unread.take count)
    omega
  · rintro (uncapped | ⟨readable,ahead⟩)
    · cases uncapped
    · rcases stopped with rfl | rfl
      · cases readable
      · cases ahead

end Channel.Faithful

/-- What a turn of `drain` leaves behind: before it returns, with what the loop makes of its return, and
behind the last drain. -/
structure Turn.Faithful (turn : Turn) (maxBytes : Nat) (before : Bytes) : Prop where
  opened : turn.channel.isOpen = true
  goes : turn.more = none → turn.channel.Faithful maxBytes before turn.capped false
  closes : ∀ more, turn.more = some more →
    { turn.channel with isOpen := more }.Faithful maxBytes before turn.capped false
  last : ∀ more, turn.more = some more → turn.channel.Faithful maxBytes before turn.capped true

theorem Channel.Faithful.turn {channel : Channel} {maxBytes : Nat} {before : Bytes} {capped : Bool}
    (faithful : channel.Faithful maxBytes before capped false) (opened : channel.isOpen = true) (result : ReadResult)
    (offered : channel.offers result = true) : (drain maxBytes capped channel result).Faithful maxBytes before := by
  cases result with
  | interrupted => refine ⟨opened,fun _ => faithful,?_,?_⟩ <;> intro more returned <;> cases returned
  | wouldBlock =>
    have empty := (Bool.and_eq_true_iff.mp offered).1
    refine ⟨opened,fun going => ?_,fun more returned => ?_,fun _ _ => faithful.last opened empty⟩
    · cases going
    cases returned
    have same : { channel with isOpen := true } = channel := by rw [← opened]
    exact same ▸ faithful
  | endOfFile =>
    obtain ⟨empty,free⟩ := Bool.and_eq_true_iff.mp offered
    refine ⟨opened,fun going => ?_,fun more returned => ?_,fun _ _ => faithful.last opened empty⟩
    · cases going
    cases returned
    exact faithful.close opened empty (by simpa using free)
  | bytes count =>
    have there : count ≤ channel.unread.length := by
      simp only [offers,Bool.and_eq_true,decide_eq_true_eq] at offered
      exact offered.2
    by_cases beyond : channel.sink.length + (channel.unread.take count).length > maxBytes
    · have shape : drain maxBytes capped channel (.bytes count) = {
          channel := { channel with
            taken := channel.taken + count
            sink := channel.sink ++ (channel.unread.take count).take (maxBytes - channel.sink.length) }
          capped := true
          more := some false } := by
        rw [drain]
        exact if_pos beyond
      rw [shape]
      refine ⟨opened,fun going => ?_,fun more returned => ?_,fun _ _ => ?_⟩
      · cases going
      · cases returned
        exact faithful.cut opened count there false false (.inl rfl)
      · have cut := faithful.cut opened count there channel.isOpen true (.inr rfl)
        exact cut
    · have shape : drain maxBytes capped channel (.bytes count) = {
          channel := { channel with taken := channel.taken + count, sink := channel.sink ++ channel.unread.take count }
          capped
          more := none } := by
        rw [drain]
        exact if_neg beyond
      rw [shape]
      refine ⟨opened,fun _ => faithful.more opened count (Nat.le_of_not_lt beyond) there,?_,?_⟩ <;>
        intro more returned <;> cases returned

/-! ### The parent -/

theorem Pipe.forall_iff {property : Pipe → Prop} : (∀ pipe, property pipe) ↔ property .out ∧ property .err :=
  ⟨fun every => ⟨every .out,every .err⟩,fun both pipe => match pipe with
    | .out => both.1
    | .err => both.2⟩

namespace State

@[simp] theorem channel_setChannel_self (s : State) (pipe : Pipe) (channel : Channel) :
    (s.setChannel pipe channel).channel pipe = channel := by
  cases pipe <;> rfl

theorem channel_setChannel_other (s : State) {pipe other : Pipe} (different : other ≠ pipe) (channel : Channel) :
    (s.setChannel pipe channel).channel other = s.channel other := by
  cases pipe <;> cases other <;> first | rfl | exact absurd rfl different

@[simp] theorem setChannel_phase (s : State) (pipe : Pipe) (channel : Channel) :
    (s.setChannel pipe channel).phase = s.phase := by
  cases pipe <;> rfl

@[simp] theorem setChannel_capped (s : State) (pipe : Pipe) (channel : Channel) :
    (s.setChannel pipe channel).capped = s.capped := by
  cases pipe <;> rfl

theorem polled_phase (s : State) (outReady errReady : Bool) : ∃ phase, s.polled outReady errReady = { s with phase } := by
  rw [polled]
  split
  · exact ⟨_,rfl⟩
  · split <;> exact ⟨_,rfl⟩

theorem decided_same (s : State) (options : ProcessOptions) :
    (s.decided options).out = s.out ∧ (s.decided options).err = s.err ∧ (s.decided options).child = s.child ∧
      (s.decided options).waitStatus = s.waitStatus := by
  rw [decided]
  split
  · exact ⟨rfl,rfl,rfl,rfl⟩
  · split <;> exact ⟨rfl,rfl,rfl,rfl⟩

theorem left_same (s : State) :
    s.left.out = s.out ∧ s.left.err = s.err ∧ s.left.child = s.child ∧ s.left.waitStatus = s.waitStatus := by
  rw [left]
  split <;> exact ⟨rfl,rfl,rfl,rfl⟩

end State

namespace Phase

/-- The last drain of the pipe lies behind. -/
def passed : Phase → Pipe → Bool
  | lastErr, .out => true
  | leaving, _ => true
  | reaping, _ => true
  | returned, _ => true
  | _, _ => false

/-- Behind the loop, or in its last turn with the child reaped. -/
def final : Phase → Bool
  | lastOut => true
  | lastErr => true
  | leaving => true
  | reaping => true
  | returned => true
  | _ => false

/-- The pipes that the parent has found open and is going to read. -/
def reads : Phase → Pipe → Bool
  | drainingOut _, .out => true
  | drainingOut errReady, .err => errReady
  | drainingErr, .err => true
  | lastOut, .out => true
  | lastErr, .err => true
  | _, _ => false

end Phase

structure Invariant (options : ProcessOptions) (before : Pipe → Bytes) (s : State) : Prop where
  channels : ∀ pipe, (s.channel pipe).Faithful options.maxOutputBytes (before pipe) s.capped (s.phase.passed pipe)
  opened : ∀ pipe, s.phase.reads pipe = true → (s.channel pipe).isOpen = true
  reaped : s.reaped = s.phase.final
  child : s.reaped = true ↔ ∃ status, s.child = .reaped status
  looped : s.phase ≠ .reaping

namespace Invariant

variable {options : ProcessOptions} {before : Pipe → Bytes} {s : State}

theorem initial (now : Int) : Invariant options (fun _ => []) (initial options now) := by
  refine ⟨fun pipe => ?_,fun pipe reads => ?_,rfl,?_,by simp [ProcessRunner.initial]⟩
  · cases pipe <;>
      exact ⟨List.nil_prefix,Nat.zero_le _,Nat.le_refl _,List.nil_prefix,fun _ => rfl,
        fun _ closed => ⟨closed,rfl⟩,fun _ _ => List.nil_prefix⟩
  · cases pipe <;> cases reads
  · simp [ProcessRunner.initial]

/-- What was written by now may take the place of an earlier front, as long as the last drains are ahead. -/
theorem later (invariant : Invariant options before s) (ahead : s.phase.final = false) :
    Invariant options (fun pipe => (s.channel pipe).written) s :=
  { invariant with
    channels := fun pipe => by
      have faithful := invariant.channels pipe
      have open' : s.phase.passed pipe = false := by
        cases phase : s.phase <;> rw [phase] at ahead <;> cases pipe <;> first | rfl | cases ahead
      rw [open'] at faithful ⊢
      exact { faithful with
        old := List.prefix_rfl
        settled := fun _ behind => absurd behind (by decide) } }

/-- One pipe changes, and nothing else but what does not matter to the other. -/
theorem setChannel (invariant : Invariant options before s) (pipe : Pipe) (channel : Channel)
    (faithful : channel.Faithful options.maxOutputBytes (before pipe) s.capped (s.phase.passed pipe))
    (kept : channel.isOpen = (s.channel pipe).isOpen) : Invariant options before (s.setChannel pipe channel) := by
  refine ⟨fun other => ?_,fun other reads => ?_,?_,?_,?_⟩
  · rw [State.setChannel_capped,State.setChannel_phase]
    by_cases same : other = pipe
    · subst same
      rwa [State.channel_setChannel_self]
    · rw [State.channel_setChannel_other s same]
      exact invariant.channels other
  · rw [State.setChannel_phase] at reads
    by_cases same : other = pipe
    · subst same
      rw [State.channel_setChannel_self,kept]
      exact invariant.opened other reads
    · rw [State.channel_setChannel_other s same]
      exact invariant.opened other reads
  · cases pipe <;> exact invariant.reaped
  · cases pipe <;> exact invariant.child
  · cases pipe <;> exact invariant.looped

/-- The parent goes on without touching the pipes. -/
theorem goTo (invariant : Invariant options before s) (next : State) (out : next.out = s.out) (err : next.err = s.err)
    (capped : next.capped = s.capped)
    (passed : ∀ pipe, s.phase.passed pipe = true → next.phase.passed pipe = true)
    (closed : ∀ pipe, next.phase.passed pipe = true → s.phase.passed pipe = true ∨ (s.channel pipe).isOpen = false)
    (opened : ∀ pipe, next.phase.reads pipe = true → (s.channel pipe).isOpen = true)
    (reaped : next.reaped = next.phase.final) (child : next.reaped = true ↔ ∃ status, next.child = .reaped status)
    (looped : next.phase ≠ .reaping) : Invariant options before next := by
  have same : ∀ pipe, next.channel pipe = s.channel pipe := by
    intro pipe
    cases pipe
    · exact out
    · exact err
  refine ⟨fun pipe => ?_,fun pipe reads => ?_,reaped,child,looped⟩
  · rw [same,capped]
    exact (invariant.channels pipe).advance _ (passed pipe) (closed pipe)
  · rw [same]
    exact opened pipe reads

end Invariant

/-- How the parent goes on behind a call of `drain`. -/
structure Goes (s : State) (pipe : Pipe) (close : Bool) (next : Phase) : Prop where
  here : s.phase.reads pipe = true
  ahead : s.phase.passed pipe = false
  passed : next.passed pipe = !close
  onward : ∀ other, other ≠ pipe → s.phase.passed other = true → next.passed other = true
  closed : ∀ other, other ≠ pipe → next.passed other = true →
    s.phase.passed other = true ∨ (s.channel other).isOpen = false
  opened : ∀ other, next.reads other = true → other ≠ pipe ∧ (s.channel other).isOpen = true
  final : next.final = s.phase.final
  looped : next ≠ .reaping

theorem Invariant.goes {options : ProcessOptions} {before : Pipe → Bytes} {s : State} {pipe : Pipe} {close : Bool}
    {next : Phase} (invariant : Invariant options before s) (inside : s.draining = some (pipe,close,next)) :
    Goes s pipe close next := by
  have ready : s.phase = .drainingOut true → s.err.isOpen = true := fun phase => invariant.opened .err (by rw [phase]; rfl)
  rw [State.draining] at inside
  split at inside
  · next errReady phase =>
    cases inside
    cases errReady with
    | true => constructor <;> simp [phase,Phase.passed,Phase.reads,Phase.final,Pipe.forall_iff,State.channel,ready]
    | false => constructor <;> simp [phase,Phase.passed,Phase.reads,Phase.final]
  · next phase =>
    cases inside
    constructor <;> simp [phase,Phase.passed,Phase.reads,Phase.final]
  · next phase =>
    cases inside
    rw [State.finalErr]
    cases opened : s.err.isOpen with
    | true =>
      constructor <;> simp [phase,Phase.passed,Phase.reads,Phase.final,Pipe.forall_iff,State.channel,opened]
    | false =>
      constructor <;> simp [phase,Phase.passed,Phase.reads,Phase.final,Pipe.forall_iff,State.channel,opened]
  · next phase =>
    cases inside
    constructor <;> simp [phase,Phase.passed,Phase.reads,Phase.final,Pipe.forall_iff]
  · cases inside

namespace Invariant

variable {options : ProcessOptions} {before : Pipe → Bytes} {s next : State}

/-- One pipe, `capped` and the phase change. -/
theorem replaced (invariant : Invariant options before s) (pipe : Pipe) (channel : Channel) (capped : Bool) (phase : Phase)
    (mono : capped = s.capped ∨ capped = true)
    (faithful : channel.Faithful options.maxOutputBytes (before pipe) capped (phase.passed pipe))
    (onward : ∀ other, other ≠ pipe → s.phase.passed other = true → phase.passed other = true)
    (closed : ∀ other, other ≠ pipe → phase.passed other = true →
      s.phase.passed other = true ∨ (s.channel other).isOpen = false)
    (opened : ∀ other, phase.reads other = true →
      if other = pipe then channel.isOpen = true else (s.channel other).isOpen = true)
    (final : phase.final = s.phase.final) (looped : phase ≠ .reaping) :
    Invariant options before { s.setChannel pipe channel with capped, phase } := by
  have at_pipe : ∀ other, State.channel { s.setChannel pipe channel with capped, phase } other =
      (s.setChannel pipe channel).channel other := by
    intro other
    cases other <;> rfl
  refine ⟨fun other => ?_,fun other reads => ?_,?_,?_,looped⟩
  · rw [at_pipe]
    by_cases same : other = pipe
    · subst same
      rwa [State.channel_setChannel_self]
    · rw [State.channel_setChannel_other s same]
      have still := (invariant.channels other).advance _ (onward other same) (closed other same)
      rcases mono with equal | set
      · rw [equal]
        exact still
      · rw [set]
        exact still.cap
  · rw [at_pipe]
    have known := opened other reads
    by_cases same : other = pipe
    · rw [if_pos same] at known
      subst same
      rwa [State.channel_setChannel_self]
    · rw [if_neg same] at known
      rwa [State.channel_setChannel_other s same]
  · rw [final]
    cases pipe <;> exact invariant.reaped
  · cases pipe <;> exact invariant.child

theorem drain_capped (maxBytes : Nat) (capped : Bool) (channel : Channel) (result : ReadResult) :
    (drain maxBytes capped channel result).capped = capped ∨ (drain maxBytes capped channel result).capped = true := by
  cases result with
  | bytes count =>
    rw [drain]
    dsimp only
    split
    · exact .inr rfl
    · exact .inl rfl
  | endOfFile | interrupted | wouldBlock => exact .inl rfl

theorem drained {pipe : Pipe} {close : Bool} {following : Phase} (invariant : Invariant options before s)
    (goes : Goes s pipe close following) (result : ReadResult) (offered : (s.channel pipe).offers result = true) :
    Invariant options before (s.drained options pipe close following result) := by
  have faithful := invariant.channels pipe
  rw [goes.ahead] at faithful
  have turn := faithful.turn (invariant.opened pipe goes.here) result offered
  have mono := drain_capped options.maxOutputBytes s.capped (s.channel pipe) result
  rw [State.drained]
  generalize drain options.maxOutputBytes s.capped (s.channel pipe) result = turned at turn mono
  dsimp only
  cases returned : turned.more with
  | none =>
    have same : { s.setChannel pipe turned.channel with capped := turned.capped } =
        { s.setChannel pipe turned.channel with capped := turned.capped, phase := s.phase } := by
      cases pipe <;> rfl
    dsimp only
    rw [same]
    refine invariant.replaced pipe turned.channel turned.capped s.phase mono ?_ (fun _ _ known => known)
      (fun _ _ known => .inl known) (fun other reads => ?_) rfl invariant.looped
    · rw [goes.ahead]
      exact turn.goes returned
    · split
      · exact turn.opened
      · exact invariant.opened other reads
  | some more =>
    dsimp only
    refine invariant.replaced pipe _ turned.capped following mono ?_ goes.onward goes.closed (fun other reads => ?_)
      goes.final goes.looped
    · rw [goes.passed,turn.opened,Bool.true_and]
      cases close with
      | true =>
        rw [Bool.not_true,Bool.or_false]
        exact turn.closes more returned
      | false =>
        have same : { turned.channel with isOpen := more || !false } = turned.channel := by
          rw [Bool.not_false,Bool.or_true,← turn.opened]
        rw [same]
        exact turn.last more returned
    · obtain ⟨different,opened⟩ := goes.opened other reads
      rw [if_neg different]
      exact opened

theorem polled (invariant : Invariant options before s) (phase : s.phase = .polling) (outReady errReady : Bool) :
    Invariant options before (s.polled outReady errReady) := by
  have running : s.reaped = false := by rw [invariant.reaped,phase]; rfl
  rw [State.polled]
  split
  · next out =>
    refine invariant.goTo _ rfl rfl rfl ?_ ?_ ?_ ?_ invariant.child (by simp)
    · simp [phase,Phase.passed]
    · simp [Phase.passed]
    · simp_all [Phase.reads,Pipe.forall_iff,State.channel]
    · exact running
  · split
    · next err =>
      refine invariant.goTo _ rfl rfl rfl ?_ ?_ ?_ ?_ invariant.child (by simp)
      · simp [phase,Phase.passed]
      · simp [Phase.passed]
      · simp_all [Phase.reads,Pipe.forall_iff,State.channel]
      · exact running
    · refine invariant.goTo _ rfl rfl rfl ?_ ?_ ?_ ?_ invariant.child (by simp)
      · simp [phase,Phase.passed]
      · simp [Phase.passed]
      · simp [Phase.reads]
      · exact running

/-- A turn of the loop ends where the next begins, whatever it did. -/
theorem looping (invariant : Invariant options before s) (ahead : s.phase.final = false) (next : State)
    (out : next.out = s.out) (err : next.err = s.err) (capped : next.capped = s.capped) (reaped : next.reaped = s.reaped)
    (child : next.child = s.child) (phase : next.phase = .polling ∨ next.phase = .deciding) :
    Invariant options before next := by
  have running : s.reaped = false := by rw [invariant.reaped,ahead]
  have early : ∀ pipe, s.phase.passed pipe = false := by
    intro pipe
    cases known : s.phase <;> rw [known] at ahead <;> cases pipe <;> first | rfl | cases ahead
  have plain : next.phase.final = false ∧ next.phase ≠ .reaping ∧ ∀ pipe,
      next.phase.passed pipe = false ∧ next.phase.reads pipe = false := by
    rcases phase with phase | phase <;> simp [phase,Phase.final,Phase.passed,Phase.reads]
  refine invariant.goTo next out err capped ?_ ?_ ?_ ?_ ?_ plain.2.1
  · intro pipe behind
    rw [early] at behind
    cases behind
  · intro pipe behind
    rw [(plain.2.2 pipe).1] at behind
    cases behind
  · intro pipe reads
    rw [(plain.2.2 pipe).2] at reads
    cases reads
  · rw [reaped,running,plain.1]
  · rw [reaped,child]
    exact invariant.child

theorem decided (invariant : Invariant options before s) (phase : s.phase = .deciding) :
    Invariant options before (s.decided options) := by
  have ahead : s.phase.final = false := by rw [phase]; rfl
  rw [State.decided]
  split
  · exact invariant.looping ahead _ rfl rfl rfl rfl rfl (.inl rfl)
  · split
    · exact invariant.looping ahead _ rfl rfl rfl rfl rfl (.inl rfl)
    · exact invariant.looping ahead _ rfl rfl rfl rfl rfl (.inl rfl)

/-- The child is reaped: what is left in the open pipes is drained next. -/
theorem collected (invariant : Invariant options before s) (phase : s.phase = .waiting) (status : WaitStatus) :
    Invariant options before
      { s with child := .reaped status, waitStatus := status, reaped := true, log := s.log ++ [.reap],
               phase := s.finalOut } := by
  have shapes : s.finalOut = (if s.out.isOpen then .lastOut else if s.err.isOpen then .lastErr else .leaving) := rfl
  rw [shapes]
  cases out : s.out.isOpen with
  | true =>
    refine invariant.goTo _ rfl rfl rfl ?_ ?_ ?_ rfl (by simp) (by simp) <;>
      simp [phase,Phase.passed,Phase.reads,Pipe.forall_iff,State.channel,out]
  | false =>
    cases err : s.err.isOpen with
    | true =>
      refine invariant.goTo _ rfl rfl rfl ?_ ?_ ?_ rfl (by simp) (by simp) <;>
        simp [phase,Phase.passed,Phase.reads,Pipe.forall_iff,State.channel,out,err]
    | false =>
      refine invariant.goTo _ rfl rfl rfl ?_ ?_ ?_ rfl (by simp) (by simp) <;>
        simp [phase,Phase.passed,Phase.reads,Pipe.forall_iff,State.channel,out,err]

theorem left (invariant : Invariant options before s) (phase : s.phase = .leaving) : Invariant options before s.left := by
  have reaped : s.reaped = true := by rw [invariant.reaped,phase]; rfl
  rw [State.left,if_pos reaped]
  refine invariant.goTo _ rfl rfl rfl ?_ ?_ ?_ reaped invariant.child (by simp)
  · simp [Phase.passed]
  · simp [phase,Phase.passed]
  · simp [Phase.reads]

theorem step (invariant : Invariant options before s) (action : Action)
    (taken : ProcessRunner.step options action s = some next) : Invariant options before next := by
  have quiet : ∀ later : State, later.out = s.out → later.err = s.err → later.capped = s.capped →
      later.phase = s.phase → later.reaped = s.reaped → (later.reaped = true ↔ ∃ status, later.child = .reaped status) →
      Invariant options before later := by
    intro later out err capped phase reaped child
    refine invariant.goTo later out err capped ?_ ?_ ?_ ?_ child ?_
    · exact fun pipe known => phase ▸ known
    · exact fun pipe known => .inl (phase ▸ known)
    · exact fun pipe known => invariant.opened pipe (phase ▸ known)
    · rw [reaped,phase]
      exact invariant.reaped
    · rw [phase]
      exact invariant.looped
  cases step_moves taken with
  | write held => exact invariant.setChannel _ _ ((invariant.channels _).write held _) rfl
  | release held => exact invariant.setChannel _ _ (invariant.channels _).release rfl
  | exit running =>
    have alive : ¬s.reaped = true := by
      intro reaped
      obtain ⟨status,gone⟩ := invariant.child.mp reaped
      rw [running] at gone
      cases gone
    exact quiet _ rfl rfl rfl rfl rfl (by simp [alive])
  | tick => exact quiet _ rfl rfl rfl rfl rfl invariant.child
  | poll phase => exact invariant.polled phase _ _
  | read inside offered => exact invariant.drained (invariant.goes inside) _ offered
  | collect phase _ => exact invariant.collected phase _
  | wait phase => exact invariant.looping (by rw [phase]; rfl) _ rfl rfl rfl rfl rfl (.inr rfl)
  | collectLate phase => exact absurd phase invariant.looped
  | decide phase => exact invariant.decided phase
  | leave phase => exact invariant.left phase

end Invariant
/-! ### What is written -/

/-- What an action writes into the pipe. -/
def Action.wrote (options : ProcessOptions) (pipe : Pipe) : Action → Bytes
  | .write stream text => if ProcessOptions.target options stream = pipe then text else []
  | _ => []

/-- All that was written into the pipe, by the child and what it left behind. -/
def writes (options : ProcessOptions) (pipe : Pipe) (labels : List Action) : Bytes :=
  labels.flatMap (Action.wrote options pipe)

theorem writes_append (options : ProcessOptions) (pipe : Pipe) (first rest : List Action) :
    writes options pipe (first ++ rest) = writes options pipe first ++ writes options pipe rest :=
  List.flatMap_append

theorem drain_written (maxBytes : Nat) (capped : Bool) (channel : Channel) (result : ReadResult) :
    (drain maxBytes capped channel result).channel.written = channel.written := by
  cases result with
  | bytes count =>
    rw [drain]
    dsimp only
    split <;> rfl
  | endOfFile | interrupted | wouldBlock => rfl

theorem written_setChannel (s : State) (pipe : Pipe) (channel : Channel) (same : channel.written = (s.channel pipe).written)
    (other : Pipe) : ((s.setChannel pipe channel).channel other).written = (s.channel other).written := by
  by_cases here : other = pipe
  · subst here
    rw [State.channel_setChannel_self,same]
  · rw [State.channel_setChannel_other s here]

theorem drained_written (s : State) (options : ProcessOptions) (pipe : Pipe) (close : Bool) (next : Phase)
    (result : ReadResult) (other : Pipe) :
    ((s.drained options pipe close next result).channel other).written = (s.channel other).written := by
  have same := drain_written options.maxOutputBytes s.capped (s.channel pipe) result
  rw [State.drained]
  generalize drain options.maxOutputBytes s.capped (s.channel pipe) result = turned at same
  dsimp only
  cases turned.more with
  | none => exact (by cases other <;> rfl : _ = _).trans (written_setChannel s pipe _ same other)
  | some more =>
    have kept := written_setChannel s pipe
      { turned.channel with isOpen := turned.channel.isOpen && (more || !close) } same other
    cases other <;> exact kept

theorem step_written {options : ProcessOptions} {before : Pipe → Bytes} {action : Action} {s next : State}
    (invariant : Invariant options before s) (taken : step options action s = some next) (pipe : Pipe) :
    (next.channel pipe).written = (s.channel pipe).written ++ action.wrote options pipe := by
  have unchanged : ∀ later : State, later.out = s.out → later.err = s.err →
      (later.channel pipe).written = (s.channel pipe).written ++ [] := by
    intro later out err
    rw [List.append_nil]
    cases pipe
    · exact congrArg Channel.written out
    · exact congrArg Channel.written err
  cases step_moves taken with
  | write held =>
    rw [Action.wrote]
    split
    · next here =>
      subst here
      rw [State.channel_setChannel_self]
    · next other => rw [State.channel_setChannel_other s (Ne.symm other),List.append_nil]
  | @release other held =>
    rw [written_setChannel s other { s.channel other with held := false } rfl]
    exact (List.append_nil _).symm
  | exit | tick | collect | wait => exact unchanged _ rfl rfl
  | @poll outReady errReady phase =>
    obtain ⟨phase,same⟩ := s.polled_phase outReady errReady
    rw [same]
    exact unchanged _ rfl rfl
  | read inside offered =>
    rw [drained_written]
    exact (List.append_nil _).symm
  | collectLate phase => exact absurd phase invariant.looped
  | decide phase => exact unchanged _ (s.decided_same options).1 (s.decided_same options).2.1
  | leave phase => exact unchanged _ s.left_same.1 s.left_same.2.1

theorem run_written {options : ProcessOptions} {before : Pipe → Bytes} {labels : List Action} {s final : State}
    (invariant : Invariant options before s) (path : Transition.run (step options) labels s = some final) (pipe : Pipe) :
    (final.channel pipe).written = (s.channel pipe).written ++ writes options pipe labels := by
  induction labels generalizing s with
  | nil =>
    cases path
    exact (List.append_nil _).symm
  | cons action rest ih =>
    obtain ⟨next,taken,path⟩ := (Transition.run_cons_some _ _ _ _ _).mp path
    rw [ih (invariant.step action taken) path,step_written invariant taken pipe,List.append_assoc]
    rfl

end TestForge.ProcessRunner
