import TestForge.Transition
import TestForge.Strings

/-! `ProcessRunner::run` from the fork on: the polling loop of the parent with its two pipes,
two signals and one child, every system call one step. A process that the child has left
behind may go on writing into the pipes. -/
namespace TestForge

open Strings

structure ProcessOptions where
  timeout : Int := 5000
  killGrace : Int := 500
  maxOutputBytes : Nat := 1024 * 1024
  captureStandardError : Bool := true

namespace ProcessRunner

/-- The descriptors of the child. -/
inductive Stream where
  | standardOutput | standardError
  deriving DecidableEq, Repr

inductive Pipe where
  | out | err
  deriving DecidableEq, Repr

/-- Where `dup2` leads the stream. -/
def ProcessOptions.target (options : ProcessOptions) : Stream → Pipe
  | .standardOutput => .out
  | .standardError => if options.captureStandardError then .err else .out

/-- `waitStatus` as the macros of `wait.h` read it. -/
inductive WaitStatus where
  | exited (code : Nat)
  | signalled (number : Nat)
  deriving DecidableEq, Repr

/-- A pipe with what the parent keeps for it. -/
structure Channel where
  written : Bytes := []
  /-- How many of the bytes `read` has returned. -/
  taken : Nat := 0
  /-- Some process has the writing end open. -/
  held : Bool
  isOpen : Bool
  sink : Bytes := []
  deriving DecidableEq, Repr

def Channel.unread (channel : Channel) : Bytes := channel.written.drop channel.taken

inductive Child where
  | running
  | exited (status : WaitStatus)
  | reaped (status : WaitStatus)
  deriving DecidableEq, Repr

/-- The calls of the parent that are seen outside, with the reading of the clock behind them. -/
inductive Call where
  | terminate (now : Int)
  | kill (now : Int)
  | reap
  deriving DecidableEq, Repr

inductive Phase where
  | polling
  /-- In `drain`; the other pipe is drained behind this one when it was ready. -/
  | drainingOut (errReady : Bool)
  | drainingErr
  | waiting
  | deciding
  /-- In `drain` behind the exit of the child. -/
  | lastOut
  | lastErr
  | leaving
  | reaping
  | returned
  deriving DecidableEq, Repr

structure State where
  clock : Int
  deadline : Int
  out : Channel := { held := true, isOpen := true }
  err : Channel
  child : Child := .running
  phase : Phase := .polling
  capped : Bool := false
  timedOut : Bool := false
  killSent : Bool := false
  hardKillSent : Bool := false
  killAt : Int := 0
  /-- Zero until `waitpid` writes it, which reads as an exit with code 0. -/
  waitStatus : WaitStatus := .exited 0
  reaped : Bool := false
  log : List Call := []
  deriving DecidableEq, Repr

/-- Behind `fork`, with the writing ends of the parent closed. -/
def initial (options : ProcessOptions) (now : Int) : State where
  clock := now
  deadline := now + options.timeout
  err := { held := options.captureStandardError, isOpen := options.captureStandardError }

inductive ReadResult where
  | bytes (count : Nat)
  | endOfFile
  | interrupted
  | wouldBlock
  deriving DecidableEq, Repr

/-- What a non-blocking `read` of at most 8192 bytes may return. -/
def Channel.offers (channel : Channel) : ReadResult → Bool
  | .bytes count => 0 < count && count ≤ 8192 && count ≤ channel.unread.length
  | .endOfFile => channel.unread.isEmpty && !channel.held
  | .interrupted => true
  | .wouldBlock => channel.unread.isEmpty && channel.held

/-- A turn of the loop in `drain`; `more` is what `drain` returns when it does. -/
structure Turn where
  channel : Channel
  capped : Bool
  more : Option Bool

def drain (maxBytes : Nat) (capped : Bool) (channel : Channel) : ReadResult → Turn
  | .bytes count =>
    let buffer := channel.unread.take count
    let behind := { channel with taken := channel.taken + count }
    if channel.sink.length + buffer.length > maxBytes then {
      channel := { behind with sink := channel.sink ++ buffer.take (maxBytes - channel.sink.length) }
      capped := true
      more := some false }
    else { channel := { behind with sink := channel.sink ++ buffer }, capped, more := none }
  | .endOfFile => { channel, capped, more := some false }
  | .interrupted => { channel, capped, more := none }
  | .wouldBlock => { channel, capped, more := some true }

inductive WaitResult where
  | child
  | nothing
  | interrupted
  deriving DecidableEq, Repr

inductive Action where
  | write (stream : Stream) (text : Bytes)
  /-- The last process that has the writing end closes it. -/
  | release (pipe : Pipe)
  | exit (status : WaitStatus)
  | tick (elapsed : Nat)
  /-- Nothing is ready after a timeout, and after EINTR. -/
  | poll (outReady errReady : Bool)
  | read (result : ReadResult)
  | wait (result : WaitResult)
  | decide
  | leave
  deriving DecidableEq, Repr

namespace State

def channel (s : State) : Pipe → Channel
  | .out => s.out
  | .err => s.err

def setChannel (s : State) : Pipe → Channel → State
  | .out, channel => { s with out := channel }
  | .err, channel => { s with err := channel }

/-- The pipes that poll found ready are drained, standard output first. -/
def polled (s : State) (outReady errReady : Bool) : State :=
  if s.out.isOpen && outReady then { s with phase := .drainingOut (s.err.isOpen && errReady) }
  else if s.err.isOpen && errReady then { s with phase := .drainingErr }
  else { s with phase := .waiting }

def finalErr (s : State) : Phase := if s.err.isOpen then .lastErr else .leaving
def finalOut (s : State) : Phase := if s.out.isOpen then .lastOut else s.finalErr

/-- The call of `drain` that the parent is in: the pipe, whether a pipe at its end is closed
behind it, and where the parent goes on. -/
def draining (s : State) : Option (Pipe × Bool × Phase) :=
  match s.phase with
  | .drainingOut errReady => some (.out,true,if errReady then .drainingErr else .waiting)
  | .drainingErr => some (.err,true,.waiting)
  | .lastOut => some (.out,false,s.finalErr)
  | .lastErr => some (.err,false,.leaving)
  | _ => none

/-- A turn of the loop in `drain`. -/
def drained (s : State) (options : ProcessOptions) (pipe : Pipe) (close : Bool) (next : Phase) (result : ReadResult) :
    State :=
  let turn := drain options.maxOutputBytes s.capped (s.channel pipe) result
  match turn.more with
  | none => { s.setChannel pipe turn.channel with capped := turn.capped }
  | some more =>
    { s.setChannel pipe { turn.channel with isOpen := turn.channel.isOpen && (more || !close) } with
        capped := turn.capped, phase := next }

/-- What follows the reading of the clock in a turn of the loop. -/
def decided (s : State) (options : ProcessOptions) : State :=
  let now := s.clock
  let expired := decide (options.timeout > 0) && decide (now ≥ s.deadline)
  if (expired || s.capped) && !s.killSent then
    { s with phase := .polling, timedOut := expired, killSent := true, killAt := now + options.killGrace,
             log := s.log ++ [.terminate now] }
  else if s.killSent && !s.hardKillSent && decide (now ≥ s.killAt) then
    { s with phase := .polling, hardKillSent := true, log := s.log ++ [.kill now] }
  else { s with phase := .polling }

/-- `waitpid`, in the loop without blocking. -/
def waited (s : State) (result : WaitResult) : Option State :=
  match s.phase,result,s.child with
  | .waiting,.child,.exited status =>
    some { s with child := .reaped status, waitStatus := status, reaped := true, log := s.log ++ [.reap],
                  phase := s.finalOut }
  | .waiting,.nothing,.running => some { s with phase := .deciding }
  | .waiting,.interrupted,_ => some { s with phase := .deciding }
  | .reaping,.child,.exited status =>
    some { s with child := .reaped status, waitStatus := status, log := s.log ++ [.reap], phase := .returned }
  | .reaping,.interrupted,_ => some s
  | _,_,_ => none

/-- Behind the loop. -/
def left (s : State) : State :=
  if s.reaped then { s with phase := .returned }
  else { s with phase := .reaping, log := s.log ++ [.kill s.clock] }

end State

def step (options : ProcessOptions) : Action → State → Option State
  | .write stream text,s =>
    let pipe := ProcessOptions.target options stream
    let channel := s.channel pipe
    if channel.held then some (s.setChannel pipe { channel with written := channel.written ++ text }) else none
  | .release pipe,s =>
    if (s.channel pipe).held then some (s.setChannel pipe { s.channel pipe with held := false }) else none
  | .exit status,s => if s.child = .running then some { s with child := .exited status } else none
  | .tick elapsed,s => some { s with clock := s.clock + elapsed }
  | .poll outReady errReady,s => if s.phase = .polling then some (s.polled outReady errReady) else none
  | .read result,s =>
    match s.draining with
    | some (pipe,close,next) =>
      if (s.channel pipe).offers result then some (s.drained options pipe close next result) else none
    | none => none
  | .wait result,s => s.waited result
  | .decide,s => if s.phase = .deciding then some (s.decided options) else none
  | .leave,s => if s.phase = .leaving then some s.left else none

structure ProcessResult where
  exitCode : Int
  timedOut : Bool
  signalled : Bool
  signalNumber : Nat
  standardOutput : Bytes
  standardError : Bytes
  deriving DecidableEq, Repr

def marker (options : ProcessOptions) : Bytes :=
  10 :: ascii "[testforge] output truncated at " ++ decimal options.maxOutputBytes ++ ascii " bytes"

def WaitStatus.exitCode : WaitStatus → Int
  | .exited code => code
  | .signalled number => 128 + number

def WaitStatus.signalNumber : WaitStatus → Option Nat
  | .exited _ => none
  | .signalled number => some number

/-- What the caller gets of a parent in phase `returned`. -/
def result (options : ProcessOptions) (s : State) : ProcessResult where
  exitCode := s.waitStatus.exitCode
  timedOut := s.timedOut
  signalled := s.waitStatus.signalNumber.isSome
  signalNumber := s.waitStatus.signalNumber.getD 0
  standardOutput := s.out.sink
  standardError := s.err.sink ++ if s.capped && !s.timedOut then marker options else []

end ProcessRunner
end TestForge
