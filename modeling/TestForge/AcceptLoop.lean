import TestForge.Config
import TestForge.ThreadPool

/-! The threads of a started HTTP server as a transition system: the acceptor, the workers of
its pool, and any number of calls of `stop`. Connections are counted in the order in which they
are accepted. What a handler does is left out: it returns or throws some time, and either way
the two guards of the closure are destroyed, the descriptor's before the counter's. -/
namespace TestForge.HttpServer

open Settings

/-- Where the acceptor is in `acceptLoop`, and the descriptor it has in hand. -/
inductive Acceptor where
  | looping
  | watching
  | holding (connection : Nat)
  | rejecting (connection : Nat)
  | admitting (connection : Nat)
  | submitting (connection : Nat)
  | entering (connection : Nat)
  | notifying
  | failing (connection : Nat)
  | closing (connection : Nat)
  | exited
  deriving DecidableEq, Repr

/-- The closure a worker runs: its descriptor open, closed, or the counter given back. -/
inductive Stage where
  | opened (connection : Nat)
  | closed
  | ended
  deriving DecidableEq, Repr

inductive Stopper where
  | outside
  | exchanging
  | joining
  | shutting
  | draining
  | resetting
  | notifying
  | performed
  /-- The server was stopped already, or is being stopped. -/
  | ignored
  deriving DecidableEq, Repr

/-- The acceptor is the pool's caller 0, the call `i` of `stop` its caller `i + 1`. -/
structure Threads where
  running : Bool := true
  acceptor : Acceptor := .looping
  stoppers : Nat → Stopper := fun _ => .outside
  pool : ThreadPool.State := {}
  /-- The connection of each task of the pool. -/
  connectionOf : Nat → Nat := fun _ => 0
  stages : Nat → Stage := fun _ => .ended
  inFlight : Int := 0
  rejected : Nat := 0
  connections : Nat := 0
  /-- The descriptors closed, in order. -/
  closed : List Nat := []

inductive Event where
  | poll
  | nothing
  | accept
  | check
  | reject
  | countIn
  | submit
  /-- Something on the way to the pool throws. -/
  | throw
  | enqueue
  | submitted
  | release
  | close
  | take (worker : Nat)
  | hangUp (worker : Nat)
  | decrement (worker : Nat)
  | taskEnds (worker : Nat)
  /-- A step of the pool that concerns nobody else. -/
  | pool (action : ThreadPool.Action)
  | stop (stopper : Nat)
  | exchange (stopper : Nat)
  | joinAcceptor (stopper : Nat)
  | shutdown (stopper : Nat)
  | reset (stopper : Nat)
  | drained (stopper : Nat)
  | announce (stopper : Nat)

def admissionCap (config : ServerConfig) : Int := max 1 config.maxPendingConnections.toInt

def poolSize (config : ServerConfig) : Nat := ThreadPool.workerCount config.workers.toInt.toNat

/-- Steps of the pool that are no part of an event of their own. -/
def internal : ThreadPool.Action → Bool
  | .call _ _ => false
  | .enter 0 => false
  | .look _ => false
  | .taskEnds _ => false
  | _ => true

namespace Threads

def setStopper (s : Threads) (i : Nat) (stopper : Stopper) : Threads :=
  { s with stoppers := Function.update s.stoppers i stopper }

def setStage (s : Threads) (w : Nat) (stage : Stage) : Threads :=
  { s with stages := Function.update s.stages w stage }

end Threads

/-- The closure of the task a worker has just taken begins with an open descriptor. -/
def begin (s : Threads) (w : Nat) (pool : ThreadPool.State) : Threads :=
  match pool.workers w with
  | .running task => { s.setStage w (.opened (s.connectionOf task)) with pool }
  | _ => { s with pool }

def acceptStep (cap : Int) (n : Nat) (s : Threads) : Event → Option Threads
  | .poll =>
    if s.acceptor = .looping then some { s with acceptor := if s.running then .watching else .exited } else none
  | .nothing => if s.acceptor = .watching then some { s with acceptor := .looping } else none
  | .accept =>
    if s.acceptor = .watching then
      some { s with acceptor := .holding s.connections, connections := s.connections + 1 }
    else none
  | .check =>
    match s.acceptor with
    | .holding c => some { s with acceptor := if s.inFlight ≥ cap then .rejecting c else .admitting c }
    | _ => none
  | .reject =>
    match s.acceptor with
    | .rejecting c => some { s with acceptor := .looping, rejected := s.rejected + 1, closed := s.closed ++ [c] }
    | _ => none
  | .countIn =>
    match s.acceptor with
    | .admitting c => some { s with acceptor := .submitting c, inFlight := s.inFlight + 1 }
    | _ => none
  | .submit =>
    match s.acceptor with
    | .submitting c =>
      (ThreadPool.step n (.call 0 .submit) s.pool).map fun pool => { s with acceptor := .entering c, pool }
    | _ => none
  | .throw =>
    match s.acceptor with
    | .submitting c => some { s with acceptor := .failing c }
    | _ => none
  | .enqueue =>
    match s.acceptor with
    | .entering c => (ThreadPool.step n (.enter 0) s.pool).map fun pool =>
      if s.pool.stopping then { s with acceptor := .failing c, pool }
      else { s with
        acceptor := .notifying, connectionOf := Function.update s.connectionOf s.pool.accepted c, pool }
    | _ => none
  | .submitted =>
    if s.acceptor = .notifying ∧ s.pool.callers 0 = .outside then some { s with acceptor := .looping } else none
  | .release =>
    match s.acceptor with
    | .failing c => some { s with acceptor := .closing c, inFlight := s.inFlight - 1 }
    | _ => none
  | .close =>
    match s.acceptor with
    | .closing c => some { s with acceptor := .looping, closed := s.closed ++ [c] }
    | _ => none
  | _ => none

def workStep (n : Nat) (s : Threads) : Event → Option Threads
  | .take w => (ThreadPool.step n (.look w) s.pool).map (begin s w)
  | .hangUp w =>
    match s.stages w with
    | .opened c => if w < n then some { s.setStage w .closed with closed := s.closed ++ [c] } else none
    | _ => none
  | .decrement w =>
    if w < n ∧ s.stages w = .closed then some { s.setStage w .ended with inFlight := s.inFlight - 1 } else none
  | .taskEnds w =>
    if s.stages w = .ended then (ThreadPool.step n (.taskEnds w) s.pool).map fun pool => { s with pool } else none
  | .pool action =>
    if internal action then (ThreadPool.step n action s.pool).map fun pool => { s with pool } else none
  | _ => none

def stopStep (n : Nat) (s : Threads) : Event → Option Threads
  | .stop i => if s.stoppers i = .outside then some (s.setStopper i .exchanging) else none
  | .exchange i =>
    if s.stoppers i = .exchanging then
      some { s.setStopper i (if s.running then .joining else .ignored) with running := false }
    else none
  | .joinAcceptor i =>
    if s.stoppers i = .joining ∧ s.acceptor = .exited then some (s.setStopper i .shutting) else none
  | .shutdown i =>
    if s.stoppers i = .shutting then
      (ThreadPool.step n (.call (i + 1) .shutdown) s.pool).map fun pool => { s.setStopper i .draining with pool }
    else none
  | .reset i =>
    if s.stoppers i = .draining then
      (ThreadPool.step n (.call (i + 1) .destroy) s.pool).map fun pool => { s.setStopper i .resetting with pool }
    else none
  | .drained i =>
    if s.stoppers i = .resetting ∧ s.pool.callers (i + 1) = .outside then some (s.setStopper i .notifying) else none
  | .announce i => if s.stoppers i = .notifying then some (s.setStopper i .performed) else none
  | _ => none

def threadStep (config : ServerConfig) (event : Event) (s : Threads) : Option Threads :=
  (acceptStep (admissionCap config) (poolSize config) s event).or
    ((workStep (poolSize config) s event).or (stopStep (poolSize config) s event))

def started : Threads := {}

end TestForge.HttpServer
