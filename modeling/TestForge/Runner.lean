import TestForge.Transition
import TestForge.Verdict
import Mathlib.Logic.Function.Basic

/-! `TestRunner::run` as a transition system: the thread that called it, the workers
of the pool, bodies on helper threads, and callers of `requestCancellation`.
Persistence, logging and the reaper are left out: no result depends on them. -/
namespace TestForge.Runner

open Json Strings

structure ExecutionConfig where
  workers : Int := 0
  hardwareConcurrency : Nat := 0
  defaultTimeoutMs : Int := 30000
  collectOnFailure : Bool := true

def ExecutionConfig.effectiveWorkers (config : ExecutionConfig) : Int :=
  if config.workers > 0 then config.workers
  else if config.hardwareConcurrency = 0 then 4
  else min config.hardwareConcurrency 32

structure RunOptions where
  workers : Int := 0
  failFast : Bool := false
  retryFailed : Int := 0
  label : Bytes := []
  collectDiagnostics : Option Bool := none

/-- What one call of `run` works from. The registry is keyed by qualified name, so
no selection holds one twice. `opened` is the run record before the first test. -/
structure Plan where
  selected : List TestMetadata
  distinct : (selected.map (·.qualifiedName)).Nodup
  options : RunOptions := {}
  config : ExecutionConfig := {}
  hasCollector : Bool := false
  callerName : Bytes := ascii "main"
  opened : TestRun := {}

namespace Plan

def size (plan : Plan) : Nat := plan.selected.length
def test (plan : Plan) (i : Nat) : TestMetadata := plan.selected.getD i { name := [] }

def workers (plan : Plan) : Int :=
  max 1 (if plan.options.workers > 0 then plan.options.workers else plan.config.effectiveWorkers)

def sequential (plan : Plan) : Bool := plan.workers == 1 || plan.size ≤ 1
def maxAttempts (plan : Plan) : Nat := 1 + plan.options.retryFailed.toNat

def collectDiagnostics (plan : Plan) : Bool :=
  plan.options.collectDiagnostics.getD plan.config.collectOnFailure && plan.hasCollector

def timeoutMs (plan : Plan) (i : Nat) : Int :=
  if (plan.test i).timeoutMs > 0 then (plan.test i).timeoutMs else plan.config.defaultTimeoutMs

def bounded (plan : Plan) (i : Nat) : Bool := plan.timeoutMs i > 0

end Plan

/-- What comes out of user code that throws: the runner catches only the first kind. -/
inductive Escape where
  | stdException | other
  deriving DecidableEq, Repr

inductive Creation where
  | made | nothing | threw (escape : Escape)
  deriving DecidableEq, Repr

/-- Who waits for a running body: nobody (it is inline), the polling loop before the
deadline, or the grace period after it. -/
inductive Watch where
  | inline | polling | grace
  deriving DecidableEq, Repr

/-- An attempt's cancellation source is its own, so the attempt names it. -/
structure Attempt where
  test : Nat
  number : Nat
  deriving DecidableEq, Repr

/-- Where one test is in `executeWithRetries`, `runOne` and `handleResult`. -/
inductive Phase where
  | waiting
  | taken
  | notifying
  | entering (attempt : Nat)
  | creating (attempt : Nat)
  | registering (attempt : Nat)
  | checking (attempt : Nat)
  | starting (attempt : Nat)
  | running (attempt : Nat) (watch : Watch)
  | ended (attempt : Nat) (record : BodyRecord) (watch : Watch)
  | leaving (attempt : Nat) (result : TestResult)
  | returned (attempt : Nat) (result : TestResult)
  | handling (result : TestResult)
  | recorded (result : TestResult)
  | tripping (result : TestResult)
  | signalling (result : TestResult)
  | finished
  | threw (escape : Escape)

def Phase.over : Phase → Bool
  | .finished => true
  | .threw _ => true
  | _ => false

/-- On a worker. -/
def Phase.active : Phase → Bool
  | .waiting => false
  | phase => !phase.over

/-- The thread that called `run`. -/
inductive Main where
  | created
  | inline (next : Nat)
  | submitting (next : Nat)
  | draining (next : Nat)
  | unwinding (escape : Escape)
  | collecting
  | closing (run : TestRun)
  | returned (run : TestRun)
  | threw (escape : Escape)

/-- `cancelAllActive` holding the mutex. -/
structure Sweep where
  reason : Bytes
  remaining : List Attempt

/-- A cancellation source is its reason once it is cancelled. Results carry the
index of their test. `requests` are the calls of `requestCancellation` that have
cancelled the run and wait for the mutex of `activeTests`. -/
structure State where
  main : Main := .created
  tasks : Nat → Phase := fun _ => .waiting
  workerOf : Nat → Nat := fun _ => 0
  queue : List Nat := []
  results : List (Nat × TestResult) := []
  stopScheduling : Bool := false
  runCancellation : Option Bytes := none
  activeTests : List Attempt := []
  sources : Attempt → Option Bytes := fun _ => none
  orphans : List Attempt := []
  requests : List Bytes := []
  sweep : Option Sweep := none
  completed : Nat := 0

/-- The first reason wins. -/
def cancel (source : Option Bytes) (reason : Bytes) : Option Bytes := some (source.getD reason)

inductive TaskAction where
  | begin
  | observerStarted (escape : Option Escape)
  | enter (stamp : Stamp)
  | create (creation : Creation) (stamp : Stamp)
  | register
  | check (stamp : Stamp)
  | startBody
  | bodyEnds (record : BodyRecord)
  | forward
  | deadline
  | abandon (stamp : Stamp)
  | verdict (stamp : Stamp)
  | leave
  | conclude
  | record (diagnostics : Value)
  | observerFinished (escape : Option Escape)
  | trip
  | signal

inductive Action where
  | start (escape : Option Escape)
  | submit
  | take (worker : Nat)
  | call
  | advance
  | await
  | unwind
  | collect (finishedAt : TimePoint) (duration : Int)
  | close (escape : Option Escape)
  | task (i : Nat) (action : TaskAction)
  | orphanEnds (attempt : Attempt)
  | request (reason : Bytes)
  | lock (call : Nat)
  | signalNext
  | unlock

/-- What a step of one test changes outside its own phase. -/
inductive Effect where
  | none
  | register (attempt : Attempt)
  | unregister (attempt : Attempt)
  | cancel (attempt : Attempt) (reason : Bytes)
  | abandon (attempt : Attempt)
  | record (result : TestResult)
  | stop
  | cancelRun (reason : Bytes)

namespace State

def setPhase (s : State) (i : Nat) (phase : Phase) : State :=
  { s with tasks := Function.update s.tasks i phase }

def cancelSource (s : State) (attempt : Attempt) (reason : Bytes) : State :=
  { s with sources := Function.update s.sources attempt (cancel (s.sources attempt) reason) }

def apply (s : State) (i : Nat) : Effect → State
  | .none => s
  | .register attempt => { s with activeTests := s.activeTests ++ [attempt] }
  | .unregister attempt => { s with activeTests := s.activeTests.filter (· ≠ attempt) }
  | .cancel attempt reason => s.cancelSource attempt reason
  | .abandon attempt => { s with orphans := attempt :: s.orphans }
  | .record result => { s with results := s.results ++ [(i,result)] }
  | .stop => { s with stopScheduling := true }
  | .cancelRun reason => { s with runCancellation := cancel s.runCancellation reason }

end State

def workerName (plan : Plan) (s : State) (i : Nat) : Bytes :=
  if plan.sequential then plan.callerName else ascii "worker-" ++ decimal (s.workerOf i)

def base (plan : Plan) (s : State) (i k : Nat) (stamp : Stamp) : TestResult :=
  attemptResult (plan.test i) plan.opened.runId (workerName plan s i) k stamp

/-- What `runOne` returns for a body that has ended. -/
def attemptVerdict (plan : Plan) (s : State) (i k : Nat) (record : BodyRecord) (watch : Watch)
    (stamp : Stamp) : TestResult :=
  let deadlineExceeded := watch == .grace
  let cancelledByRun := (s.sources ⟨i,k⟩).isSome && !deadlineExceeded
  finish stamp (verdict (base plan s i k stamp) record deadlineExceeded cancelledByRun
    (plan.timeoutMs i) (s.runCancellation.getD []) k)

def deadlineReason (plan : Plan) (i : Nat) : Bytes :=
  ascii "deadline of " ++ decimalInt (plan.timeoutMs i) ++ ascii "ms exceeded"

def failFastReason (result : TestResult) : Bytes :=
  ascii "fail-fast: " ++ result.qualifiedName ++ ascii " failed"

def retried (plan : Plan) (k : Nat) (result : TestResult) : Bool :=
  result.status.isFailure && k < plan.maxAttempts &&
    FailureClassifier.isRetryable result.failureCategory

/-- A retry that does not fail is flagged. -/
def flagged (k : Nat) (result : TestResult) : TestResult :=
  if !result.status.isFailure ∧ k > 1 then { result with flakyCandidate := true } else result

def diagnosed (plan : Plan) (diagnostics : Value) (result : TestResult) : TestResult :=
  if result.status.isFailure ∧ plan.collectDiagnostics then { result with diagnostics } else result

/-- The polling loop passes a cancellation of the run on. -/
def forwarded (s : State) (attempt : Attempt) : Option Effect :=
  match s.runCancellation, s.sources attempt with
  | some reason, none => some (.cancel attempt reason)
  | _, _ => none

def taskStep (plan : Plan) (s : State) (i : Nat) (action : TaskAction) : Option (Phase × Effect) :=
  match s.tasks i, action with
  | .taken, .begin => some (if s.stopScheduling then .finished else .notifying,.none)
  | .notifying, .observerStarted none => some (.entering 1,.none)
  | .notifying, .observerStarted (some escape) => some (.threw escape,.none)
  | .entering k, .enter stamp =>
    if (plan.test i).enabled then some (.creating k,.none)
    else some (.returned k (finish stamp (disabledResult (plan.test i) (base plan s i k stamp))),.none)
  | .creating k, .create .made _ => some (.registering k,.none)
  | .creating k, .create .nothing stamp =>
    some (.returned k (finish stamp (nothingProduced (base plan s i k stamp))),.none)
  | .creating _, .create (.threw escape) _ => some (.threw escape,.none)
  | .registering k, .register =>
    if s.sweep.isNone then some (.checking k,.register ⟨i,k⟩) else none
  | .checking k, .check stamp =>
    match s.runCancellation with
    | some reason => some (.leaving k (finish stamp (notRun reason (base plan s i k stamp))),.none)
    | none => some (.starting k,.none)
  | .starting k, .startBody =>
    some (.running k (if plan.bounded i then .polling else .inline),.none)
  | .running k watch, .bodyEnds record => some (.ended k record watch,.none)
  | .running k .polling, .forward => (forwarded s ⟨i,k⟩).map (.running k .polling,·)
  | .running k .polling, .deadline =>
    some (.running k .grace,.cancel ⟨i,k⟩ (deadlineReason plan i))
  | .running k .grace, .abandon stamp =>
    some (.leaving k (finish stamp (describeAbandonedTest (plan.timeoutMs i) k
      (base plan s i k stamp))),.abandon ⟨i,k⟩)
  -- the body is over but its promise is not set yet
  | .ended k record .polling, .forward => (forwarded s ⟨i,k⟩).map (.ended k record .polling,·)
  | .ended k record .polling, .deadline =>
    some (.ended k record .grace,.cancel ⟨i,k⟩ (deadlineReason plan i))
  | .ended k _ .grace, .abandon stamp =>
    some (.leaving k (finish stamp (describeAbandonedTest (plan.timeoutMs i) k
      (base plan s i k stamp))),.none)
  | .ended k record watch, .verdict stamp =>
    some (.leaving k (attemptVerdict plan s i k record watch stamp),.none)
  | .leaving k result, .leave =>
    if s.sweep.isNone then some (.returned k result,.unregister ⟨i,k⟩) else none
  | .returned k result, .conclude =>
    if retried plan k result then some (.entering (k + 1),.none)
    else some (.handling (flagged k result),.none)
  | .handling result, .record diagnostics =>
    some (.recorded (diagnosed plan diagnostics result),.record (diagnosed plan diagnostics result))
  | .recorded result, .observerFinished none =>
    some (if plan.options.failFast && result.status.isFailure then .tripping result else .finished,
      .none)
  | .recorded _, .observerFinished (some escape) => some (.threw escape,.none)
  | .tripping result, .trip => some (.signalling result,.stop)
  | .signalling result, .signal => some (.finished,.cancelRun (failFastReason result))
  | _, _ => none

/-- The next test of the sequential loop, and the next future to be awaited. -/
def inlineFrom (plan : Plan) (j : Nat) : Main := if j < plan.size then .inline j else .collecting
def drainFrom (plan : Plan) (j : Nat) : Main := if j < plan.size then .draining j else .collecting

/-- The record `run` returns. -/
def collected (plan : Plan) (s : State) (finishedAt : TimePoint) (duration : Int) : TestRun :=
  { plan.opened with
    label := plan.options.label
    workers := plan.workers
    finishedAt, duration
    cancellationReason := s.runCancellation.getD []
    results := (s.results.map (·.2)).mergeSort fun a b => decide (a.qualifiedName ≤ b.qualifiedName) }

def mainStep (plan : Plan) (s : State) : Action → Option Main
  | .start escape =>
    match s.main, escape with
    | .created, some escape => some (.threw escape)
    | .created, none => some (if plan.sequential then inlineFrom plan 0 else .submitting 0)
    | _, _ => none
  | .advance =>
    match s.main with
    | .inline j =>
      match s.tasks j with
      | .finished => some (inlineFrom plan (j + 1))
      | .threw escape => some (.threw escape)
      | _ => none
    | _ => none
  | .await =>
    match s.main with
    | .draining j =>
      match s.tasks j with
      | .finished => some (drainFrom plan (j + 1))
      | .threw .stdException => some (drainFrom plan (j + 1))
      | .threw .other => some (.unwinding .other)
      | _ => none
    | _ => none
  | .unwind =>
    match s.main with
    | .unwinding escape =>
      if (List.range plan.size).all fun i => (s.tasks i).over then some (.threw escape) else none
    | _ => none
  | .collect finishedAt duration =>
    match s.main with
    | .collecting => some (.closing (collected plan s finishedAt duration))
    | _ => none
  | .close escape =>
    match s.main, escape with
    | .closing run, none => some (.returned run)
    | .closing _, some escape => some (.threw escape)
    | _, _ => none
  | _ => none

/-- A worker no active test runs on. -/
def workerFree (plan : Plan) (s : State) (worker : Nat) : Bool :=
  worker < plan.workers &&
    (List.range plan.size).all fun j => !((s.tasks j).active && s.workerOf j == worker)

def step (plan : Plan) (action : Action) (s : State) : Option State :=
  match action with
  | .submit =>
    match s.main with
    | .submitting j =>
      some { s with
        queue := s.queue ++ [j]
        main := if j + 1 < plan.size then .submitting (j + 1) else .draining 0 }
    | _ => none
  | .take worker =>
    match s.queue with
    | i :: rest =>
      if workerFree plan s worker then
        some { s.setPhase i .taken with
          queue := rest, workerOf := Function.update s.workerOf i worker }
      else none
    | [] => none
  | .call =>
    match s.main with
    | .inline j =>
      match s.tasks j with
      | .waiting => some (s.setPhase j .taken)
      | _ => none
    | _ => none
  | .task i action =>
    (taskStep plan s i action).map fun (phase,effect) => (s.apply i effect).setPhase i phase
  | .orphanEnds attempt =>
    if attempt ∈ s.orphans then some { s with orphans := s.orphans.erase attempt } else none
  | .request reason =>
    some { s with
      runCancellation := cancel s.runCancellation reason, requests := s.requests ++ [reason] }
  | .lock call =>
    match s.sweep, s.requests[call]? with
    | none, some reason =>
      some { s with
        requests := s.requests.eraseIdx call, sweep := some ⟨reason,s.activeTests⟩ }
    | _, _ => none
  | .signalNext =>
    match s.sweep with
    | some ⟨reason,attempt :: rest⟩ =>
      some { s.cancelSource attempt reason with sweep := some ⟨reason,rest⟩ }
    | _ => none
  | .unlock =>
    match s.sweep with
    | some ⟨_,[]⟩ => some { s with sweep := none, completed := s.completed + 1 }
    | _ => none
  | other => (mainStep plan s other).map fun main => { s with main }

def initial : State := {}

/-- The body of the attempt is executing. -/
def Executing (s : State) (attempt : Attempt) : Prop :=
  (∃ watch, s.tasks attempt.test = .running attempt.number watch) ∨ attempt ∈ s.orphans

end TestForge.Runner
