import TestForge.LogJournal
import TestForge.Redaction

/-! How records come from the threads to the sinks. A call of `log` passes the level, takes a copy
of the sinks under the mutex of the manager and then writes to one after the other, while other
threads log, the level is moved and the sinks are replaced. Under every schedule each sink is given
what was logged while it was registered: nothing is lost, doubled or torn, and what one thread logs
stays in order. The captures of the threads are left out. -/
namespace TestForge

open Strings Clock

structure Logger where
  component : Bytes
  test : Bytes := []

namespace Settings.LogLevel

/-- The value of the enumerator. -/
def rank : LogLevel → Nat
  | .trace => 0
  | .debug => 1
  | .info => 2
  | .warn => 3
  | .error => 4
  | .off => 5

end Settings.LogLevel

/-- What one call of `log` was given. -/
structure LogCall where
  logger : Logger
  level : Settings.LogLevel
  message : Bytes
  fields : List (Bytes × Json.Value) := []
  timestamp : TimePoint := 0

namespace Logger

def redactedField (field : Bytes × Json.Value) : Bytes × Json.Value :=
  match field.2 with
  | .string text => (field.1,.string (redactSecrets text))
  | _ => field

/-- The record that `log` makes on a thread. -/
def record (thread : Nat) (call : LogCall) : LogRecord where
  timestamp := call.timestamp
  level := call.level
  component := call.logger.component
  message := redactSecrets call.message
  test := call.logger.test
  threadId := thread
  fields := call.fields.map redactedField

end Logger

/-- A memory without capacity is undefined and left out. -/
structure MemoryObject where
  capacity : Nat
  records : List LogRecord := []
  positive : 0 < capacity
  fits : records.length ≤ capacity

namespace MemoryObject

def write (sink : MemoryObject) (record : LogRecord) : MemoryObject where
  capacity := sink.capacity
  records := MemoryLogSink.write sink.capacity sink.records record
  positive := sink.positive
  fits := by
    have room := sink.positive
    have fits := sink.fits
    unfold MemoryLogSink.write
    split <;> simp <;> omega

theorem foldl_write (sink : MemoryObject) (given : List LogRecord) :
    (given.foldl write sink).capacity = sink.capacity ∧
      (given.foldl write sink).records = LogManager.tail sink.capacity (sink.records ++ given) := by
  have own : sink.records.foldl (MemoryLogSink.write sink.capacity) [] = sink.records := by
    rw [MemoryLogSink.foldl_write _ sink.positive,LogManager.tail,Nat.sub_eq_zero_of_le sink.fits,List.drop_zero]
  have run : ∀ sink : MemoryObject, (given.foldl write sink).capacity = sink.capacity ∧
      (given.foldl write sink).records = given.foldl (MemoryLogSink.write sink.capacity) sink.records := by
    induction given with
    | nil => simp
    | cons record rest ih => exact fun sink => ih (sink.write record)
  refine ⟨(run sink).1,(run sink).2.trans ?_⟩
  rw [← MemoryLogSink.foldl_write _ sink.positive,List.foldl_append,own]

end MemoryObject

/-- An object that is registered as a sink. -/
inductive SinkObject where
  | file (content : Bytes)
  | memory (ring : MemoryObject)

namespace SinkObject

def write : SinkObject → LogRecord → SinkObject
  | .file content, record => .file (FileLogSink.write content record)
  | .memory ring, record => .memory (ring.write record)

/-- What a sink is after it was given some records. -/
def Holds (given : List LogRecord) : SinkObject → SinkObject → Prop
  | .file content, .file after =>
    after = content ++ (given.map fun record => (LogManager.toJson record).dump).flatMap (· ++ [10])
  | .memory ring, .memory after => after.capacity = ring.capacity ∧
    after.records = LogManager.tail ring.capacity (ring.records ++ given)
  | _, _ => False

theorem holds_foldl (sink : SinkObject) (given : List LogRecord) : Holds given sink (given.foldl write sink) := by
  cases sink with
  | file content =>
    have same : given.foldl write (.file content) = .file (given.foldl FileLogSink.write content) := by
      induction given generalizing content with
      | nil => rfl
      | cons record rest ih => exact ih (FileLogSink.write content record)
    rw [same]
    exact FileLogSink.foldl_write content given
  | memory ring =>
    have same : given.foldl write (.memory ring) = .memory (given.foldl MemoryObject.write ring) := by
      induction given generalizing ring with
      | nil => rfl
      | cons record rest ih => exact ih (ring.write record)
    rw [same]
    exact MemoryObject.foldl_write ring given

end SinkObject

namespace LogDelivery

/-- Where a thread stands in its call of `log`. -/
inductive Stage where
  | idle
  | accepted (record : LogRecord)
  | writing (stamped : LogRecord) (rest : List Nat)

structure Process where
  level : Settings.LogLevel := .info
  runId : Bytes := []
  sinks : List Nat := []
  objects : Nat → SinkObject
  stages : Nat → Stage := fun _ => .idle

def Process.enabled (process : Process) (level : Settings.LogLevel) : Bool :=
  level ≠ .off ∧ process.level.rank ≤ level.rank

/-- What a thread can do next, and what the process is asked for. -/
inductive Action where
  | setLevel (level : Settings.LogLevel)
  | setRunId (runId : Bytes)
  | addSink (sink : Nat)
  | replaceSinks (sinks : List Nat)
  | log (thread : Nat) (call : LogCall)
  | submit (thread : Nat)
  | write (thread : Nat)

def Process.at (process : Process) (thread : Nat) (stage : Stage) : Process :=
  { process with stages := Function.update process.stages thread stage }

def stamp (runId : Bytes) (record : LogRecord) : LogRecord :=
  if record.runId = [] then { record with runId } else record

/-- A thread that is not where the action begins stays there. -/
def step (process : Process) : Action → Process
  | .setLevel level => { process with level }
  | .setRunId runId => { process with runId }
  | .addSink sink => { process with sinks := process.sinks ++ [sink] }
  | .replaceSinks sinks => { process with sinks }
  | .log thread call =>
    match process.stages thread with
    | .idle =>
      if process.enabled call.level then process.at thread (.accepted (Logger.record thread call)) else process
    | _ => process
  | .submit thread =>
    match process.stages thread with
    | .accepted record => process.at thread (.writing (stamp process.runId record) process.sinks)
    | _ => process
  | .write thread =>
    match process.stages thread with
    | .writing stamped (sink :: rest) =>
      { process.at thread (.writing stamped rest) with
        objects := Function.update process.objects sink ((process.objects sink).write stamped) }
    | .writing _ [] => process.at thread .idle
    | _ => process

def run (process : Process) (schedule : List Action) : Process := schedule.foldl step process

/-! ### What happens on the way -/

/-- The calls of a thread that pass the level, as records. -/
def loggedBy (thread : Nat) (process : Process) : Action → List LogRecord
  | .log source call =>
    match process.stages source with
    | .idle => if source = thread ∧ process.enabled call.level then [Logger.record source call] else []
    | _ => []
  | _ => []

/-- The records that a thread submits, each with the sinks of that moment. -/
def submittedBy (thread : Nat) (process : Process) : Action → List (LogRecord × List Nat)
  | .submit source =>
    match process.stages source with
    | .accepted record => if source = thread then [(stamp process.runId record,process.sinks)] else []
    | _ => []
  | _ => []

/-- What a sink is given, and by which thread. -/
def givenTo (sink : Nat) (process : Process) : Action → List (Nat × LogRecord)
  | .write source =>
    match process.stages source with
    | .writing stamped (other :: _) => if other = sink then [(source,stamped)] else []
    | _ => []
  | _ => []

/-- What the steps of a schedule yield, one after the other. -/
def trace (yield : Process → Action → List α) (process : Process) : List Action → List α
  | [] => []
  | action :: rest => yield process action ++ trace yield (step process action) rest

/-- What a thread still has for a sink. -/
def Stage.owes (sink : Nat) : Stage → List LogRecord
  | .writing stamped rest => (rest.filter (· = sink)).map fun _ => stamped
  | _ => []

/-- What a thread has not yet submitted. -/
def Stage.holds : Stage → List LogRecord
  | .accepted record => [record]
  | _ => []

/-- A record once for each time that a sink is in a list. -/
def share (sink : Nat) (submitted : LogRecord × List Nat) : List LogRecord :=
  (submitted.2.filter (· = sink)).map fun _ => submitted.1

def ofThread (thread : Nat) (given : List (Nat × LogRecord)) : List LogRecord :=
  (given.filter (·.1 = thread)).map (·.2)

/-- The record as the logger made it. -/
def unstamped (record : LogRecord) : LogRecord := { record with runId := [] }

theorem unstamped_stamp (runId : Bytes) (record : LogRecord) : unstamped (stamp runId record) = unstamped record := by
  rw [stamp]
  split <;> rfl

theorem unstamped_record (thread : Nat) (call : LogCall) :
    unstamped (Logger.record thread call) = Logger.record thread call := by
  simp only [unstamped,Logger.record]

@[simp] theorem at_same (process : Process) (thread : Nat) (stage : Stage) :
    (process.at thread stage).stages thread = stage := by
  simp [Process.at]

@[simp] theorem at_other (process : Process) {thread other : Nat} (different : other ≠ thread) (stage : Stage) :
    (process.at thread stage).stages other = process.stages other := by
  simp [Process.at,different]

theorem step_owes (sink thread : Nat) (process : Process) (action : Action) :
    ofThread thread (givenTo sink process action) ++ ((step process action).stages thread).owes sink =
      (process.stages thread).owes sink ++ (submittedBy thread process action).flatMap (share sink) := by
  cases action with
  | setLevel | setRunId | addSink | replaceSinks => simp [givenTo,submittedBy,ofThread,step]
  | log source call =>
    simp only [givenTo,submittedBy,ofThread,step]
    by_cases mine : thread = source
    · subst mine
      cases stage : process.stages thread with
      | idle => by_cases on : process.enabled call.level = true <;> simp [on,stage,Stage.owes]
      | accepted | writing => simp [stage]
    · cases stage : process.stages source with
      | idle => by_cases on : process.enabled call.level = true <;> simp [on,mine]
      | accepted | writing => simp
  | submit source =>
    simp only [givenTo,submittedBy,step]
    by_cases mine : thread = source
    · subst mine
      cases stage : process.stages thread with
      | accepted record => simp [Stage.owes,share,ofThread]
      | idle | writing => simp [stage,ofThread]
    · cases stage : process.stages source with
      | accepted record => simp [mine,Ne.symm mine,ofThread]
      | idle | writing => simp [ofThread]
  | write source =>
    simp only [givenTo,submittedBy,step]
    by_cases mine : thread = source
    · subst mine
      cases stage : process.stages thread with
      | writing stamped rest =>
        cases rest with
        | nil => simp [Stage.owes,ofThread]
        | cons other rest => by_cases same : other = sink <;> simp [same,Stage.owes,ofThread]
      | idle | accepted => simp [stage,ofThread]
    · cases stage : process.stages source with
      | writing stamped rest =>
        cases rest with
        | nil => simp [mine,ofThread]
        | cons other rest => by_cases same : other = sink <;> simp [same,mine,Ne.symm mine,ofThread]
      | idle | accepted => simp [ofThread]

theorem step_holds (thread : Nat) (process : Process) (action : Action) :
    (submittedBy thread process action).map (unstamped ·.1) ++
        ((step process action).stages thread).holds.map unstamped =
      (process.stages thread).holds.map unstamped ++ loggedBy thread process action := by
  cases action with
  | setLevel | setRunId | addSink | replaceSinks => simp [loggedBy,submittedBy,step]
  | log source call =>
    simp only [loggedBy,submittedBy,step]
    by_cases mine : thread = source
    · subst mine
      cases stage : process.stages thread with
      | idle => by_cases on : process.enabled call.level = true <;> simp [on,stage,Stage.holds,unstamped_record]
      | accepted | writing => simp [stage]
    · cases stage : process.stages source with
      | idle => by_cases on : process.enabled call.level = true <;> simp [on,mine,Ne.symm mine]
      | accepted | writing => simp
  | submit source =>
    simp only [loggedBy,submittedBy,step]
    by_cases mine : thread = source
    · subst mine
      cases stage : process.stages thread with
      | accepted record => simp [Stage.holds,unstamped_stamp]
      | idle | writing => simp [stage]
    · cases stage : process.stages source with
      | accepted record => simp [mine,Ne.symm mine]
      | idle | writing => simp
  | write source =>
    simp only [loggedBy,submittedBy,step]
    by_cases mine : thread = source
    · subst mine
      cases stage : process.stages thread with
      | writing stamped rest => cases rest <;> simp [Stage.holds]
      | idle | accepted => simp [stage]
    · cases stage : process.stages source with
      | writing stamped rest => cases rest <;> simp [mine]
      | idle | accepted => simp

theorem step_objects (sink : Nat) (process : Process) (action : Action) : (step process action).objects sink =
    ((givenTo sink process action).map (·.2)).foldl SinkObject.write (process.objects sink) := by
  cases action with
  | setLevel | setRunId | addSink | replaceSinks => rfl
  | log source call =>
    simp only [step,givenTo]
    split
    · split <;> rfl
    · rfl
  | submit source =>
    simp only [step,givenTo]
    split <;> rfl
  | write source =>
    simp only [step,givenTo]
    cases process.stages source with
    | idle | accepted => rfl
    | writing stamped rest =>
      cases rest with
      | nil => rfl
      | cons other rest =>
        by_cases same : other = sink
        · subst same
          simp
        · simp [same,Ne.symm same]

/-! ### Whole schedules -/

theorem ofThread_append (thread : Nat) (first second : List (Nat × LogRecord)) :
    ofThread thread (first ++ second) = ofThread thread first ++ ofThread thread second := by
  simp [ofThread]

theorem run_owes (sink thread : Nat) (process : Process) (schedule : List Action) :
    ofThread thread (trace (givenTo sink) process schedule) ++ ((run process schedule).stages thread).owes sink =
      (process.stages thread).owes sink ++ (trace (submittedBy thread) process schedule).flatMap (share sink) := by
  induction schedule generalizing process with
  | nil => simp [trace,run,ofThread]
  | cons action rest ih =>
    have first := step_owes sink thread process action
    calc ofThread thread (trace (givenTo sink) process (action :: rest)) ++
          ((run process (action :: rest)).stages thread).owes sink
        = ofThread thread (givenTo sink process action) ++ (ofThread thread (trace (givenTo sink) (step process action) rest) ++
            ((run (step process action) rest).stages thread).owes sink) := by
          rw [trace,ofThread_append,List.append_assoc]
          rfl
      _ = ofThread thread (givenTo sink process action) ++ ((step process action).stages thread).owes sink ++
            (trace (submittedBy thread) (step process action) rest).flatMap (share sink) := by
          rw [ih,List.append_assoc]
      _ = _ := by rw [first,trace,List.flatMap_append,List.append_assoc]

theorem run_holds (thread : Nat) (process : Process) (schedule : List Action) :
    (trace (submittedBy thread) process schedule).map (unstamped ·.1) ++
        ((run process schedule).stages thread).holds.map unstamped =
      (process.stages thread).holds.map unstamped ++ trace (loggedBy thread) process schedule := by
  induction schedule generalizing process with
  | nil => simp [trace,run]
  | cons action rest ih =>
    have first := step_holds thread process action
    calc (trace (submittedBy thread) process (action :: rest)).map (unstamped ·.1) ++
          ((run process (action :: rest)).stages thread).holds.map unstamped
        = (submittedBy thread process action).map (unstamped ·.1) ++
            ((trace (submittedBy thread) (step process action) rest).map (unstamped ·.1) ++
              ((run (step process action) rest).stages thread).holds.map unstamped) := by
          rw [trace,List.map_append,List.append_assoc]
          rfl
      _ = (submittedBy thread process action).map (unstamped ·.1) ++
            ((step process action).stages thread).holds.map unstamped ++
              trace (loggedBy thread) (step process action) rest := by
          rw [ih,List.append_assoc]
      _ = _ := by rw [first,trace,List.append_assoc]

theorem run_objects (sink : Nat) (process : Process) (schedule : List Action) : (run process schedule).objects sink =
    ((trace (givenTo sink) process schedule).map (·.2)).foldl SinkObject.write (process.objects sink) := by
  induction schedule generalizing process with
  | nil => rfl
  | cons action rest ih =>
    rw [trace,List.map_append,List.foldl_append,← step_objects]
    exact ih (step process action)

/-- Under every schedule a sink holds what it was given. From each thread these are, in order, the
records that the thread submitted while the sink was registered, less what the thread is still
writing; and a thread submits, in order, what it logged. -/
theorem log_delivered (process : Process) (schedule : List Action) (sink : Nat) :
    ∃ given : List (Nat × LogRecord),
      SinkObject.Holds (given.map (·.2)) (process.objects sink) ((run process schedule).objects sink) ∧
      ∀ thread,
        ofThread thread given ++ ((run process schedule).stages thread).owes sink =
          (process.stages thread).owes sink ++ (trace (submittedBy thread) process schedule).flatMap (share sink) ∧
        (trace (submittedBy thread) process schedule).map (unstamped ·.1) ++
            ((run process schedule).stages thread).holds.map unstamped =
          (process.stages thread).holds.map unstamped ++ trace (loggedBy thread) process schedule := by
  refine ⟨trace (givenTo sink) process schedule,?_,fun thread => ⟨run_owes _ _ _ _,run_holds _ _ _⟩⟩
  rw [run_objects]
  exact SinkObject.holds_foldl _ _

end LogDelivery
end TestForge
