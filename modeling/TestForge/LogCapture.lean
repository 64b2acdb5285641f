import TestForge.Config
import Mathlib.Data.List.Nodup

/-! Log records, the captures that are open on each thread, and what they hold of the records
that were submitted while they lived. -/
namespace TestForge

open Strings Clock

structure LogRecord where
  timestamp : TimePoint := 0
  level : Settings.LogLevel := .info
  component : Bytes := []
  message : Bytes := []
  fields : List (Bytes × Json.Value) := []
  runId : Bytes := []
  test : Bytes := []
  threadId : Nat := 0

/-- A sink writes the record or throws. -/
abbrev LogSink := LogRecord → Except Bytes Unit

/-- With the identity of the object, which the capture stack points to. -/
structure ScopedLogCapture where
  id : Nat
  capacity : Nat
  records : List LogRecord := []

/-- With the capture stack of each thread; `created` is the identity of the next capture. -/
structure LogManager where
  runId : Bytes := []
  captureStack : Nat → List ScopedLogCapture := fun _ => []
  created : Nat := 0

namespace ScopedLogCapture

/-- What `submit` does to a capture. -/
def push (stamped : LogRecord) (capture : ScopedLogCapture) : ScopedLogCapture :=
  if capture.records.length < capture.capacity then { capture with records := capture.records ++ [stamped] } else capture

@[simp] theorem push_id (stamped : LogRecord) (capture : ScopedLogCapture) : (capture.push stamped).id = capture.id := by
  rw [push]
  split <;> rfl

/-- What a capture of a capacity holds after the records of its lifetime. -/
def holding (id capacity : Nat) (heard : List LogRecord) : ScopedLogCapture := ⟨id,capacity,heard.take capacity⟩

theorem push_holding (id capacity : Nat) (heard : List LogRecord) (stamped : LogRecord) :
    (holding id capacity heard).push stamped = holding id capacity (heard ++ [stamped]) := by
  simp only [push,holding,List.length_take]
  split
  · next room =>
    rw [List.take_of_length_le (by omega),List.take_of_length_le]
    rw [List.length_append,List.length_singleton]
    omega
  · next full => rw [List.take_append_of_le_length (by omega)]

end ScopedLogCapture

namespace LogManager

def stamp (manager : LogManager) (record : LogRecord) : LogRecord :=
  if record.runId = [] then { record with runId := manager.runId } else record

/-- The captures of the calling thread come before the sinks. -/
def submit (manager : LogManager) (thread : Nat) (record : LogRecord) (sinks : List LogSink) :
    Except Bytes Unit × LogManager :=
  let stamped := manager.stamp record
  (sinks.forM (· stamped),
    { manager with
      captureStack := Function.update manager.captureStack thread
        ((manager.captureStack thread).map (·.push stamped)) })

/-- What happens in the process, in the order in which it takes effect. -/
inductive Event where
  | construct (thread capacity : Nat)
  | destroy (thread id : Nat)
  | setRunId (runId : Bytes)
  | submit (thread : Nat) (record : LogRecord) (sinks : List LogSink)

/-- The destructor looks for its capture from the top of the stack. -/
def step (manager : LogManager) : Event → LogManager
  | .construct thread capacity =>
    { manager with
      captureStack := Function.update manager.captureStack thread
        (manager.captureStack thread ++ [⟨manager.created,capacity,[]⟩])
      created := manager.created + 1 }
  | .destroy thread id =>
    { manager with
      captureStack := Function.update manager.captureStack thread
        ((manager.captureStack thread).reverse.eraseP (·.id = id)).reverse }
  | .setRunId runId => { manager with runId }
  | .submit thread record sinks => (manager.submit thread record sinks).2

def run (manager : LogManager) (events : List Event) : LogManager := events.foldl step manager

/-- The records submitted on a thread, as they were stamped. -/
def emitted (thread : Nat) (manager : LogManager) : List Event → List LogRecord
  | [] => []
  | event :: rest =>
    (match event with
      | .submit source record _ => if source = thread then [manager.stamp record] else []
      | _ => []) ++ emitted thread (manager.step event) rest

theorem emitted_append (thread : Nat) (manager : LogManager) (front back : List Event) :
    emitted thread manager (front ++ back) =
      emitted thread manager front ++ emitted thread (manager.run front) back := by
  induction front generalizing manager with
  | nil => rfl
  | cons event front ih => simp only [List.cons_append,emitted,ih,List.append_assoc,run,List.foldl_cons]

theorem run_snoc (manager : LogManager) (events : List Event) (event : Event) :
    manager.run (events ++ [event]) = (manager.run events).step event := by
  rw [run,List.foldl_append]
  rfl

/-! ### Identities -/

/-- No two captures of a stack are one object, and the next one is none of them. -/
def Distinct (manager : LogManager) : Prop :=
  ∀ thread, ((manager.captureStack thread).map (·.id)).Nodup ∧
    ∀ capture ∈ manager.captureStack thread, capture.id < manager.created

theorem eraseP_distinct (stack : List ScopedLogCapture) (distinct : (stack.map (·.id)).Nodup) (id : Nat) :
    stack.eraseP (·.id = id) = stack.filter (·.id ≠ id) := by
  induction stack with
  | nil => rfl
  | cons capture rest ih =>
    obtain ⟨fresh,distinct⟩ := List.nodup_cons.mp distinct
    by_cases found : capture.id = id
    · have others : rest.filter (·.id ≠ id) = rest := by
        apply List.filter_eq_self.mpr
        intro other member
        apply decide_eq_true
        rintro rfl
        exact fresh (List.mem_map.mpr ⟨other,member,found.symm⟩)
      rw [List.eraseP_cons_of_pos (by simpa using found),List.filter_cons_of_neg (by simpa using found),others]
    · rw [List.eraseP_cons_of_neg (by simpa using found),List.filter_cons_of_pos (by simpa using found),ih distinct]

theorem step_destroy (manager : LogManager) (distinct : manager.Distinct) (thread id : Nat) :
    (manager.step (.destroy thread id)).captureStack = Function.update manager.captureStack thread
      ((manager.captureStack thread).filter (·.id ≠ id)) := by
  have reversed : ((manager.captureStack thread).reverse.map (·.id)).Nodup := by
    rw [List.map_reverse,List.nodup_reverse]
    exact (distinct thread).1
  rw [step]
  dsimp only
  rw [eraseP_distinct _ reversed,List.filter_reverse,List.reverse_reverse]

theorem step_distinct (manager : LogManager) (distinct : manager.Distinct) (event : Event) :
    (manager.step event).Distinct := by
  intro other
  obtain ⟨nodup,known⟩ := distinct other
  cases event with
  | construct thread capacity =>
    simp only [step]
    by_cases same : other = thread
    · subst same
      rw [Function.update_self]
      constructor
      · rw [List.map_append,List.nodup_append]
        refine ⟨nodup,List.nodup_singleton _,?_⟩
        intro id member last equal
        obtain ⟨capture,listed,rfl⟩ := List.mem_map.mp member
        have := known capture listed
        simp only [List.map_cons,List.map_nil,List.mem_singleton] at equal
        omega
      · intro capture member
        rcases List.mem_append.mp member with old | new
        · exact (known capture old).trans (Nat.lt_succ_self _)
        · rw [List.mem_singleton.mp new]
          exact Nat.lt_succ_self _
    · rw [Function.update_of_ne same]
      exact ⟨nodup,fun capture member => (known capture member).trans (Nat.lt_succ_self _)⟩
  | destroy thread id =>
    rw [step_destroy manager distinct]
    by_cases same : other = thread
    · subst same
      rw [Function.update_self]
      exact ⟨nodup.sublist (List.filter_sublist.map _),
        fun capture member => known capture (List.mem_of_mem_filter member)⟩
    · rw [Function.update_of_ne same]
      exact ⟨nodup,known⟩
  | setRunId runId => exact distinct other
  | submit thread record sinks =>
    simp only [step,submit]
    by_cases same : other = thread
    · subst same
      rw [Function.update_self]
      constructor
      · simpa [List.map_map,Function.comp_def] using nodup
      · intro capture member
        obtain ⟨old,listed,rfl⟩ := List.mem_map.mp member
        rw [ScopedLogCapture.push_id]
        exact known old listed
    · rw [Function.update_of_ne same]
      exact ⟨nodup,known⟩

theorem run_distinct (manager : LogManager) (distinct : manager.Distinct) (events : List Event) :
    (manager.run events).Distinct := by
  induction events generalizing manager with
  | nil => exact distinct
  | cons event rest ih => exact ih _ (step_distinct manager distinct event)

theorem initial_distinct : Distinct {} := by
  intro thread
  exact ⟨List.nodup_nil,fun capture member => absurd member List.not_mem_nil⟩

/-! ### The lifetime of a capture -/

/-- The capture of an identity on the stack of a thread. -/
def find (manager : LogManager) (thread id : Nat) : Option ScopedLogCapture :=
  (manager.captureStack thread).find? (·.id = id)

theorem find_construct (manager : LogManager) (distinct : manager.Distinct) (thread capacity : Nat) :
    (manager.step (.construct thread capacity)).find thread manager.created =
      some (.holding manager.created capacity []) := by
  have fresh : (manager.captureStack thread).find? (·.id = manager.created) = none := by
    apply List.find?_eq_none.mpr
    intro capture member same
    have := (distinct thread).2 capture member
    have := of_decide_eq_true same
    omega
  simp [find,step,List.find?_append,fresh,ScopedLogCapture.holding]

section

variable (manager : LogManager) (distinct : manager.Distinct) (thread id : Nat)

theorem find_construct_other (capture : ScopedLogCapture) (found : manager.find thread id = some capture)
    (other capacity : Nat) : (manager.step (.construct other capacity)).find thread id = some capture := by
  rw [find] at found
  by_cases same : thread = other
  · subst same
    simp [find,step,List.find?_append,found]
  · simpa [find,step,Function.update_of_ne same] using found

include distinct in
theorem find_destroy (source other : Nat) (alive : ¬(source = thread ∧ other = id)) :
    (manager.step (.destroy source other)).find thread id = manager.find thread id := by
  rw [find,find,step_destroy manager distinct]
  by_cases same : thread = source
  · subst same
    have different : other ≠ id := fun equal => alive ⟨rfl,equal⟩
    rw [Function.update_self,List.find?_filter]
    congr 1
    funext capture
    by_cases target : capture.id = id
    · simp [target,different.symm]
    · simp [target]
  · rw [Function.update_of_ne same]

theorem find_submit (source : Nat) (record : LogRecord) (sinks : List LogSink) :
    (manager.step (.submit source record sinks)).find thread id =
      if source = thread then (manager.find thread id).map (·.push (manager.stamp record))
      else manager.find thread id := by
  rw [find,find,step]
  dsimp only [submit]
  by_cases same : source = thread
  · subst same
    rw [Function.update_self,if_pos rfl,List.find?_map]
    congr 2
    funext capture
    rw [Function.comp_apply,ScopedLogCapture.push_id]
  · rw [Function.update_of_ne (Ne.symm same),if_neg same]

end

theorem step_holding (manager : LogManager) (distinct : manager.Distinct) (thread id capacity : Nat)
    (heard : List LogRecord) (found : manager.find thread id = some (.holding id capacity heard)) (event : Event)
    (alive : event ≠ .destroy thread id) :
    (manager.step event).find thread id = some (.holding id capacity (heard ++ emitted thread manager [event])) := by
  cases event with
  | construct source other =>
    rw [find_construct_other manager thread id _ found]
    simp [emitted]
  | destroy source other =>
    rw [find_destroy manager distinct thread id source other (by rintro ⟨rfl,rfl⟩; exact alive rfl),found]
    simp [emitted]
  | setRunId runId =>
    rw [show (manager.step (.setRunId runId)).find thread id = manager.find thread id from rfl,found]
    simp [emitted]
  | submit source record sinks =>
    rw [find_submit,found]
    by_cases same : source = thread
    · simp [emitted,same,ScopedLogCapture.push_holding]
    · simp [emitted,same]

theorem run_holding (manager : LogManager) (distinct : manager.Distinct) (thread id capacity : Nat)
    (heard : List LogRecord) (found : manager.find thread id = some (.holding id capacity heard))
    (after : List Event) (alive : .destroy thread id ∉ after) :
    (manager.run after).find thread id = some (.holding id capacity (heard ++ emitted thread manager after)) := by
  induction after generalizing manager heard with
  | nil => simpa [run,emitted] using found
  | cons event rest ih =>
    obtain ⟨now,later⟩ := not_or.mp (List.mem_cons.not.mp alive)
    have next := step_holding manager distinct thread id capacity heard found event (Ne.symm now)
    have final := ih _ (step_distinct manager distinct event) _ next later
    rw [List.append_assoc] at final
    have joined := emitted_append thread manager [event] rest
    rw [List.singleton_append] at joined
    rw [joined]
    exact final

theorem find_alive (before after : List Event) (thread capacity : Nat)
    (alive : .destroy thread (run {} before).created ∉ after) :
    (run {} (before ++ .construct thread capacity :: after)).find thread (run {} before).created =
      some (.holding (run {} before).created capacity
        (emitted thread (run {} (before ++ [.construct thread capacity])) after)) := by
  have distinct := run_distinct {} initial_distinct before
  have opened := find_construct _ distinct thread capacity
  have lived := run_holding _ (step_distinct _ distinct _) thread _ capacity [] opened after alive
  rw [run_snoc]
  rw [run,List.foldl_append]
  exact lived

/-- The last records, as many as the capacity allows. -/
def tail (capacity : Nat) (heard : List LogRecord) : List LogRecord := heard.drop (heard.length - capacity)

theorem take_eq_tail_iff (capacity : Nat) (heard : List LogRecord) : heard.take capacity = tail capacity heard ↔
    heard.length ≤ capacity ∨ ∀ i < capacity, heard[i]? = heard[heard.length - capacity + i]? := by
  rw [tail]
  constructor
  · intro same
    by_cases few : heard.length ≤ capacity
    · exact .inl few
    · refine .inr fun i inside => ?_
      have item := congrArg (·[i]?) same
      simpa [List.getElem?_take,inside,List.getElem?_drop] using item
  · rintro (few | repeated)
    · rw [List.take_of_length_le few,Nat.sub_eq_zero_of_le few,List.drop_zero]
    · apply List.ext_getElem?
      intro i
      rw [List.getElem?_take,List.getElem?_drop]
      by_cases inside : i < capacity
      · rw [if_pos inside,repeated i inside]
      · rw [if_neg inside,List.getElem?_eq_none (by omega)]

theorem find_origin (events : List Event) (thread id : Nat) (capture : ScopedLogCapture)
    (live : (run {} events).find thread id = some capture) : ∃ before after capacity,
    events = before ++ .construct thread capacity :: after ∧ id = (run {} before).created ∧
      .destroy thread id ∉ after := by
  induction events using List.reverseRecOn generalizing capture with
  | nil => cases live
  | append_singleton events event ih =>
    have distinct := run_distinct {} initial_distinct events
    rw [run_snoc] at live
    have earlier : ∀ old, (run {} events).find thread id = some old → event ≠ .destroy thread id →
        ∃ before after capacity, events ++ [event] = before ++ .construct thread capacity :: after ∧
          id = (run {} before).created ∧ .destroy thread id ∉ after := by
      intro old found other
      obtain ⟨before,after,capacity,rfl,same,alive⟩ := ih old found
      refine ⟨before,after ++ [event],capacity,by simp,same,?_⟩
      rw [List.mem_append,List.mem_singleton,not_or]
      exact ⟨alive,Ne.symm other⟩
    cases event with
    | construct source capacity =>
      by_cases same : source = thread
      · subst same
        cases found : (run {} events).find source id with
        | some old => exact earlier old found Event.noConfusion
        | none =>
          rw [find] at found
          simp only [find,step,Function.update_self,List.find?_append,found,Option.none_or] at live
          have new : (run {} events).created = id := by
            by_contra other
            simp [other] at live
          exact ⟨events,[],capacity,rfl,new.symm,List.not_mem_nil⟩
      · have apart : ((run {} events).step (.construct source capacity)).find thread id =
            (run {} events).find thread id := by
          simp [find,step,Function.update_of_ne (Ne.symm same)]
        exact earlier capture (apart.symm.trans live) Event.noConfusion
    | destroy source other =>
      by_cases gone : source = thread ∧ other = id
      · obtain ⟨rfl,rfl⟩ := gone
        rw [find,step_destroy _ distinct,Function.update_self] at live
        have kept := List.mem_of_find?_eq_some live
        have same := List.find?_some live
        exact absurd (of_decide_eq_true same) (of_decide_eq_true (List.mem_filter.mp kept).2)
      · rw [find_destroy _ distinct thread id source other gone] at live
        exact earlier capture live (by rintro ⟨⟩; exact gone ⟨rfl,rfl⟩)
    | setRunId runId => exact earlier capture live Event.noConfusion
    | submit source record sinks =>
      rw [find_submit] at live
      by_cases same : source = thread
      · rw [if_pos same,Option.map_eq_some_iff] at live
        obtain ⟨old,found,-⟩ := live
        exact earlier old found Event.noConfusion
      · rw [if_neg same] at live
        exact earlier capture live Event.noConfusion

/-- A capture holds the tail of its lifetime exactly when it was never full, or its first records
are repeated at the end. -/
theorem capture_tail_iff (events : List Event) (thread id : Nat) (capture : ScopedLogCapture)
    (live : (run {} events).find thread id = some capture) : ∃ before after,
    events = before ++ .construct thread capture.capacity :: after ∧ id = (run {} before).created ∧
      .destroy thread id ∉ after ∧
      let heard := emitted thread (run {} (before ++ [.construct thread capture.capacity])) after
      (capture.records = tail capture.capacity heard ↔ heard.length ≤ capture.capacity ∨
        ∀ i < capture.capacity, heard[i]? = heard[heard.length - capture.capacity + i]?) := by
  obtain ⟨before,after,capacity,rfl,rfl,alive⟩ := find_origin events thread id capture live
  rw [find_alive before after thread capacity alive,Option.some.injEq] at live
  subst live
  exact ⟨before,after,rfl,rfl,alive,take_eq_tail_iff capacity _⟩

/-- A record with a message, for a sink that throws. -/
def warning (message : Bytes) : Event := .submit 0 { message } [fun _ => .error (ascii "disk full")]

theorem capture_tail_one : ∃ before after, [.construct 0 1,warning [97]] = before ++ .construct 0 1 :: after ∧
    0 = (run {} before).created ∧ .destroy 0 0 ∉ after ∧
      let heard := emitted 0 (run {} (before ++ [.construct 0 1])) after
      ([({ message := [97] } : LogRecord)] = tail 1 heard ↔
        heard.length ≤ 1 ∨ ∀ i < 1, heard[i]? = heard[heard.length - 1 + i]?) :=
  capture_tail_iff [.construct 0 1,warning [97]] 0 0 ⟨0,1,[{ message := [97] }]⟩ rfl

/-- Two records in a capture of one: the later one is dropped. -/
theorem latest_dropped : ¬∀ (before after : List Event) (thread id : Nat) (capture : ScopedLogCapture),
    .destroy thread id ∉ after → id = (run {} before).created →
    (run {} (before ++ .construct thread capture.capacity :: after)).find thread id = some capture →
      capture.records = tail capture.capacity
        (emitted thread (run {} (before ++ [.construct thread capture.capacity])) after) := by
  intro tails
  have held := tails [] [warning [97],warning [98]] 0 0 ⟨0,1,[{ message := [97] }]⟩
    (by simp [warning]) rfl rfl
  have message := congrArg (List.map LogRecord.message) held
  exact absurd message (by decide)

end LogManager

namespace MemoryLogSink

/-- `MemoryLogSink::write`, for a capacity that is not 0. -/
def write (capacity : Nat) (records : List LogRecord) (record : LogRecord) : List LogRecord :=
  (if capacity ≤ records.length then records.drop 1 else records) ++ [record]

theorem foldl_write (capacity : Nat) (positive : 0 < capacity) (heard : List LogRecord) :
    heard.foldl (write capacity) [] = LogManager.tail capacity heard := by
  induction heard using List.reverseRecOn with
  | nil => simp [LogManager.tail]
  | append_singleton heard record ih =>
    rw [List.foldl_append,List.foldl_cons,List.foldl_nil,ih,write,LogManager.tail,LogManager.tail,List.length_drop,
      List.length_append,List.length_singleton]
    split
    · next full =>
      rw [List.drop_drop,List.drop_append_of_le_length (by omega)]
      congr 2
      omega
    · next room =>
      have none : heard.length - capacity = 0 := by omega
      have none' : heard.length + 1 - capacity = 0 := by omega
      rw [none,none',List.drop_zero,List.drop_zero]

end MemoryLogSink
end TestForge
