import TestForge.FailureClassifier
import TestForge.Transition
import Mathlib.Logic.Function.Basic

/-! Soft assertions on one thread: the stack of scopes, and what becomes of every failing
check. The count of checks performed is left out. -/
namespace TestForge

open Strings

structure AssertionFailure where
  message : Bytes
  expression : Bytes
  expected : Bytes
  actual : Bytes
  /-- The full text of a valid location. -/
  location : Option Bytes

/-- `what()` is a C string. -/
def AssertionFailure.detail (failure : AssertionFailure) : Bytes :=
  FailureClassifier.assertionDetail (failure.message.takeWhile (· ≠ 0)) failure.expression failure.expected
    failure.actual failure.location

namespace SoftAssertions

def buildMessage (message expression : Bytes) : Bytes :=
  if message ≠ [] then message
  else if expression ≠ [] then ascii "assertion failed: " ++ expression
  else ascii "assertion failed"

/-- A `SoftAssertionScope`. Each of its failures stands with the number of the failing check. -/
structure Scope where
  failures : List (Nat × Bytes) := []
  firstLocation : Option Bytes := none
  verified : Bool := false

def Scope.record (scope : Scope) (check : Nat) (failure : AssertionFailure) : Scope :=
  { scope with
    firstLocation := if scope.failures = [] then failure.location else scope.firstLocation
    failures := scope.failures ++ [(check,failure.detail)] }

def listed (entry : Bytes × Nat) : Bytes := ascii "\n[" ++ decimal (entry.2 + 1) ++ ascii "] " ++ entry.1

/-- What `verify` throws. -/
def Scope.combined (scope : Scope) : AssertionFailure where
  message := decimal scope.failures.length ++ ascii " assertion(s) failed" ++
    (scope.failures.map (·.2)).zipIdx.flatMap listed
  expression := ascii "soft assertions"
  expected := ascii "all checks pass"
  actual := decimal scope.failures.length ++ ascii " failed"
  location := scope.firstLocation

/-- What leaves the assertion engine. -/
inductive Event where
  | threw (check : Nat) (failure : AssertionFailure)
  | raised (scope : Nat) (failures : List (Nat × Bytes)) (failure : AssertionFailure)
  /-- `verify` returned. -/
  | returned (scope : Nat) (failures : List (Nat × Bytes))
  /-- The destructor's log record. -/
  | logged (scope : Nat) (failures : List (Nat × Bytes))

structure State where
  /-- `softScopes()`, its back first. -/
  scopes : List Nat := []
  /-- The scopes not yet destroyed, innermost first. -/
  live : List Nat := []
  created : Nat := 0
  data : Nat → Scope := fun _ => {}
  /-- The failing checks. -/
  failed : List AssertionFailure := []
  events : List Event := []

inductive Action where
  | construct
  | check (succeeded : Bool) (expression expected actual message : Bytes) (location : Option Bytes)
  | verify (scope : Nat)
  /-- The innermost scope ends. -/
  | destroy

/-- `scopes.pop_back()` for the scope at the back. -/
def pop (scope : Nat) (scopes : List Nat) : List Nat := if scopes.head? = some scope then scopes.tail else scopes

/-- `AssertionEngine::report` of a failing check. -/
def report (s : State) (failure : AssertionFailure) : State :=
  let check := s.failed.length
  let s := { s with failed := s.failed ++ [failure] }
  match s.scopes with
  | scope :: _ => { s with data := Function.update s.data scope ((s.data scope).record check failure) }
  | [] => { s with events := s.events ++ [.threw check failure] }

def verify (s : State) (scope : Nat) : State :=
  let here := s.data scope
  let s := { s with data := Function.update s.data scope { here with verified := true } }
  if here.verified || here.failures.isEmpty then { s with events := s.events ++ [.returned scope here.failures] }
  else
    { s with
      scopes := pop scope s.scopes
      events := s.events ++ [.raised scope here.failures here.combined] }

def destroy (s : State) (scope : Nat) (outer : List Nat) : State :=
  let here := s.data scope
  let s := { s with scopes := pop scope s.scopes, live := outer }
  if !here.verified && !here.failures.isEmpty then { s with events := s.events ++ [.logged scope here.failures] } else s

def step (action : Action) (s : State) : Option State :=
  match action with
  | .construct => some {
      s with
      scopes := s.created :: s.scopes
      live := s.created :: s.live
      created := s.created + 1
      data := Function.update s.data s.created {} }
  | .check true _ _ _ _ _ => some s
  | .check false expression expected actual message location =>
    some (report s { message := buildMessage message expression,expression,expected,actual,location })
  | .verify scope => if scope ∈ s.live then some (verify s scope) else none
  | .destroy =>
    match s.live with
    | scope :: outer => some (destroy s scope outer)
    | [] => none

/-- The steps by what they do. -/
inductive Move (s : State) : Action → State → Prop where
  | construct : Move s .construct {
      s with
      scopes := s.created :: s.scopes
      live := s.created :: s.live
      created := s.created + 1
      data := Function.update s.data s.created {} }
  | passed (expression expected actual message : Bytes) (location : Option Bytes) :
      Move s (.check true expression expected actual message location) s
  | threw (expression expected actual message : Bytes) (location : Option Bytes) (failure : AssertionFailure)
      (bare : s.scopes = []) : Move s (.check false expression expected actual message location) {
        s with
        failed := s.failed ++ [failure]
        events := s.events ++ [.threw s.failed.length failure] }
  | recorded (expression expected actual message : Bytes) (location : Option Bytes) (failure : AssertionFailure)
      (scope : Nat) (back : s.scopes.head? = some scope) :
      Move s (.check false expression expected actual message location) {
        s with
        failed := s.failed ++ [failure]
        data := Function.update s.data scope ((s.data scope).record s.failed.length failure) }
  | returned (scope : Nat) (alive : scope ∈ s.live)
      (quiet : (s.data scope).verified = true ∨ (s.data scope).failures = []) : Move s (.verify scope) {
        s with
        data := Function.update s.data scope { s.data scope with verified := true }
        events := s.events ++ [.returned scope (s.data scope).failures] }
  | raised (scope : Nat) (alive : scope ∈ s.live) (first : (s.data scope).verified = false) :
      Move s (.verify scope) {
        s with
        data := Function.update s.data scope { s.data scope with verified := true }
        scopes := pop scope s.scopes
        events := s.events ++ [.raised scope (s.data scope).failures (s.data scope).combined] }
  | logged (scope : Nat) (outer : List Nat) (innermost : s.live = scope :: outer)
      (forgotten : (s.data scope).verified = false) : Move s .destroy {
        s with
        scopes := pop scope s.scopes
        live := outer
        events := s.events ++ [.logged scope (s.data scope).failures] }
  | destroyed (scope : Nat) (outer : List Nat) (innermost : s.live = scope :: outer)
      (settled : (s.data scope).verified = true ∨ (s.data scope).failures = []) :
      Move s .destroy { s with scopes := pop scope s.scopes,live := outer }

theorem step_move {action : Action} {s next : State} (taken : step action s = some next) : Move s action next := by
  cases action with
  | construct =>
    obtain rfl := Option.some.inj taken
    exact .construct
  | check succeeded expression expected actual message location =>
    cases succeeded with
    | true =>
      obtain rfl := Option.some.inj taken
      exact .passed ..
    | false =>
      obtain rfl := Option.some.inj taken
      rw [report]
      split
      next scope outer back => exact .recorded _ _ _ _ _ _ _ (congrArg List.head? back)
      next bare => exact .threw _ _ _ _ _ _ bare
  | verify scope =>
    rw [step] at taken
    split at taken
    next alive =>
      obtain rfl := Option.some.inj taken
      rw [verify]
      split
      next quiet =>
        rw [Bool.or_eq_true,List.isEmpty_iff] at quiet
        exact .returned scope alive quiet
      next loud =>
        simp only [Bool.or_eq_true,not_or,Bool.not_eq_true] at loud
        exact .raised scope alive loud.1
    next => cases taken
  | destroy =>
    rw [step] at taken
    split at taken
    next scope outer innermost =>
      obtain rfl := Option.some.inj taken
      rw [destroy]
      split
      next forgotten =>
        simp only [Bool.and_eq_true,Bool.not_eq_true'] at forgotten
        exact .logged scope outer innermost forgotten.1
      next settled =>
        refine .destroyed scope outer innermost ?_
        cases verified : (s.data scope).verified with
        | true => exact .inl rfl
        | false =>
          refine .inr ?_
          simpa [verified] using settled
    next => cases taken

/-! ### Scopes and their lifetimes -/

structure Nested (s : State) : Prop where
  nested : s.scopes.Sublist s.live
  distinct : s.live.Nodup
  created : ∀ scope ∈ s.live, scope < s.created

theorem pop_sublist (scope : Nat) (scopes : List Nat) : (pop scope scopes).Sublist scopes := by
  rw [pop]
  split
  · exact List.tail_sublist scopes
  · exact List.Sublist.refl scopes

/-- When the innermost scope ends it is off the stack. -/
theorem pop_sublist_outer {scope : Nat} {scopes outer : List Nat} (nested : scopes.Sublist (scope :: outer)) :
    (pop scope scopes).Sublist outer := by
  cases nested with
  | cons _ inside => exact (pop_sublist scope scopes).trans inside
  | cons_cons _ inside => simpa [pop] using inside

theorem Nested.step {action : Action} {s next : State} (inv : Nested s)
    (taken : SoftAssertions.step action s = some next) : Nested next := by
  have ended (scope : Nat) (outer : List Nat) (innermost : s.live = scope :: outer) :
      (pop scope s.scopes).Sublist outer ∧ outer.Nodup ∧ ∀ other ∈ outer, other < s.created := by
    have nested := inv.nested
    have distinct := inv.distinct
    rw [innermost] at nested distinct
    exact ⟨pop_sublist_outer nested,(List.nodup_cons.mp distinct).2,
      fun other member => inv.created other (by simp [innermost,member])⟩
  cases step_move taken with
  | construct =>
    refine ⟨inv.nested.cons_cons _,List.nodup_cons.mpr ⟨fun member => ?_,inv.distinct⟩,fun scope member => ?_⟩
    · exact absurd (inv.created _ member) (Nat.lt_irrefl _)
    · rcases List.mem_cons.mp member with rfl | member
      · exact Nat.lt_succ_self _
      · exact Nat.lt_succ_of_lt (inv.created scope member)
  | passed => exact inv
  | threw => exact ⟨inv.nested,inv.distinct,inv.created⟩
  | recorded => exact ⟨inv.nested,inv.distinct,inv.created⟩
  | returned => exact ⟨inv.nested,inv.distinct,inv.created⟩
  | raised scope => exact ⟨(pop_sublist scope s.scopes).trans inv.nested,inv.distinct,inv.created⟩
  | logged scope outer innermost =>
    obtain ⟨nested,distinct,created⟩ := ended scope outer innermost
    exact ⟨nested,distinct,created⟩
  | destroyed scope outer innermost =>
    obtain ⟨nested,distinct,created⟩ := ended scope outer innermost
    exact ⟨nested,distinct,created⟩

/-! ### What becomes of a failing check -/

/-- The check was thrown, is part of what a `verify` threw or a destructor logged, or stands in
a living scope whose `verify` has not been called. -/
def Accounted (s : State) (check : Nat) (failure : AssertionFailure) : Prop :=
  .threw check failure ∈ s.events ∨
  (∃ scope failures thrown, .raised scope failures thrown ∈ s.events ∧ (check,failure.detail) ∈ failures ∧
    failure.detail <:+: thrown.message) ∨
  (∃ scope failures, .logged scope failures ∈ s.events ∧ (check,failure.detail) ∈ failures) ∨
  ∃ scope ∈ s.live, (s.data scope).verified = false ∧ (check,failure.detail) ∈ (s.data scope).failures

/-- A `verify` that returns, of a scope whose `verify` has not thrown, has no failing check before it. -/
def Quiet (s : State) : Prop :=
  ∀ front scope failures back, s.events = front ++ .returned scope failures :: back →
    (∀ earlier thrown, .raised scope earlier thrown ∉ front) → failures = []

/-- Nothing is lost. -/
structure Sound (s : State) : Prop where
  accounted : ∀ check failure, s.failed[check]? = some failure → Accounted s check failure
  quiet : Quiet s

/-- No failing check is made while the scope at the back of the stack is verified. -/
def Careful (s : State) : Action → Prop
  | .check false _ _ _ _ _ => ∀ scope ∈ s.scopes.head?, (s.data scope).verified = false
  | _ => True

instance Careful.decidable : ∀ s action, Decidable (Careful s action)
  | s, .check false _ _ _ _ _ => inferInstanceAs (Decidable (∀ scope ∈ s.scopes.head?, (s.data scope).verified = false))
  | _, .check true _ _ _ _ _ => .isTrue trivial
  | _, .construct => .isTrue trivial
  | _, .verify _ => .isTrue trivial
  | _, .destroy => .isTrue trivial

theorem combined_mentions (scope : Scope) (check : Nat) (detail : Bytes) (member : (check,detail) ∈ scope.failures) :
    detail <:+: scope.combined.message := by
  obtain ⟨i,here⟩ := List.mem_iff_getElem?.mp (List.mem_map_of_mem (f := (·.2)) member)
  obtain ⟨front,back,split⟩ := List.append_of_mem (List.mk_mem_zipIdx_iff_getElem?.mpr here)
  rw [Scope.combined,split,List.flatMap_append,List.flatMap_cons]
  refine ⟨decimal scope.failures.length ++ ascii " assertion(s) failed" ++ front.flatMap listed ++
    (ascii "\n[" ++ decimal (i + 1) ++ ascii "] "),back.flatMap listed,?_⟩
  simp [listed]

theorem Accounted.carry {s next : State} {check : Nat} {failure : AssertionFailure} (accounted : Accounted s check failure)
    (events : ∀ event ∈ s.events, event ∈ next.events)
    (pending : ∀ scope ∈ s.live, (s.data scope).verified = false → (check,failure.detail) ∈ (s.data scope).failures →
      Accounted next check failure) : Accounted next check failure := by
  rcases accounted with threw | ⟨scope,failures,thrown,raised,member,mentioned⟩ | ⟨scope,failures,logged,member⟩ |
    ⟨scope,alive,unverified,member⟩
  · exact .inl (events _ threw)
  · exact .inr (.inl ⟨scope,failures,thrown,events _ raised,member,mentioned⟩)
  · exact .inr (.inr (.inl ⟨scope,failures,events _ logged,member⟩))
  · exact pending scope alive unverified member

theorem Quiet.snoc {s next : State} {event : Event} (quiet : Quiet s) (longer : next.events = s.events ++ [event])
    (last : ∀ scope failures, event = .returned scope failures →
      (∀ earlier thrown, .raised scope earlier thrown ∉ s.events) → failures = []) : Quiet next := by
  intro front scope failures back split silent
  rw [longer] at split
  cases back using List.reverseRecOn with
  | nil =>
    obtain ⟨rfl,same⟩ := List.append_inj' split rfl
    exact last scope failures (List.singleton_inj.mp same) silent
  | append_singleton back other _ =>
    rw [← List.cons_append,← List.append_assoc] at split
    exact quiet front scope failures back (List.append_inj' split rfl).1 silent

/-- What careful steps preserve. -/
structure Kept (s : State) : Prop where
  nested : Nested s
  sound : Sound s
  clean : ∀ scope, (s.data scope).verified = true →
    (s.data scope).failures = [] ∨ ∃ earlier thrown, .raised scope earlier thrown ∈ s.events

theorem Kept.initial : Kept {} where
  nested := ⟨List.Sublist.refl _,List.nodup_nil,fun _ member => absurd member List.not_mem_nil⟩
  sound := ⟨fun check failure failed => by simp at failed,fun front scope failures back split => by simp at split⟩
  clean scope verified := by cases verified

theorem failed_snoc {failed : List AssertionFailure} {last failure : AssertionFailure} {check : Nat}
    (here : (failed ++ [last])[check]? = some failure) :
    failed[check]? = some failure ∨ (check = failed.length ∧ failure = last) := by
  rcases Nat.lt_trichotomy check failed.length with before | rfl | behind
  · rw [List.getElem?_append_left before] at here
    exact .inl here
  · rw [List.getElem?_concat_length] at here
    exact .inr ⟨rfl,(Option.some.inj here).symm⟩
  · rw [List.getElem?_eq_none (by simp; omega)] at here
    cases here

section Step

variable {action : Action} {s next : State}

/-- What a step makes of the failures a scope still holds. -/
theorem Kept.accounted_step (kept : Kept s) (careful : Careful s action) (taken : SoftAssertions.step action s = some next) :
    ∀ check failure, next.failed[check]? = some failure → Accounted next check failure := by
  have accounted := kept.sound.accounted
  intro check failure failed
  cases step_move taken with
  | construct =>
    have fresh {scope : Nat} (alive : scope ∈ s.live) : scope ≠ s.created :=
      Nat.ne_of_lt (kept.nested.created scope alive)
    refine (accounted check failure failed).carry (fun _ => id) fun scope alive unverified member => ?_
    refine .inr (.inr (.inr ⟨scope,List.mem_cons_of_mem _ alive,?_⟩))
    simpa only [Function.update_of_ne (fresh alive)] using ⟨unverified,member⟩
  | passed => exact accounted check failure failed
  | threw =>
    rcases failed_snoc failed with earlier | ⟨rfl,rfl⟩
    · exact (accounted check failure earlier).carry (fun _ member => List.mem_append_left _ member)
        fun scope alive unverified member => .inr (.inr (.inr ⟨scope,alive,unverified,member⟩))
    · exact .inl (by simp)
  | recorded _ _ _ _ _ _ scope back =>
    have unverified : (s.data scope).verified = false := careful scope back
    have alive : scope ∈ s.live := kept.nested.nested.subset (List.mem_of_mem_head? back)
    rcases failed_snoc failed with earlier | ⟨rfl,rfl⟩
    · refine (accounted check failure earlier).carry (fun _ => id) fun holder held still member =>
        .inr (.inr (.inr ⟨holder,held,?_⟩))
      by_cases same : holder = scope
      · subst same
        simpa [Scope.record] using ⟨still,.inl member⟩
      · simpa only [Function.update_of_ne same] using ⟨still,member⟩
    · exact .inr (.inr (.inr ⟨scope,alive,by simpa [Scope.record] using unverified,by simp [Scope.record]⟩))
  | returned scope alive settled =>
    refine (accounted check failure failed).carry (fun _ member => List.mem_append_left _ member)
      fun holder held still member => .inr (.inr (.inr ⟨holder,held,?_⟩))
    by_cases same : holder = scope
    · subst same
      simp [still] at settled
      simp [settled] at member
    · simpa only [Function.update_of_ne same] using ⟨still,member⟩
  | raised scope alive first =>
    refine (accounted check failure failed).carry (fun _ member => List.mem_append_left _ member)
      fun holder held still member => ?_
    by_cases same : holder = scope
    · subst same
      exact .inr (.inl ⟨holder,_,_,by simp,member,combined_mentions _ check _ member⟩)
    · exact .inr (.inr (.inr ⟨holder,held,by simpa only [Function.update_of_ne same] using ⟨still,member⟩⟩))
  | logged scope outer innermost forgotten =>
    refine (accounted check failure failed).carry (fun _ member => List.mem_append_left _ member)
      fun holder held still member => ?_
    rw [innermost] at held
    rcases List.mem_cons.mp held with rfl | outside
    · exact .inr (.inr (.inl ⟨holder,_,by simp,member⟩))
    · exact .inr (.inr (.inr ⟨holder,outside,still,member⟩))
  | destroyed scope outer innermost settled =>
    refine (accounted check failure failed).carry (fun _ => id) fun holder held still member => ?_
    rw [innermost] at held
    rcases List.mem_cons.mp held with rfl | outside
    · simp [still] at settled
      simp [settled] at member
    · exact .inr (.inr (.inr ⟨holder,outside,still,member⟩))

/-- A scope is verified with failures only by a verification that raises. -/
theorem Kept.clean_step (kept : Kept s) (careful : Careful s action) (taken : SoftAssertions.step action s = some next) :
    ∀ scope, (next.data scope).verified = true →
      (next.data scope).failures = [] ∨ ∃ earlier thrown, .raised scope earlier thrown ∈ next.events := by
  have clean := kept.clean
  have grown {other : Event} {scope : Nat} (verified : (s.data scope).verified = true) :
      (s.data scope).failures = [] ∨ ∃ earlier thrown, .raised scope earlier thrown ∈ s.events ++ [other] := by
    rcases clean scope verified with empty | ⟨earlier,thrown,member⟩
    · exact .inl empty
    · exact .inr ⟨earlier,thrown,List.mem_append_left _ member⟩
  intro other verified
  cases step_move taken with
  | construct =>
    by_cases new : other = s.created
    · simp [new] at verified
    · simp only [Function.update_of_ne new] at verified ⊢
      exact clean other verified
  | passed => exact clean other verified
  | threw => exact grown verified
  | recorded _ _ _ _ _ _ scope back =>
    have unverified : (s.data scope).verified = false := careful scope back
    by_cases same : other = scope
    · subst same
      simp [Scope.record,unverified] at verified
    · simp only [Function.update_of_ne same] at verified ⊢
      exact clean other verified
  | returned scope alive settled =>
    by_cases same : other = scope
    · subst same
      simp only [Function.update_self]
      exact settled.elim grown .inl
    · simp only [Function.update_of_ne same] at verified ⊢
      exact grown verified
  | raised scope alive first =>
    by_cases same : other = scope
    · subst same
      exact .inr ⟨(s.data other).failures,(s.data other).combined,by simp⟩
    · simp only [Function.update_of_ne same] at verified ⊢
      exact grown verified
  | logged => exact grown verified
  | destroyed => exact clean other verified

theorem Kept.quiet_step (kept : Kept s) (taken : SoftAssertions.step action s = some next) : Quiet next := by
  have quiet := kept.sound.quiet
  cases step_move taken with
  | construct | passed | recorded | destroyed => exact quiet
  | threw | raised | logged => exact quiet.snoc rfl nofun
  | returned scope alive settled =>
    refine quiet.snoc rfl fun other failures same silent => ?_
    obtain ⟨rfl,rfl⟩ := Event.returned.inj same
    refine settled.elim (fun verified => (kept.clean scope verified).resolve_right ?_) id
    rintro ⟨earlier,thrown,member⟩
    exact silent earlier thrown member

theorem Kept.step (kept : Kept s) (careful : Careful s action) (taken : SoftAssertions.step action s = some next) :
    Kept next where
  nested := kept.nested.step taken
  sound := ⟨kept.accounted_step careful taken,kept.quiet_step taken⟩
  clean := kept.clean_step careful taken

end Step

/-! ### Lost checks -/

def Event.mentions (check : Nat) : Event → Prop
  | .threw other _ => check = other
  | .raised _ failures _ => check ∈ failures.map (·.1)
  | .returned _ _ => False
  | .logged _ failures => check ∈ failures.map (·.1)

structure Numbered (s : State) : Prop where
  recorded : ∀ scope, ∀ entry ∈ (s.data scope).failures, entry.1 < s.failed.length
  events : ∀ event ∈ s.events, ∀ check, event.mentions check → check < s.failed.length

/-- The check stands in verified scopes only, and nothing that left the engine tells of it. -/
structure Lost (s : State) (check : Nat) : Prop where
  made : check < s.failed.length
  verified : ∀ scope, ∀ entry ∈ (s.data scope).failures, entry.1 = check → (s.data scope).verified = true
  silent : ∀ event ∈ s.events, ¬event.mentions check

theorem Lost.not_accounted {s : State} {check : Nat} (lost : Lost s check) (failure : AssertionFailure) :
    ¬Accounted s check failure := by
  rintro (threw | ⟨scope,failures,thrown,raised,member,-⟩ | ⟨scope,failures,logged,member⟩ | ⟨scope,-,unverified,member⟩)
  · exact lost.silent _ threw rfl
  · exact lost.silent _ raised (List.mem_map_of_mem member)
  · exact lost.silent _ logged (List.mem_map_of_mem member)
  · exact absurd ((lost.verified scope _ member rfl).symm.trans unverified) (by simp)

theorem events_snoc {P : Event → Prop} {events : List Event} {last : Event} (earlier : ∀ event ∈ events, P event)
    (new : P last) : ∀ event ∈ events ++ [last], P event := by
  intro event member
  rcases List.mem_append.mp member with member | member
  · exact earlier event member
  · rwa [List.mem_singleton.mp member]

theorem Numbered.step {action : Action} {s next : State} (numbered : Numbered s)
    (taken : SoftAssertions.step action s = some next) : Numbered next := by
  obtain ⟨recorded,events⟩ := numbered
  have listed (scope check : Nat) (member : check ∈ (s.data scope).failures.map (·.1)) : check < s.failed.length := by
    obtain ⟨entry,here,rfl⟩ := List.mem_map.mp member
    exact recorded scope entry here
  cases step_move taken with
  | construct =>
    refine ⟨fun scope => ?_,events⟩
    by_cases new : scope = s.created
    · simp [new]
    · simpa only [Function.update_of_ne new] using recorded scope
  | passed => exact ⟨recorded,events⟩
  | threw =>
    refine ⟨fun scope entry member => ?_,events_snoc (fun event member check mentioned => ?_) fun check mentioned => ?_⟩
    · exact (recorded scope entry member).trans_le (by simp)
    · exact (events event member check mentioned).trans_le (by simp)
    · obtain rfl := mentioned
      simp
  | recorded _ _ _ _ _ failure scope =>
    refine ⟨fun other entry member => ?_,fun event member check mentioned => ?_⟩
    · by_cases same : other = scope
      · subst same
        simp only [Function.update_self,Scope.record,List.mem_append,List.mem_singleton] at member
        rcases member with member | rfl
        · exact (recorded other entry member).trans_le (by simp)
        · simp
      · simp only [Function.update_of_ne same] at member
        exact (recorded other entry member).trans_le (by simp)
    · exact (events event member check mentioned).trans_le (by simp)
  | returned scope =>
    refine ⟨fun other => ?_,events_snoc events fun check mentioned => mentioned.elim⟩
    by_cases same : other = scope
    · subst same
      simpa using recorded other
    · simpa only [Function.update_of_ne same] using recorded other
  | raised scope =>
    refine ⟨fun other => ?_,events_snoc events (listed scope)⟩
    by_cases same : other = scope
    · subst same
      simpa using recorded other
    · simpa only [Function.update_of_ne same] using recorded other
  | logged scope => exact ⟨recorded,events_snoc events (listed scope)⟩
  | destroyed => exact ⟨recorded,events⟩

theorem Lost.step {action : Action} {s next : State} {check : Nat} (lost : Lost s check)
    (taken : SoftAssertions.step action s = some next) : Lost next check := by
  obtain ⟨made,verified,silent⟩ := lost
  have absent (scope : Nat) (unverified : (s.data scope).verified = false) :
      check ∉ (s.data scope).failures.map (·.1) := by
    intro member
    obtain ⟨entry,here,same⟩ := List.mem_map.mp member
    exact absurd ((verified scope entry here same).symm.trans unverified) (by simp)
  have longer (failure : AssertionFailure) : check < (s.failed ++ [failure]).length := made.trans_le (by simp)
  cases step_move taken with
  | construct =>
    refine ⟨made,fun scope => ?_,silent⟩
    by_cases new : scope = s.created
    · simp [new]
    · simpa only [Function.update_of_ne new] using verified scope
  | passed => exact ⟨made,verified,silent⟩
  | threw _ _ _ _ _ failure => exact ⟨longer failure,verified,events_snoc silent (Nat.ne_of_lt made)⟩
  | recorded _ _ _ _ _ failure scope =>
    refine ⟨longer failure,fun other entry member same => ?_,silent⟩
    by_cases here : other = scope
    · subst here
      simp only [Function.update_self,Scope.record,List.mem_append,List.mem_singleton] at member ⊢
      rcases member with member | rfl
      · exact verified other entry member same
      · exact absurd same (Nat.ne_of_gt made)
    · simp only [Function.update_of_ne here] at member ⊢
      exact verified other entry member same
  | returned scope =>
    refine ⟨made,fun other => ?_,events_snoc silent id⟩
    by_cases same : other = scope
    · subst same
      simp
    · simpa only [Function.update_of_ne same] using verified other
  | raised scope alive first =>
    refine ⟨made,fun other => ?_,events_snoc silent (absent scope first)⟩
    by_cases same : other = scope
    · subst same
      simp
    · simpa only [Function.update_of_ne same] using verified other
  | logged scope outer innermost forgotten => exact ⟨made,verified,events_snoc silent (absent scope forgotten)⟩
  | destroyed => exact ⟨made,verified,silent⟩

/-- A failing check in a verified scope is lost at once. -/
theorem Numbered.careless {action : Action} {s next : State} (numbered : Numbered s) (careless : ¬Careful s action)
    (taken : SoftAssertions.step action s = some next) : Lost next s.failed.length := by
  obtain ⟨recorded,events⟩ := numbered
  have silent : ∀ event ∈ s.events, ¬event.mentions s.failed.length :=
    fun event member mentioned => absurd (events event member _ mentioned) (Nat.lt_irrefl _)
  cases step_move taken with
  | recorded _ _ _ _ _ failure scope back =>
    refine ⟨by simp,fun other entry member same => ?_,silent⟩
    by_cases here : other = scope
    · subst here
      simpa [Careful,back,Scope.record] using careless
    · simp only [Function.update_of_ne here] at member
      exact absurd same (Nat.ne_of_lt (recorded other entry member))
  | threw _ _ _ _ _ failure bare => exact absurd (by simp [Careful,bare]) careless
  | _ => exact absurd trivial careless

theorem Numbered.initial : Numbered {} where
  recorded _ _ member := absurd member List.not_mem_nil
  events _ member := absurd member List.not_mem_nil

/-- A run is careful to its end, or it has lost a check. -/
theorem careful_or_lost (labels : List Action) (s : State) (path : Transition.run step labels {} = some s) :
    Numbered s ∧ ((Transition.Along step Careful labels {} ∧ Kept s) ∨
      (¬Transition.Along step Careful labels {} ∧ ∃ check, Lost s check)) := by
  induction labels using List.reverseRecOn generalizing s with
  | nil =>
    obtain rfl : {} = s := by simpa using path
    exact ⟨.initial,.inl ⟨trivial,.initial⟩⟩
  | append_singleton labels action ih =>
    obtain ⟨middle,before,last⟩ := (Transition.run_append_some step _ _ _ _).mp path
    obtain ⟨next,taken,ended⟩ := (Transition.run_cons_some step _ _ _ _).mp last
    obtain rfl : next = s := by simpa using ended
    obtain ⟨numbered,state⟩ := ih middle before
    rw [Transition.along_snoc step Careful labels action _ middle before]
    refine ⟨numbered.step taken,?_⟩
    rcases state with ⟨along,kept⟩ | ⟨strayed,check,lost⟩
    · by_cases careful : Careful middle action
      · exact .inl ⟨⟨along,careful⟩,kept.step careful taken⟩
      · exact .inr ⟨fun both => careful both.2,_,numbered.careless careful taken⟩
    · exact .inr ⟨fun both => strayed both.1,check,lost.step taken⟩

/-- When soft assertions lose nothing. -/
theorem sound_iff (labels : List Action) (s : State) (path : Transition.run step labels {} = some s) :
    Sound s ↔ Transition.Along step Careful labels {} := by
  obtain ⟨-,⟨along,kept⟩ | ⟨strayed,check,lost⟩⟩ := careful_or_lost labels s path
  · exact iff_of_true kept.sound along
  · refine iff_of_false (fun sound => ?_) strayed
    exact lost.not_accounted _ (sound.accounted check _ (List.getElem?_eq_getElem lost.made))

def failing : Action := .check false (ascii "status == 200") (ascii "200") (ascii "500") [] none

theorem sound_iff_twoScopes : ∃ s,
    Transition.run step [.construct,.construct,failing,.verify 1,failing,.destroy,.destroy] {} = some s ∧
      s.failed.length = 2 ∧ Sound s := by
  have made : (Transition.run step [.construct,.construct,failing,.verify 1,failing,.destroy,.destroy] {}).map
      (fun s => s.failed.length) = some 2 := by decide
  obtain ⟨s,path,two⟩ := Option.map_eq_some_iff.mp made
  exact ⟨s,path,two,(sound_iff _ s path).mpr (by decide)⟩

/-- A `verify` that passes silences the scope: what fails behind it is never told. -/
theorem verified_scope_loses : ∃ s, Transition.run step [.construct,.verify 0,failing,.verify 0,.destroy] {} = some s ∧
    s.live = [] ∧ ¬Sound s := by
  have ended : (Transition.run step [.construct,.verify 0,failing,.verify 0,.destroy] {}).map (fun s => s.live) =
      some [] := by decide
  obtain ⟨s,path,dead⟩ := Option.map_eq_some_iff.mp ended
  refine ⟨s,path,dead,fun sound => ?_⟩
  obtain ⟨-,⟨along,-⟩ | ⟨-,check,lost⟩⟩ := careful_or_lost _ s path
  · exact absurd along (by decide)
  · exact lost.not_accounted _ (sound.accounted check _ (List.getElem?_eq_getElem lost.made))

end SoftAssertions
end TestForge
