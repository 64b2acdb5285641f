import TestForge.Strings
import TestForge.Transition

/-! One cancellation source and its tokens, used by any number of threads. The flag is read
without the mutex, so the section of `cancel` is taken apart into its writes; memory is
sequentially consistent. The deadline is left out. -/
namespace TestForge.CancellationToken

open Strings

/-- Where a thread is in `cancel` or in `waitFor`. -/
inductive Phase where
  | outside
  | cancelling (reason : Bytes)
  /-- With the mutex: nobody has cancelled before. -/
  | writing (reason : Bytes)
  | storing
  /-- The flag is set, the mutex still held. -/
  | leaving
  | notifying
  /-- About to take the mutex: the wait begins, or is over. -/
  | waking (expired : Bool)
  | testing (expired : Bool)
  /-- With the mutex: not cancelled, and the wait has not begun. -/
  | armed
  | waiting
  deriving DecidableEq, Repr

/-- What a call returned. -/
inductive Observation where
  | isCancelled (result : Bool)
  | reason (result : Bytes)
  /-- Whether the whole duration elapsed. -/
  | waitFor (result : Bool)
  deriving DecidableEq, Repr

structure State where
  cancelled : Bool := false
  reason : Bytes := []
  mutex : Option Nat := none
  phases : Nat → Phase := fun _ => .outside
  /-- The reasons of the calls of `cancel`, in the order in which they took the mutex. -/
  entered : List Bytes := []
  /-- The calls of `cancel` that have returned. -/
  completed : Nat := 0
  seen : List Observation := []

inductive Action where
  | cancel (thread : Nat) (reason : Bytes)
  | enter (thread : Nat)
  | write (thread : Nat)
  | store (thread : Nat)
  | leave (thread : Nat)
  | notify (thread : Nat)
  | isCancelled
  | reason
  | waitFor (thread : Nat)
  | lock (thread : Nat)
  | test (thread : Nat)
  | sleep (thread : Nat)
  /-- Without a notification. -/
  | wake (thread : Nat)
  | expire (thread : Nat)

def State.setPhase (s : State) (t : Nat) (phase : Phase) : State :=
  { s with phases := Function.update s.phases t phase }

/-- `condition.notify_all()` -/
def Phase.notified : Phase → Phase
  | .waiting => .waking false
  | other => other

def step (action : Action) (s : State) : Option State :=
  match action with
  | .cancel t reason => if s.phases t = .outside then some (s.setPhase t (.cancelling reason)) else none
  | .enter t =>
    match s.phases t,s.mutex with
    | .cancelling reason,none =>
      -- the first reason wins
      if s.cancelled then
        some { s.setPhase t .outside with entered := s.entered ++ [reason], completed := s.completed + 1 }
      else some { s.setPhase t (.writing reason) with entered := s.entered ++ [reason], mutex := some t }
    | _,_ => none
  | .write t =>
    match s.phases t with
    | .writing reason => some { s.setPhase t .storing with reason }
    | _ => none
  | .store t => if s.phases t = .storing then some { s.setPhase t .leaving with cancelled := true } else none
  | .leave t => if s.phases t = .leaving then some { s.setPhase t .notifying with mutex := none } else none
  | .notify t =>
    if s.phases t = .notifying then
      some { s with phases := Function.update (fun u => (s.phases u).notified) t .outside, completed := s.completed + 1 }
    else none
  | .isCancelled => some { s with seen := s.seen ++ [.isCancelled s.cancelled] }
  | .reason => if s.mutex = none then some { s with seen := s.seen ++ [.reason s.reason] } else none
  | .waitFor t => if s.phases t = .outside then some (s.setPhase t (.waking false)) else none
  | .lock t =>
    match s.phases t,s.mutex with
    | .waking expired,none => some { s.setPhase t (.testing expired) with mutex := some t }
    | _,_ => none
  | .test t =>
    match s.phases t with
    | .testing expired =>
      if s.cancelled then some { s.setPhase t .outside with mutex := none, seen := s.seen ++ [.waitFor false] }
      else if expired then some { s.setPhase t .outside with mutex := none, seen := s.seen ++ [.waitFor true] }
      else some (s.setPhase t .armed)
    | _ => none
  | .sleep t => if s.phases t = .armed then some { s.setPhase t .waiting with mutex := none } else none
  | .wake t => if s.phases t = .waiting then some (s.setPhase t (.waking false)) else none
  | .expire t => if s.phases t = .waiting then some (s.setPhase t (.waking true)) else none

/-- The steps by action and target. -/
inductive Move (s : State) : Action → State → Prop where
  | cancel (t : Nat) (reason : Bytes) (here : s.phases t = .outside) :
      Move s (.cancel t reason) (s.setPhase t (.cancelling reason))
  | late (t : Nat) (reason : Bytes) (here : s.phases t = .cancelling reason) (free : s.mutex = none)
      (cancelled : s.cancelled = true) : Move s (.enter t)
        { s.setPhase t .outside with entered := s.entered ++ [reason], completed := s.completed + 1 }
  | enter (t : Nat) (reason : Bytes) (here : s.phases t = .cancelling reason) (free : s.mutex = none)
      (live : s.cancelled = false) : Move s (.enter t)
        { s.setPhase t (.writing reason) with entered := s.entered ++ [reason], mutex := some t }
  | write (t : Nat) (reason : Bytes) (here : s.phases t = .writing reason) :
      Move s (.write t) { s.setPhase t .storing with reason }
  | store (t : Nat) (here : s.phases t = .storing) :
      Move s (.store t) { s.setPhase t .leaving with cancelled := true }
  | leave (t : Nat) (here : s.phases t = .leaving) : Move s (.leave t) { s.setPhase t .notifying with mutex := none }
  | notify (t : Nat) (here : s.phases t = .notifying) : Move s (.notify t)
      { s with phases := Function.update (fun u => (s.phases u).notified) t .outside, completed := s.completed + 1 }
  | isCancelled : Move s .isCancelled { s with seen := s.seen ++ [.isCancelled s.cancelled] }
  | reason (free : s.mutex = none) : Move s .reason { s with seen := s.seen ++ [.reason s.reason] }
  | waitFor (t : Nat) (here : s.phases t = .outside) : Move s (.waitFor t) (s.setPhase t (.waking false))
  | lock (t : Nat) (expired : Bool) (here : s.phases t = .waking expired) (free : s.mutex = none) :
      Move s (.lock t) { s.setPhase t (.testing expired) with mutex := some t }
  | cut (t : Nat) (expired : Bool) (here : s.phases t = .testing expired) (cancelled : s.cancelled = true) :
      Move s (.test t) { s.setPhase t .outside with mutex := none, seen := s.seen ++ [.waitFor false] }
  | elapsed (t : Nat) (here : s.phases t = .testing true) (live : s.cancelled = false) :
      Move s (.test t) { s.setPhase t .outside with mutex := none, seen := s.seen ++ [.waitFor true] }
  | arm (t : Nat) (here : s.phases t = .testing false) (live : s.cancelled = false) :
      Move s (.test t) (s.setPhase t .armed)
  | sleep (t : Nat) (here : s.phases t = .armed) : Move s (.sleep t) { s.setPhase t .waiting with mutex := none }
  | wake (t : Nat) (here : s.phases t = .waiting) : Move s (.wake t) (s.setPhase t (.waking false))
  | expire (t : Nat) (here : s.phases t = .waiting) : Move s (.expire t) (s.setPhase t (.waking true))

theorem step_move {s next : State} {action : Action} (taken : step action s = some next) : Move s action next := by
  cases action <;> simp only [step] at taken
  case cancel t reason => split at taken <;> cases taken; exact .cancel t reason ‹_›
  case enter t =>
    split at taken
    · next reason here free =>
      split at taken <;> cases taken
      · exact .late t reason here free ‹_›
      · next live => exact .enter t reason here free (by simpa using live)
    · cases taken
  case write t => split at taken <;> cases taken; exact .write t _ ‹_›
  case store t => split at taken <;> cases taken; exact .store t ‹_›
  case leave t => split at taken <;> cases taken; exact .leave t ‹_›
  case notify t => split at taken <;> cases taken; exact .notify t ‹_›
  case isCancelled => cases taken; exact .isCancelled
  case reason => split at taken <;> cases taken; exact .reason ‹_›
  case waitFor t => split at taken <;> cases taken; exact .waitFor t ‹_›
  case lock t => split at taken <;> cases taken; exact .lock t _ ‹_› ‹_›
  case test t =>
    split at taken
    · next expired here =>
      split at taken
      · cases taken
        exact .cut t expired here ‹_›
      · next live =>
        split at taken <;> cases taken
        · next late => exact .elapsed t (late ▸ here) (by simpa using live)
        · next early => exact .arm t ((Bool.eq_false_iff.mpr early) ▸ here) (by simpa using live)
    · cases taken
  case sleep t => split at taken <;> cases taken; exact .sleep t ‹_›
  case wake t => split at taken <;> cases taken; exact .wake t ‹_›
  case expire t => split at taken <;> cases taken; exact .expire t ‹_›

/-! ### The invariant -/

/-- Holds the mutex. -/
def Phase.inside : Phase → Bool
  | .writing _ => true
  | .storing => true
  | .leaving => true
  | .testing _ => true
  | .armed => true
  | _ => false

/-- Belongs to the call of `cancel` that takes effect, before and behind the store of the flag. -/
def Phase.before : Phase → Bool
  | .writing _ => true
  | .storing => true
  | _ => false

def Phase.behind : Phase → Bool
  | .leaving => true
  | .notifying => true
  | _ => false

/-- What holds while a thread is in a phase. -/
def Phase.Fits (s : State) : Phase → Prop
  | .writing reason => s.cancelled = false ∧ s.entered.head? = some reason
  | .storing => s.cancelled = false ∧ s.entered.head? = some s.reason
  | .leaving => s.cancelled = true ∧ s.completed = 0
  | .notifying => s.cancelled = true
  | .armed => s.cancelled = false
  | .waiting => s.cancelled = true → ∃ c, (s.phases c).behind = true
  | _ => True

structure Inv (s : State) : Prop where
  mutex : ∀ t, s.mutex = some t ↔ (s.phases t).inside = true
  fits : ∀ t, (s.phases t).Fits s
  one : ∀ t u, (s.phases t).before = true ∨ (s.phases t).behind = true →
    (s.phases u).before = true ∨ (s.phases u).behind = true → t = u
  first : s.cancelled = true → s.entered.head? = some s.reason
  begun : s.entered ≠ [] → s.cancelled = true ∨ ∃ t, (s.phases t).before = true
  done : 0 < s.completed → s.cancelled = true

variable {s next : State} {action : Action}

theorem Inv.free (inv : Inv s) (free : s.mutex = none) (t : Nat) : (s.phases t).inside = false := by
  cases inside : (s.phases t).inside with
  | false => rfl
  | true => cases ((inv.mutex t).mpr inside).symm.trans free

/-- What an update leaves of the others. -/
theorem update_cases {P : Phase → Prop} (phases : Nat → Phase) (t u : Nat) (phase : Phase) (mine : u = t → P phase)
    (other : u ≠ t → P (phases u)) : P (Function.update phases t phase u) := by
  by_cases equal : u = t
  · subst equal
    rw [Function.update_self]
    exact mine rfl
  · rw [Function.update_of_ne equal]
    exact other equal

theorem Phase.Fits.transfer {phase : Phase} (fits : phase.Fits s) (cancelled : next.cancelled = s.cancelled)
    (reason : next.reason = s.reason) (entered : next.entered = s.entered) (completed : next.completed = s.completed)
    (behind : ∀ c, (s.phases c).behind = true → (next.phases c).behind = true) : phase.Fits next := by
  cases phase with
  | waiting =>
    intro set
    obtain ⟨c,here⟩ := fits (cancelled ▸ set)
    exact ⟨c,behind c here⟩
  | writing => simpa only [Phase.Fits,cancelled,entered] using fits
  | storing => simpa only [Phase.Fits,cancelled,entered,reason] using fits
  | leaving => simpa only [Phase.Fits,cancelled,completed] using fits
  | notifying => simpa only [Phase.Fits,cancelled] using fits
  | armed => simpa only [Phase.Fits,cancelled] using fits
  | _ => trivial

/-- A step of one thread that leaves flag, reason and history of the source alone. -/
theorem Inv.moved (inv : Inv s) (t : Nat) (phase : Phase) (mutex : Option Nat) (seen : List Observation)
    (held : mutex = some t ↔ phase.inside = true) (others : ∀ u, u ≠ t → (mutex = some u ↔ s.mutex = some u))
    (fits : phase.Fits s) (behind : phase.behind = (s.phases t).behind)
    (before : (s.phases t).before = false ∧ phase.before = false) :
    Inv { s.setPhase t phase with mutex, seen } where
  mutex u := update_cases (P := fun phase => mutex = some u ↔ phase.inside = true) s.phases t u phase
    (fun equal => equal ▸ held) fun other => (others u other).trans (inv.mutex u)
  fits u := by
    have kept (c : Nat) : ((s.setPhase t phase).phases c).behind = (s.phases c).behind :=
      update_cases (P := fun phase => phase.behind = (s.phases c).behind) s.phases t c phase
        (fun equal => equal ▸ behind) fun _ => rfl
    refine update_cases (P := Phase.Fits _) s.phases t u phase (fun _ => ?_) fun _ => ?_
    · exact fits.transfer rfl rfl rfl rfl fun c here => (kept c).trans here
    · exact (inv.fits u).transfer rfl rfl rfl rfl fun c here => (kept c).trans here
  one u v := by
    have same (w : Nat) : (((s.setPhase t phase).phases w).before = true ∨ ((s.setPhase t phase).phases w).behind = true) ↔
        ((s.phases w).before = true ∨ (s.phases w).behind = true) :=
      update_cases (P := fun phase => (phase.before = true ∨ phase.behind = true) ↔
        ((s.phases w).before = true ∨ (s.phases w).behind = true)) s.phases t w phase
        (fun equal => by rw [equal,before.1,before.2,behind]) fun _ => Iff.rfl
    exact fun left right => inv.one u v ((same u).mp left) ((same v).mp right)
  first := inv.first
  begun entered := by
    refine (inv.begun entered).imp_right fun ⟨u,here⟩ => ⟨u,?_⟩
    refine update_cases (P := fun phase => phase.before = true) s.phases t u phase (fun equal => ?_) fun _ => here
    rw [equal,before.1] at here
    cases here
  done := inv.done

theorem Inv.keeps (inv : Inv s) (t : Nat) (phase : Phase) (inside : phase.inside = (s.phases t).inside)
    (fits : phase.Fits s) (behind : phase.behind = (s.phases t).behind)
    (before : (s.phases t).before = false ∧ phase.before = false) : Inv (s.setPhase t phase) :=
  inv.moved t phase s.mutex s.seen (by rw [inside]; exact inv.mutex t) (fun _ _ => Iff.rfl) fits behind before

theorem Inv.releases (inv : Inv s) (t : Nat) (phase : Phase) (seen : List Observation)
    (held : (s.phases t).inside = true) (outside : phase.inside = false) (fits : phase.Fits s)
    (behind : phase.behind = (s.phases t).behind) (before : (s.phases t).before = false ∧ phase.before = false) :
    Inv { s.setPhase t phase with mutex := none, seen } :=
  inv.moved t phase none seen (by simp [outside]) (fun u other => by simp [(inv.mutex t).mpr held,other.symm])
    fits behind before

/-- Nobody but the thread that takes effect stands before or behind the store. -/
theorem Inv.others (inv : Inv s) (t u : Nat) (mine : (s.phases t).before = true ∨ (s.phases t).behind = true)
    (other : u ≠ t) : (s.phases u).before = false ∧ (s.phases u).behind = false := by
  have apart : ¬((s.phases u).before = true ∨ (s.phases u).behind = true) := fun active => other (inv.one u t active mine)
  simpa [not_or] using apart

theorem Inv.late (inv : Inv s) (t : Nat) (reason : Bytes) (here : s.phases t = .cancelling reason)
    (free : s.mutex = none) (cancelled : s.cancelled = true) :
    Inv { s.setPhase t .outside with entered := s.entered ++ [reason], completed := s.completed + 1 } := by
  have base := inv.keeps t .outside (by rw [here]; rfl) trivial (by rw [here]; rfl) ⟨by rw [here]; rfl,rfl⟩
  have front := inv.first cancelled
  refine ⟨base.mutex,fun u => ?_,base.one,fun _ => ?_,fun _ => .inl cancelled,fun _ => cancelled⟩
  · have fits := base.fits u
    have outside := base.free free u
    cases phase : (s.setPhase t .outside).phases u <;> simp only [phase,Phase.inside] at fits outside ⊢ <;>
      first | exact fits | cases outside
  · show (s.entered ++ [reason]).head? = some s.reason
    rw [List.head?_append,front]
    rfl

/-- Whoever finds the flag unset is the first with the mutex. -/
theorem Inv.enter (inv : Inv s) (t : Nat) (reason : Bytes) (free : s.mutex = none) (live : s.cancelled = false) :
    Inv { s.setPhase t (.writing reason) with entered := s.entered ++ [reason], mutex := some t } := by
  have idle (u : Nat) : (s.phases u).before = false ∧ (s.phases u).behind = false := by
    have outside := inv.free free u
    have fits := inv.fits u
    cases phase : s.phases u <;> rw [phase] at outside fits <;> try first | exact ⟨rfl,rfl⟩ | cases outside
    exact absurd (live.symm.trans fits) Bool.false_ne_true
  have empty : s.entered = [] := by
    by_contra named
    rcases inv.begun named with cancelled | ⟨u,active⟩
    · cases live.symm.trans cancelled
    · rw [(idle u).1] at active
      cases active
  have idle' (u : Nat) (other : u ≠ t) : ((s.setPhase t (.writing reason)).phases u).before = false ∧
      ((s.setPhase t (.writing reason)).phases u).behind = false := by
    simp only [State.setPhase,Function.update_of_ne other]
    exact idle u
  refine ⟨fun u => ?_,fun u => ?_,fun u v left right => ?_,fun cancelled => ?_,fun _ => .inr ⟨t,?_⟩,inv.done⟩
  · refine update_cases (P := fun phase => some t = some u ↔ phase.inside = true) s.phases t u _
      (fun equal => by simp [equal,Phase.inside]) fun other => ?_
    simp [inv.free free u,Ne.symm other]
  · refine update_cases (P := Phase.Fits _) s.phases t u _ (fun _ => ⟨live,by simp [empty]⟩) fun other => ?_
    have outside := inv.free free u
    cases phase : s.phases u <;> rw [phase] at outside <;> try first | exact trivial | cases outside
    · have quiet := (idle u).2
      rw [phase] at quiet
      cases quiet
    · exact fun cancelled => absurd (live.symm.trans cancelled) Bool.false_ne_true
  · by_contra apart
    by_cases first : u = t
    · have quiet := idle' v fun equal => apart (first.trans equal.symm)
      simp [quiet] at right
    · have quiet := idle' u first
      simp [quiet] at left
  · exact absurd (live.symm.trans cancelled) Bool.false_ne_true
  · simp [State.setPhase,Phase.before]

/-- The thread that takes effect writes the reason or the flag. -/
theorem Inv.advances (inv : Inv s) (t : Nat) (phase : Phase) (cancelled : Bool) (reason : Bytes)
    (held : (s.phases t).inside = true) (mine : (s.phases t).before = true) (live : s.cancelled = false)
    (inside : phase.inside = true) (side : phase.before = !cancelled ∧ phase.behind = cancelled)
    (fits : phase.Fits { s.setPhase t phase with cancelled, reason })
    (first : cancelled = true → s.entered.head? = some reason) :
    Inv { s.setPhase t phase with cancelled, reason } := by
  have idle (u : Nat) (other : u ≠ t) : (s.phases u).inside = false ∧ (s.phases u).before = false ∧
      (s.phases u).behind = false := by
    refine ⟨?_,inv.others t u (.inl mine) other⟩
    cases outside : (s.phases u).inside with
    | false => rfl
    | true => exact absurd (Option.some.inj (((inv.mutex u).mpr outside).symm.trans ((inv.mutex t).mpr held))) other
  refine ⟨fun u => ?_,fun u => ?_,fun u v left right => ?_,first,fun _ => ?_,fun done => ?_⟩
  · refine update_cases (P := fun phase => s.mutex = some u ↔ phase.inside = true) s.phases t u phase
      (fun equal => ?_) fun _ => inv.mutex u
    rw [equal,inside]
    exact iff_of_true ((inv.mutex t).mpr held) rfl
  · refine update_cases (P := Phase.Fits _) s.phases t u phase (fun _ => fits) fun other => ?_
    have quiet := idle u other
    cases here : s.phases u <;> rw [here] at quiet <;>
      try first | exact trivial | exact Bool.noConfusion quiet.1 | exact Bool.noConfusion quiet.2.2
    intro set
    have set : cancelled = true := set
    exact ⟨t,by simp [State.setPhase,side.2,set]⟩
  · have mine (w : Nat) (active : ((s.setPhase t phase).phases w).before = true ∨
        ((s.setPhase t phase).phases w).behind = true) : w = t := by
      by_contra other
      simp only [State.setPhase,Function.update_of_ne other,idle w other] at active
      simp at active
    exact (mine u left).trans (mine v right).symm
  · cases cancelled with
    | true => exact .inl rfl
    | false => exact .inr ⟨t,by simp [State.setPhase,side.1]⟩
  · exact absurd (live.symm.trans (inv.done done)) Bool.false_ne_true

theorem Inv.notify (inv : Inv s) (t : Nat) (here : s.phases t = .notifying) :
    Inv { s with phases := Function.update (fun u => (s.phases u).notified) t .outside, completed := s.completed + 1 } := by
  have cancelled : s.cancelled = true := by
    have fits := inv.fits t
    rwa [here] at fits
  have idle (u : Nat) (other : u ≠ t) := inv.others t u (.inr (by rw [here]; rfl)) other
  have kept (phase : Phase) : phase.notified.inside = phase.inside ∧ phase.notified.before = phase.before ∧
      phase.notified.behind = phase.behind := by
    cases phase <;> exact ⟨rfl,rfl,rfl⟩
  refine ⟨fun u => ?_,fun u => ?_,fun u v left right => ?_,inv.first,fun _ => .inl cancelled,fun _ => cancelled⟩
  · refine update_cases (P := fun phase => s.mutex = some u ↔ phase.inside = true) (fun u => (s.phases u).notified) t u
      .outside (fun equal => ?_) fun _ => by rw [(kept _).1]; exact inv.mutex u
    rw [inv.mutex u,equal,here]
    rfl
  · refine update_cases (P := Phase.Fits _) (fun u => (s.phases u).notified) t u .outside (fun _ => trivial) fun other => ?_
    have quiet := idle u other
    have fits := inv.fits u
    cases phase : s.phases u <;> rw [phase] at quiet fits <;>
      first | exact trivial | exact fits | exact Bool.noConfusion quiet.1 | exact Bool.noConfusion quiet.2
  · by_contra apart
    have settled (w : Nat) : (Function.update (fun u => (s.phases u).notified) t Phase.outside w).before = false ∧
        (Function.update (fun u => (s.phases u).notified) t Phase.outside w).behind = false :=
      update_cases (P := fun phase => phase.before = false ∧ phase.behind = false) (fun u => (s.phases u).notified) t w
        .outside (fun _ => ⟨rfl,rfl⟩) fun other => by rw [(kept _).2.1,(kept _).2.2]; exact idle w other
    simp [settled u] at left

theorem Inv.step (inv : Inv s) (taken : CancellationToken.step action s = some next) : Inv next := by
  cases step_move taken with
  | isCancelled => exact ⟨inv.mutex,inv.fits,inv.one,inv.first,inv.begun,inv.done⟩
  | reason => exact ⟨inv.mutex,inv.fits,inv.one,inv.first,inv.begun,inv.done⟩
  | cancel t reason here =>
    exact inv.keeps t _ (by rw [here]; rfl) trivial (by rw [here]; rfl) ⟨by rw [here]; rfl,rfl⟩
  | waitFor t here =>
    exact inv.keeps t _ (by rw [here]; rfl) trivial (by rw [here]; rfl) ⟨by rw [here]; rfl,rfl⟩
  | lock t expired here free =>
    exact inv.moved t _ (some t) s.seen (iff_of_true rfl rfl) (fun u other => by simp [free,other.symm]) trivial
      (by rw [here]; rfl) ⟨by rw [here]; rfl,rfl⟩
  | cut t expired here cancelled =>
    exact inv.releases t _ _ (by rw [here]; rfl) rfl trivial (by rw [here]; rfl) ⟨by rw [here]; rfl,rfl⟩
  | elapsed t here live =>
    exact inv.releases t _ _ (by rw [here]; rfl) rfl trivial (by rw [here]; rfl) ⟨by rw [here]; rfl,rfl⟩
  | arm t here live =>
    exact inv.keeps t _ (by rw [here]; rfl) live (by rw [here]; rfl) ⟨by rw [here]; rfl,rfl⟩
  | sleep t here =>
    have live := inv.fits t
    rw [here] at live
    exact inv.releases t _ s.seen (by rw [here]; rfl) rfl (fun set => absurd (live.symm.trans set) Bool.false_ne_true)
      (by rw [here]; rfl) ⟨by rw [here]; rfl,rfl⟩
  | wake t here =>
    exact inv.keeps t _ (by rw [here]; rfl) trivial (by rw [here]; rfl) ⟨by rw [here]; rfl,rfl⟩
  | expire t here =>
    exact inv.keeps t _ (by rw [here]; rfl) trivial (by rw [here]; rfl) ⟨by rw [here]; rfl,rfl⟩
  | leave t here =>
    have fits := inv.fits t
    rw [here] at fits
    exact inv.releases t _ s.seen (by rw [here]; rfl) rfl fits.1 (by rw [here]; rfl) ⟨by rw [here]; rfl,rfl⟩
  | late t reason here free cancelled => exact inv.late t reason here free cancelled
  | enter t reason here free live => exact inv.enter t reason free live
  | write t reason here =>
    have fits := inv.fits t
    rw [here] at fits
    exact inv.advances t .storing s.cancelled reason (by rw [here]; rfl) (by rw [here]; rfl) fits.1 rfl
      (by rw [fits.1]; exact ⟨rfl,rfl⟩) fits fun _ => fits.2
  | store t here =>
    have fits := inv.fits t
    rw [here] at fits
    have early : s.completed = 0 := by
      by_contra some_
      exact absurd (fits.1.symm.trans (inv.done (Nat.pos_of_ne_zero some_))) Bool.false_ne_true
    exact inv.advances t .leaving true s.reason (by rw [here]; rfl) (by rw [here]; rfl) fits.1 rfl ⟨rfl,rfl⟩
      ⟨rfl,early⟩ fun _ => fits.2
  | notify t here => exact inv.notify t here

theorem Inv.initial : Inv {} where
  mutex _ := by simp [Phase.inside]
  fits _ := trivial
  one _ _ active := by simp [Phase.before,Phase.behind] at active
  first cancelled := by cases cancelled
  begun named := absurd rfl named
  done done := absurd done (Nat.lt_irrefl 0)

/-! ### What the calls return -/

/-- What a step may add to the history. -/
def Observed (s : State) (observation : Observation) : Prop :=
  observation = .isCancelled s.cancelled ∨ observation = .reason s.reason ∨
    (observation = .waitFor false ∧ s.cancelled = true) ∨ observation = .waitFor true

theorem step_seen (taken : step action s = some next) :
    next.seen = s.seen ∨ ∃ observation, next.seen = s.seen ++ [observation] ∧ Observed s observation := by
  cases step_move taken with
  | isCancelled => exact .inr ⟨_,rfl,.inl rfl⟩
  | reason => exact .inr ⟨_,rfl,.inr (.inl rfl)⟩
  | cut t expired here cancelled => exact .inr ⟨_,rfl,.inr (.inr (.inl ⟨rfl,cancelled⟩))⟩
  | elapsed => exact .inr ⟨_,rfl,.inr (.inr (.inr rfl))⟩
  | _ => exact .inl rfl

theorem step_cancelled (taken : step action s = some next) (cancelled : s.cancelled = true) : next.cancelled = true := by
  cases step_move taken with
  | store => rfl
  | _ => exact cancelled

theorem step_entered (taken : step action s = some next) (reason : Bytes) (first : s.entered.head? = some reason) :
    next.entered.head? = some reason := by
  cases step_move taken with
  | late t other => show (s.entered ++ [other]).head? = _; rw [List.head?_append,first]; rfl
  | enter t other => show (s.entered ++ [other]).head? = _; rw [List.head?_append,first]; rfl
  | _ => exact first

structure Recorded (s : State) : Prop where
  inv : Inv s
  flagged : .isCancelled true ∈ s.seen → s.cancelled = true
  waited : .waitFor false ∈ s.seen → s.cancelled = true
  ordered : ∀ before after, s.seen = before ++ .isCancelled true :: after →
    .isCancelled false ∉ after ∧ ∀ reason, .reason reason ∈ after → s.entered.head? = some reason

theorem Recorded.step (recorded : Recorded s) (taken : CancellationToken.step action s = some next) : Recorded next := by
  have inv := recorded.inv.step taken
  have kept (before after : List Observation) (split : s.seen = before ++ .isCancelled true :: after) :
      .isCancelled false ∉ after ∧ ∀ reason, .reason reason ∈ after → next.entered.head? = some reason :=
    (recorded.ordered before after split).imp_right fun reasons reason member =>
      step_entered taken reason (reasons reason member)
  rcases step_seen taken with same | ⟨observation,longer,observed⟩
  · exact ⟨inv,fun member => step_cancelled taken (recorded.flagged (same ▸ member)),
      fun member => step_cancelled taken (recorded.waited (same ▸ member)),
      fun before after split => kept before after (same ▸ split)⟩
  · refine ⟨inv,fun member => step_cancelled taken ?_,fun member => step_cancelled taken ?_,fun before after split => ?_⟩
    · rw [longer,List.mem_append,List.mem_singleton] at member
      rcases member with member | rfl
      · exact recorded.flagged member
      · rcases observed with flag | reason | ⟨wait,-⟩ | wait
        · exact (Observation.isCancelled.inj flag).symm
        · cases reason
        · cases wait
        · cases wait
    · rw [longer,List.mem_append,List.mem_singleton] at member
      rcases member with member | rfl
      · exact recorded.waited member
      · rcases observed with flag | reason | ⟨-,cancelled⟩ | wait
        · cases flag
        · cases reason
        · exact cancelled
        · cases wait
    · cases after using List.reverseRecOn with
      | nil => exact ⟨List.not_mem_nil,fun _ member => absurd member List.not_mem_nil⟩
      | append_singleton after last _ =>
        rw [longer,← List.cons_append,← List.append_assoc] at split
        obtain ⟨early,same⟩ := List.append_inj' split rfl
        obtain rfl := List.singleton_inj.mp same
        obtain ⟨flags,reasons⟩ := kept before after early
        have cancelled := recorded.flagged (by simp [early])
        constructor
        · rw [List.mem_append,List.mem_singleton,not_or]
          refine ⟨flags,fun last => ?_⟩
          subst last
          rcases observed with flag | reason | ⟨wait,-⟩ | wait
          · cases (Observation.isCancelled.inj flag).trans cancelled
          · cases reason
          · cases wait
          · cases wait
        · intro result member
          rw [List.mem_append,List.mem_singleton] at member
          rcases member with member | rfl
          · exact reasons result member
          · rcases observed with flag | reason | ⟨wait,-⟩ | wait
            · cases flag
            · rw [Observation.reason.inj reason]
              exact step_entered taken _ (recorded.inv.first cancelled)
            · cases wait
            · cases wait

theorem Recorded.initial : Recorded {} where
  inv := .initial
  flagged member := absurd member List.not_mem_nil
  waited member := absurd member List.not_mem_nil
  ordered before after split := by simp at split

/-- What the threads that share a source can rely on. -/
structure Reliable (s : State) : Prop where
  monotone : ∀ before after, s.seen = before ++ .isCancelled true :: after → .isCancelled false ∉ after
  firstReason : ∀ before after reason, s.seen = before ++ .isCancelled true :: after → .reason reason ∈ after →
    s.entered.head? = some reason
  waited : .waitFor false ∈ s.seen → s.cancelled = true
  /-- Whoever still waits behind a completed `cancel` is woken by a notification already on its way. -/
  woken : 0 < s.completed → ∀ t, s.phases t = .waiting → ∃ c next, s.phases c = .notifying ∧
    step (.notify c) s = some next ∧ ∀ u, next.phases u ≠ .waiting

theorem Inv.woken (inv : Inv s) (done : 0 < s.completed) (t : Nat) (waits : s.phases t = .waiting) :
    ∃ c next, s.phases c = .notifying ∧ CancellationToken.step (.notify c) s = some next ∧
      ∀ u, next.phases u ≠ .waiting := by
  have fits := inv.fits t
  rw [waits] at fits
  obtain ⟨c,behind⟩ := fits (inv.done done)
  have notifying : s.phases c = .notifying := by
    have mine := inv.fits c
    cases here : s.phases c with
    | notifying => rfl
    | leaving =>
      rw [here] at mine
      exact absurd mine.2 (Nat.ne_of_gt done)
    | _ =>
      rw [here] at behind
      cases behind
  refine ⟨c,_,notifying,by rw [CancellationToken.step,if_pos notifying],fun u => ?_⟩
  refine update_cases (P := fun phase => phase ≠ .waiting) (fun u => (s.phases u).notified) c u .outside (fun _ => by simp)
    fun _ => ?_
  cases s.phases u <;> simp [Phase.notified]

theorem token_reliable (labels : List Action) (s : State) (path : Transition.run step labels {} = some s) : Reliable s := by
  have recorded := Transition.run_invariant step Recorded (fun _ _ _ recorded taken => recorded.step taken) labels {} s path
    .initial
  exact {
    monotone := fun before after split => (recorded.ordered before after split).1
    firstReason := fun before after reason split member => (recorded.ordered before after split).2 reason member
    waited := recorded.waited
    woken := recorded.inv.woken }

/-- A waiter, and two calls of `cancel`: the second returns before the first notifies. -/
def twoCancellers : List Action :=
  [.waitFor 0,.lock 0,.test 0,.sleep 0,.cancel 1 (ascii "deadline"),.cancel 2 (ascii "aborted"),.enter 1,.write 1,.store 1,
    .isCancelled,.leave 1,.enter 2,.reason]

theorem token_reliable_twoCancellers : ∃ s, Transition.run step twoCancellers {} = some s ∧
    s.phases 0 = .waiting ∧ s.completed = 1 ∧ s.seen = [.isCancelled true,.reason (ascii "deadline")] ∧ Reliable s := by
  have seen : (Transition.run step twoCancellers {}).map (fun s => (s.phases 0,s.completed,s.seen)) =
      some (.waiting,1,[.isCancelled true,.reason (ascii "deadline")]) := by decide
  obtain ⟨s,path,shape⟩ := Option.map_eq_some_iff.mp seen
  simp only [Prod.mk.injEq] at shape
  exact ⟨s,path,shape.1,shape.2.1,shape.2.2,token_reliable twoCancellers s path⟩

end TestForge.CancellationToken
