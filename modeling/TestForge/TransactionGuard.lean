import TestForge.Transition
import Mathlib.Data.Option.Basic

/-! `db::Transaction` over SQLite: the guard keeps a flag of its own beside the transaction of
the connection. Statements change arbitrary data, and everything that can fail may. -/
namespace TestForge.Db

open Transition

/-- What has been committed, and the data of the open transaction. -/
structure Connection (Data : Type) where
  visible : Data
  pending : Option Data := none

/-- What the guard passes to `executeScript`. -/
inductive Control where
  | begin_
  | commit
  | rollback
  deriving DecidableEq

/-- Nothing when it throws, which leaves the connection as it is. SQLite refuses a BEGIN inside a
transaction and the others outside one; elsewhere `succeeds` decides. -/
def Connection.executeScript (connection : Connection Data) (control : Control) (succeeds : Bool) :
    Option (Connection Data) :=
  if succeeds then
    match control,connection.pending with
    | .begin_,none => some { connection with pending := some connection.visible }
    | .commit,some data => some { visible := data }
    | .rollback,some _ => some { connection with pending := none }
    | _,_ => none
  else none

/-- Any other statement: a part of the open transaction, or committed at once. -/
def Connection.execute (connection : Connection Data) (change : Data → Data) : Connection Data :=
  match connection.pending with
  | some data => { connection with pending := some (change data) }
  | none => { connection with visible := change connection.visible }

/-- The flag `finished_` of the guard, while there is one, and a record of the current or the last
guard: what the connection would show without its transaction, whether a call of `commit` ended
the transaction and returned, and whether a ROLLBACK failed. -/
structure State (Data : Type) where
  connection : Connection Data
  finished : Option Bool := none
  apart : Data
  committed : Bool := false
  rollbackFailed : Bool := false

inductive Action (Data : Type) where
  | construct (succeeds : Bool)
  | statement (change : Data → Data)
  /-- A statement whose error makes SQLite roll the transaction back by itself. -/
  | abort
  | commit (succeeds : Bool)
  | rollback (succeeds : Bool)
  /-- At the end of a scope or while an exception passes through it. -/
  | destroy (succeeds : Bool)

/-- A constructor that throws leaves no guard behind. -/
def construct (succeeds : Bool) (s : State Data) : State Data :=
  match s.connection.executeScript .begin_ succeeds with
  | some connection => { connection, finished := some false, apart := s.connection.visible }
  | none => s

def commit (succeeds : Bool) (s : State Data) : State Data :=
  if s.finished = some true then s
  else
    match s.connection.executeScript .commit succeeds with
    | some connection => { s with connection, finished := some true, committed := true }
    | none => { s with finished := some true }

def rollback (succeeds : Bool) (s : State Data) : State Data :=
  if s.finished = some true then s
  else
    match s.connection.executeScript .rollback succeeds with
    | some connection => { s with connection, finished := some true }
    | none => { s with finished := some true, rollbackFailed := true }

/-- The destructor swallows what its ROLLBACK throws. -/
def destroy (succeeds : Bool) (s : State Data) : State Data :=
  { rollback succeeds s with finished := none }

/-- Outside a transaction the change is no part of what a guard holds back. -/
def statement (change : Data → Data) (s : State Data) : State Data :=
  { s with
    connection := s.connection.execute change
    apart := if s.connection.pending.isSome then s.apart else change s.apart }

def step (action : Action Data) (s : State Data) : Option (State Data) :=
  match action with
  | .construct succeeds => if s.finished = none then some (construct succeeds s) else none
  | .statement change => some (statement change s)
  | .abort => some { s with connection := { s.connection with pending := none } }
  | .commit succeeds => if s.finished = none then none else some (commit succeeds s)
  | .rollback succeeds => if s.finished = none then none else some (rollback succeeds s)
  | .destroy succeeds => if s.finished = none then none else some (destroy succeeds s)

/-- A connection without a transaction. -/
def opened (data : Data) : State Data where
  connection := { visible := data }
  apart := data

/-- No guard leaves a transaction behind unless its ROLLBACK failed, and nothing of a transaction
shows unless its `commit` returned. -/
structure Released (s : State Data) : Prop where
  closed : s.finished = none → s.connection.pending ≠ none → s.rollbackFailed = true
  hidden : s.connection.visible ≠ s.apart → s.committed = true

/-- A COMMIT that the guard issues for its open transaction succeeds. -/
def Commits (s : State Data) (action : Action Data) : Prop :=
  action = .commit false → s.finished = some false → s.connection.pending = none

/-- While COMMITs succeed, a transaction that no unfinished guard holds is one whose ROLLBACK failed. -/
structure Held (s : State Data) : Prop where
  open_ : s.connection.pending ≠ none → s.finished = some false ∨ s.rollbackFailed = true
  hidden : s.connection.visible = s.apart ∨ s.committed = true
  fresh : s.finished = some false → s.rollbackFailed = false

/-- A transaction that nobody will end: no guard holds it, and no ROLLBACK was tried. -/
structure Lost (s : State Data) : Prop where
  unheld : s.finished ≠ some false
  open_ : s.connection.pending ≠ none
  untried : s.rollbackFailed = false

/-! ### Single statements -/

theorem executeScript_begin {connection next : Connection Data} {succeeds : Bool}
    (done : connection.executeScript .begin_ succeeds = some next) :
    next.pending = some connection.visible ∧ next.visible = connection.visible := by
  cases succeeds with
  | false => cases done
  | true =>
    cases open_ : connection.pending with
    | none =>
      obtain rfl : { connection with pending := some connection.visible } = next := by
        simpa [Connection.executeScript,open_] using done
      exact ⟨rfl,rfl⟩
    | some data => simp [Connection.executeScript,open_] at done

theorem executeScript_commit {connection next : Connection Data} {succeeds : Bool}
    (done : connection.executeScript .commit succeeds = some next) : next.pending = none := by
  cases succeeds with
  | false => cases done
  | true =>
    cases open_ : connection.pending with
    | none => simp [Connection.executeScript,open_] at done
    | some data =>
      obtain rfl : { visible := data } = next := by simpa [Connection.executeScript,open_] using done
      rfl

theorem executeScript_rollback {connection next : Connection Data} {succeeds : Bool}
    (done : connection.executeScript .rollback succeeds = some next) :
    next.pending = none ∧ next.visible = connection.visible := by
  cases succeeds with
  | false => cases done
  | true =>
    cases open_ : connection.pending with
    | none => simp [Connection.executeScript,open_] at done
    | some data =>
      obtain rfl : { connection with pending := none } = next := by
        simpa [Connection.executeScript,open_] using done
      exact ⟨rfl,rfl⟩

theorem executeScript_commit_failed {connection : Connection Data} {succeeds : Bool}
    (failed : connection.executeScript .commit succeeds = none) :
    succeeds = false ∨ connection.pending = none := by
  cases succeeds with
  | false => exact .inl rfl
  | true =>
    cases open_ : connection.pending with
    | none => exact .inr rfl
    | some data => simp [Connection.executeScript,open_] at failed

/-! ### Steps -/

theorem construct_held (s : State Data) (succeeds : Bool) (held : Held s) : Held (construct succeeds s) := by
  unfold construct
  split
  · next connection begun =>
    exact ⟨fun _ => .inl rfl,.inl (executeScript_begin begun).2,fun _ => rfl⟩
  · exact held

theorem commit_held (s : State Data) (succeeds : Bool) (held : Held s) (live : s.finished ≠ none)
    (commits : Commits s (.commit succeeds)) : Held (commit succeeds s) := by
  unfold commit
  split
  · exact held
  · next unfinished =>
    split
    · next connection done =>
      exact ⟨fun open_ => absurd (executeScript_commit done) open_,.inr rfl,fun other => by cases other⟩
    · next failed =>
      have closed : s.connection.pending = none := by
        rcases executeScript_commit_failed failed with refused | outside
        · apply commits (by rw [refused])
          cases flag : s.finished with
          | none => exact absurd flag live
          | some finished =>
            cases finished with
            | false => rfl
            | true => exact absurd flag unfinished
        · exact outside
      exact ⟨fun open_ => absurd closed open_,held.hidden,fun other => by cases other⟩

theorem rollback_held (s : State Data) (succeeds : Bool) (held : Held s) : Held (rollback succeeds s) := by
  unfold rollback
  split
  · exact held
  · split
    · next connection done =>
      obtain ⟨ended,kept⟩ := executeScript_rollback done
      refine ⟨fun open_ => absurd ended open_,?_,fun other => by cases other⟩
      rcases held.hidden with same | committed
      · exact .inl (kept.trans same)
      · exact .inr committed
    · exact ⟨fun _ => .inr rfl,held.hidden,fun other => by cases other⟩

theorem rollback_finished (s : State Data) (succeeds : Bool) : (rollback succeeds s).finished = some true := by
  unfold rollback
  split
  · assumption
  · split <;> rfl

theorem destroy_held (s : State Data) (succeeds : Bool) (held : Held s) : Held (destroy succeeds s) := by
  have ended := rollback_held s succeeds held
  refine ⟨fun open_ => .inr ?_,ended.hidden,fun other => by cases other⟩
  rcases ended.open_ open_ with unfinished | failed
  · rw [rollback_finished] at unfinished
    cases unfinished
  · exact failed

theorem statement_held (s : State Data) (change : Data → Data) (held : Held s) : Held (statement change s) := by
  unfold statement Connection.execute
  cases open_ : s.connection.pending with
  | some data => exact ⟨fun _ => held.open_ (by simp [open_]),held.hidden,held.fresh⟩
  | none =>
    refine ⟨fun other => absurd rfl other,?_,held.fresh⟩
    rcases held.hidden with same | committed
    · exact .inl (congrArg change same)
    · exact .inr committed

theorem step_held (action : Action Data) (s next : State Data) (held : Held s) (commits : Commits s action)
    (taken : step action s = some next) : Held next := by
  cases action with
  | construct succeeds =>
    obtain ⟨-,rfl⟩ := by simpa [step] using taken
    exact construct_held s succeeds held
  | statement change =>
    obtain rfl := Option.some.inj taken
    exact statement_held s change held
  | abort =>
    obtain rfl := Option.some.inj taken
    exact ⟨fun open_ => absurd rfl open_,held.hidden,held.fresh⟩
  | commit succeeds =>
    obtain ⟨live,rfl⟩ := by simpa [step] using taken
    exact commit_held s succeeds held live commits
  | rollback succeeds =>
    obtain ⟨-,rfl⟩ := by simpa [step] using taken
    exact rollback_held s succeeds held
  | destroy succeeds =>
    obtain ⟨-,rfl⟩ := by simpa [step] using taken
    exact destroy_held s succeeds held

theorem commit_lost (s : State Data) (held : Held s) (fails : ¬Commits s action) (taken : step action s = some next) :
    Lost next := by
  simp only [Commits,not_forall] at fails
  obtain ⟨rfl,unfinished,open_⟩ := fails
  obtain ⟨-,rfl⟩ := by simpa [step] using taken
  have failed : s.connection.executeScript .commit false = none := rfl
  simp only [commit,unfinished,failed]
  exact ⟨by simp,open_,held.fresh unfinished⟩

theorem construct_lost (s : State Data) (succeeds : Bool) (lost : Lost s) : construct succeeds s = s := by
  unfold construct
  split
  · next connection begun =>
    cases succeeds with
    | false => cases begun
    | true =>
      obtain ⟨data,open_⟩ := Option.ne_none_iff_exists'.mp lost.open_
      simp [Connection.executeScript,open_] at begun
  · rfl

theorem step_lost (action : Action Data) (s next : State Data) (lost : Lost s) (other : action ≠ .abort)
    (taken : step action s = some next) : Lost next := by
  have finished (live : s.finished ≠ none) : s.finished = some true := by
    cases flag : s.finished with
    | none => exact absurd flag live
    | some finished =>
      cases finished with
      | false => exact absurd flag lost.unheld
      | true => rfl
  cases action with
  | construct succeeds =>
    obtain ⟨-,rfl⟩ := by simpa [step] using taken
    rwa [construct_lost s succeeds lost]
  | statement change =>
    obtain rfl := Option.some.inj taken
    obtain ⟨data,open_⟩ := Option.ne_none_iff_exists'.mp lost.open_
    exact ⟨lost.unheld,by simp [statement,Connection.execute,open_],lost.untried⟩
  | abort => exact absurd rfl other
  | commit succeeds =>
    obtain ⟨live,rfl⟩ := by simpa [step] using taken
    rwa [commit,if_pos (finished live)]
  | rollback succeeds =>
    obtain ⟨live,rfl⟩ := by simpa [step] using taken
    rwa [rollback,if_pos (finished live)]
  | destroy succeeds =>
    obtain ⟨live,rfl⟩ := by simpa [step] using taken
    rw [destroy,rollback,if_pos (finished live)]
    exact ⟨by simp,lost.open_,lost.untried⟩

/-! ### Runs -/

theorem Held.released (held : Held s) : Released s where
  closed gone open_ := by
    rcases held.open_ open_ with unfinished | failed
    · rw [gone] at unfinished
      cases unfinished
    · exact failed
  hidden shows := held.hidden.resolve_left shows

theorem opened_held (data : Data) : Held (opened data) :=
  ⟨fun open_ => absurd rfl open_,.inl rfl,fun other => by cases other⟩

theorem run_lost (labels : List (Action Data)) (s final : State Data) (held : Held s) (others : .abort ∉ labels)
    (path : run step labels s = some final) (fails : ¬Along step Commits labels s) : Lost final := by
  induction labels generalizing s with
  | nil => exact absurd trivial fails
  | cons action rest ih =>
    obtain ⟨next,taken,path⟩ := (run_cons_some step _ _ _ _).mp path
    rw [List.mem_cons,not_or] at others
    by_cases commits : Commits s action
    · refine ih next (step_held action s next held commits taken) others.2 path fun along => fails ⟨commits,?_⟩
      intro other also
      obtain rfl := Option.some.inj (taken.symm.trans also)
      exact along
    · have lost := commit_lost s held commits taken
      refine run_invariant_along step (fun _ action => action ∈ rest) Lost (fun action s next lost member taken =>
        step_lost action s next lost ?_ taken) rest next final ?_ path lost
      · rintro rfl
        exact others.2 member
      · exact along_of_forall step _ rest next fun _ _ member => member

/-- While the COMMITs of the guards succeed, no guard leaves its transaction behind. Where one
fails, its transaction stays open for good, unless SQLite rolls it back by itself. -/
theorem released_run (data : Data) (labels : List (Action Data)) (final : State Data)
    (path : run step labels (opened data) = some final) :
    (Along step Commits labels (opened data) → Released final) ∧
    (.abort ∉ labels → final.finished = none → Released final → Along step Commits labels (opened data)) := by
  constructor
  · intro commits
    exact (run_invariant_along step Commits Held step_held labels _ final commits path (opened_held data)).released
  · intro others gone released
    by_contra fails
    have lost := run_lost labels _ final (opened_held data) others path fails
    have failed := released.closed gone lost.open_
    rw [lost.untried] at failed
    cases failed

/-- One statement under a guard whose COMMIT succeeds or fails. -/
def oneStatement (succeeds : Bool) : List (Action Nat) :=
  [.construct true,.statement (· + 1),.commit succeeds,.destroy true]

theorem released_run_committed :
    Released ({ connection := { visible := 1 }, finished := none, apart := 0, committed := true } : State Nat) := by
  refine (released_run 0 (oneStatement true) _ rfl).1 (along_of_forall step _ _ _ fun s action member => ?_)
  rintro rfl
  simp [oneStatement] at member

/-- After a COMMIT that failed, the destructor leaves the transaction open. -/
theorem failed_commit_keeps : ¬∀ labels final, run step labels (opened (0 : Nat)) = some final → Released final := by
  intro holds
  have released := holds (oneStatement false)
    { connection := { visible := 0, pending := some 1 }, finished := none, apart := 0 } rfl
  have failed := released.closed rfl (by simp)
  cases failed

end TestForge.Db
