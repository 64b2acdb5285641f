import TestForge.Strings
import TestForge.Transition
import Mathlib.Data.List.Infix
import Mathlib.Data.List.Perm.Subperm
import Mathlib.Logic.Function.Basic

/-! `SqliteResultRepository::migrate` by any number of processes on one database file.
Single statements and transactions take effect one after the other. -/
namespace TestForge.Migrate

open Strings

/-- The SQL of a migration is left out: what it does to the file is that it was applied. -/
structure Migration where
  version : Nat
  description : Bytes
  deriving DecidableEq

/-- Migrations in ascending order of their versions, which start above 0. -/
structure Schema where
  migrations : List Migration
  ascending : migrations.Pairwise fun a b => a.version < b.version
  positive : ∀ m ∈ migrations, 0 < m.version

/-- The list the program ships. -/
def schemaMigrations : Schema where
  migrations := [⟨1,ascii "initial schema"⟩]
  ascending := by decide
  positive := by decide

/-- Where a process is in `migrate`. From `scripting` on it holds the write lock that
`BEGIN IMMEDIATE` has taken. -/
inductive Phase where
  | absent
  | creating
  | reading
  | checking (applied : Nat) (rest : List Migration)
  | scripting (applied : Nat) (migration : Migration) (rest : List Migration)
  | recording (applied : Nat) (migration : Migration) (rest : List Migration)
  | committing (applied : Nat) (migration : Migration) (rest : List Migration)
  | returned
  | threw

def Phase.writing : Phase → Bool
  | .scripting _ _ _ => true
  | .recording _ _ _ => true
  | .committing _ _ _ => true
  | _ => false

/-- `created` and `recorded` are the table `schema_version`, `applied` is what the
committed transactions have done to the file. -/
structure State where
  phase : Nat → Phase := fun _ => .absent
  writer : Option Nat := none
  created : Bool := false
  recorded : List Migration := []
  applied : List Migration := []

inductive Action where
  | start (process : Nat)
  | advance (process : Nat)
  | crash (process : Nat)
  deriving DecidableEq

/-- `COALESCE(MAX(version), 0)`. -/
def maxVersion (recorded : List Migration) : Nat := (recorded.map (·.version)).foldr max 0

def State.setPhase (s : State) (i : Nat) (phase : Phase) : State :=
  { s with phase := Function.update s.phase i phase }

/-- An uncommitted transaction is rolled back when its process throws or dies. -/
def State.release (s : State) (i : Nat) : State :=
  { s with writer := if s.writer = some i then none else s.writer }

def advance (schema : Schema) (i : Nat) (s : State) : Option State :=
  match s.phase i with
  | .creating => some { s.setPhase i .reading with created := true }
  | .reading =>
    some (s.setPhase i (if s.created then .checking (maxVersion s.recorded) schema.migrations else .threw))
  | .checking _ [] => some (s.setPhase i .returned)
  | .checking applied (migration :: rest) =>
    if migration.version ≤ applied then some (s.setPhase i (.checking applied rest))
    else if s.writer = none then some { s.setPhase i (.scripting applied migration rest) with writer := some i }
    else none
  | .scripting applied migration rest => some (s.setPhase i (.recording applied migration rest))
  | .recording applied migration rest =>
    -- the version is the primary key
    if migration.version ∈ s.recorded.map (·.version) then some ((s.setPhase i .threw).release i)
    else some (s.setPhase i (.committing applied migration rest))
  | .committing applied migration rest =>
    some { (s.setPhase i (.checking applied rest)).release i with
      recorded := s.recorded ++ [migration], applied := s.applied ++ [migration] }
  | _ => none

def step (schema : Schema) (action : Action) (s : State) : Option State :=
  match action with
  | .start i =>
    match s.phase i with
    | .absent => some (s.setPhase i .creating)
    | _ => none
  | .advance i => advance schema i s
  | .crash i =>
    match s.phase i with
    | .absent | .returned | .threw => none
    | _ => some ((s.setPhase i .absent).release i)

/-- A file on which earlier versions of the program have applied the first migrations. -/
def opened (schema : Schema) (earlier : Nat) : State where
  created := decide (earlier ≠ 0)
  recorded := schema.migrations.take earlier
  applied := schema.migrations.take earlier

/-- What a migration started by this step would find: its version is not there yet. -/
def Fresh (s : State) : Action → Prop
  | .advance i => ∀ applied migration rest, s.phase i = .checking applied (migration :: rest) →
      applied < migration.version → migration.version ∉ s.recorded.map (·.version)
  | _ => True

instance (s : State) (action : Action) : Decidable (Fresh s action) :=
  match action with
  | .start _ | .crash _ => .isTrue trivial
  | .advance i =>
    match here : s.phase i with
    | .checking applied (migration :: rest) =>
      decidable_of_iff (applied < migration.version → migration.version ∉ s.recorded.map (·.version)) (by
        simp only [Fresh,here,Phase.checking.injEq,List.cons.injEq]
        exact ⟨fun fresh _ _ _ ⟨same,first,_⟩ => same ▸ first ▸ fresh,fun fresh => fresh _ _ _ ⟨rfl,rfl,rfl⟩⟩)
    | .checking _ [] | .absent | .creating | .reading | .scripting _ _ _ | .recording _ _ _ | .committing _ _ _
    | .returned | .threw => .isTrue (by simp [Fresh,here])

/-! ### Versions -/

variable {schema : Schema}

theorem Schema.nodup (schema : Schema) : schema.migrations.Nodup :=
  schema.ascending.imp fun {a b} below equal => by
    rw [equal] at below
    exact Nat.lt_irrefl _ below

theorem Schema.before (schema : Schema) {front rest : List Migration} (split : schema.migrations = front ++ rest)
    {a b : Migration} (early : a ∈ front) (late : b ∈ rest) : a.version < b.version :=
  (List.pairwise_append.mp (split ▸ schema.ascending)).2.2 a early b late

theorem Schema.version_inj (schema : Schema) {a b : Migration} (ha : a ∈ schema.migrations)
    (hb : b ∈ schema.migrations) (same : a.version = b.version) : a = b := by
  obtain ⟨front,rest,split⟩ := List.append_of_mem ha
  rw [split] at hb
  rcases List.mem_append.mp hb with early | hb
  · have below := schema.before split early (List.mem_cons_self (a := a))
    omega
  · rcases List.mem_cons.mp hb with equal | late
    · exact equal.symm
    · have shifted : schema.migrations = (front ++ [a]) ++ rest := by simp [split]
      have above := schema.before shifted (List.mem_append_right front (List.mem_singleton_self a)) late
      omega

/-- The migrations that are recorded are the first ones. -/
def Recorded (schema : Schema) (recorded : List Migration) : Prop := recorded <+: schema.migrations

theorem Recorded.version_iff {recorded : List Migration} (known : Recorded schema recorded) {m : Migration}
    (listed : m ∈ schema.migrations) : m.version ∈ recorded.map (·.version) ↔ m ∈ recorded := by
  constructor
  · intro found
    obtain ⟨other,member,same⟩ := List.mem_map.mp found
    rwa [← schema.version_inj (known.subset member) listed same]
  · exact List.mem_map_of_mem

theorem Recorded.downward {recorded : List Migration} (known : Recorded schema recorded) {m other : Migration}
    (listed : m ∈ schema.migrations) (member : other ∈ recorded) (below : m.version ≤ other.version) : m ∈ recorded := by
  obtain ⟨rest,split⟩ := known
  rw [← split] at listed
  rcases List.mem_append.mp listed with early | late
  · exact early
  · have above := schema.before split.symm member late
    omega

theorem Recorded.extend {recorded front rest : List Migration} {m : Migration} (known : Recorded schema recorded)
    (split : schema.migrations = front ++ m :: rest) (before : ∀ x ∈ front, x ∈ recorded) (fresh : m ∉ recorded) :
    recorded = front := by
  have distinct := schema.nodup
  have front_known : front <+: schema.migrations := ⟨m :: rest,split.symm⟩
  rcases List.prefix_or_prefix_of_prefix known front_known with ⟨more,shape⟩ | ⟨more,shape⟩
  · cases more with
    | nil => simpa using shape
    | cons x more =>
      rw [← shape] at split before
      obtain ⟨tail,whole⟩ := known
      rw [split,List.append_assoc,List.nodup_append] at distinct
      have again := before x (by simp)
      exact absurd rfl (distinct.2.2 x again x (by simp))
  · cases more with
    | nil => simpa using shape.symm
    | cons x more =>
      obtain ⟨tail,whole⟩ := known
      rw [← whole,← shape,List.append_assoc] at split
      have next := List.append_cancel_left split
      simp only [List.cons_append,List.cons.injEq] at next
      rw [← shape,← next.1] at fresh
      exact absurd (by simp) fresh

theorem maxVersion_known (recorded : List Migration) :
    maxVersion recorded = 0 ∨ ∃ m ∈ recorded, m.version = maxVersion recorded := by
  induction recorded with
  | nil => exact .inl rfl
  | cons m rest ih =>
    have shape : maxVersion (m :: rest) = max m.version (maxVersion rest) := rfl
    rcases Nat.le_total (maxVersion rest) m.version with above | below
    · exact .inr ⟨m,by simp,by rw [shape,Nat.max_eq_left above]⟩
    · rw [shape,Nat.max_eq_right below]
      exact ih.imp_right fun ⟨other,listed,same⟩ => ⟨other,by simp [listed],same⟩

/-! ### One step -/

/-- What is known of a process from where it is. -/
def Stage (schema : Schema) (s : State) : Phase → Prop
  | .absent | .creating => True
  | .reading => s.created = true
  | .checking applied rest => ∃ front, schema.migrations = front ++ rest ∧ (∀ m ∈ front, m ∈ s.recorded) ∧
      (applied = 0 ∨ ∃ m ∈ s.recorded, m.version = applied)
  | .scripting applied migration rest | .recording applied migration rest | .committing applied migration rest =>
    ∃ front, schema.migrations = front ++ migration :: rest ∧ (∀ m ∈ front, m ∈ s.recorded) ∧
      (applied = 0 ∨ ∃ m ∈ s.recorded, m.version = applied) ∧ migration ∉ s.recorded
  | .returned => s.recorded = schema.migrations
  | .threw => False

structure Valid (schema : Schema) (s : State) : Prop where
  known : Recorded schema s.recorded
  applied : s.applied = s.recorded
  writer : ∀ i, (s.phase i).writing = true ↔ s.writer = some i
  stage : ∀ i, Stage schema s (s.phase i)

theorem Valid.opened (schema : Schema) (earlier : Nat) : Valid schema (opened schema earlier) where
  known := List.take_prefix _ _
  applied := rfl
  writer := by simp [Migrate.opened,Phase.writing]
  stage := fun _ => trivial

theorem Stage.mono {s next : State} {phase : Phase} (idle : phase.writing = false) (stage : Stage schema s phase)
    (created : s.created = true → next.created = true) (more : s.recorded <+: next.recorded)
    (known : Recorded schema next.recorded) : Stage schema next phase := by
  have sub := more.subset
  cases phase with
  | absent | creating => trivial
  | reading => exact created stage
  | checking applied rest =>
    obtain ⟨front,split,before,read⟩ := stage
    exact ⟨front,split,fun m listed => sub (before m listed),read.imp_right fun ⟨m,listed,same⟩ => ⟨m,sub listed,same⟩⟩
  | scripting | recording | committing => cases idle
  | returned =>
    have whole : s.recorded = schema.migrations := stage
    rw [whole] at more
    exact known.eq_of_length (Nat.le_antisymm known.length_le more.length_le)
  | threw => exact stage

theorem Valid.move {s next : State} (valid : Valid schema s) {i : Nat} {phase : Phase}
    (moved : next.phase = Function.update s.phase i phase) (created : s.created = true → next.created = true)
    (recorded : next.recorded = s.recorded) (applied : next.applied = s.applied)
    (writer : ∀ j, j ≠ i → (next.writer = some j ↔ s.writer = some j))
    (mine : phase.writing = true ↔ next.writer = some i) (stage : Stage schema next phase) : Valid schema next where
  known := recorded ▸ valid.known
  applied := by rw [applied,recorded,valid.applied]
  writer := by
    intro j
    rw [moved]
    by_cases same : j = i
    · subst same
      rw [Function.update_self]
      exact mine
    · rw [Function.update_of_ne same,writer j same]
      exact valid.writer j
  stage := by
    intro j
    rw [moved]
    by_cases same : j = i
    · subst same
      rwa [Function.update_self]
    · rw [Function.update_of_ne same]
      have earlier := valid.stage j
      cases here : s.phase j with
      | scripting | recording | committing => rw [here] at earlier; simpa [Stage,recorded] using earlier
      | absent | creating | reading | checking | returned | threw =>
        rw [here] at earlier
        exact earlier.mono rfl created (recorded ▸ List.prefix_refl _) (recorded ▸ valid.known)

theorem release_other (s : State) (i j : Nat) (different : j ≠ i) :
    (s.release i).writer = some j ↔ s.writer = some j := by
  unfold State.release
  dsimp only
  split
  · next mine => simp [mine,Ne.symm different]
  · rfl

theorem release_self (s : State) (i : Nat) : (s.release i).writer ≠ some i := by
  unfold State.release
  dsimp only
  split
  · simp
  · assumption

theorem Valid.commit {s next : State} (valid : Valid schema s) {i : Nat} {applied : Nat} {migration : Migration}
    {rest : List Migration} (here : s.phase i = .committing applied migration rest)
    (moved : next.phase = Function.update s.phase i (.checking applied rest))
    (created : next.created = s.created) (recorded : next.recorded = s.recorded ++ [migration])
    (log : next.applied = s.applied ++ [migration]) (writer : next.writer = none) : Valid schema next := by
  have stage := valid.stage i
  rw [here] at stage
  obtain ⟨front,split,before,read,fresh⟩ := stage
  have whole := valid.known.extend split before fresh
  have longer : Recorded schema next.recorded := ⟨rest,by rw [recorded,whole,split]; simp⟩
  have more : s.recorded <+: next.recorded := recorded ▸ List.prefix_append _ _
  have mine : s.writer = some i := (valid.writer i).mp (by rw [here]; rfl)
  have others : ∀ j, j ≠ i → (s.phase j).writing = false := by
    intro j different
    rw [Bool.eq_false_iff,Ne,valid.writer j,mine,Option.some.injEq]
    exact Ne.symm different
  refine ⟨longer,by rw [log,recorded,valid.applied],fun j => ?_,fun j => ?_⟩
  · rw [moved,writer]
    by_cases same : j = i
    · subst same
      simp [Phase.writing]
    · rw [Function.update_of_ne same,others j same]
      simp
  · rw [moved]
    by_cases same : j = i
    · subst same
      rw [Function.update_self]
      refine ⟨front ++ [migration],by simp [split],fun m listed => ?_,?_⟩
      · rw [recorded,whole]
        exact listed
      · exact read.imp_right fun ⟨m,listed,version⟩ => ⟨m,more.subset listed,version⟩
    · rw [Function.update_of_ne same]
      exact (valid.stage j).mono (others j same) (fun known => created ▸ known) more longer

theorem Recorded.all {recorded : List Migration} (known : Recorded schema recorded)
    (all : ∀ m ∈ schema.migrations, m ∈ recorded) : recorded = schema.migrations :=
  known.eq_of_length (Nat.le_antisymm known.length_le (List.Nodup.subperm schema.nodup all).length_le)

/-- A migration of a version at or below the one read is recorded already. -/
theorem Valid.skip {s : State} (valid : Valid schema s) {i applied : Nat} {migration : Migration} {rest : List Migration}
    (here : s.phase i = .checking applied (migration :: rest)) (old : migration.version ≤ applied) :
    Valid schema (s.setPhase i (.checking applied rest)) := by
  have stage := valid.stage i
  have writer := valid.writer i
  rw [here] at stage writer
  obtain ⟨front,split,before,read⟩ := stage
  have listed : migration ∈ schema.migrations := by simp [split]
  have positive := schema.positive migration listed
  obtain zero | ⟨other,member,version⟩ := read
  · omega
  have found := valid.known.downward listed member (version ▸ old)
  refine valid.move rfl id rfl rfl (fun _ _ => Iff.rfl) writer
    ⟨front ++ [migration],by simp [split],fun m inside => ?_,.inr ⟨other,member,version⟩⟩
  rcases List.mem_append.mp inside with early | last
  · exact before m early
  · rwa [List.mem_singleton.mp last]

theorem Valid.advance {s next : State} (valid : Valid schema s) {i : Nat} (fresh : Fresh s (.advance i))
    (taken : advance schema i s = some next) : Valid schema next := by
  have stage := valid.stage i
  have writer := valid.writer i
  have keep : ∀ j, j ≠ i → (s.writer = some j ↔ s.writer = some j) := fun _ _ => Iff.rfl
  unfold Migrate.advance at taken
  split at taken
  · next here =>
    cases taken
    rw [here] at writer
    exact valid.move rfl (fun _ => rfl) rfl rfl keep writer rfl
  · next here =>
    cases taken
    rw [here] at stage writer
    rw [if_pos (show s.created = true from stage)]
    exact valid.move rfl id rfl rfl keep writer ⟨[],rfl,by simp,maxVersion_known s.recorded⟩
  · next here =>
    cases taken
    rw [here] at stage writer
    obtain ⟨front,split,before,-⟩ := stage
    rw [List.append_nil] at split
    exact valid.move rfl id rfl rfl keep writer (valid.known.all (split ▸ before))
  · next applied migration rest here =>
    rw [here] at stage writer
    obtain ⟨front,split,before,read⟩ := stage
    have listed : migration ∈ schema.migrations := by simp [split]
    split at taken
    · next old =>
      cases taken
      exact valid.skip here old
    · next new =>
      split at taken
      · next free =>
        cases taken
        have unrecorded : migration ∉ s.recorded := by
          rw [← valid.known.version_iff listed]
          exact fresh applied migration rest here (Nat.lt_of_not_le new)
        exact valid.move rfl id rfl rfl (fun j different => by simp [free,Ne.symm different]) (by simp [Phase.writing])
          ⟨front,split,before,read,unrecorded⟩
      · cases taken
  · next here =>
    cases taken
    rw [here] at stage writer
    exact valid.move rfl id rfl rfl keep writer stage
  · next applied migration rest here =>
    rw [here] at stage writer
    have inside := stage
    obtain ⟨front,split,before,read,unrecorded⟩ := inside
    have listed : migration ∈ schema.migrations := by simp [split]
    rw [if_neg (mt (valid.known.version_iff listed).mp unrecorded)] at taken
    cases taken
    exact valid.move rfl id rfl rfl keep writer stage
  · next applied migration rest here =>
    cases taken
    have mine : s.writer = some i := writer.mp (by rw [here]; rfl)
    exact valid.commit here rfl rfl rfl rfl (by simp [State.release,State.setPhase,mine])
  · cases taken

/-- No step changes that, as long as no transaction begins for a version that another
process has recorded since. -/
theorem Valid.step {s next : State} (valid : Valid schema s) {action : Action} (fresh : Fresh s action)
    (taken : step schema action s = some next) : Valid schema next := by
  cases action with
  | start i =>
    have writer := valid.writer i
    simp only [Migrate.step] at taken
    split at taken
    · next here =>
      cases taken
      rw [here] at writer
      exact valid.move rfl id rfl rfl (fun _ _ => Iff.rfl) writer trivial
    · cases taken
  | advance i => exact valid.advance fresh taken
  | crash i =>
    have gone : ((s.setPhase i .absent).release i).writer ≠ some i := release_self _ i
    have released : Valid schema ((s.setPhase i .absent).release i) :=
      valid.move rfl id rfl rfl (fun j different => release_other _ i j different) (by simpa [Phase.writing] using gone)
        trivial
    simp only [Migrate.step] at taken
    split at taken <;> first | (cases taken; done) | (cases taken; exact released)

/-! ### Whole runs -/

/-- The most steps that are left to a call. -/
def Phase.rank (schema : Schema) : Phase → Nat
  | .creating => 4 * schema.migrations.length + 3
  | .reading => 4 * schema.migrations.length + 2
  | .checking _ rest => 4 * rest.length + 1
  | .scripting _ _ rest => 4 * rest.length + 4
  | .recording _ _ rest => 4 * rest.length + 3
  | .committing _ _ rest => 4 * rest.length + 2
  | .absent | .returned | .threw => 0

theorem advance_lowers {s next : State} {i : Nat} (taken : advance schema i s = some next) :
    (next.phase i).rank schema < (s.phase i).rank schema ∧ ∀ j, j ≠ i → next.phase j = s.phase j := by
  have moved : ∃ phase, next.phase = Function.update s.phase i phase ∧ phase.rank schema < (s.phase i).rank schema := by
    unfold advance at taken
    split at taken
    · next here => cases taken; exact ⟨_,rfl,by simp [here,Phase.rank]⟩
    · next here => cases taken; exact ⟨_,rfl,by rw [here]; split <;> simp [Phase.rank]⟩
    · next here => cases taken; exact ⟨_,rfl,by simp [here,Phase.rank]⟩
    · next here =>
      split at taken
      · cases taken
        exact ⟨_,rfl,by simp [here,Phase.rank]⟩
      · split at taken <;> cases taken
        exact ⟨_,rfl,by simp [here,Phase.rank]; omega⟩
    · next here => cases taken; exact ⟨_,rfl,by simp [here,Phase.rank]⟩
    · next here =>
      split at taken <;> cases taken
      · exact ⟨_,rfl,by simp [here,Phase.rank]⟩
      · exact ⟨_,rfl,by simp [here,Phase.rank]⟩
    · next here => cases taken; exact ⟨_,rfl,by simp [here,Phase.rank]⟩
    · cases taken
  obtain ⟨phase,update,lower⟩ := moved
  rw [update,Function.update_self]
  exact ⟨lower,fun j different => Function.update_of_ne different _ _⟩

/-- What a step does to one process. The others stay where they are. -/
def Moved (schema : Schema) (s next : State) (i : Nat) : Action → Prop
  | .start j => if i = j then s.phase i = .absent ∧ next.phase i = .creating else next.phase i = s.phase i
  | .advance j =>
    if i = j then (next.phase i).rank schema < (s.phase i).rank schema else next.phase i = s.phase i
  | .crash j => if i = j then next.phase i = .absent else next.phase i = s.phase i

theorem step_moved {s next : State} {action : Action} (taken : step schema action s = some next) (i : Nat) :
    Moved schema s next i action := by
  have update (j : Nat) (phase : Phase) (different : i ≠ j) : Function.update s.phase j phase i = s.phase i :=
    Function.update_of_ne different _ _
  cases action with
  | start j =>
    simp only [step] at taken
    split at taken
    · next here =>
      cases taken
      dsimp only [Moved]
      split
      · next same =>
        subst same
        exact ⟨here,Function.update_self _ _ _⟩
      · next different => exact update j _ different
    · cases taken
  | advance j =>
    have lowers := advance_lowers taken
    dsimp only [Moved]
    split
    · next same => exact same ▸ lowers.1
    · next different => exact lowers.2 i different
  | crash j =>
    have gone : next.phase = Function.update s.phase j .absent := by
      simp only [step] at taken
      split at taken <;> first | (cases taken; done) | (cases taken; rfl)
    dsimp only [Moved]
    rw [gone]
    split
    · next same => rw [same,Function.update_self]
    · next different => exact update j _ different

theorem advances_bounded (earlier i : Nat) (labels : List Action) (s : State)
    (path : Transition.run (step schema) labels (opened schema earlier) = some s) :
    labels.count (.advance i) + (s.phase i).rank schema ≤
      (4 * schema.migrations.length + 3) * labels.count (.start i) := by
  induction labels using List.reverseRecOn generalizing s with
  | nil =>
    obtain rfl : opened schema earlier = s := by simpa using path
    simp [opened,Phase.rank]
  | append_singleton labels action ih =>
    obtain ⟨middle,first,last⟩ := (Transition.run_append_some _ _ _ _ _).mp path
    obtain ⟨next,taken,done⟩ := (Transition.run_cons_some _ _ _ _ _).mp last
    obtain rfl : next = s := by simpa using done
    have before := ih middle first
    have moved := step_moved taken i
    rw [List.count_append,List.count_append,Nat.mul_add]
    cases action with
    | start j =>
      dsimp only [Moved] at moved
      by_cases same : i = j
      · subst same
        rw [if_pos rfl] at moved
        rw [moved.1] at before
        simp only [moved.2,Phase.rank,List.count_singleton_self] at before ⊢
        simp
        omega
      · rw [if_neg same] at moved
        simpa [moved,Ne.symm same] using before
    | advance j =>
      dsimp only [Moved] at moved
      by_cases same : i = j
      · subst same
        rw [if_pos rfl] at moved
        simp only [List.count_singleton_self]
        simp
        omega
      · rw [if_neg same] at moved
        simpa [moved,Ne.symm same] using before
    | crash j =>
      dsimp only [Moved] at moved
      have less : (next.phase i).rank schema ≤ (middle.phase i).rank schema := by
        by_cases same : i = j
        · rw [if_pos same] at moved
          simp [moved,Phase.rank]
        · rw [if_neg same] at moved
          rw [moved]
      simp
      omega

/-- What the callers of `initialise` rely on. -/
structure Initialised (schema : Schema) (labels : List Action) (s : State) : Prop where
  calm : ∀ i, s.phase i ≠ .threw
  /-- Nothing is applied twice, and what is applied is recorded. -/
  once : s.applied <+: schema.migrations ∧ s.recorded = s.applied
  complete : ∀ i, s.phase i = .returned → s.recorded = schema.migrations
  /-- Where nobody can go on, every call has returned or died. -/
  settled : (∀ i, step schema (.advance i) s = none) → ∀ i, s.phase i = .absent ∨ s.phase i = .returned
  bounded : ∀ i, labels.count (.advance i) ≤ (4 * schema.migrations.length + 3) * labels.count (.start i)

theorem Valid.settled {s : State} (valid : Valid schema s) (stuck : ∀ i, Migrate.advance schema i s = none) (i : Nat) :
    s.phase i = .absent ∨ s.phase i = .returned := by
  have idle (j : Nat) : (s.phase j).writing = false := by
    have mine := stuck j
    unfold Migrate.advance at mine
    cases here : s.phase j with
    | scripting applied migration rest => simp [here] at mine
    | recording applied migration rest =>
      simp only [here] at mine
      split at mine <;> cases mine
    | committing applied migration rest => simp [here] at mine
    | _ => rfl
  have free : s.writer = none := by
    cases held : s.writer with
    | none => rfl
    | some j =>
      have busy := (valid.writer j).mpr held
      rw [idle j] at busy
      cases busy
  have mine := stuck i
  have stage := valid.stage i
  unfold Migrate.advance at mine
  cases here : s.phase i with
  | absent => exact .inl rfl
  | returned => exact .inr rfl
  | threw => rw [here] at stage; exact stage.elim
  | creating => simp [here] at mine
  | reading => simp [here] at mine
  | checking applied rest =>
    cases rest with
    | nil => simp [here] at mine
    | cons migration rest =>
      simp only [here,free] at mine
      split at mine <;> cases mine
  | scripting | recording | committing =>
    have quiet := idle i
    rw [here] at quiet
    cases quiet

/-- As long as no transaction begins for a version that was recorded since it was looked
up, any number of processes, starts and crashes leave the file migrated. -/
theorem migrate_initialised (schema : Schema) (earlier : Nat) (labels : List Action) (s : State)
    (path : Transition.run (step schema) labels (opened schema earlier) = some s)
    (along : Transition.Along (step schema) Fresh labels (opened schema earlier)) : Initialised schema labels s := by
  have valid := Transition.run_invariant_along (step schema) Fresh (Valid schema)
    (fun _ _ _ valid fresh taken => valid.step fresh taken) labels _ s along path (.opened schema earlier)
  refine ⟨fun i threw => ?_,⟨valid.applied ▸ valid.known,valid.applied.symm⟩,fun i returned => ?_,valid.settled,
    fun i => Nat.le_trans (Nat.le_add_right _ _) (advances_bounded earlier i labels s path)⟩
  · have stage := valid.stage i
    rwa [threw] at stage
  · have stage := valid.stage i
    rwa [returned] at stage

/-- The steps of one call on a new file. -/
def wholeCall (i : Nat) : List Action := .start i :: List.replicate 7 (.advance i)

theorem migrate_initialised_crash : ∃ s, Transition.run (step schemaMigrations)
    ([.start 0,.advance 0,.advance 0,.advance 0,.advance 0,.crash 0] ++ wholeCall 1) (opened schemaMigrations 0) = some s ∧
      Initialised schemaMigrations ([.start 0,.advance 0,.advance 0,.advance 0,.advance 0,.crash 0] ++ wholeCall 1) s := by
  exact ⟨_,rfl,migrate_initialised schemaMigrations 0 _ _ rfl (by decide)⟩

/-- Two processes look the version up before either has recorded it, and the second
throws. -/
theorem simultaneousStart_throws : ∃ s, Transition.run (step schemaMigrations)
    ([.start 0,.advance 0,.advance 0] ++ [.start 1,.advance 1,.advance 1] ++ List.replicate 5 (.advance 0) ++
      List.replicate 3 (.advance 1)) (opened schemaMigrations 0) = some s ∧ s.phase 0 = .returned ∧ s.phase 1 = .threw := by
  exact ⟨_,rfl,rfl,rfl⟩

end TestForge.Migrate
