import TestForge.KeyedRows
import TestForge.PythonValues
import Mathlib.Data.List.Pairwise
import Mathlib.Data.List.Sort
import Mathlib.Logic.Function.Basic

/-! The sample service and its users. A handler does not wait while it holds the lock of the store,
so that requests are answered one after the other. What rests on Unicode's tables, on the validator of
addresses and on the hash is a parameter; the framework's own body of a 422 is left out. -/
namespace TestForge.SampleService

open Python

structure Runtime where
  lower : Text → Text
  isAlnum : Nat → Bool
  /-- The normalised address. -/
  emailStr : Text → Option Text
  sha256 : Text → Text

structure UserCreate where
  username : Text
  email : Text
  password : Text
  fullName : Option Text := none

structure UserUpdate where
  email : Option Text := none
  fullName : Option Text := none
  password : Option Text := none

structure UserOut where
  id : Int
  username : Text
  email : Text
  fullName : Option Text := none
  createdAt : Text
  deriving DecidableEq

structure User extends UserOut where
  passwordHash : Text

def toPublic (user : User) : UserOut := user.toUserOut

def minPasswordLength : Nat := 8

def usernameIsSimple (runtime : Runtime) (value : Text) : Bool :=
  value.all fun c => runtime.isAlnum c || c ∈ text "_-."

def passwordFits (password : Text) : Bool := minPasswordLength ≤ password.length ∧ password.length ≤ 128

def fullNameFits (fullName : Option Text) : Bool := fullName.all (·.length ≤ 120)

/-- The fields as the model has them after its checks. -/
def UserCreate.check (runtime : Runtime) (payload : UserCreate) : Option UserCreate :=
  if 3 ≤ payload.username.length ∧ payload.username.length ≤ 32 ∧ usernameIsSimple runtime payload.username ∧
      passwordFits payload.password ∧ fullNameFits payload.fullName then
    (runtime.emailStr payload.email).map fun email => { payload with email }
  else none

def UserUpdate.check (runtime : Runtime) (payload : UserUpdate) : Option UserUpdate :=
  if payload.password.all passwordFits ∧ fullNameFits payload.fullName then
    match payload.email with
    | none => some payload
    | some email => (runtime.emailStr email).map fun email => { payload with email := some email }
  else none

/-- The users in the order in which the dictionary got them, and the counter. -/
structure Store where
  users : List User := []
  nextId : Int := 1

inductive Request where
  | listUsers (limit offset : Int) (username : Option Text)
  | getUser (id : Int)
  | createUser (payload : UserCreate) (now : Text)
  | updateUser (id : Int) (payload : UserUpdate)
  | deleteUser (id : Int)
  | reset (clock : Nat → Text)

inductive Response where
  | page (items : List UserOut) (total : Nat) (limit offset : Int)
  | ok (user : UserOut)
  | created (user : UserOut)
  | noContent
  | reset (users : Nat)
  | problem (status : Nat) (detail : Text)
  | unprocessable
  deriving DecidableEq

def noUser (id : Int) : Response := .problem 404 (text "no user with id " ++ decimalInt id)

def usernameTaken (username : Text) : Response :=
  .problem 409 (text "username '" ++ username ++ text "' is already taken")

def emailRegistered (email : Text) : Response :=
  .problem 409 (text "email '" ++ email ++ text "' is already registered")

namespace Store

def get (s : Store) (id : Int) : Option User := KeyedRows.lookup (·.id) s.users id

/-- `users[user.id] = user` -/
def assign (s : Store) (user : User) : Store :=
  { s with users := if s.users.any (·.id = user.id) then s.users.map fun other => if other.id = user.id then user else other
    else s.users ++ [user] }

def findByUsername (runtime : Runtime) (s : Store) (username : Text) : Option User :=
  s.users.find? fun user => runtime.lower user.username = runtime.lower username

def findByEmail (runtime : Runtime) (s : Store) (email : Text) : Option User :=
  s.users.find? fun user => runtime.lower user.email = runtime.lower email

end Store

def seeds : List (Text × Text × Option Text) := [
  (text "alice",text "alice@example.com",some (text "Alice Example")),
  (text "bob",text "bob@example.com",some (text "Bob Example")),
  (text "carol",text "carol@example.com",none)]

def seedOne (runtime : Runtime) (clock : Nat → Text) (s : Store) (seed : Text × Text × Option Text) : Store :=
  let user : User := {
    id := s.nextId
    username := seed.1
    email := seed.2.1
    fullName := seed.2.2
    passwordHash := runtime.sha256 (text "seeded-password")
    createdAt := clock s.users.length }
  { (s.assign user) with nextId := s.nextId + 1 }

/-- A new store, with the times read while it is made. -/
def seeded (runtime : Runtime) (clock : Nat → Text) : Store := seeds.foldl (seedOne runtime clock) {}

/-- `records[offset : offset + limit]` -/
def window {α : Type} (limit offset : Int) (records : List α) : List α := (records.drop offset.toNat).take limit.toNat

def listUsers (runtime : Runtime) (s : Store) (limit offset : Int) (username : Option Text) : Response :=
  if limit < 1 ∨ 100 < limit ∨ offset < 0 ∨ username.any (32 < ·.length) then .unprocessable
  else
    let records := s.users.mergeSort (·.id ≤ ·.id)
    let records := match username with
      | none | some [] => records
      | some username => records.filter fun user => includes (runtime.lower user.username) (runtime.lower username)
    .page ((window limit offset records).map toPublic) records.length limit offset

def createUser (runtime : Runtime) (s : Store) (payload : UserCreate) (now : Text) : Store × Response :=
  match payload.check runtime with
  | none => (s,.unprocessable)
  | some payload =>
    if (s.findByUsername runtime payload.username).isSome then (s,usernameTaken payload.username)
    else if (s.findByEmail runtime payload.email).isSome then (s,emailRegistered payload.email)
    else
      let record : User := {
        id := s.nextId
        username := payload.username
        email := payload.email
        fullName := payload.fullName
        passwordHash := runtime.sha256 payload.password
        createdAt := now }
      ({ (s.assign record) with nextId := s.nextId + 1 },.created (toPublic record))

/-- What is left of a record by an update that is accepted. -/
def UserUpdate.apply (runtime : Runtime) (payload : UserUpdate) (user : User) : User := { user with
  email := payload.email.getD user.email
  fullName := payload.fullName.or user.fullName
  passwordHash := (payload.password.map runtime.sha256).getD user.passwordHash }

def updateUser (runtime : Runtime) (s : Store) (id : Int) (payload : UserUpdate) : Store × Response :=
  match payload.check runtime with
  | none => (s,.unprocessable)
  | some payload =>
    match s.get id with
    | none => (s,noUser id)
    | some user =>
      match payload.email.bind fun email => (s.findByEmail runtime email).bind fun existing =>
          if existing.id ≠ id then some (emailRegistered email) else none with
      | some conflict => (s,conflict)
      | none =>
        ({ s with users := KeyedRows.change (·.id) s.users id (payload.apply runtime) },
          .ok (toPublic (payload.apply runtime user)))

def deleteUser (s : Store) (id : Int) : Store × Response :=
  if (s.get id).isSome then ({ s with users := s.users.filter (·.id ≠ id) },.noContent) else (s,noUser id)

def serve (runtime : Runtime) (s : Store) : Request → Store × Response
  | .listUsers limit offset username => (s,listUsers runtime s limit offset username)
  | .getUser id => (s,match s.get id with
    | some user => .ok (toPublic user)
    | none => noUser id)
  | .createUser payload now => createUser runtime s payload now
  | .updateUser id payload => updateUser runtime s id payload
  | .deleteUser id => deleteUser s id
  | .reset clock => (seeded runtime clock,.reset (seeded runtime clock).users.length)

/-- The service's answers, each beside its request. -/
def session (runtime : Runtime) : Store → List Request → List (Request × Response)
  | _,[] => []
  | s,request :: rest => (request,(serve runtime s request).2) :: session runtime (serve runtime s request).1 rest

/-! ### What a client can tell from the answers -/

/-- The users by their ids, and the last id that was given. -/
structure Directory where
  entries : Int → Option UserOut := fun _ => none
  issued : Int := 0

namespace Directory

def assign (d : Directory) (user : UserOut) : Directory :=
  { d with entries := Function.update d.entries user.id (some user) }

def seedOne (clock : Nat → Text) (d : Directory) (seed : (Text × Text × Option Text) × Nat) : Directory :=
  let user : UserOut := {
    id := d.issued + 1
    username := seed.1.1
    email := seed.1.2.1
    fullName := seed.1.2.2
    createdAt := clock seed.2 }
  { (d.assign user) with issued := user.id }

def seeded (clock : Nat → Text) : Directory := seeds.zipIdx.foldl (seedOne clock) {}

/-- What an answer tells. -/
def note (d : Directory) : Request → Response → Directory
  | .createUser _ _,.created user => { (d.assign user) with issued := user.id }
  | .updateUser _ _,.ok user => d.assign user
  | .deleteUser id,.noContent => { d with entries := Function.update d.entries id none }
  | .reset clock,_ => seeded clock
  | _,_ => d

def notes (d : Directory) (log : List (Request × Response)) : Directory := log.foldl (fun d entry => d.note entry.1 entry.2) d

/-- All answers of a session, over a store that was made at the times of `clock`. -/
def told (clock : Nat → Text) (log : List (Request × Response)) : Directory := (seeded clock).notes log

def users (d : Directory) : List UserOut := (List.range d.issued.toNat).filterMap fun (i : Nat) => d.entries (i + 1)

/-- Another user than `own` has the value, up to case. -/
def Taken (runtime : Runtime) (d : Directory) (field : UserOut → Text) (own : Option Int) (value : Text) : Prop :=
  ∃ id user, d.entries id = some user ∧ own ≠ some id ∧ runtime.lower (field user) = runtime.lower value

open Classical in
noncomputable def answer (runtime : Runtime) (d : Directory) : Request → Response
  | .listUsers limit offset username =>
    if limit < 1 ∨ 100 < limit ∨ offset < 0 ∨ username.any (32 < ·.length) then .unprocessable
    else
      let wanted := (username.filter (· ≠ [])).elim d.users fun username =>
        d.users.filter fun user => includes (runtime.lower user.username) (runtime.lower username)
      .page (window limit offset wanted) wanted.length limit offset
  | .getUser id => (d.entries id).elim (noUser id) .ok
  | .createUser payload now => (payload.check runtime).elim .unprocessable fun payload =>
    if d.Taken runtime (·.username) none payload.username then usernameTaken payload.username
    else if d.Taken runtime (·.email) none payload.email then emailRegistered payload.email
    else .created {
      id := d.issued + 1
      username := payload.username
      email := payload.email
      fullName := payload.fullName
      createdAt := now }
  | .updateUser id payload => (payload.check runtime).elim .unprocessable fun payload =>
    (d.entries id).elim (noUser id) fun user =>
      if d.Taken runtime (·.email) (some id) (payload.email.getD user.email) then
        emailRegistered (payload.email.getD user.email)
      else .ok { user with email := payload.email.getD user.email, fullName := payload.fullName.or user.fullName }
  | .deleteUser id => (d.entries id).elim (noUser id) fun _ => .noContent
  | .reset _ => .reset seeds.length

end Directory

/-- What the service relies on for its seeds. -/
structure Documented (runtime : Runtime) : Prop where
  lower : ∀ value : Text, (∀ c ∈ value, c = 46 ∨ c = 64 ∨ (97 ≤ c ∧ c ≤ 122)) → runtime.lower value = value
  isAlnum : ∀ c, 97 ≤ c → c ≤ 122 → runtime.isAlnum c = true

/-- The store, and what the answers so far have told of it. -/
structure Refines (runtime : Runtime) (s : Store) (d : Directory) : Prop where
  counted : s.nextId = d.issued + 1
  started : 0 ≤ d.issued
  ordered : s.users.Pairwise fun a b => a.id < b.id
  given : ∀ user ∈ s.users, 1 ≤ user.id ∧ user.id ≤ d.issued
  entries : ∀ id, (s.get id).map toPublic = d.entries id
  usernames : s.users.Pairwise fun a b => runtime.lower a.username ≠ runtime.lower b.username
  emails : s.users.Pairwise fun a b => runtime.lower a.email ≠ runtime.lower b.email
  simple : ∀ user ∈ s.users, usernameIsSimple runtime user.username = true

theorem assign_fresh (s : Store) (user : User) (fresh : ∀ other ∈ s.users, other.id ≠ user.id) :
    s.assign user = { s with users := s.users ++ [user] } := by
  have absent : s.users.any (·.id = user.id) = false := by simpa using fresh
  simp [Store.assign,absent]

section Refines

variable {runtime : Runtime} {s : Store} {d : Directory} (refines : Refines runtime s d)
include refines

theorem Refines.unique : KeyedRows.Unique (·.id) s.users := by
  apply List.pairwise_map.mpr
  exact refines.ordered.imp fun less => Int.ne_of_lt less

theorem Refines.entry {id : Int} {user : UserOut} (there : d.entries id = some user) :
    ∃ record ∈ s.users, record.id = id ∧ toPublic record = user := by
  rw [← refines.entries,Option.map_eq_some_iff] at there
  obtain ⟨record,found,same⟩ := there
  obtain ⟨member,key⟩ := KeyedRows.lookup_key _ found
  exact ⟨record,member,key,same⟩

theorem Refines.record {record : User} (member : record ∈ s.users) : d.entries record.id = some (toPublic record) := by
  rw [← refines.entries,Store.get,refines.unique.lookup_mem _ member]
  rfl

theorem Refines.taken_iff (field : UserOut → Text) (own : Option Int) (value : Text) :
    d.Taken runtime field own value ↔
      ∃ record ∈ s.users, own ≠ some record.id ∧ runtime.lower (field (toPublic record)) = runtime.lower value := by
  constructor
  · rintro ⟨id,user,there,apart,same⟩
    obtain ⟨record,member,rfl,rfl⟩ := refines.entry there
    exact ⟨record,member,apart,same⟩
  · rintro ⟨record,member,apart,same⟩
    exact ⟨record.id,toPublic record,refines.record member,apart,same⟩

theorem Refines.users : d.users = s.users.map toPublic := by
  have named (id : Int) (user : UserOut) (there : d.entries id = some user) : user.id = id := by
    obtain ⟨record,_,rfl,rfl⟩ := refines.entry there
    rfl
  apply List.Pairwise.eq_of_mem_iff (r := fun a b : UserOut => a.id < b.id)
  · apply List.pairwise_filterMap.mpr
    apply List.pairwise_lt_range.imp
    intro i j less a first b second
    rw [named _ a first,named _ b second]
    omega
  · exact List.pairwise_map.mpr refines.ordered
  · intro user
    simp only [Directory.users,List.mem_filterMap,List.mem_range,List.mem_map]
    constructor
    · rintro ⟨i,_,there⟩
      obtain ⟨record,member,_,same⟩ := refines.entry there
      exact ⟨record,member,same⟩
    · rintro ⟨record,member,rfl⟩
      have bounds := refines.given record member
      refine ⟨(record.id - 1).toNat,by omega,?_⟩
      have back : ((record.id - 1).toNat : Int) + 1 = record.id := by omega
      rw [back,refines.record member]

theorem Refines.list (limit offset : Int) (username : Option Text) :
    listUsers runtime s limit offset username = d.answer runtime (.listUsers limit offset username) := by
  have sorted : s.users.mergeSort (·.id ≤ ·.id) = s.users := by
    apply List.mergeSort_of_pairwise
    exact refines.ordered.imp fun less => decide_eq_true (Int.le_of_lt less)
  have shown {α β : Type} (f : α → β) (records : List α) :
      window limit offset (records.map f) = (window limit offset records).map f := by simp [window]
  rw [listUsers,Directory.answer,sorted,refines.users]
  split
  · rfl
  · match username with
    | none => simp [shown]
    | some [] => simp [Option.filter_some,shown]
    | some (c :: rest) => simp [Option.filter_some,shown,List.filter_map,Function.comp_def,toPublic]

theorem Refines.named (username : Text) :
    (s.findByUsername runtime username).isSome = true ↔ d.Taken runtime (·.username) none username := by
  rw [refines.taken_iff]
  simp [Store.findByUsername,toPublic]

theorem Refines.addressed (email : Text) :
    (s.findByEmail runtime email).isSome = true ↔ d.Taken runtime (·.email) none email := by
  rw [refines.taken_iff]
  simp [Store.findByEmail,toPublic]

/-- A record with an id, a name and an address of its own joins. -/
theorem Refines.join (user : User) (next : user.id = s.nextId) (simple : usernameIsSimple runtime user.username = true)
    (name : ¬d.Taken runtime (·.username) none user.username) (address : ¬d.Taken runtime (·.email) none user.email) :
    Refines runtime { (s.assign user) with nextId := s.nextId + 1 }
      { (d.assign (toPublic user)) with issued := user.id } := by
  have counted := refines.counted
  have started := refines.started
  have fresh : ∀ other ∈ s.users, other.id < user.id := fun other member => by
    have bounds := refines.given other member
    omega
  rw [assign_fresh s user fun other member => Int.ne_of_lt (fresh other member)]
  rw [refines.taken_iff] at name address
  refine ⟨?_,?_,?_,?_,?_,?_,?_,?_⟩
  · simp only [next]
  · simp only
    omega
  · exact List.pairwise_append.mpr ⟨refines.ordered,List.pairwise_singleton _ _,by simpa using fresh⟩
  · intro other member
    rcases List.mem_append.mp member with before | last
    · have bounds := refines.given other before
      exact ⟨bounds.1,Int.le_of_lt (fresh other before)⟩
    · rw [List.mem_singleton.mp last]
      simp only [Int.le_refl,and_true]
      omega
  · intro id
    have before := refines.entries id
    simp only [Store.get,KeyedRows.lookup] at before ⊢
    rw [List.find?_append,Directory.assign]
    by_cases same : id = user.id
    · subst same
      have absent : s.users.find? (fun other => decide (other.id = user.id)) = none := by
        simpa using fun other member => Int.ne_of_lt (fresh other member)
      simp [absent,toPublic]
    · have missed : [user].find? (fun other => decide (other.id = id)) = none := by
        simpa using fun equal => same equal.symm
      simp [missed,toPublic,Function.update_of_ne same,← before]
  · refine List.pairwise_append.mpr ⟨refines.usernames,List.pairwise_singleton _ _,fun other member last is_last same => ?_⟩
    rw [List.mem_singleton.mp is_last] at same
    exact name ⟨other,member,by simp,same⟩
  · refine List.pairwise_append.mpr ⟨refines.emails,List.pairwise_singleton _ _,fun other member last is_last same => ?_⟩
    rw [List.mem_singleton.mp is_last] at same
    exact address ⟨other,member,by simp,same⟩
  · intro other member
    rcases List.mem_append.mp member with before | last
    · exact refines.simple other before
    · rw [List.mem_singleton.mp last]
      exact simple

theorem Refines.create (payload : UserCreate) (now : Text) :
    (createUser runtime s payload now).2 = d.answer runtime (.createUser payload now) ∧
      Refines runtime (createUser runtime s payload now).1
        (d.note (.createUser payload now) (createUser runtime s payload now).2) := by
  rw [createUser,Directory.answer]
  cases checked : payload.check runtime with
  | none => exact ⟨rfl,refines⟩
  | some payload =>
    simp only [Option.elim_some]
    have simple : usernameIsSimple runtime payload.username = true := by
      rw [UserCreate.check] at checked
      split at checked
      · next fits =>
        obtain ⟨email,_,rfl⟩ := Option.map_eq_some_iff.mp checked
        exact fits.2.2.1
      · exact absurd checked (by simp)
    by_cases name : d.Taken runtime (·.username) none payload.username
    · rw [if_pos ((refines.named _).mpr name),if_pos name]
      exact ⟨rfl,refines⟩
    rw [if_neg (fun taken => name ((refines.named _).mp taken)),if_neg name]
    by_cases address : d.Taken runtime (·.email) none payload.email
    · rw [if_pos ((refines.addressed _).mpr address),if_pos address]
      exact ⟨rfl,refines⟩
    rw [if_neg (fun taken => address ((refines.addressed _).mp taken)),if_neg address]
    refine ⟨?_,refines.join _ rfl simple name address⟩
    simp [toPublic,refines.counted]

theorem Refines.same_email {a b : User} (first : a ∈ s.users) (second : b ∈ s.users)
    (same : runtime.lower a.email = runtime.lower b.email) : a = b := by
  by_contra apart
  have sides : Std.Symm fun a b : User => runtime.lower a.email ≠ runtime.lower b.email := ⟨fun _ _ ne => ne.symm⟩
  exact refines.emails.forall first second apart same

/-- The first user found with the address of an update is the only one. -/
theorem Refines.conflict (id : Int) (user : User) (found : s.get id = some user) (payload : UserUpdate) :
    let value := payload.email.getD user.email
    let conflict := payload.email.bind fun email => (s.findByEmail runtime email).bind fun existing =>
      if existing.id ≠ id then some (emailRegistered email) else none
    (d.Taken runtime (·.email) (some id) value → conflict = some (emailRegistered value)) ∧
      (¬d.Taken runtime (·.email) (some id) value → conflict = none) := by
  obtain ⟨member,rfl⟩ := KeyedRows.lookup_key _ found
  simp only [refines.taken_iff]
  cases payload.email with
  | none =>
    refine ⟨?_,fun _ => rfl⟩
    rintro ⟨other,there,apart,same⟩
    rw [refines.same_email there member same] at apart
    exact absurd rfl apart
  | some email =>
    cases first : s.findByEmail runtime email with
    | none =>
      have nobody : ∀ other ∈ s.users, runtime.lower other.email ≠ runtime.lower email := by
        simpa [Store.findByEmail] using first
      refine ⟨?_,fun _ => by simp [first]⟩
      rintro ⟨other,there,_,same⟩
      exact absurd same (nobody other there)
    | some existing =>
      have there := List.mem_of_find?_eq_some first
      have same : runtime.lower existing.email = runtime.lower email := by simpa using List.find?_some first
      by_cases own : existing.id = user.id
      · refine ⟨?_,fun _ => by simp [first,own]⟩
        rintro ⟨other,also,apart,alike⟩
        rw [refines.same_email also there (alike.trans same.symm),own] at apart
        exact absurd rfl apart
      · refine ⟨fun _ => by simp [first,own],fun free => absurd ⟨existing,there,?_,same⟩ free⟩
        simpa using Ne.symm own

theorem Refines.change (id : Int) (user : User) (found : s.get id = some user) (payload : UserUpdate)
    (address : ¬d.Taken runtime (·.email) (some id) (payload.email.getD user.email)) :
    Refines runtime { s with users := KeyedRows.change (·.id) s.users id (payload.apply runtime) }
      (d.assign (toPublic (payload.apply runtime user))) := by
  obtain ⟨member,rfl⟩ := KeyedRows.lookup_key _ found
  rw [refines.taken_iff] at address
  have kept (other : User) : (payload.apply runtime other).id = other.id ∧
      (payload.apply runtime other).username = other.username := ⟨rfl,rfl⟩
  have same (other : User) (there : other ∈ s.users) (key : other.id = user.id) : other = user :=
    List.inj_on_of_nodup_map refines.unique there member key
  refine ⟨refines.counted,refines.started,?_,?_,?_,?_,?_,?_⟩
  · apply List.pairwise_map.mpr
    apply refines.ordered.imp
    intro a b less
    split <;> split <;> exact less
  · intro other there
    obtain ⟨before,inside,rfl⟩ := List.mem_map.mp there
    have bounds := refines.given before inside
    split <;> exact bounds
  · intro other
    have before := refines.entries other
    simp only [Store.get] at before ⊢
    rw [KeyedRows.lookup_change (fun user : User => user.id) _ _ _ _ fun other => (kept other).1]
    by_cases here : other = user.id
    · subst here
      rw [if_pos rfl]
      rw [Store.get] at found
      simp [found,Directory.assign,toPublic,kept]
    · have apart : other ≠ (toPublic (payload.apply runtime user)).id := here
      simpa [if_neg here,Directory.assign,Function.update_of_ne apart] using before
  · apply List.pairwise_map.mpr
    apply refines.usernames.imp
    intro a b differ
    split <;> split <;> exact differ
  · apply List.pairwise_map.mpr
    apply (refines.emails.and refines.ordered).imp_of_mem
    rintro a b first second ⟨differ,less⟩
    have free (other : User) (there : other ∈ s.users) (apart : user.id ≠ other.id) :
        runtime.lower other.email ≠ runtime.lower (payload.email.getD user.email) :=
      fun alike => address ⟨other,there,by simpa using apart,alike⟩
    by_cases left : a.id = user.id
    · have right : b.id ≠ user.id := fun equal => by omega
      rw [if_pos left,if_neg right,same a first left]
      exact (free b second right.symm).symm
    · rw [if_neg left]
      split
      · next right =>
        rw [same b second right]
        exact free a first (Ne.symm left)
      · exact differ
  · intro other there
    obtain ⟨before,inside,rfl⟩ := List.mem_map.mp there
    have simple := refines.simple before inside
    split <;> exact simple

theorem Refines.remove (id : Int) : Refines runtime { s with users := s.users.filter (·.id ≠ id) }
    { d with entries := Function.update d.entries id none } where
  counted := refines.counted
  started := refines.started
  ordered := refines.ordered.filter _
  given := fun user member => refines.given user (List.mem_of_mem_filter member)
  entries := by
    intro other
    rw [Store.get,refines.unique.lookup_filter]
    have before := refines.entries other
    by_cases same : other = id
    · subst same
      simp only [Function.update_self,Option.map_eq_none_iff,Option.filter_eq_none_iff]
      intro user found
      simpa using (KeyedRows.lookup_key _ found).2
    · simp only [Function.update_of_ne same,← before,Store.get]
      cases found : KeyedRows.lookup (fun user : User => user.id) s.users other with
      | none => rfl
      | some user =>
        have key := (KeyedRows.lookup_key _ found).2
        simp [Option.filter_some,key,same]
  usernames := refines.usernames.filter _
  emails := refines.emails.filter _
  simple := fun user member => refines.simple user (List.mem_of_mem_filter member)

theorem Refines.update (id : Int) (payload : UserUpdate) :
    (updateUser runtime s id payload).2 = d.answer runtime (.updateUser id payload) ∧
      Refines runtime (updateUser runtime s id payload).1
        (d.note (.updateUser id payload) (updateUser runtime s id payload).2) := by
  rw [updateUser,Directory.answer]
  cases checked : payload.check runtime with
  | none => exact ⟨rfl,refines⟩
  | some payload =>
    have entry := refines.entries id
    simp only [Option.elim_some]
    cases found : s.get id with
    | none =>
      rw [found,Option.map_none] at entry
      rw [← entry]
      exact ⟨rfl,refines⟩
    | some user =>
      rw [found,Option.map_some] at entry
      rw [← entry]
      obtain ⟨refused,accepted⟩ := refines.conflict id user found payload
      simp only [Option.elim_some]
      by_cases taken : d.Taken runtime (·.email) (some id) (payload.email.getD user.email)
      · rw [refused taken]
        exact ⟨(if_pos taken).symm,refines⟩
      · rw [accepted taken]
        exact ⟨(if_neg taken).symm,refines.change id user found payload taken⟩

theorem Refines.delete (id : Int) : (deleteUser s id).2 = d.answer runtime (.deleteUser id) ∧
    Refines runtime (deleteUser s id).1 (d.note (.deleteUser id) (deleteUser s id).2) := by
  have entry := refines.entries id
  rw [deleteUser,Directory.answer]
  cases found : s.get id with
  | none =>
    rw [found,Option.map_none] at entry
    rw [← entry]
    exact ⟨rfl,refines⟩
  | some user =>
    rw [found,Option.map_some] at entry
    rw [← entry]
    exact ⟨rfl,refines.remove id⟩

end Refines

/-! ### The seeds -/

def seedUser (runtime : Runtime) (clock : Nat → Text) (seed : (Text × Text × Option Text) × Nat) : User where
  id := seed.2 + 1
  username := seed.1.1
  email := seed.1.2.1
  fullName := seed.1.2.2
  passwordHash := runtime.sha256 (text "seeded-password")
  createdAt := clock seed.2

theorem seeded_users (runtime : Runtime) (clock : Nat → Text) :
    (seeded runtime clock).users = seeds.zipIdx.map (seedUser runtime clock) := rfl

/-- Small letters, with dots and at signs. -/
def plain (value : Text) : Bool := value.all fun c => c = 46 || c = 64 || (97 ≤ c && c ≤ 122)

theorem Documented.lower_plain {runtime : Runtime} (documented : Documented runtime) (value : Text)
    (small : plain value = true) : runtime.lower value = value := by
  apply documented.lower
  intro c member
  have fits := List.all_eq_true.mp small c member
  simp only [Bool.or_eq_true,decide_eq_true_eq,Bool.and_eq_true] at fits
  tauto

/-- Seeds that differ in a plain field differ in it up to case. -/
theorem seeded_apart {runtime : Runtime} (documented : Documented runtime) (clock : Nat → Text) (field : User → Text)
    (small : ∀ seed ∈ seeds.zipIdx, plain (field (seedUser runtime clock seed)) = true)
    (apart : seeds.zipIdx.Pairwise fun a b => field (seedUser runtime clock a) ≠ field (seedUser runtime clock b)) :
    (seeded runtime clock).users.Pairwise fun a b => runtime.lower (field a) ≠ runtime.lower (field b) := by
  rw [seeded_users]
  apply List.pairwise_map.mpr
  apply apart.imp_of_mem
  intro a b first second differ
  rwa [documented.lower_plain _ (small a first),documented.lower_plain _ (small b second)]

theorem refines_seeded (runtime : Runtime) (documented : Documented runtime) (clock : Nat → Text) :
    Refines runtime (seeded runtime clock) (Directory.seeded clock) where
  counted := rfl
  started := Int.le.intro 3 rfl
  ordered := by
    rw [seeded_users]
    apply List.pairwise_map.mpr
    simp [seeds,seedUser]
  given := by
    rw [seeded_users]
    simp [seeds,seedUser,Directory.seeded,Directory.seedOne]
  entries := by
    intro id
    rw [Store.get,seeded_users]
    by_cases one : id = 1
    · subst one; rfl
    by_cases two : id = 2
    · subst two; rfl
    by_cases three : id = 3
    · subst three; rfl
    have missing : (Directory.seeded clock).entries id = none := by
      simp [Directory.seeded,seeds,Directory.seedOne,Directory.assign,one,two,three]
    rw [missing,Option.map_eq_none_iff,KeyedRows.lookup_none]
    simp [seeds,seedUser,one,two,three]
  usernames := by
    apply seeded_apart documented clock (·.username)
    · intro seed member
      exact (by decide : ∀ seed ∈ seeds.zipIdx, plain seed.1.1 = true) seed member
    · exact (by decide : seeds.zipIdx.Pairwise fun a b => a.1.1 ≠ b.1.1)
  emails := by
    apply seeded_apart documented clock (·.email)
    · intro seed member
      exact (by decide : ∀ seed ∈ seeds.zipIdx, plain seed.1.2.1 = true) seed member
    · exact (by decide : seeds.zipIdx.Pairwise fun a b => a.1.2.1 ≠ b.1.2.1)
  simple := by
    intro user member
    rw [seeded_users] at member
    obtain ⟨seed,there,rfl⟩ := List.mem_map.mp member
    have letters := (by decide : ∀ seed ∈ seeds.zipIdx, ∀ c ∈ seed.1.1, 97 ≤ c ∧ c ≤ 122) seed there
    apply List.all_eq_true.mpr
    intro c inside
    have small := letters c inside
    simp [documented.isAlnum c small.1 small.2]

theorem Refines.step {runtime : Runtime} (documented : Documented runtime) {s : Store} {d : Directory}
    (refines : Refines runtime s d) (request : Request) :
    (serve runtime s request).2 = d.answer runtime request ∧
      Refines runtime (serve runtime s request).1 (d.note request (serve runtime s request).2) := by
  cases request with
  | listUsers limit offset username => exact ⟨refines.list limit offset username,refines⟩
  | getUser id =>
    refine ⟨?_,refines⟩
    rw [serve,Directory.answer,← refines.entries id]
    cases s.get id <;> rfl
  | createUser payload now => exact refines.create payload now
  | updateUser id payload => exact refines.update id payload
  | deleteUser id => exact refines.delete id
  | reset clock => exact ⟨rfl,refines_seeded runtime documented clock⟩

/-! ### Sessions -/

/-- Ids are given one after the other, and names and addresses are taken once. -/
structure Directory.Sound (runtime : Runtime) (d : Directory) : Prop where
  named : ∀ id user, d.entries id = some user →
    user.id = id ∧ 1 ≤ id ∧ id ≤ d.issued ∧ usernameIsSimple runtime user.username = true
  usernames : ∀ a b user other, d.entries a = some user → d.entries b = some other →
    runtime.lower user.username = runtime.lower other.username → a = b
  emails : ∀ a b user other, d.entries a = some user → d.entries b = some other →
    runtime.lower user.email = runtime.lower other.email → a = b

theorem Refines.sound {runtime : Runtime} {s : Store} {d : Directory} (refines : Refines runtime s d) :
    d.Sound runtime where
  named := by
    intro id user there
    obtain ⟨record,member,rfl,rfl⟩ := refines.entry there
    have bounds := refines.given record member
    exact ⟨rfl,bounds.1,bounds.2,refines.simple record member⟩
  usernames := by
    intro a b user other first second same
    obtain ⟨record,member,rfl,rfl⟩ := refines.entry first
    obtain ⟨peer,present,rfl,rfl⟩ := refines.entry second
    by_contra apart
    have sides : Std.Symm fun a b : User => runtime.lower a.username ≠ runtime.lower b.username :=
      ⟨fun _ _ ne => ne.symm⟩
    exact refines.usernames.forall member present (fun equal => apart (congrArg (·.id) equal)) same
  emails := by
    intro a b user other first second same
    obtain ⟨record,member,rfl,rfl⟩ := refines.entry first
    obtain ⟨peer,present,rfl,rfl⟩ := refines.entry second
    rw [refines.same_email member present same]

/-- An id that was given and has no user gets none by any answer but that to a reset. -/
theorem Directory.Sound.stays_missing {runtime : Runtime} {d : Directory} (sound : d.Sound runtime) (id : Int)
    (given : id ≤ d.issued) (missing : d.entries id = none) (request : Request)
    (stays : ∀ clock, request ≠ .reset clock) :
    id ≤ (d.note request (d.answer runtime request)).issued ∧
      (d.note request (d.answer runtime request)).entries id = none := by
  have unchanged : id ≤ d.issued ∧ d.entries id = none := ⟨given,missing⟩
  cases request with
  | listUsers limit offset username =>
    rw [Directory.answer]
    split <;> exact unchanged
  | getUser other =>
    rw [Directory.answer]
    cases d.entries other <;> exact unchanged
  | createUser payload now =>
    rw [Directory.answer]
    cases payload.check runtime with
    | none => exact unchanged
    | some payload =>
      simp only [Option.elim_some]
      split
      · exact unchanged
      split
      · exact unchanged
      · have apart : id ≠ d.issued + 1 := by omega
        refine ⟨?_,?_⟩
        · simp only [Directory.note]
          omega
        · simp only [Directory.note,Directory.assign,Function.update_of_ne apart,missing]
  | updateUser other payload =>
    rw [Directory.answer]
    cases payload.check runtime with
    | none => exact unchanged
    | some payload =>
      cases there : d.entries other with
      | none => exact unchanged
      | some user =>
        simp only [Option.elim_some]
        split
        · exact unchanged
        · have apart : id ≠ user.id := by
            intro same
            rw [(sound.named other user there).1] at same
            rw [same,there] at missing
            exact absurd missing (by simp)
          refine ⟨given,?_⟩
          simp only [Directory.note,Directory.assign,Function.update_of_ne apart,missing]
  | deleteUser other =>
    rw [Directory.answer]
    cases d.entries other with
    | none => exact unchanged
    | some user =>
      refine ⟨given,?_⟩
      simp only [Option.elim_some,Directory.note,Function.update_apply,missing,ite_self]
  | reset clock => exact absurd rfl (stays clock)

section Session

variable {runtime : Runtime} (documented : Documented runtime)
include documented

theorem Refines.reach (before : List (Request × Response)) :
    ∀ {s : Store} {d : Directory} (requests : List Request) (after : List (Request × Response)), Refines runtime s d →
      session runtime s requests = before ++ after →
      ∃ reached rest, Refines runtime reached (d.notes before) ∧ session runtime reached rest = after := by
  induction before with
  | nil => exact fun {s} _ requests _ refines split => ⟨s,requests,refines,split⟩
  | cons entry before ih =>
    intro s d requests after refines split
    cases requests with
    | nil => simp [session] at split
    | cons request rest =>
      rw [session,List.cons_append,List.cons.injEq] at split
      obtain ⟨rfl,split⟩ := split
      exact ih rest after (refines.step documented request).2 split

/-- Every answer is what the answers before it make it. -/
theorem session_answers (clock : Nat → Text) (requests : List Request) (before after : List (Request × Response))
    (request : Request) (response : Response)
    (split : session runtime (seeded runtime clock) requests = before ++ (request,response) :: after) :
    response = (Directory.told clock before).answer runtime request := by
  obtain ⟨reached,rest,refines,now⟩ :=
    (refines_seeded runtime documented clock).reach documented before requests _ split
  cases rest with
  | nil => simp [session] at now
  | cons next rest =>
    rw [session,List.cons.injEq,Prod.mk.injEq] at now
    obtain ⟨⟨rfl,rfl⟩,_⟩ := now
    exact (refines.step documented next).1

end Session

/-- As far as these requests need it. -/
def asciiRuntime : Runtime where
  lower := List.map fun c => if 65 ≤ c ∧ c ≤ 90 then c + 32 else c
  isAlnum := fun c => (48 ≤ c && c ≤ 57) || (65 ≤ c && c ≤ 90) || (97 ≤ c && c ≤ 122)
  emailStr := some
  sha256 := fun value => if value = text "seeded-password" then
    text "4973a46943f786891565000eaeacace0bb272172b8c2aec755dd821f5d8fe354" else []

theorem asciiRuntime_documented : Documented asciiRuntime where
  lower := by
    intro value small
    refine (List.map_congr_left fun c member => ?_).trans (List.map_id value)
    have other : ¬(65 ≤ c ∧ c ≤ 90) := by
      have fits := small c member
      omega
    exact if_neg other
  isAlnum := by
    intro c low high
    simp [asciiRuntime,low,high]

def noon : Nat → Text := fun _ => text "2024-05-01T12:00:00+00:00"

/-- Bob is deleted, and Alice is renamed. -/
def bobLeaves : List Request := [.deleteUser 2,.updateUser 1 { fullName := some (text "Alice E.") },.getUser 2]

theorem session_answers_bobLeaves : noUser 2 = (Directory.told noon
    ((session asciiRuntime (seeded asciiRuntime noon) bobLeaves).take 2)).answer asciiRuntime (.getUser 2) :=
  session_answers asciiRuntime_documented noon bobLeaves _ [] (.getUser 2) (noUser 2) rfl

section Session

variable {runtime : Runtime} (documented : Documented runtime)
include documented

theorem Refines.missing (id : Int) (middle : List (Request × Response)) :
    ∀ {s : Store} {d : Directory} (requests : List Request) (after : List (Request × Response)), Refines runtime s d →
      session runtime s requests = middle ++ after → (∀ entry ∈ middle, ∀ clock, entry.1 ≠ .reset clock) →
      id ≤ d.issued → d.entries id = none → (d.notes middle).entries id = none := by
  induction middle with
  | nil => exact fun _ _ _ _ _ _ missing => missing
  | cons entry middle ih =>
    intro s d requests after refines split stays given missing
    cases requests with
    | nil => simp [session] at split
    | cons request rest =>
      rw [session,List.cons_append,List.cons.injEq] at split
      obtain ⟨rfl,split⟩ := split
      obtain ⟨told,next⟩ := refines.step documented request
      rw [told] at next
      have kept := refines.sound.stays_missing id given missing request (stays _ (.head _))
      have later := ih rest after next split (fun entry member => stays entry (.tail _ member)) kept.1 kept.2
      rwa [← told] at later

/-- At every moment of a session, and for an id from its deletion on until the next reset. -/
theorem session_sound (clock : Nat → Text) (requests : List Request) (before after : List (Request × Response))
    (split : session runtime (seeded runtime clock) requests = before ++ after) :
    (Directory.told clock before).Sound runtime ∧
      ∀ front middle id, before = front ++ (.deleteUser id,.noContent) :: middle →
        (∀ entry ∈ middle, ∀ clock, entry.1 ≠ .reset clock) → (Directory.told clock before).entries id = none := by
  have start := refines_seeded runtime documented clock
  obtain ⟨reached,_,refines,_⟩ := start.reach documented before requests after split
  refine ⟨refines.sound,?_⟩
  rintro front middle id rfl stays
  rw [List.append_assoc,List.cons_append] at split
  obtain ⟨deleting,rest,explained,now⟩ := start.reach documented front requests _ split
  cases rest with
  | nil => simp [session] at now
  | cons request rest =>
    rw [session,List.cons.injEq,Prod.mk.injEq] at now
    obtain ⟨⟨rfl,accepted⟩,now⟩ := now
    obtain ⟨answered,next⟩ := explained.step documented (.deleteUser id)
    rw [accepted] at answered next
    have there : ((Directory.seeded clock).notes front).entries id ≠ none := by
      intro missing
      simp [Directory.answer,missing,noUser] at answered
    obtain ⟨user,found⟩ := Option.ne_none_iff_exists'.mp there
    have given := (explained.sound.named id user found).2.2.1
    have gone := next.missing documented id middle rest after now stays given (by simp [Directory.note])
    simpa [Directory.told,Directory.notes] using gone

end Session

theorem session_sound_bobLeaves : (Directory.told noon
    ((session asciiRuntime (seeded asciiRuntime noon) bobLeaves).take 2)).entries 2 = none := by
  refine (session_sound asciiRuntime_documented noon bobLeaves _
    ((session asciiRuntime (seeded asciiRuntime noon) bobLeaves).drop 2) (List.take_append_drop _ _).symm).2
    [] _ 2 rfl ?_
  intro entry member clock
  rw [List.mem_singleton.mp member]
  simp

end TestForge.SampleService
