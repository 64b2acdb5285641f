import TestForge.Config
import TestForge.Durations
import TestForge.Wrapping

/-! The deadlines of a bounded test: what `runOne` and `awaitBoundedBody` compute from its timeout in 64-bit
nanoseconds of the steady clock, and when the test times out by them. -/
namespace TestForge.Deadlines

open Settings Strings Wrapping

/-! ### Timeouts -/

/-- The timeout of `runOne`: the test's own, else the configured one. -/
def effectiveTimeoutMs (config : Config) (metadataTimeoutMs : Int64) : Int64 :=
  if metadataTimeoutMs > 0 then metadataTimeoutMs else config.execution.defaultTimeoutMs

/-- What `--timeout` sets. -/
def withTimeout (config : Config) (millis : Int64) : Config :=
  { config with execution := { config.execution with defaultTimeoutMs := millis } }

/-- The timeouts that get through: those of a checked configuration, those of the option, those of a test. -/
inductive Accepted : Int64 → Prop
  | config (config : Config) (valid : config.validate = .ok ()) : Accepted config.execution.defaultTimeoutMs
  | option (config : Config) (text : Bytes) (millis : Int64) (parsed : parseDurationMillis text = .millis millis)
      (valid : (withTimeout config millis).validate = .ok ()) : Accepted millis
  | metadata (timeoutMs : Int64) (positive : timeoutMs > 0) : Accepted timeoutMs

/-! ### The clock -/

/-- Milliseconds in the unit of the clock. Overflow of a signed product or sum is undefined; the
machine's instructions wrap. -/
def nanoseconds (timeoutMs : Int64) : Int64 := timeoutMs * 1000000

/-- `SteadyClock::now() + Milliseconds{timeoutMs}` -/
def deadline (now timeoutMs : Int64) : Int64 := now + nanoseconds timeoutMs

/-- What `runOne` gives to the cancellation source of the test; without a timeout there is none. -/
def testDeadline (config : Config) (metadataTimeoutMs now : Int64) : Option Int64 :=
  let timeoutMs := effectiveTimeoutMs config metadataTimeoutMs
  if timeoutMs > 0 then some (deadline now timeoutMs) else none

/-- `CancellationToken::remaining` in milliseconds; the latest instant of the clock stands for no deadline. -/
def remaining (deadline now : Int64) : Int64 :=
  if deadline = Int64.maxValue then Int64.maxValue
  else if deadline ≤ now then 0
  else (deadline - now) / 1000000

/-! ### Waiting for the body -/

/-- One turn of the loop: what the clock shows, and whether the body is done within the slice. -/
structure Poll where
  now : Int64
  ready : Bool
  deriving DecidableEq, Repr

/-- The longest time that one turn waits, in milliseconds. -/
def slice (deadline now : Int64) : Int64 := min 25 ((deadline - now) / 1000000)

inductive Waited where
  | waiting
  | finished
  /-- The deadline has passed after so many turns. -/
  | expired (turns : Nat)
  deriving DecidableEq, Repr

def Waited.afterTurn : Waited → Waited
  | .expired turns => .expired (turns + 1)
  | other => other

/-- The polling loop; a cancelled run is passed on to the test, but does not end the wait. -/
def waitUntil (deadline : Int64) : List Poll → Waited
  | [] => .waiting
  | poll :: rest =>
    if deadline ≤ poll.now then .expired 0
    else if poll.ready then .finished
    else (waitUntil deadline rest).afterTurn

structure BodyOutcome where
  completed : Bool
  deadlineExceeded : Bool
  deriving DecidableEq, Repr

/-- `readyInGrace` tells whether the body ends within the grace period. -/
def awaitBoundedBody (timeoutMs start : Int64) (polls : List Poll) (readyInGrace : Bool) : Option BodyOutcome :=
  match waitUntil (deadline start timeoutMs) polls with
  | .waiting => none
  | .finished => some { completed := true, deadlineExceeded := false }
  | .expired _ => some { completed := readyInGrace, deadlineExceeded := true }

/-! ### Which timeouts get through -/

theorem validate_withTimeout (config : Config) (millis : Int64) (valid : config.validate = .ok ()) :
    (withTimeout config millis).validate = .ok () ↔ 0 ≤ millis.toInt := by
  rw [Config.validate_ok_iff,Config.checks,List.forall_mem_cons,List.forall_mem_cons] at valid ⊢
  obtain ⟨workers,-,others⟩ := valid
  have check : decide ((withTimeout config millis).execution.defaultTimeoutMs < 0) = false ↔ 0 ≤ millis.toInt := by
    rw [decide_eq_false_iff_not,Int64.lt_iff_toInt_lt,Int.not_lt]
    rfl
  exact ⟨fun all => check.mp all.2.1,fun nonneg => ⟨workers,check.mpr nonneg,others⟩⟩

theorem Accepted.nonneg {timeoutMs : Int64} (accepted : Accepted timeoutMs) : 0 ≤ timeoutMs.toInt := by
  cases accepted with
  | config config valid => exact (validate_withTimeout config _ valid).mp valid
  | option config text _ parsed valid => exact parseDurationMillis_nonneg text _ parsed
  | metadata _ positive => exact (Int64.lt_iff_toInt_lt.mp positive).le

theorem accepted_iff (timeoutMs : Int64) : Accepted timeoutMs ↔ 0 ≤ timeoutMs.toInt := by
  refine ⟨Accepted.nonneg,fun nonneg => ?_⟩
  have plain : ({} : Config).validate = .ok () := by decide
  exact .config (withTimeout {} timeoutMs) ((validate_withTimeout {} timeoutMs plain).mpr nonneg)

theorem testDeadline_accepted (config : Config) (valid : config.validate = .ok ()) (metadataTimeoutMs now : Int64) :
    Accepted (effectiveTimeoutMs config metadataTimeoutMs) ∧
      testDeadline config metadataTimeoutMs now =
        if effectiveTimeoutMs config metadataTimeoutMs = 0 then none
        else some (deadline now (effectiveTimeoutMs config metadataTimeoutMs)) := by
  have accepted : Accepted (effectiveTimeoutMs config metadataTimeoutMs) := by
    rw [effectiveTimeoutMs]
    split
    · next positive => exact .metadata _ positive
    · exact .config config valid
  refine ⟨accepted,?_⟩
  have nonneg := accepted.nonneg
  have bounded : effectiveTimeoutMs config metadataTimeoutMs > 0 ↔ ¬effectiveTimeoutMs config metadataTimeoutMs = 0 := by
    rw [gt_iff_lt,Int64.lt_iff_toInt_lt,← Int64.toInt_inj]
    have zero : (0 : Int64).toInt = 0 := rfl
    omega
  simp only [testDeadline,bounded,ite_not]

/-! ### Deadlines without overflow -/

/-- The product and the sum stay within 64 bits. -/
def Fits (now timeoutMs : Int64) : Prop :=
  timeoutMs.toInt * 1000000 < 2^63 ∧ now.toInt + timeoutMs.toInt * 1000000 < 2^63

instance (now timeoutMs : Int64) : Decidable (Fits now timeoutMs) := by
  unfold Fits
  infer_instance

theorem toInt_nanoseconds (timeoutMs : Int64) (nonneg : 0 ≤ timeoutMs.toInt) :
    (nanoseconds timeoutMs).toInt = timeoutMs.toInt * 1000000 ↔ timeoutMs.toInt * 1000000 < 2^63 := by
  have wrapped : (nanoseconds timeoutMs).toInt = wrap (2^63) (timeoutMs.toInt * 1000000) := Int64.toInt_mul _ _
  rw [wrapped,wrap_eq_self_iff (by decide)]
  push_cast
  omega

theorem toInt_deadline (now timeoutMs : Int64) (nonneg : 0 ≤ (nanoseconds timeoutMs).toInt) :
    (deadline now timeoutMs).toInt = now.toInt + (nanoseconds timeoutMs).toInt ↔
      now.toInt + (nanoseconds timeoutMs).toInt < 2^63 := by
  have wrapped : (deadline now timeoutMs).toInt = wrap (2^63) (now.toInt + (nanoseconds timeoutMs).toInt) :=
    Int64.toInt_add _ _
  have low := now.le_toInt
  rw [wrapped,wrap_eq_self_iff (by decide)]
  push_cast
  omega

theorem Fits.toInt_deadline {now timeoutMs : Int64} (fits : Fits now timeoutMs) (nonneg : 0 ≤ timeoutMs.toInt) :
    (deadline now timeoutMs).toInt = now.toInt + timeoutMs.toInt * 1000000 := by
  have product := (toInt_nanoseconds timeoutMs nonneg).mpr fits.1
  have positive : 0 ≤ (nanoseconds timeoutMs).toInt := by omega
  rw [(Deadlines.toInt_deadline now timeoutMs positive).mpr (product ▸ fits.2),product]

theorem Fits.shorter {now timeoutMs shorter : Int64} (fits : Fits now timeoutMs) (less : shorter.toInt ≤ timeoutMs.toInt) :
    Fits now shorter := by
  unfold Fits at fits ⊢
  omega

/-! ### Waiting for a deadline -/

theorem waitUntil_earlier {early late : Int64} (order : early ≤ late) (polls : List Poll) (turns : Nat)
    (expired : waitUntil late polls = .expired turns) : ∃ sooner ≤ turns, waitUntil early polls = .expired sooner := by
  induction polls generalizing turns with
  | nil => cases expired
  | cons poll rest ih =>
    rw [waitUntil] at expired ⊢
    by_cases passed : early ≤ poll.now
    · exact ⟨0,Nat.zero_le _,if_pos passed⟩
    · have pending : ¬late ≤ poll.now := fun reached => passed (Int64.le_trans order reached)
      rw [if_neg pending] at expired
      rw [if_neg passed]
      split at expired
      · cases expired
      · next busy =>
        rw [if_neg busy]
        cases behind : waitUntil late rest with
        | expired before =>
          rw [behind] at expired
          cases expired
          obtain ⟨sooner,less,known⟩ := ih before behind
          exact ⟨sooner + 1,Nat.succ_le_succ less,by rw [known]; rfl⟩
        | waiting => rw [behind] at expired; cases expired
        | finished => rw [behind] at expired; cases expired

theorem waitUntil_passed {deadline : Int64} (polls : List Poll) (turns : Nat)
    (expired : waitUntil deadline polls = .expired turns) : ∃ poll, polls[turns]? = some poll ∧ deadline ≤ poll.now := by
  induction polls generalizing turns with
  | nil => cases expired
  | cons poll rest ih =>
    rw [waitUntil] at expired
    split at expired
    · next passed =>
      cases expired
      exact ⟨poll,rfl,passed⟩
    · split at expired
      · cases expired
      · cases behind : waitUntil deadline rest with
        | expired before =>
          rw [behind] at expired
          cases expired
          exact ih before behind
        | waiting => rw [behind] at expired; cases expired
        | finished => rw [behind] at expired; cases expired

theorem toInt_difference {deadline now : Int64} (order : now.toInt ≤ deadline.toInt)
    (close : deadline.toInt - now.toInt < 2^63) :
    ((deadline - now) / 1000000).toInt = (deadline.toInt - now.toInt) / 1000000 := by
  have wrapped : (deadline - now).toInt = wrap (2^63) (deadline.toInt - now.toInt) := Int64.toInt_sub _ _
  have difference : (deadline - now).toInt = deadline.toInt - now.toInt := by
    rw [wrapped]
    apply wrap_self
    push_cast
    omega
  have unit : (1000000 : Int64).toInt = 1000000 := rfl
  rw [Int64.toInt_div_of_ne_right _ _ (by decide),difference,unit,Int.tdiv_eq_ediv_of_nonneg (by omega)]

theorem toInt_remaining (deadline now : Int64) (close : deadline.toInt - now.toInt < 2^63) :
    (remaining deadline now).toInt =
      if deadline.toInt = 2^63 - 1 then 2^63 - 1 else max 0 ((deadline.toInt - now.toInt) / 1000000) := by
  have last : deadline = Int64.maxValue ↔ deadline.toInt = 2^63 - 1 := by
    rw [← Int64.toInt_inj,Int64.toInt_maxValue]
  rw [remaining]
  by_cases latest : deadline = Int64.maxValue
  · rw [if_pos latest,if_pos (last.mp latest),Int64.toInt_maxValue]
  · rw [if_neg latest,if_neg (mt last.mpr latest)]
    split
    · next passed =>
      have order := Int64.le_iff_toInt_le.mp passed
      have none : (0 : Int64).toInt = 0 := rfl
      omega
    · next pending =>
      have order := mt Int64.le_iff_toInt_le.mpr pending
      rw [toInt_difference (by omega) close]
      omega

/-! ### The law -/

/-- What a timeout is for, at a reading of the clock: neither the product nor the sum overflows, the deadline
lies ahead, who times out has had all of the time, and with a shorter timeout the test would have timed out by
then, its token showing no more time left. -/
structure Safe (now timeoutMs : Int64) : Prop where
  product : (nanoseconds timeoutMs).toInt = timeoutMs.toInt * 1000000
  sum : (deadline now timeoutMs).toInt = now.toInt + (nanoseconds timeoutMs).toInt
  ahead : now < deadline now timeoutMs
  whole : ∀ polls turns, waitUntil (deadline now timeoutMs) polls = .expired turns →
    ∃ poll, polls[turns]? = some poll ∧ now.toInt + timeoutMs.toInt * 1000000 ≤ poll.now.toInt
  longer : ∀ shorter : Int64, 0 < shorter → shorter ≤ timeoutMs → ∀ polls turns,
    waitUntil (deadline now timeoutMs) polls = .expired turns →
      ∃ sooner ≤ turns, waitUntil (deadline now shorter) polls = .expired sooner
  left : ∀ shorter : Int64, 0 < shorter → shorter ≤ timeoutMs → ∀ reading : Int64, now ≤ reading →
    remaining (deadline now shorter) reading ≤ remaining (deadline now timeoutMs) reading

theorem Fits.safe {now timeoutMs : Int64} (fits : Fits now timeoutMs) (positive : 0 < timeoutMs.toInt) :
    Safe now timeoutMs := by
  have exact := fits.toInt_deadline positive.le
  have product := (toInt_nanoseconds timeoutMs positive.le).mpr fits.1
  have order : ∀ shorter : Int64, 0 < shorter → shorter ≤ timeoutMs →
      (deadline now shorter).toInt = now.toInt + shorter.toInt * 1000000 ∧ shorter.toInt ≤ timeoutMs.toInt := by
    intro shorter some less
    have bound := Int64.le_iff_toInt_le.mp less
    exact ⟨(fits.shorter bound).toInt_deadline (Int64.lt_iff_toInt_lt.mp some).le,bound⟩
  refine ⟨product,exact.trans (product ▸ rfl),Int64.lt_iff_toInt_lt.mpr (by omega),?_,?_,?_⟩
  · intro polls turns expired
    obtain ⟨poll,there,passed⟩ := waitUntil_passed polls turns expired
    exact ⟨poll,there,exact ▸ Int64.le_iff_toInt_le.mp passed⟩
  · intro shorter some less polls turns
    obtain ⟨early,bound⟩ := order shorter some less
    exact waitUntil_earlier (Int64.le_iff_toInt_le.mpr (by omega)) polls turns
  · intro shorter some less reading later
    obtain ⟨early,bound⟩ := order shorter some less
    have behind := Int64.le_iff_toInt_le.mp later
    have room := fits.1
    rw [Int64.le_iff_toInt_le,toInt_remaining _ _ (by omega),toInt_remaining _ _ (by omega),early,exact]
    have limit := fits.2
    split <;> split <;> omega

theorem toInt_slice (deadline now : Int64) : (slice deadline now).toInt = min 25 ((deadline - now) / 1000000).toInt := by
  have limit : (25 : Int64).toInt = 25 := rfl
  change (if 25 ≤ (deadline - now) / 1000000 then 25 else (deadline - now) / 1000000).toInt = _
  rw [apply_ite Int64.toInt,min_def,limit]
  simp only [Int64.le_iff_toInt_le,limit]

theorem slice_range {now timeoutMs reading : Int64} (fits : Fits now timeoutMs) (positive : 0 < timeoutMs.toInt)
    (later : now.toInt ≤ reading.toInt) (pending : ¬deadline now timeoutMs ≤ reading) :
    0 ≤ (slice (deadline now timeoutMs) reading).toInt ∧ (slice (deadline now timeoutMs) reading).toInt ≤ 25 := by
  have exact := fits.toInt_deadline positive.le
  have order := mt Int64.le_iff_toInt_le.mpr pending
  have room := fits.1
  have ahead : (deadline now timeoutMs).toInt - reading.toInt < 2^63 := by omega
  have rest := toInt_difference (by omega) ahead
  rw [toInt_slice,rest]
  omega

/-- A timeout that gets through is safe exactly when its nanoseconds, and they behind the reading of the clock,
fit into 64 bits. -/
theorem deadline_safe_iff (now timeoutMs : Int64) (accepted : Accepted timeoutMs) (bounded : timeoutMs ≠ 0) :
    Safe now timeoutMs ↔ Fits now timeoutMs := by
  have nonneg := accepted.nonneg
  have other : timeoutMs.toInt ≠ 0 := fun zero => bounded (Int64.toInt_inj.mp zero)
  constructor
  · intro safe
    have product := (toInt_nanoseconds timeoutMs nonneg).mp safe.product
    have sum := (toInt_deadline now timeoutMs (safe.product ▸ by omega)).mp safe.sum
    exact ⟨product,safe.product ▸ sum⟩
  · intro fits
    exact fits.safe (by omega)

theorem deadline_safe_default : Safe 5000000000 30000 ↔ Fits 5000000000 30000 :=
  deadline_safe_iff 5000000000 30000 (.metadata 30000 (by decide)) (by decide)

/-! ### Long timeouts -/

theorem accepted_text (digits : Json.Digits) (unit : Bytes) (factor : Nat) (letters : ∀ c ∈ unit, isAlpha c = true)
    (known : multiplier (toLower unit) = some factor) (positive : 0 < digitsValue digits.text)
    (small : digitsValue digits.text * factor < 2^50) :
    Accepted (Int64.ofInt (digitsValue digits.text * factor : Nat)) := by
  have parsed := parseDurationMillis_digits digits unit factor letters known positive small
  have plain : ({} : Config).validate = .ok () := by decide
  have nonneg := parseDurationMillis_nonneg _ _ parsed
  exact .option {} _ _ parsed ((validate_withTimeout {} _ plain).mpr nonneg)

/-- A hundred years in nanoseconds. -/
def century : Int := 3155760000000000000

/-- A configuration with the longest timeout. -/
def longest : Config := Config.fromJson (.object [(ascii "execution",.object [
  (ascii "default_timeout_ms",.int 9223372036854775807)])])

/-- The longest configured timeout expires at once, as do 3000000 hours; 30 seconds do not. -/
theorem long_timeouts_expire :
    (longest.validate = .ok () ∧ awaitBoundedBody longest.execution.defaultTimeoutMs 0 [⟨0,false⟩] false =
      some { completed := false, deadlineExceeded := true }) ∧
    (parseDurationMillis (ascii "3000000h") = .millis 10800000000000 ∧
      awaitBoundedBody 10800000000000 0 [⟨0,false⟩] false = some { completed := false, deadlineExceeded := true } ∧
        awaitBoundedBody 30000 0 [⟨0,false⟩] false = none) ∧
    ¬∀ now timeoutMs : Int64, -century ≤ now.toInt → now.toInt ≤ century → Accepted timeoutMs → timeoutMs ≠ 0 →
      Safe now timeoutMs := by
  have hours := parseDurationMillis_digits ⟨ascii "3000000",by decide,List.all_eq_true.mp rfl⟩ (ascii "h") 3600000
    (List.all_eq_true.mp rfl) rfl (by decide) (by decide)
  refine ⟨⟨by decide,by decide⟩,⟨hours,by decide,by decide⟩,fun safe => ?_⟩
  · have product := (safe 0 10800000000000 (by decide) (by decide) (.metadata _ (by decide)) (by decide)).product
    exact absurd product (by decide)

end TestForge.Deadlines
