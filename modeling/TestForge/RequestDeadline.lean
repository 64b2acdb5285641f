import TestForge.HttpClient

/-! Deadlines of a request: every hop of a redirect chain computes its own. Instants are
nanoseconds of the steady clock and timeouts are milliseconds; neither overflows here. -/
namespace TestForge.HttpClient

open Sequence Strings

structure HttpTimeouts where
  connectTimeout : Int := 5000
  requestTimeout : Int := 10000

def nanoseconds (timeout : Int) : Int := timeout * 1000000

/-- `duration_cast<Milliseconds>` -/
def milliseconds (duration : Int) : Int := duration.tdiv 1000000

def effectiveTimeout (limits : HttpTimeouts) (timeout : Int) : Int :=
  if 0 < timeout then timeout else limits.requestTimeout

/-- The clock, read for one address that a hop tries. -/
structure Candidate where
  /-- When the budget of the attempt is computed. -/
  tried : Int
  /-- When `connectWithTimeout` computes its deadline; `none` when the attempt is over before. -/
  pending : Option Int := none

/-- The clock, read during one hop. -/
structure HopClock where
  start : Int
  candidates : List Candidate := []

inductive WaitKind where
  | connect
  | send
  | receive
  deriving DecidableEq, Repr

structure Wait where
  kind : WaitKind
  deadline : Int
  deriving DecidableEq, Repr

def connectBudget (limits : HttpTimeouts) (deadline : Int) (candidate : Candidate) : Int :=
  if deadline ≤ candidate.tried then 0
  else min limits.connectTimeout (milliseconds (deadline - candidate.tried))

/-- Without a budget `connectWithTimeout` returns before it polls. -/
def connectWait (limits : HttpTimeouts) (deadline : Int) (candidate : Candidate) : Option Wait :=
  let budget := connectBudget limits deadline candidate
  if 0 < budget then candidate.pending.map fun now => ⟨.connect,now + nanoseconds budget⟩ else none

/-- What one hop waits for; all its calls of `readSome` share one deadline. -/
def hopWaits (limits : HttpTimeouts) (timeout : Int) (clock : HopClock) (exchange : Exchange) : List Wait :=
  let deadline := clock.start + nanoseconds (effectiveTimeout limits timeout)
  let exchanged : List Wait :=
    if exchange.unreachable.isSome then []
    else if exchange.sendError.isSome then [⟨.send,deadline⟩]
    else [⟨.send,deadline⟩,⟨.receive,deadline⟩]
  clock.candidates.filterMap (connectWait limits deadline) ++ exchanged

/-- The request `perform` continues with behind one hop. -/
def follows (options : HttpClientOptions) (exchange : Exchange) (request : HttpRequest) : Option HttpRequest :=
  let (hop,response) := performOnce options exchange request
  hop.bind fun hop => response.bind (followUp options hop)

/-- The requests of a chain, with the number of their hop. -/
def chain (options : HttpClientOptions) (network : Nat → Exchange) :
    Nat → Nat → HttpRequest → List (Nat × HttpRequest)
  | 0, count, request => [(count,request)]
  | remaining + 1, count, request =>
    match follows options (network count) request with
    | none => [(count,request)]
    | some next => (count,request) :: chain options network remaining (count + 1) next

/-- The hop passes the checks made before the network is used. -/
def dials (options : HttpClientOptions) (request : HttpRequest) : Bool :=
  match parseUrl request.url with
  | none => false
  | some url => options.policy.reject url = [] && !url.isHttps

/-- The waits of a whole send. A follow-up is a copy of the request: its timeout is the same. -/
def waits (options : HttpClientOptions) (limits : HttpTimeouts) (network : Nat → Exchange)
    (clock : Nat → HopClock) (request : HttpRequest) (timeout : Int) : List Wait :=
  (chain options network options.maxRedirects.toNat 0 request).flatMap fun hop =>
    if dials options hop.2 then hopWaits limits timeout (clock hop.1) (network hop.1) else []

end HttpClient

namespace CancellationToken

/-- `none` is `Milliseconds::max()`. -/
def remaining (deadline : Option Int) (now : Int) : Option Int :=
  deadline.map fun deadline => if deadline ≤ now then 0 else HttpClient.milliseconds (deadline - now)

end CancellationToken

namespace ApiClient

open HttpClient

/-- The timeout of the request that is issued; `none` when `throwIfCancelled` throws. -/
def send (cancelled : Bool) (remaining : Option Int) (timeout : Int) : Option Int :=
  if cancelled then none
  else match remaining with
    | none => some timeout
    | some remaining =>
      if 0 < remaining ∧ (timeout = 0 ∨ remaining < timeout) then some remaining else some timeout

end ApiClient

namespace HttpClient

theorem perform_chain_hops (options : HttpClientOptions) (network : Nat → Exchange) (remaining : Nat) :
    ∀ (count : Nat) (request : HttpRequest), (perform options network remaining count request).1 =
      (chain options network remaining count request).flatMap fun hop =>
        (performOnce options (network hop.1) hop.2).1.toList := by
  induction remaining with
  | zero =>
    intro count request
    simp [perform,chain]
  | succ remaining ih =>
    intro count request
    rw [perform,chain,follows]
    cases next : (performOnce options (network count) request).1.bind fun hop =>
        (performOnce options (network count) request).2.bind (followUp options hop) with
    | none => simp [next]
    | some next' => simp [next,ih]

/-- What the budget of an attempt leaves unused of the time until the deadline of its hop. -/
def spare (limits : HttpTimeouts) (left : Int) : Int :=
  left - nanoseconds (min limits.connectTimeout (milliseconds left))

/-- Every hop that connects starts with the send itself, and a connect that waits makes up
for the time since then out of what its budget leaves unused. -/
structure Punctual (options : HttpClientOptions) (limits : HttpTimeouts) (network : Nat → Exchange)
    (clock : Nat → HopClock) (request : HttpRequest) (timeout : Int) : Prop where
  connected : ∀ hop ∈ chain options network options.maxRedirects.toNat 0 request, dials options hop.2 = true →
    (network hop.1).unreachable = none → (clock hop.1).start ≤ (clock 0).start
  connecting : ∀ hop ∈ chain options network options.maxRedirects.toNat 0 request, dials options hop.2 = true →
    ∀ candidate ∈ (clock hop.1).candidates, ∀ now ∈ candidate.pending,
      let left := (clock hop.1).start + nanoseconds (effectiveTimeout limits timeout) - candidate.tried
      0 < limits.connectTimeout → 0 < milliseconds left →
        (clock hop.1).start - (clock 0).start + (now - candidate.tried) ≤ spare limits left

/-- The whole chain stays within the deadline of the send. -/
def OneDeadline (options : HttpClientOptions) (limits : HttpTimeouts) (network : Nat → Exchange)
    (clock : Nat → HopClock) (request : HttpRequest) (timeout : Int) : Prop :=
  ∀ wait ∈ waits options limits network clock request timeout,
    wait.deadline ≤ (clock 0).start + nanoseconds (effectiveTimeout limits timeout)

/-- No request is issued for longer than the rest of the budget. -/
def WithinBudget (limits : HttpTimeouts) (cancelled : Bool) (remaining : Option Int) (timeout : Int) : Prop :=
  ∀ budget ∈ remaining, ∀ issued ∈ ApiClient.send cancelled remaining timeout,
    effectiveTimeout limits issued ≤ budget

theorem milliseconds_nonpos (duration : Int) (past : duration ≤ 0) : milliseconds duration ≤ 0 := by
  have sign : (-duration).tdiv 1000000 = -(duration.tdiv 1000000) := Int.neg_tdiv ..
  have := Int.tdiv_nonneg (a := -duration) (b := 1000000) (by omega) (by omega)
  rw [milliseconds]
  omega

theorem milliseconds_pos (duration : Int) (positive : 0 < milliseconds duration) : 0 < duration := by
  by_contra past
  have := milliseconds_nonpos duration (not_lt.mp past)
  omega

theorem milliseconds_pos_iff (duration : Int) : 0 < milliseconds duration ↔ nanoseconds 1 ≤ duration := by
  constructor
  · intro positive
    have ahead := milliseconds_pos duration positive
    rw [milliseconds,Int.tdiv_eq_ediv_of_nonneg ahead.le] at positive
    rw [nanoseconds]
    omega
  · intro whole
    rw [nanoseconds] at whole
    rw [milliseconds,Int.tdiv_eq_ediv_of_nonneg (by omega)]
    omega

theorem remaining_some (expiry now : Int) :
    CancellationToken.remaining (some expiry) now = some (max 0 (milliseconds (expiry - now))) := by
  rw [CancellationToken.remaining,Option.map_some]
  split
  next expired => rw [max_eq_left (milliseconds_nonpos _ (by omega))]
  next ahead =>
    have left : 0 ≤ milliseconds (expiry - now) := Int.tdiv_nonneg (by omega) (by omega)
    rw [max_eq_right left]

theorem connectBudget_pos_iff (limits : HttpTimeouts) (deadline : Int) (candidate : Candidate) :
    0 < connectBudget limits deadline candidate ↔
      0 < limits.connectTimeout ∧ 0 < milliseconds (deadline - candidate.tried) := by
  rw [connectBudget]
  split
  next expired =>
    have spent (positive : 0 < milliseconds (deadline - candidate.tried)) : False := by
      have := milliseconds_pos _ positive
      omega
    simp only [lt_self_iff_false,false_iff,not_and]
    exact fun _ => spent
  next => exact lt_min_iff

theorem connectBudget_left (limits : HttpTimeouts) (deadline : Int) (candidate : Candidate)
    (left : 0 < milliseconds (deadline - candidate.tried)) :
    connectBudget limits deadline candidate =
      min limits.connectTimeout (milliseconds (deadline - candidate.tried)) := by
  have := milliseconds_pos _ left
  rw [connectBudget,if_neg (by omega)]

theorem mem_hopWaits (limits : HttpTimeouts) (timeout : Int) (clock : HopClock) (exchange : Exchange) (wait : Wait) :
    wait ∈ hopWaits limits timeout clock exchange ↔
      (∃ candidate ∈ clock.candidates,
        connectWait limits (clock.start + nanoseconds (effectiveTimeout limits timeout)) candidate = some wait) ∨
      (exchange.unreachable = none ∧ wait.deadline = clock.start + nanoseconds (effectiveTimeout limits timeout) ∧
        (wait.kind = .send ∨ (wait.kind = .receive ∧ exchange.sendError = none))) := by
  obtain ⟨kind,deadline⟩ := wait
  simp only [hopWaits,List.mem_append,List.mem_filterMap]
  refine or_congr_right ?_
  cases unreachable : exchange.unreachable <;> cases sendError : exchange.sendError <;> simp
  · tauto
  · tauto

theorem hopWaits_within_iff (limits : HttpTimeouts) (timeout origin : Int) (clock : HopClock) (exchange : Exchange) :
    (∀ wait ∈ hopWaits limits timeout clock exchange,
      wait.deadline ≤ origin + nanoseconds (effectiveTimeout limits timeout)) ↔
    (exchange.unreachable = none → clock.start ≤ origin) ∧
    ∀ candidate ∈ clock.candidates, ∀ now ∈ candidate.pending,
      let left := clock.start + nanoseconds (effectiveTimeout limits timeout) - candidate.tried
      0 < limits.connectTimeout → 0 < milliseconds left →
        clock.start - origin + (now - candidate.tried) ≤ spare limits left := by
  have early (candidate : Candidate) (now : Int)
      (open_ : 0 < milliseconds (clock.start + nanoseconds (effectiveTimeout limits timeout) - candidate.tried)) :
      now + nanoseconds (connectBudget limits (clock.start + nanoseconds (effectiveTimeout limits timeout)) candidate) ≤
          origin + nanoseconds (effectiveTimeout limits timeout) ↔
        clock.start - origin + (now - candidate.tried) ≤
          spare limits (clock.start + nanoseconds (effectiveTimeout limits timeout) - candidate.tried) := by
    rw [connectBudget_left limits _ _ open_,spare]
    omega
  constructor
  · intro within
    constructor
    · intro reached
      have := within ⟨.send,_⟩ ((mem_hopWaits ..).mpr (.inr ⟨reached,rfl,.inl rfl⟩))
      simpa using this
    · intro candidate member now pending left positive open_
      refine (early candidate now open_).mp (within ⟨.connect,_⟩ ((mem_hopWaits ..).mpr (.inl ⟨candidate,member,?_⟩)))
      rw [connectWait,if_pos ((connectBudget_pos_iff ..).mpr ⟨positive,open_⟩),Option.mem_def.mp pending]
      rfl
  · rintro ⟨prompt,connects⟩ wait member
    rcases (mem_hopWaits ..).mp member with ⟨candidate,tried,waits⟩ | ⟨reached,deadline,-⟩
    · rw [connectWait] at waits
      split at waits
      next budget =>
        obtain ⟨now,pending,rfl⟩ := Option.map_eq_some_iff.mp waits
        obtain ⟨positive,open_⟩ := (connectBudget_pos_iff ..).mp budget
        exact (early candidate now open_).mpr (connects candidate tried now pending positive open_)
      next => cases waits
    · have := prompt reached
      omega

theorem oneDeadline_iff (options : HttpClientOptions) (limits : HttpTimeouts) (network : Nat → Exchange)
    (clock : Nat → HopClock) (request : HttpRequest) (timeout : Int) :
    OneDeadline options limits network clock request timeout ↔
      Punctual options limits network clock request timeout := by
  have perHop (hop : Nat × HttpRequest) (dialled : dials options hop.2 = true) :=
    hopWaits_within_iff limits timeout (clock 0).start (clock hop.1) (network hop.1)
  constructor
  · intro within
    have waited (hop : Nat × HttpRequest) (member : hop ∈ chain options network options.maxRedirects.toNat 0 request)
        (dialled : dials options hop.2 = true) := (perHop hop dialled).mp fun wait here =>
      within wait (List.mem_flatMap.mpr ⟨hop,member,by rwa [if_pos dialled]⟩)
    exact ⟨fun hop member dialled => (waited hop member dialled).1,
      fun hop member dialled => (waited hop member dialled).2⟩
  · intro punctual wait member
    obtain ⟨hop,inside,here⟩ := List.mem_flatMap.mp member
    split at here
    next dialled =>
      exact (perHop hop dialled).mpr
        ⟨punctual.connected hop inside dialled,punctual.connecting hop inside dialled⟩ wait here
    next => cases here

theorem withinBudget_iff (limits : HttpTimeouts) (cancelled : Bool) (remaining : Option Int) (timeout : Int) :
    WithinBudget limits cancelled remaining timeout ↔ cancelled = true ∨ ∀ budget ∈ remaining,
      (0 < budget ∧ 0 ≤ timeout) ∨ effectiveTimeout limits timeout ≤ budget := by
  cases cancelled <;> cases remaining <;> simp only [WithinBudget,ApiClient.send] <;> try simp
  rename_i budget
  by_cases clamped : 0 < budget ∧ (timeout = 0 ∨ budget < timeout)
  · simp [clamped,effectiveTimeout]
    omega
  · simp [clamped]
    intro positive sign
    rw [effectiveTimeout,if_pos (by omega)]
    omega

/-- When a chain of redirects keeps one deadline, and a test request the rest of its budget. -/
theorem deadlines_iff (options : HttpClientOptions) (limits : HttpTimeouts) (network : Nat → Exchange)
    (clock : Nat → HopClock) (request : HttpRequest) (timeout : Int) (cancelled : Bool) (deadline : Option Int)
    (now : Int) :
    (OneDeadline options limits network clock request timeout ↔
      Punctual options limits network clock request timeout) ∧
    (WithinBudget limits cancelled (CancellationToken.remaining deadline now) timeout ↔
      cancelled = true ∨ ∀ expiry ∈ deadline,
        (now + nanoseconds 1 ≤ expiry ∧ 0 ≤ timeout) ∨
          effectiveTimeout limits timeout ≤ max 0 (milliseconds (expiry - now))) := by
  refine ⟨oneDeadline_iff ..,(withinBudget_iff ..).trans (or_congr_right ?_)⟩
  cases deadline with
  | none => simp [CancellationToken.remaining]
  | some expiry =>
    have whole : nanoseconds 1 ≤ expiry - now ↔ now + nanoseconds 1 ≤ expiry := by omega
    simp [remaining_some,milliseconds_pos_iff,whole]

/-- A redirect that takes a second to arrive. -/
def slowRedirect : Nat → Exchange
  | 0 => { received := [ascii "HTTP/1.1 302 Found\r\nLocation: /next\r\n\r\n"] }
  | _ => { received := [ascii "HTTP/1.1 200 OK\r\n\r\n"] }

def oneSecondLater (hop : Nat) : HopClock := { start := hop * nanoseconds 1000 }

theorem redirect_extends_deadline :
    ¬OneDeadline {} {} slowRedirect oneSecondLater { url := ascii "http://home/" } 0 ∧
    ¬WithinBudget {} false (CancellationToken.remaining (some 0) 0) 0 := by
  constructor
  · intro within
    have late : ∃ wait ∈ waits {} {} slowRedirect oneSecondLater { url := ascii "http://home/" } 0,
        nanoseconds 10000 < wait.deadline := by decide +kernel
    obtain ⟨wait,member,late⟩ := late
    exact absurd (within wait member) (not_le.mpr late)
  · intro within
    exact absurd (within 0 rfl 0 rfl) (by decide)

end HttpClient
end TestForge
