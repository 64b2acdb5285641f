import TestForge.ResponseReading

/-! Whether a response that looks complete is complete. The client takes the end of the stream
for the end of the body, whatever framing the server announced. -/
namespace TestForge.HttpClient

open Sequence Strings Chunked

/-- The body is the whole of what the server meant to send as one. -/
def Whole (framing : Framing) (behind body : Bytes) : Prop :=
  match framing with
  | .chunked => Terminated behind body
  | .length bytes => body <+: behind ∧ body.length = bytes
  | .untilClose => body = behind

/-- A response that is no error and not marked as truncated has its whole body. -/
def LooksRight (cap : Nat) (exchange : Exchange) (request : HttpRequest) : Prop :=
  ∀ response, receive cap exchange { requestMethod := request.method, requestUrl := request.url } = some response →
    response.transportError = false → response.headers.contains truncatedFlag = false →
    ¬bodyless request.method response.statusCode →
    ∃ head behind, cutOn headEnd exchange.received.flatten = some (head,behind) ∧
      Whole (framing response.headers) behind response.body

/-- All that the client may read behind the head: it never goes on with a buffer that is longer
than the cap. -/
def reached (cap : Nat) (first : Bytes) : List Bytes → Bytes
  | [] => first
  | piece :: later => if cap < first.length then first else reached cap (first ++ piece) later

/-- No number wraps in what the client may read of a chunked body. -/
def ExchangeFits (cap : Nat) (exchange : Exchange) (request : HttpRequest) : Prop :=
  ∀ head first later statusCode statusText headers, HeadArrives exchange.received head first later →
    Reads head statusCode statusText headers → ¬bodyless request.method statusCode →
    headers.contains truncatedFlag = false → framing headers = .chunked → NoWrap (reached cap first later)

/-- The server does not close in the middle of a body that is within the cap. -/
def Delivered (cap : Nat) (readError : Option Bytes) (framing : Framing) (first : Bytes) (later : List Bytes) : Prop :=
  let behind := first ++ later.flatten
  match framing with
  | .chunked => (∃ out, Terminated behind out) ∨ (∃ out, Ends behind .malformed out) ∨ cap < behind.length ∨
      readError ≠ none
  | .length bytes => bytes ≤ behind.length ∨ cap < behind.length ∨ readError ≠ none
  | .untilClose => True

/-! ### What is decided by a buffer -/

theorem bodyOf_chunked_complete (seen body : Bytes) :
    bodyOf .chunked seen = some (.complete body) ↔ decodeChunked seen = some ⟨true,true,body⟩ := by
  rw [bodyOf]
  cases decoded : decodeChunked seen with
  | none => simp
  | some result =>
    obtain ⟨wellFormed,complete,out⟩ := result
    cases wellFormed <;> cases complete <;> simp

/-- What a buffer of chunks decides. -/
def stoppedBody (out : Bytes) : Stop → Option Body
  | .unfinished => none
  | .malformed => some (.failed (ascii "malformed chunked response body"))
  | .terminated => some (.complete out)

theorem bodyOf_chunked (seen : Bytes) (fits : NoWrap seen) (stop : Stop) (out : Bytes)
    (ends : Ends seen stop out) : bodyOf .chunked seen = stoppedBody out stop := by
  rw [bodyOf,decodeChunked_eq seen fits stop out ends]
  cases stop <;> rfl

theorem bodyOf_length_none (bytes : Nat) (seen : Bytes) :
    bodyOf (.length bytes) seen = none ↔ seen.length < bytes := by
  rw [bodyOf]
  split <;> simp <;> omega

/-! ### What is read -/

theorem reached_first (cap : Nat) (first : Bytes) (later : List Bytes) : first <+: reached cap first later := by
  induction later generalizing first with
  | nil => exact List.prefix_refl first
  | cons piece later ih =>
    rw [reached]
    split
    · exact List.prefix_refl first
    · exact (List.prefix_append first piece).trans (ih (first ++ piece))

theorem reached_of_readsOn (cap : Nat) (framing : Framing) (early rest : List Bytes) (first : Bytes)
    (reads : ReadsOn cap framing first early) : first ++ early.flatten <+: reached cap first (early ++ rest) := by
  induction early generalizing first with
  | nil =>
    rw [List.flatten_nil,List.append_nil]
    exact reached_first cap first rest
  | cons piece early ih =>
    have continues : Continues cap framing (first ++ ([] : List Bytes).flatten) := reads [] _ rfl (by simp)
    have small : ¬cap < first.length := by simpa using continues.2
    have later : ReadsOn cap framing (first ++ piece) early := by
      intro front back split something
      simpa using reads (piece :: front) back (by rw [split,List.cons_append]) something
    rw [List.cons_append,reached,if_neg small,List.flatten_cons,← List.append_assoc]
    exact ih (first ++ piece) later

theorem reached_of_within (cap : Nat) (first : Bytes) (later : List Bytes)
    (within : (first ++ later.flatten).length ≤ cap) : reached cap first later = first ++ later.flatten := by
  induction later generalizing first with
  | nil => simp [reached]
  | cons piece later ih =>
    have small : ¬cap < first.length := by
      rw [List.length_append] at within
      omega
    rw [List.flatten_cons,← List.append_assoc] at within ⊢
    rw [reached,if_neg small,ih (first ++ piece) within]

/-! ### When the body is whole -/

/-- While nothing in the stream settles the body and the cap is not exceeded, the end of the
stream is taken for its end. -/
theorem readBody_open (cap : Nat) (framing : Framing) (later : List Bytes) (first : Bytes)
    (small : (first ++ later.flatten).length ≤ cap)
    (undecided : ∀ seen, seen <+: first ++ later.flatten → bodyOf framing seen = none) :
    readBody cap framing none later first = .complete (first ++ later.flatten) := by
  have continues (front back : List Bytes) (whole : later = front ++ back) :
      Continues cap framing (first ++ front.flatten) := by
    have part : first ++ front.flatten <+: first ++ later.flatten := ⟨back.flatten,by simp [whole]⟩
    exact ⟨undecided _ part,part.length_le.trans small⟩
  have reads := readBody_reads cap framing none later [] first fun front back whole _ => continues front back whole
  rw [List.append_nil] at reads
  rw [reads]
  exact readBody_closed cap framing none _ (continues later [] (by simp))

/-- A body the client takes for complete comes from a buffer that is, or from the end of the
stream. -/
theorem readBody_complete (cap : Nat) (framing : Framing) (readError : Option Bytes) (later : List Bytes)
    (first body : Bytes) (complete : readBody cap framing readError later first = .complete body) :
    ∃ early rest, later = early ++ rest ∧ ReadsOn cap framing first early ∧
      (bodyOf framing (first ++ early.flatten) = some (.complete body) ∨
        rest = [] ∧ Continues cap framing (first ++ early.flatten) ∧ readError = none ∧
          body = first ++ early.flatten) := by
  obtain ⟨early,rest,rfl,reads,stops⟩ := readBody_stops cap framing later first
  rw [readBody_reads cap framing readError early rest first reads] at complete
  refine ⟨early,rest,rfl,reads,?_⟩
  rcases stops with settled | ⟨rfl,continues⟩
  · rw [readBody_settled cap framing readError rest _ settled,settledBody] at complete
    cases decided : bodyOf framing (first ++ early.flatten) with
    | none => simp [decided] at complete
    | some result => exact .inl (by rw [← complete,decided,Option.getD_some])
  · rw [readBody_closed cap framing readError _ continues] at complete
    cases readError with
    | none => exact .inr ⟨rfl,continues,rfl,(Body.complete.inj complete).symm⟩
    | some message => cases complete

section

variable (cap : Nat) (readError : Option Bytes) (first : Bytes) (later : List Bytes)

theorem flatten_part {early rest : List Bytes} (split : later = early ++ rest) :
    first ++ later.flatten = first ++ early.flatten ++ rest.flatten := by
  simp [split]

theorem whole_untilClose (body : Bytes) (complete : readBody cap .untilClose readError later first = .complete body) :
    body = first ++ later.flatten := by
  obtain ⟨early,rest,split,_,decided | ⟨rfl,_,_,rfl⟩⟩ := readBody_complete _ _ _ _ _ _ complete
  · cases decided
  · simp [split]

theorem whole_length_iff (bytes : Nat) :
    (∀ body, readBody cap (.length bytes) readError later first = .complete body →
      body <+: first ++ later.flatten ∧ body.length = bytes) ↔
    bytes ≤ (first ++ later.flatten).length ∨ cap < (first ++ later.flatten).length ∨ readError ≠ none := by
  constructor
  · intro whole
    by_contra closed
    simp only [not_or,not_le,not_lt,ne_eq,not_not] at closed
    obtain ⟨short,within,rfl⟩ := closed
    have taken := readBody_open cap (.length bytes) later first within fun seen part =>
      (bodyOf_length_none bytes seen).mpr (part.length_le.trans_lt short)
    exact absurd (whole _ taken).2 (by omega)
  · intro delivered body complete
    obtain ⟨early,rest,split,_,decided | ⟨rfl,continues,rfl,rfl⟩⟩ := readBody_complete _ _ _ _ _ _ complete
    · rw [bodyOf] at decided
      split at decided
      · next enough =>
        obtain rfl := Body.complete.inj (Option.some.inj decided)
        rw [flatten_part first later split]
        exact ⟨(List.take_prefix _ _).trans (List.prefix_append _ _),by simpa using enough⟩
      · cases decided
    · rw [flatten_part first later split,List.flatten_nil,List.append_nil] at delivered
      have missing := (bodyOf_length_none bytes _).mp continues.1
      have within := continues.2
      rcases delivered with enough | large | error
      · omega
      · omega
      · exact absurd rfl error

/-- Where no number wraps, the decoder follows the chunks. -/
theorem whole_chunked_iff (fits : NoWrap (reached cap first later)) :
    (∀ body, readBody cap .chunked readError later first = .complete body →
      Terminated (first ++ later.flatten) body) ↔
    (∃ out, Terminated (first ++ later.flatten) out) ∨ (∃ out, Ends (first ++ later.flatten) .malformed out) ∨
      cap < (first ++ later.flatten).length ∨ readError ≠ none := by
  constructor
  · intro whole
    by_contra closed
    simp only [not_or,not_exists,not_lt,ne_eq,not_not] at closed
    obtain ⟨unterminated,wellFormed,within,rfl⟩ := closed
    rw [reached_of_within cap first later within] at fits
    have taken := readBody_open cap .chunked later first within fun seen part => by
      have inside := fits.part part
      obtain ⟨more,text⟩ := part
      rw [← text] at unterminated wellFormed
      obtain ⟨stop,out,ends,_⟩ := decodeChunked_ends seen inside
      rw [bodyOf_chunked seen inside stop out ends]
      cases stop with
      | unfinished => rfl
      | malformed => exact absurd (ends.append (by decide) more) (wellFormed out)
      | terminated => exact absurd (ends.append (by decide) more) (unterminated out)
    exact unterminated _ (whole _ taken)
  · intro delivered body complete
    obtain ⟨early,rest,split,reads,stops⟩ := readBody_complete _ _ _ _ _ _ complete
    have inside : NoWrap (first ++ early.flatten) :=
      fits.part (split ▸ reached_of_readsOn cap .chunked early rest first reads)
    rw [flatten_part first later split] at delivered ⊢
    obtain ⟨stop,out,ends,decoded⟩ := decodeChunked_ends _ inside
    rcases stops with decided | ⟨rfl,continues,rfl,rfl⟩
    · rw [bodyOf_chunked_complete,decoded] at decided
      cases stop with
      | unfinished => cases decided
      | malformed => cases decided
      | terminated =>
        obtain rfl := (Decoded.mk.inj (Option.some.inj decided)).2.2
        exact ends.append (by decide) _
    · have undecided := continues.1
      rw [bodyOf_chunked _ inside stop out ends] at undecided
      rw [List.flatten_nil,List.append_nil] at delivered
      rcases delivered with ⟨other,terminated⟩ | ⟨other,malformed⟩ | large | error
      · obtain ⟨rfl,_⟩ := ends.unique terminated
        cases undecided
      · obtain ⟨rfl,_⟩ := ends.unique malformed
        cases undecided
      · exact absurd continues.2 (by omega)
      · exact absurd rfl error

theorem whole_iff_delivered (framing : Framing) (fits : framing = .chunked → NoWrap (reached cap first later)) :
    (∀ body, readBody cap framing readError later first = .complete body →
      Whole framing (first ++ later.flatten) body) ↔ Delivered cap readError framing first later := by
  cases framing with
  | untilClose => exact iff_of_true (whole_untilClose cap readError first later) trivial
  | length bytes => exact whole_length_iff cap readError first later bytes
  | chunked => exact whole_chunked_iff cap readError first later (fits rfl)

end

theorem finish_complete (response result : HttpResponse) (body : Body) (finished : finish response body = some result)
    (fine : result.transportError = false) (unmarked : result.headers.contains truncatedFlag = false) :
    ∃ bytes, body = .complete bytes ∧ result = { response with body := bytes } := by
  cases body with
  | complete bytes => exact ⟨bytes,rfl,(Option.some.inj finished).symm⟩
  | truncated bytes =>
    obtain rfl := Option.some.inj finished
    have marked := (HttpHeaders.contains_set response.headers truncatedFlag (ascii "true") truncatedFlag).mpr (.inr rfl)
    rw [marked] at unmarked
    cases unmarked
  | failed message =>
    obtain rfl := Option.some.inj finished
    cases fine
  | hangs => cases finished

/-- A terminated text has no room for a number that wraps. -/
theorem noWrap_of_terminated (text out : Bytes) (small : text.length < 2^63) (terminated : Terminated text out) :
    NoWrap text := by
  obtain ⟨last,chunks,stops⟩ := terminated
  suffices inside : ∀ out left line rest size, Chunks text out left → Line left line rest →
      announced line = some size → line.length + 2 + size ≤ left.length by
    intro out left line rest size others first announces
    have bound := inside out left line rest size others first announces
    have suffix := others.suffix.length_le
    simp only [sizeLimit]
    omega
  clear small
  induction chunks with
  | nil text =>
    intro out left line rest size others first announces
    cases others with
    | nil =>
      obtain ⟨_,_,only,zero⟩ := stops
      obtain ⟨rfl,rfl⟩ := first.unique only
      obtain rfl := Option.some.inj (announces.symm.trans zero)
      have total := congrArg List.length first.whole
      simp only [List.length_append,crlf,List.length_cons,List.length_nil] at total
      omega
    | chunk one size something two _ => exact (stops.no_chunk one size something two).elim
  | chunk one length something two _ ih =>
    intro out left line rest size others first announces
    cases others with
    | nil =>
      obtain ⟨rfl,rfl⟩ := one.unique first
      obtain rfl := Option.some.inj (length.symm.trans announces)
      have total := congrArg List.length first.whole
      simp only [List.length_append,crlf,List.length_cons,List.length_nil] at total
      omega
    | chunk one' length' _ two' others' =>
      obtain ⟨rfl,rfl⟩ := chunk_unique one length two one' length' two'
      exact ih stops _ _ _ _ _ others' first announces

def fullHead : Bytes := ascii "HTTP/1.1 200 OK\r\nTransfer-Encoding: chunked"
def fullChunks : Bytes := ascii "2\r\nfu\r\n2\r\nll\r\n0\r\n\r\n"

theorem fullChunks_terminated : Terminated fullChunks (ascii "full") := by
  have one : Line fullChunks (ascii "2") (ascii "fu\r\n2\r\nll\r\n0\r\n\r\n") := (line_iff _ _ _).mpr (by decide)
  have two : Line (ascii "2\r\nll\r\n0\r\n\r\n") (ascii "2") (ascii "ll\r\n0\r\n\r\n") := (line_iff _ _ _).mpr (by decide)
  have last : Line (ascii "0\r\n\r\n") (ascii "0") crlf := (line_iff _ _ _).mpr (by decide)
  have ends : crlf.length = 2 := by decide
  have later : Chunks (ascii "2\r\nll\r\n0\r\n\r\n") (ascii "ll" ++ []) (ascii "0\r\n\r\n") :=
    .chunk two (by decide) (by decide) ends (.nil _)
  have chunks : Chunks fullChunks (ascii "fu" ++ (ascii "ll" ++ [])) (ascii "0\r\n\r\n") :=
    .chunk one (by decide) (by decide) ends later
  exact ⟨_,chunks,ascii "0",crlf,last,by decide⟩

/-- Two chunks in two pieces, the first of which is cut. -/
def fullAnswer : Exchange where
  received := [fullHead ++ headEnd ++ ascii "2\r\nfu",ascii "\r\n2\r\nll\r\n0\r\n\r\n"]

theorem fullAnswer_reads (arrives : HeadArrives fullAnswer.received head first later)
    (reads : Reads head statusCode statusText headers) :
    first ++ later.flatten = fullChunks ∧ framing headers = .chunked := by
  have cuts : cutOn headEnd fullAnswer.received.flatten = some (fullHead,fullChunks) := by decide
  rw [arrives.whole,Option.some.injEq,Prod.mk.injEq] at cuts
  obtain ⟨rfl,behind⟩ := cuts
  obtain ⟨statusLine,lines,split,_,rfl⟩ := reads
  have parts : splitLines fullHead = [ascii "HTTP/1.1 200 OK",ascii "Transfer-Encoding: chunked"] := by decide
  obtain ⟨rfl,rfl⟩ := List.cons.inj (split.symm.trans parts)
  exact ⟨behind,by decide⟩

def halfAnswer : Exchange where
  received := [ascii "HTTP/1.1 200 OK\r\nContent-Length: 10\r\n\r\nhalf"]

def halfResponse : HttpResponse where
  requestMethod := ascii "GET"
  statusCode := 200
  statusText := ascii "OK"
  headers := ⟨[(ascii "Content-Length",ascii "10")]⟩
  body := ascii "half"

end TestForge.HttpClient
