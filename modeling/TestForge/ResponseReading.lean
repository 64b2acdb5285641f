import TestForge.ChunkGrammar
import TestForge.HttpClient

/-! How the client receives one response: where the head ends among the results of `recv`,
and at which of them the body is settled. -/
namespace TestForge.HttpClient

open Sequence Strings Chunked

/-! ### The head -/

/-- The head is complete with a piece; before it there is not too much without an end. -/
def HeadArrives (pieces : List Bytes) (head first : Bytes) (later : List Bytes) : Prop :=
  ∃ early piece, pieces = early ++ piece :: later ∧ early.flatten.length ≤ maxHeaderBytes ∧
    cutOn headEnd early.flatten = none ∧ cutOn headEnd (early.flatten ++ piece) = some (head,first)

theorem HeadArrives.whole (arrives : HeadArrives pieces head first later) :
    cutOn headEnd pieces.flatten = some (head,first ++ later.flatten) := by
  obtain ⟨early,piece,rfl,_,_,found⟩ := arrives
  simpa using cutOn_append_left _ _ _ _ later.flatten found

theorem readHead_ok (readError : Option Bytes) (pieces : List Bytes) (raw head first : Bytes) (later : List Bytes) :
    readHead readError pieces raw = .ok (head,first,later) →
      cutOn headEnd raw = none → raw.length ≤ maxHeaderBytes →
      ∃ early piece, pieces = early ++ piece :: later ∧ (raw ++ early.flatten).length ≤ maxHeaderBytes ∧
        cutOn headEnd (raw ++ early.flatten) = none ∧
        cutOn headEnd (raw ++ early.flatten ++ piece) = some (head,first) := by
  intro read unfinished small
  induction pieces generalizing raw with
  | nil => simp [readHead] at read
  | cons piece rest ih =>
    rw [readHead] at read
    split at read
    · next found =>
      obtain ⟨rfl,rfl,rfl⟩ := by simpa using read
      exact ⟨[],piece,rfl,by simpa using small,by simpa using unfinished,by simpa using found⟩
    · next absent =>
      split at read
      · cases read
      · obtain ⟨early,last,rfl,fits,none,found⟩ := ih (raw ++ piece) read absent (by omega)
        exact ⟨piece :: early,last,rfl,by simpa using fits,by simpa using none,by simpa using found⟩

theorem readHead_arrives (readError : Option Bytes) (early later : List Bytes) (piece raw head first : Bytes)
    (small : (raw ++ early.flatten).length ≤ maxHeaderBytes) (none : cutOn headEnd (raw ++ early.flatten) = none)
    (found : cutOn headEnd (raw ++ early.flatten ++ piece) = some (head,first)) :
    readHead readError (early ++ piece :: later) raw = .ok (head,first,later) := by
  induction early generalizing raw with
  | nil =>
    rw [List.nil_append,readHead]
    simp only [List.flatten_nil,List.append_nil] at found
    rw [found]
  | cons next early ih =>
    simp only [List.flatten_cons,← List.append_assoc] at small none found
    have absent : cutOn headEnd (raw ++ next) = Option.none := by
      rw [cutOn_eq_none] at none ⊢
      exact fun occurs => none (occurs.trans (List.prefix_append _ _).isInfix)
    have fits : ¬(raw ++ next).length > maxHeaderBytes := by
      rw [List.length_append] at small
      omega
    rw [List.cons_append,readHead,absent]
    simp only [if_neg fits]
    exact ih (raw ++ next) small none found

theorem readHead_iff (readError : Option Bytes) (pieces : List Bytes) (head first : Bytes) (later : List Bytes) :
    readHead readError pieces [] = .ok (head,first,later) ↔ HeadArrives pieces head first later := by
  constructor
  · intro read
    obtain ⟨early,piece,split,rest⟩ := readHead_ok readError pieces [] head first later read (by decide) (by decide)
    exact ⟨early,piece,split,rest⟩
  · rintro ⟨early,piece,rfl,small,none,found⟩
    exact readHead_arrives readError early later piece [] head first small none found

/-- Status line and headers of a head. -/
def Reads (head : Bytes) (statusCode : Int) (statusText : Bytes) (headers : HttpHeaders) : Prop :=
  ∃ statusLine lines, splitLines head = statusLine :: lines ∧
    parseStatusLine statusLine = .ok (statusCode,statusText) ∧ headers = parseHeaderLines lines

/-- The response with its head filled in. -/
def answered (response : HttpResponse) (statusCode : Int) (statusText : Bytes) (headers : HttpHeaders) :
    HttpResponse := { response with statusCode, statusText, headers }

def truncatedFlag : Bytes := ascii "X-TestForge-Truncated"

/-- The response with its body, or without one. -/
def finish (response : HttpResponse) : Body → Option HttpResponse
  | .complete body => some { response with body }
  | .truncated body => some { response with body, headers := response.headers.set truncatedFlag (ascii "true") }
  | .failed message => some (failed response message)
  | .hangs => none

theorem receive_of_head (cap : Nat) (exchange : Exchange) (response : HttpResponse) (head first : Bytes)
    (later : List Bytes) (arrives : HeadArrives exchange.received head first later) (statusCode : Int)
    (statusText : Bytes) (headers : HttpHeaders) (reads : Reads head statusCode statusText headers) :
    receive cap exchange response = if bodyless response.requestMethod statusCode
      then some (answered response statusCode statusText headers)
      else finish (answered response statusCode statusText headers)
        (readBody cap (framing headers) exchange.readError later first) := by
  obtain ⟨statusLine,lines,split,status,rfl⟩ := reads
  simp only [receive,(readHead_iff _ _ _ _ _).mpr arrives,split,status]
  rfl

theorem receive_of_none (cap : Nat) (exchange : Exchange) (response : HttpResponse)
    (none : ∀ head first later, HeadArrives exchange.received head first later →
      ∀ statusCode statusText headers, ¬Reads head statusCode statusText headers) :
    ∃ message, receive cap exchange response = some (failed response message) := by
  rw [receive]
  split
  · exact ⟨_,rfl⟩
  · next head first later read =>
    have arrives := (readHead_iff _ _ _ _ _).mp read
    split
    · exact ⟨_,rfl⟩
    · next statusLine lines split =>
      split
      · exact ⟨_,rfl⟩
      · next statusCode statusText status =>
        exact absurd ⟨statusLine,lines,split,status,rfl⟩ (none head first later arrives statusCode statusText _)

/-! ### The body -/

/-- The client reads on: nothing is decided, and the cap is not exceeded. -/
def Continues (cap : Nat) (framing : Framing) (seen : Bytes) : Prop :=
  bodyOf framing seen = none ∧ seen.length ≤ cap

/-- What the client makes of a buffer with which it does not read on. -/
def settledBody (cap : Nat) (framing : Framing) (seen : Bytes) : Body :=
  (bodyOf framing seen).getD (.truncated (seen.take cap))

/-- What the client makes of the end of the stream. -/
def closedBody (seen : Bytes) : Option Bytes → Body
  | none => .complete seen
  | some message => .failed message

/-- The client reads on at every result of `recv` before the last of these. -/
def ReadsOn (cap : Nat) (framing : Framing) (buffer : Bytes) (early : List Bytes) : Prop :=
  ∀ front back, early = front ++ back → back ≠ [] → Continues cap framing (buffer ++ front.flatten)

theorem readBody_settled (cap : Nat) (framing : Framing) (readError : Option Bytes) (pieces : List Bytes)
    (buffer : Bytes) (settled : ¬Continues cap framing buffer) :
    readBody cap framing readError pieces buffer = settledBody cap framing buffer := by
  rw [readBody.eq_def,settledBody]
  cases decided : bodyOf framing buffer with
  | some body => simp only [decided,Option.getD_some]
  | none =>
    have large : buffer.length > cap := by
      by_contra small
      exact settled ⟨decided,by omega⟩
    simp only [decided,if_pos large,Option.getD_none]

theorem readBody_closed (cap : Nat) (framing : Framing) (readError : Option Bytes) (buffer : Bytes)
    (continues : Continues cap framing buffer) :
    readBody cap framing readError [] buffer = closedBody buffer readError := by
  rw [readBody.eq_def]
  simp only [continues.1,if_neg (show ¬buffer.length > cap by have := continues.2; omega)]
  cases readError <;> rfl

theorem readBody_reads (cap : Nat) (framing : Framing) (readError : Option Bytes) (early rest : List Bytes)
    (buffer : Bytes) (reads : ReadsOn cap framing buffer early) :
    readBody cap framing readError (early ++ rest) buffer =
      readBody cap framing readError rest (buffer ++ early.flatten) := by
  induction early generalizing buffer with
  | nil => simp
  | cons piece early ih =>
    have here := reads [] (piece :: early) rfl (by simp)
    rw [List.flatten_nil,List.append_nil] at here
    rw [List.cons_append,readBody.eq_def]
    simp only [here.1,if_neg (show ¬buffer.length > cap by have := here.2; omega)]
    rw [ih (buffer ++ piece) fun front back whole something => by
      simpa using reads (piece :: front) back (by rw [whole]; rfl) something]
    simp

theorem readBody_stops (cap : Nat) (framing : Framing) (pieces : List Bytes) (buffer : Bytes) :
    ∃ early rest, pieces = early ++ rest ∧ ReadsOn cap framing buffer early ∧
      (¬Continues cap framing (buffer ++ early.flatten) ∨
        rest = [] ∧ Continues cap framing (buffer ++ early.flatten)) := by
  induction pieces generalizing buffer with
  | nil =>
    refine ⟨[],[],rfl,fun front back whole something => ?_,?_⟩
    · exact absurd (List.append_eq_nil_iff.mp whole.symm).2 something
    · by_cases continues : Continues cap framing buffer
      · exact .inr ⟨rfl,by simpa using continues⟩
      · exact .inl (by simpa using continues)
  | cons piece pieces ih =>
    by_cases continues : Continues cap framing buffer
    · obtain ⟨early,rest,rfl,reads,stops⟩ := ih (buffer ++ piece)
      refine ⟨piece :: early,rest,rfl,fun front back whole something => ?_,by simpa using stops⟩
      cases front with
      | nil => simpa using continues
      | cons next front =>
        obtain ⟨rfl,rest'⟩ := List.cons.inj whole
        simpa using reads front back rest' something
    · refine ⟨[],piece :: pieces,rfl,fun front back whole something => ?_,.inl (by simpa using continues)⟩
      exact absurd (List.append_eq_nil_iff.mp whole.symm).2 something

end TestForge.HttpClient
