import TestForge.HeadGrammar
import TestForge.IntegerText
import TestForge.ResponseSegments
import TestForge.ServerConnection

/-! What the client makes of the bytes the server answers with. The server always announces its
body and closes; the client gives back the handler's response, whatever the pieces, as long as
no piece of the body can carry it over the cap. -/
namespace TestForge

open Sequence Strings Chunked HttpClient HttpServer Segmentation

/-! ### Plain header fields -/

/-- A header that is read back as it was written. -/
structure PlainField (item : Bytes × Bytes) : Prop where
  nameLine : 13 ∉ item.1 ∧ 10 ∉ item.1
  nameColon : 58 ∉ item.1
  nameTrimmed : trim item.1 = item.1
  valueLine : 13 ∉ item.2 ∧ 10 ∉ item.2
  valueTrimmed : trim item.2 = item.2

instance (item : Bytes × Bytes) : Decidable (PlainField item) :=
  decidable_of_iff ((13 ∉ item.1 ∧ 10 ∉ item.1) ∧ 58 ∉ item.1 ∧ trim item.1 = item.1 ∧
      (13 ∉ item.2 ∧ 10 ∉ item.2) ∧ trim item.2 = item.2)
    ⟨fun ⟨nameLine,nameColon,nameTrimmed,valueLine,valueTrimmed⟩ =>
      ⟨nameLine,nameColon,nameTrimmed,valueLine,valueTrimmed⟩,
    fun plain => ⟨plain.nameLine,plain.nameColon,plain.nameTrimmed,plain.valueLine,plain.valueTrimmed⟩⟩

def HttpHeaders.Plain (headers : HttpHeaders) : Prop := ∀ item ∈ headers.items, PlainField item

instance (headers : HttpHeaders) : Decidable headers.Plain := inferInstanceAs (Decidable (∀ item ∈ headers.items, _))

theorem HttpHeaders.Plain.set {headers : HttpHeaders} (plain : headers.Plain) (name value : Bytes)
    (field : PlainField (name,value)) : (headers.set name value).Plain :=
  set_forall headers name value PlainField plain field

theorem HttpHeaders.Plain.merge {headers more : HttpHeaders} (plain : headers.Plain) (others : more.Plain) :
    (headers.merge more).Plain :=
  merge_forall headers more PlainField plain others

theorem PlainField.line {item : Bytes × Bytes} (plain : PlainField item) : PlainLine (itemLine item) where
  nonempty := by simp [itemLine,ascii]
  noReturn := by simp [itemLine,ascii,plain.nameLine.1,plain.valueLine.1]
  noFeed := by simp [itemLine,ascii,plain.nameLine.2,plain.valueLine.2]

theorem trim_blank (text : Bytes) : trim (32 :: text) = trim text := by
  simp [trim,show isSpace 32 = true from rfl]

theorem PlainField.parsed {item : Bytes × Bytes} (plain : PlainField item) :
    parseHeaderLine (itemLine item) = some item := by
  have line : itemLine item = item.1 ++ 58 :: (32 :: item.2) := by simp [itemLine,ascii]
  rw [line,parseHeaderLine,cut_append 58 item.1 _ plain.nameColon]
  simp only [Option.map_some,trim_blank,plain.nameTrimmed,plain.valueTrimmed]

theorem HttpHeaders.Plain.parsed {headers : HttpHeaders} (plain : headers.Plain) :
    parseHeaderLines (headers.items.map itemLine) = headers := by
  have each : (headers.items.map itemLine).filterMap parseHeaderLine = headers.items := by
    rw [List.filterMap_map]
    exact (List.filterMap_congr fun item member => (plain item member).parsed).trans List.filterMap_some
  simp only [parseHeaderLines,each]

/-- A decimal number is a field by itself. -/
theorem number_plain (n : Nat) : (13 ∉ decimal n ∧ 10 ∉ decimal n) ∧ trim (decimal n) = decimal n := by
  have visible (c : UInt8) (member : c ∈ decimal n) := digit_range c (isDigit_decimal n c member)
  refine ⟨⟨fun member => ?_,fun member => ?_⟩,trim_of_ends _ (fun c first => ?_) fun c last => ?_⟩
  · exact absurd (visible 13 member).1 (by decide)
  · exact absurd (visible 10 member).1 (by decide)
  · exact (digit_visible c (isDigit_decimal n c (List.mem_of_head? first))).1
  · exact (digit_visible c (isDigit_decimal n c (List.mem_of_getLast? last))).1

/-! ### A written head -/

/-- What stands in front of the blank line of a message. -/
def headText (line : Bytes) (headers : HttpHeaders) : Bytes :=
  line ++ headers.items.flatMap fun item => crlf ++ itemLine item

/-- Behind a text that does not end the head, the blank line does. -/
theorem cutOn_blank (text body : Bytes) (clean : ¬headEnd <:+: text ++ crlf) :
    cutOn headEnd (text ++ headEnd ++ body) = some (text,body) := by
  refine cutOn_append headEnd text body fun early shorter pre => ?_
  by_cases inside : early.length + 4 ≤ text.length + 2
  · have within : early ++ headEnd <+: text ++ crlf := by
      refine List.prefix_of_prefix_length_le pre ?_ (by simpa [headEnd,crlf] using inside)
      exact ⟨crlf ++ body,by simp [headEnd]⟩
    exact clean ((List.infix_append' early headEnd []).trans (by simpa using within.isInfix))
  · have edge : early.length + 1 = text.length := by omega
    have feed : (text ++ headEnd ++ body)[early.length + 1]? = some 10 := by
      have inside := List.prefix_iff_getElem?.mp pre (early.length + 1) (by simp [headEnd,crlf])
      simpa [headEnd,crlf] using inside
    rw [edge,List.append_assoc,List.getElem?_append_right (Nat.le_refl _)] at feed
    simp [headEnd,crlf] at feed

theorem cutOn_head (text : Bytes) (items : List (Bytes × Bytes)) (body : Bytes)
    (clean : ¬headEnd <:+: text ++ crlf) (plain : ∀ item ∈ items, PlainLine (itemLine item)) :
    cutOn headEnd (text ++ crlf ++ items.flatMap headerLine ++ crlf ++ body) =
      some (text ++ items.flatMap fun item => crlf ++ itemLine item,body) := by
  induction items generalizing text with
  | nil => simpa [headEnd] using cutOn_blank text body clean
  | cons item rest ih =>
    have mine := plain item (by simp)
    have found := ih (text ++ crlf ++ itemLine item) (clean_line text _ clean mine)
      fun other member => plain other (by simp [member])
    simpa [headerLine_eq] using found

theorem headLines_head (line : Bytes) (items : List (Bytes × Bytes)) (first : PlainLine line)
    (plain : ∀ item ∈ items, PlainLine (itemLine item)) :
    headLines (line ++ items.flatMap fun item => crlf ++ itemLine item) = line :: items.map itemLine := by
  induction items generalizing line with
  | nil => simpa using first.headLines
  | cons item rest ih =>
    have others := ih (itemLine item) (plain item (by simp)) fun other member => plain other (by simp [member])
    have whole : (line ++ (item :: rest).flatMap fun item => crlf ++ itemLine item) =
        line ++ crlf ++ (itemLine item ++ rest.flatMap fun item => crlf ++ itemLine item) := by simp
    rw [whole,headLines_append,first.headLines_return,others]
    rfl

section

variable (line : Bytes) (headers : HttpHeaders) (body : Bytes) (first : PlainLine line) (plain : headers.Plain)
include first plain

theorem cutOn_headText : cutOn headEnd (line ++ crlf ++ headers.items.flatMap headerLine ++ crlf ++ body) =
    some (headText line headers,body) :=
  cutOn_head line headers.items body (clean_request line first) fun item member => (plain item member).line

/-- A head is read as the line and the headers it was written from. -/
theorem splitLines_headText : ∃ lines, splitLines (headText line headers) = line :: lines ∧
    parseHeaderLines lines = headers := by
  have lines := headLines_head line headers.items first fun item member => (plain item member).line
  obtain ⟨others,split,same⟩ := splitLines_headLines _ line _ lines (.inl first.nonempty)
  refine ⟨others,split,?_⟩
  rw [parseHeaderLines,same]
  exact plain.parsed

end

/-! ### The status line -/

theorem reasonPhrase_plain (status : Int) : (13 ∉ reasonPhrase status ∧ 10 ∉ reasonPhrase status) ∧
    trim (reasonPhrase status) = reasonPhrase status := by
  have texts : reasonPhrase status ∈ [ascii "OK",ascii "Created",ascii "Accepted",ascii "No Content",
      ascii "Moved Permanently",ascii "Found",ascii "Not Modified",ascii "Bad Request",ascii "Unauthorized",
      ascii "Forbidden",ascii "Not Found",ascii "Method Not Allowed",ascii "Request Timeout",ascii "Conflict",
      ascii "Payload Too Large",ascii "Unsupported Media Type",ascii "Unprocessable Entity",
      ascii "Too Many Requests",ascii "Internal Server Error",ascii "Not Implemented",ascii "Bad Gateway",
      ascii "Service Unavailable",ascii "Gateway Timeout",ascii "Success",ascii "Client Error",
      ascii "Server Error",ascii "Unknown"] := by
    unfold reasonPhrase
    repeat' split
    all_goals simp
  revert texts
  generalize reasonPhrase status = text
  revert text
  decide

def statusLine (status : Int) : Bytes := ascii "HTTP/1.1 " ++ decimalInt status ++ 32 :: reasonPhrase status

theorem decimalInt_byte (status : Int) (c : UInt8) (member : c ∈ decimalInt status) : c = 45 ∨ isDigit c = true := by
  rw [decimalInt] at member
  split at member
  · rcases List.mem_cons.mp member with sign | digit
    · exact .inl sign
    · exact .inr (isDigit_decimal _ c digit)
  · exact .inr (isDigit_decimal _ c member)

theorem statusLine_plain (status : Int) : PlainLine (statusLine status) := by
  obtain ⟨⟨noReturn,noFeed⟩,-⟩ := reasonPhrase_plain status
  have number (c : UInt8) (control : c = 13 ∨ c = 10) : c ∉ decimalInt status := fun member => by
    rcases decimalInt_byte status c member with rfl | digit
    · simp at control
    · have range := digit_range c digit
      rcases control with rfl | rfl
      · exact absurd range.1 (by decide)
      · exact absurd range.1 (by decide)
  exact ⟨by simp [statusLine,ascii],by simp [statusLine,ascii,number,noReturn],by simp [statusLine,ascii,number,noFeed]⟩

/-- A status of 32 bits comes back with its phrase. -/
theorem parseStatusLine_statusLine (status : Int) (low : -2^31 ≤ status) (high : status < 2^31) :
    parseStatusLine (statusLine status) = .ok (status,reasonPhrase status) := by
  have version : cut 32 (statusLine status) =
      some (ascii "HTTP/1.1",decimalInt status ++ 32 :: reasonPhrase status) := by
    have whole : statusLine status =
        ascii "HTTP/1.1" ++ 32 :: (decimalInt status ++ 32 :: reasonPhrase status) := by simp [statusLine,ascii]
    rw [whole]
    exact cut_append 32 _ _ (by decide)
  have code : cut 32 (decimalInt status ++ 32 :: reasonPhrase status) =
      some (decimalInt status,reasonPhrase status) := by
    refine cut_append 32 _ _ fun member => ?_
    rcases decimalInt_byte status 32 member with sign | digit
    · exact absurd sign (by decide)
    · exact absurd digit (by decide)
  have narrow : status.bmod (2^32) = status := Int.bmod_eq_of_le (by omega) (by omega)
  simp only [parseStatusLine,version,code,Option.map_some,Option.getD_some,
    parseInt_decimalInt status (by omega) (by omega),narrow,(reasonPhrase_plain status).2]

/-! ### The headers of an answer -/

theorem HttpHeaders.get_set_same (headers : HttpHeaders) (name value : Bytes) :
    (headers.set name value).get name = some value := by
  have removed : (headers.remove name).items.find? (fun item => equalsIgnoreCase item.1 name) = none := by
    apply List.find?_eq_none.mpr
    intro item member
    simpa using (List.mem_filter.mp member).2
  simp only [get,set,items_add,List.find?_append,removed,List.find?_cons,equalsIgnoreCase_self,Option.none_or,
    Option.map_some]

/-- A response whose head can be taken apart again, and that does not claim to be chunked. -/
structure HttpServer.ServerResponse.Plain (response : ServerResponse) : Prop where
  status : -2^31 ≤ response.status ∧ response.status < 2^31
  headers : response.headers.Plain
  unchunked : equalsIgnoreCase (response.headers.getOr (ascii "Transfer-Encoding") []) (ascii "chunked") = false

theorem finishedHeaders_plain (response : ServerResponse) (plain : response.headers.Plain) :
    (finishedHeaders response).Plain := by
  have fixed : ∀ item ∈ [(ascii "Connection",ascii "close"),
      (ascii "Content-Type",ascii "application/json; charset=utf-8"),
      (ascii "Access-Control-Allow-Origin",ascii "*"),(ascii "X-Content-Type-Options",ascii "nosniff")],
      PlainField item := by decide
  have bare : PlainField (ascii "Content-Length",[]) := by decide
  have length : PlainField (ascii "Content-Length",decimal response.body.length) :=
    ⟨bare.nameLine,bare.nameColon,bare.nameTrimmed,(number_plain _).1,(number_plain _).2⟩
  have front := (plain.set _ _ length).set _ _ (fixed (ascii "Connection",ascii "close") (by simp))
  have back (headers : HttpHeaders) (plain : headers.Plain) :=
    (plain.set _ _ (fixed (ascii "Access-Control-Allow-Origin",ascii "*") (by simp))).set _ _
      (fixed (ascii "X-Content-Type-Options",ascii "nosniff") (by simp))
  rw [finishedHeaders]
  split
  · exact back _ front
  · exact back _ (front.set _ _ (fixed (ascii "Content-Type",ascii "application/json; charset=utf-8") (by simp)))

theorem get_finishedHeaders (response : ServerResponse) (name : Bytes)
    (other : ∀ added ∈ [ascii "Connection",ascii "Content-Type",ascii "Access-Control-Allow-Origin",
      ascii "X-Content-Type-Options"], toLower added ≠ toLower name) : (finishedHeaders response).get name =
        (response.headers.set (ascii "Content-Length") (decimal response.body.length)).get name := by
  have kept (headers : HttpHeaders) (added value : Bytes) (member : added ∈ [ascii "Connection",
      ascii "Content-Type",ascii "Access-Control-Allow-Origin",ascii "X-Content-Type-Options"]) :
      (headers.set added value).get name = headers.get name :=
    HttpHeaders.get_set_other headers added value name (other added member)
  rw [finishedHeaders,kept _ _ _ (by simp),kept _ _ _ (by simp)]
  split
  · exact kept _ _ _ (by simp)
  · exact (kept _ _ _ (by simp)).trans (kept _ _ _ (by simp))

/-- Every answer announces its body by its length. -/
theorem framing_finishedHeaders (response : ServerResponse) (plain : response.Plain)
    (small : response.body.length < 2^63) : framing (finishedHeaders response) = .length response.body.length := by
  have length : (finishedHeaders response).get (ascii "Content-Length") = some (decimal response.body.length) := by
    rw [get_finishedHeaders response _ (by decide)]
    exact HttpHeaders.get_set_same _ _ _
  have encoding : (finishedHeaders response).getOr (ascii "Transfer-Encoding") [] =
      response.headers.getOr (ascii "Transfer-Encoding") [] := by
    rw [HttpHeaders.getOr,get_finishedHeaders response _ (by decide)]
    exact congrArg (Option.getD · []) (HttpHeaders.get_set_other _ _ _ _ (by decide))
  simp [framing,encoding,plain.unchunked,length,parseInt_decimal _ small]

/-! ### What arrives -/

/-- The response the client gives to its caller when everything has arrived. -/
def delivered (request : HttpRequest) (response : ServerResponse) : HttpResponse :=
  { answered (blank request) response.status (reasonPhrase response.status) (finishedHeaders response) with
    body := if bodyless (toUpper request.method) response.status then [] else response.body }

/-- The text of an answer, cut at its blank line. -/
def sentBody (method : Bytes) (response : ServerResponse) : Bytes := if method = ascii "HEAD" then [] else response.body

theorem responseText_eq (method : Bytes) (response : ServerResponse) : responseText method response =
    statusLine response.status ++ crlf ++ (finishedHeaders response).items.flatMap headerLine ++ crlf ++
      sentBody method response := by
  simp only [responseText,statusLine,sentBody]

/-- The head of an answer. -/
def answerHead (response : ServerResponse) : Bytes := headText (statusLine response.status) (finishedHeaders response)

theorem cutOn_responseText (method : Bytes) (response : ServerResponse) (plain : response.Plain) :
    cutOn headEnd (responseText method response) = some (answerHead response,sentBody method response) := by
  rw [responseText_eq]
  exact cutOn_headText _ _ _ (statusLine_plain _) (finishedHeaders_plain response plain.headers)

theorem reads_answerHead (response : ServerResponse) (plain : response.Plain) :
    Reads (answerHead response) response.status (reasonPhrase response.status) (finishedHeaders response) := by
  obtain ⟨lines,split,fields⟩ := splitLines_headText (statusLine response.status) (finishedHeaders response)
    (statusLine_plain _) (finishedHeaders_plain response plain.headers)
  exact ⟨_,lines,split,parseStatusLine_statusLine _ plain.status.1 plain.status.2,fields.symm⟩

/-- An announced body that one piece cannot carry over the cap arrives whole. -/
theorem readBody_announced (cap : Nat) (first : Bytes) (later : List Bytes)
    (fits : (first ++ later.flatten).length ≤ cap + 1) :
    readBody cap (.length (first ++ later.flatten).length) none later first = .complete (first ++ later.flatten) := by
  obtain ⟨early,rest,rfl,reads,stops⟩ := readBody_stops cap (.length (first ++ later.flatten).length) later first
  rw [readBody_reads cap _ none early rest first reads]
  have part : first ++ early.flatten <+: first ++ (early ++ rest).flatten := ⟨rest.flatten,by simp⟩
  rcases stops with settled | ⟨rfl,continues⟩
  · rw [readBody_settled cap _ none rest _ settled]
    cases decided : bodyOf (.length (first ++ (early ++ rest).flatten).length) (first ++ early.flatten) with
    | none =>
      have capped := not_continues cap _ _ settled decided
      have short := (bodyOf_length_none _ _).mp decided
      omega
    | some body =>
      have reach : (first ++ (early ++ rest).flatten).length ≤ (first ++ early.flatten).length := by
        by_contra short
        rw [(bodyOf_length_none _ _).mpr (not_le.mp short)] at decided
        cases decided
      have same := part.eq_of_length_le reach
      rw [bodyOf,if_pos reach,← same,List.take_length] at decided
      rw [settledBody,bodyOf,if_pos reach,← same,List.take_length]
      rfl
  · have missing := (bodyOf_length_none _ _).mp continues.1
    simp at missing

/-- Nothing follows: the connection is closed behind the head. -/
theorem readBody_nothing (cap bytes : Nat) : HttpClient.readBody cap (.length bytes) none [] [] = .complete [] := by
  rw [HttpClient.readBody.eq_def]
  cases bytes <;> simp [bodyOf]

/-- In single bytes a head is found only if its last byte is looked at in time. -/
theorem head_of_singles (arrives : HeadArrives (singles stream) head first later) :
    head.length + 4 ≤ maxHeaderBytes + 1 := by
  obtain ⟨early,piece,split,fits,_,found⟩ := arrives
  have single : piece.length = 1 := by
    have member : piece ∈ singles stream := by rw [split]; simp
    obtain ⟨_,_,rfl⟩ := List.mem_map.mp member
    rfl
  have total := congrArg List.length (cutOn_split _ _ _ _ found)
  simp only [List.length_append,headEnd_length] at total
  omega

/-- Whatever the pieces in which the answer arrives, the client gives back the response. -/
def Agrees (cap : Nat) (request : HttpRequest) (response : ServerResponse) : Prop :=
  ∀ pieces, Segments readChunk (responseText (toUpper request.method) response) pieces →
    respond cap request pieces = some (delivered request response)

theorem toUpper_head (request : HttpRequest) (head : request.method = ascii "HEAD") :
    toUpper request.method = ascii "HEAD" := by
  rw [head]
  decide

section

variable {cap : Nat} {request : HttpRequest} {response : ServerResponse} (plain : response.Plain)
include plain

/-- A longer head is refused when it arrives byte by byte. -/
theorem Agrees.short (all : Agrees cap request response) : (answerHead response).length + 4 ≤ maxHeaderBytes + 1 := by
  have cuts := cutOn_responseText (toUpper request.method) response plain
  have got := all _ (segments_singles readChunk (by decide) (responseText (toUpper request.method) response))
  by_contra late
  have shown := respond_unreadable cap request (singles (responseText (toUpper request.method) response))
    fun head first later arrives => by
      have whole := arrives.whole
      rw [flatten_singles,cuts,Option.some.injEq,Prod.mk.injEq] at whole
      exact absurd (whole.1 ▸ head_of_singles arrives) late
  rw [got] at shown
  cases congrArg HttpResponse.transportError (Option.some.inj shown)

/-- A longer body is cut off when it arrives byte by byte. -/
theorem Agrees.fits (all : Agrees cap request response) (small : response.body.length < 2^63)
    (bodied : ¬bodyless (toUpper request.method) response.status) : response.body.length ≤ cap + 1 := by
  have cuts := cutOn_responseText (toUpper request.method) response plain
  have got := all _ (segments_singles readChunk (by decide) (responseText (toUpper request.method) response))
  by_contra long
  simp only [bodyless,not_or] at bodied
  have sent : sentBody (toUpper request.method) response = response.body := if_neg bodied.1
  have client : ¬bodyless request.method response.status := by
    rintro (head | empty)
    · exact bodied.1 (toUpper_head request head)
    · rcases empty with empty | empty
      · exact bodied.2.1 empty
      · exact bodied.2.2 empty
  have split := cutOn_split _ _ _ _ cuts
  have arrives := arrives_singles (answerHead response) response.body (singles response.body)
    (flatten_singles _) (by rw [← sent,← split]; exact cuts) (all.short plain)
  rw [← singles_append,← sent,← split] at arrives
  rw [respond_readable cap request _ arrives (reads_answerHead response plain),if_neg client,
    framing_finishedHeaders response plain small,sent,
    readBody_singles cap _ response.body (by omega) fun seen part => (bodyOf_length_none _ _).mpr (by
      have inside := part.length_le.trans (List.length_take_le _ _)
      omega)] at got
  have body := congrArg HttpResponse.body (Option.some.inj got)
  have size := congrArg List.length body
  simp only [delivered,bodyless,bodied,or_self,if_false,List.length_take] at size
  omega

theorem agrees_of_fits (small : response.body.length < 2^63)
    (short : (answerHead response).length + 4 ≤ maxHeaderBytes + 1)
    (fits : bodyless (toUpper request.method) response.status ∨ response.body.length ≤ cap + 1) :
    Agrees cap request response := by
  intro pieces segments
  have cuts := cutOn_responseText (toUpper request.method) response plain
  obtain ⟨first,later,arrives,rest⟩ := arrives_in_time (segments.whole.symm ▸ cuts) short
  rw [respond_readable cap request pieces arrives (reads_answerHead response plain),
    framing_finishedHeaders response plain small]
  by_cases client : bodyless request.method response.status
  · have bare : bodyless (toUpper request.method) response.status := client.imp_left (toUpper_head request)
    simp only [if_pos client,delivered,if_pos bare]
    rfl
  · rw [if_neg client]
    by_cases head : toUpper request.method = ascii "HEAD"
    · have bare : bodyless (toUpper request.method) response.status := .inl head
      obtain ⟨rfl,empty⟩ := List.append_eq_nil_iff.mp (rest.symm.trans (if_pos head))
      have none : later = [] := by
        obtain ⟨early,piece,whole,_⟩ := arrives
        apply List.eq_nil_iff_forall_not_mem.mpr
        intro other member
        exact (segments.sizes other (by simp [whole,member])).1 (List.flatten_eq_nil_iff.mp empty other member)
      rw [none,readBody_nothing]
      simp only [finish,delivered,if_pos bare]
    · have bodied : ¬bodyless (toUpper request.method) response.status := by
        rintro (upper | empty)
        · exact head upper
        · exact client (.inr empty)
      have sent : sentBody (toUpper request.method) response = response.body := if_neg head
      have small := fits.resolve_left bodied
      rw [← sent,rest] at small ⊢
      rw [readBody_announced cap first later small]
      simp only [finish,delivered,if_neg bodied,← sent,rest]

end

/-- The client gives back the server's response exactly when head and body cannot be carried
over their limits by one byte. -/
theorem response_agrees_iff (cap : Nat) (request : HttpRequest) (response : ServerResponse) (plain : response.Plain)
    (small : response.body.length < 2^63) : Agrees cap request response ↔
      (answerHead response).length + 4 ≤ maxHeaderBytes + 1 ∧
        (bodyless (toUpper request.method) response.status ∨ response.body.length ≤ cap + 1) := by
  constructor
  · intro all
    exact ⟨all.short plain,or_iff_not_imp_left.mpr (all.fits plain small)⟩
  · rintro ⟨short,fits⟩
    exact agrees_of_fits plain small short fits

def hello : ServerResponse where
  headers := ⟨[(ascii "Content-Type",ascii "text/plain")]⟩
  body := ascii "hello"

theorem hello_plain : hello.Plain := ⟨by decide,by decide,by decide⟩

theorem response_agrees_hello : Agrees 4 {} hello :=
  (response_agrees_iff 4 {} hello hello_plain (by decide)).mpr ⟨by decide +kernel,.inr (by decide)⟩

end TestForge
