import TestForge.ServerConnection

/-! Request bodies. A connection leads to a request exactly when its head arrives within the
limit and asks for nothing the server refuses, and then the body is what stands behind the
head, up to the announced length. Whether that is all of it nobody checks. -/
namespace TestForge.HttpServer

open Sequence Strings Chunked HttpClient Settings

/-! ### What is received -/

/-- The blank line arrives before more bytes than the limit do. -/
def HeadWithin (limit : Nat) (pieces : List Bytes) (head : Bytes) : Prop :=
  ∃ early later behind, pieces = early ++ later ∧ early.flatten.length ≤ limit ∧
    cutOn headEnd early.flatten = some (head,behind)

theorem readHead_complete (limit : Nat) (pieces : List Bytes) (raw head behind : Bytes) (later : List Bytes)
    (read : readHead limit pieces raw = .complete head behind later) :
    ∃ early, pieces = early ++ later ∧ (raw ++ early.flatten).length ≤ limit ∧
      cutOn headEnd (raw ++ early.flatten) = some (head,behind) := by
  induction pieces generalizing raw with
  | nil => simp [readHead] at read
  | cons piece rest ih =>
    rw [readHead] at read
    split at read
    · cases read
    · next fits =>
      split at read
      · next found =>
        obtain ⟨rfl,rfl,rfl⟩ := by simpa using read
        exact ⟨[piece],by simp,by simpa using fits,by simpa using found⟩
      · obtain ⟨early,rfl,small,found⟩ := ih _ read
        exact ⟨piece :: early,by simp,by simpa [Nat.add_assoc] using small,by simpa using found⟩

theorem readHead_of_within (limit : Nat) (early later : List Bytes) (raw head behind : Bytes)
    (unfinished : cutOn headEnd raw = none) (small : (raw ++ early.flatten).length ≤ limit)
    (found : cutOn headEnd (raw ++ early.flatten) = some (head,behind)) :
    ∃ behind later', readHead limit (early ++ later) raw = .complete head behind later' := by
  induction early generalizing raw with
  | nil => simp [unfinished] at found
  | cons piece early ih =>
    have fits : (raw ++ piece).length ≤ limit := by
      simp only [List.flatten_cons,List.length_append] at small ⊢
      omega
    rw [List.cons_append,readHead,if_neg (by omega)]
    cases cuts : cutOn headEnd (raw ++ piece) with
    | none => exact ih (raw ++ piece) cuts (by simpa [Nat.add_assoc] using small) (by simpa using found)
    | some parts =>
      have longer := cutOn_append_left _ _ _ _ early.flatten cuts
      rw [List.append_assoc,← List.flatten_cons,found,Option.some.injEq,Prod.mk.injEq] at longer
      exact ⟨parts.2,early ++ later,by rw [longer.1]⟩

theorem readBody_take (length : Nat) (later : List Bytes) (body : Bytes) :
    (readBody length later body).take length = (body ++ later.flatten).take length := by
  induction later generalizing body with
  | nil => simp [readBody]
  | cons piece later ih =>
    rw [readBody]
    split
    · rw [ih,List.append_assoc,List.flatten_cons]
    · next enough => rw [List.take_append_of_le_length (by omega)]

/-- The stream holds a request that the server takes: its head, and what stands behind it. -/
def Accepted (config : ServerConfig) (pieces : List Bytes) (front : ServerRequest) (behind : Bytes) : Prop :=
  ∃ head, HeadWithin (maxRequest config) pieces head ∧ cutOn headEnd pieces.flatten = some (head,behind) ∧
    requestOf head = some front ∧ unsupportedEncoding front.headers = false ∧
      (contentLength front.headers : Int) ≤ config.maxRequestBytes.toInt

/-- The request that is dispatched. -/
def ServerRequest.received (front : ServerRequest) (clientAddress behind : Bytes) : Inbound :=
  { front with body := behind.take (contentLength front.headers), clientAddress }

theorem receiveRequest_ok (config : ServerConfig) (clientAddress : Bytes) (pieces : List Bytes)
    (request : Inbound) : receiveRequest config clientAddress pieces = .ok request ↔
      ∃ front behind, Accepted config pieces front behind ∧ request = front.received clientAddress behind := by
  constructor
  · intro received
    rw [receiveRequest] at received
    split at received
    · cases received
    · cases received
    · next head behind later read =>
      obtain ⟨early,rfl,small,found⟩ := readHead_complete _ _ _ _ _ _ read
      rw [List.nil_append] at small found
      have whole := cutOn_append_left _ _ _ _ later.flatten found
      rw [← List.flatten_append] at whole
      split at received
      · cases received
      · next front line =>
        split at received
        · cases received
        · next supported =>
          simp only at received
          split at received
          · cases received
          · next bounded =>
            refine ⟨front,behind ++ later.flatten,⟨head,⟨early,later,behind,rfl,small,found⟩,whole,line,
              by simpa using supported,by omega⟩,?_⟩
            rw [← Except.ok.inj received,readBody_take]
            rfl
  · rintro ⟨front,behind,⟨head,⟨early,later,_,rfl,small,found⟩,whole,line,supported,bounded⟩,rfl⟩
    obtain ⟨first,rest,read⟩ := readHead_of_within (maxRequest config) early later [] head _ (by decide)
      (by simpa using small) (by simpa using found)
    obtain ⟨before,split,_,start⟩ := readHead_complete _ _ _ _ _ _ read
    have longer := cutOn_append_left _ _ _ _ rest.flatten start
    rw [List.nil_append,← List.flatten_append,← split,whole,Option.some.injEq,Prod.mk.injEq] at longer
    rw [receiveRequest]
    simp only [read,line,supported,Bool.false_eq_true,↓reduceIte]
    rw [if_neg (by omega),readBody_take,ServerRequest.received,longer.2]

/-! ### Whole bodies -/

/-- A length, where one is announced, is a number and that of the body. -/
def Inbound.Complete (request : Inbound) : Prop :=
  ∀ value, request.headers.get (ascii "Content-Length") = some value →
    parseInt value = some (request.body.length : Int)

/-- A length, where one is announced, is a number, and so many bytes arrive. -/
def Framed (headers : HttpHeaders) (behind : Bytes) : Prop :=
  ∀ value, headers.get (ascii "Content-Length") = some value →
    ∃ length : Nat, parseInt value = some (length : Int) ∧ length ≤ behind.length

theorem complete_iff (front : ServerRequest) (clientAddress behind : Bytes) :
    (front.received clientAddress behind).Complete ↔ Framed front.headers behind := by
  refine forall_congr' fun value => forall_congr' fun found => ?_
  have announced : contentLength front.headers = ((parseInt value).getD 0).toNat := by
    have read : front.headers.get (ascii "Content-Length") = some value := found
    rw [contentLength,read,Option.bind_some]
  simp only [ServerRequest.received,List.length_take,announced]
  constructor
  · intro number
    exact ⟨_,number,by rw [number]; simp⟩
  · rintro ⟨length,number,enough⟩
    rw [number,Option.getD_some,Int.toNat_natCast,Nat.min_eq_left enough]

/-- A response of status 400 or more. -/
def IsError (answer : Bytes) : Prop :=
  ∃ status : Int, 400 ≤ status ∧ ascii "HTTP/1.1 " ++ decimalInt status ++ [32] <+: answer

/-- The server does not act on a part of a body: a handler gets the whole of it, and a stream
without the whole of it ends in an error or without an answer. -/
structure Impl.WholeBody (impl : Impl) (files : Files) (clientAddress : Bytes) (pieces : List Bytes) : Prop where
  handler : ∀ handler request, impl.invocation clientAddress pieces = some (handler,request) → request.Complete
  other : (∀ request, receiveRequest impl.config clientAddress pieces = .ok request → ¬request.Complete) →
    impl.handleConnection files clientAddress pieces = [] ∨
      IsError (impl.handleConnection files clientAddress pieces)

/-- A route or a file answers to the method and path. -/
def Impl.Serves (impl : Impl) (files : Files) (front : ServerRequest) : Prop :=
  (∃ route parameters, impl.match front.method front.path = .route route parameters) ∨
    ∃ relative full, impl.staticTarget front = .file relative full ∧ (files full).isSome

theorem Refusal.answer_error (refusal : Refusal) : refusal.answer = [] ∨ IsError refusal.answer := by
  have text (status : Int) (behind : Bytes) (response : ServerResponse) (large : 400 ≤ status) :
      IsError (refusalText (decimalInt status ++ 32 :: behind) response) :=
    ⟨status,large,behind ++ crlf ++ ascii "Content-Length: " ++ decimal response.body.length ++ crlf ++
      ascii "Content-Type: application/json" ++ crlf ++ ascii "Connection: close" ++ headEnd ++ response.body,
      by simp [refusalText]⟩
  cases refusal with
  | closed => exact .inl rfl
  | headTooLarge => exact .inr (text 413 (ascii "Payload Too Large") _ (by decide))
  | unsupportedEncoding => exact .inr (text 400 (ascii "Bad Request") _ (by decide))
  | bodyTooLarge => exact .inr (text 413 (ascii "Payload Too Large") _ (by decide))

theorem decimalInt_blank (z : Int) : 32 ∉ decimalInt z := by
  rw [decimalInt]
  split
  · simp only [List.mem_cons,not_or]
    exact ⟨by decide,fun member => absurd (isDigit_decimal _ _ member) (by decide)⟩
  · exact fun member => absurd (isDigit_decimal _ _ member) (by decide)

theorem isError_responseText (method : Bytes) (response : ServerResponse) (nonneg : 0 ≤ response.status) :
    IsError (responseText method response) ↔ 400 ≤ response.status := by
  constructor
  · rintro ⟨status,large,rest,same⟩
    simp only [responseText,List.append_assoc,List.append_cancel_left_eq] at same
    have left := cut_append 32 (decimalInt status) rest (decimalInt_blank status)
    have right := cut_append 32 (decimalInt response.status)
      (reasonPhrase response.status ++ (crlf ++ ((finishedHeaders response).items.flatMap headerLine ++ (crlf ++
        if method = ascii "HEAD" then [] else response.body)))) (decimalInt_blank _)
    rw [List.cons_append,List.nil_append,List.cons_append] at same
    rw [← same,left,Option.some.injEq,Prod.mk.injEq] at right
    have values := congrArg digitsValue right.1
    rw [decimalInt,decimalInt,if_neg (by omega),if_neg (by omega),digitsValue_decimal,digitsValue_decimal] at values
    omega
  · intro large
    exact ⟨response.status,large,_,by simp only [responseText,List.append_assoc]; rfl⟩

theorem invocation_of_received (impl : Impl) (clientAddress : Bytes) (pieces : List Bytes) (request : Inbound)
    (received : receiveRequest impl.config clientAddress pieces = .ok request) :
    impl.invocation clientAddress pieces = impl.handler request := by
  simp [Impl.invocation,received,Except.toOption]

theorem handler_eq_none (impl : Impl) (files : Files) (front : ServerRequest) (clientAddress behind : Bytes)
    (unserved : ¬impl.Serves files front) : impl.handler (front.received clientAddress behind) = none := by
  rw [Impl.handler]
  split
  · next route parameters found => exact absurd (.inl ⟨route,parameters,found⟩) unserved
  · rfl

theorem dispatch_error (impl : Impl) (files : Files) (front : ServerRequest) (clientAddress behind : Bytes)
    (unserved : ¬impl.Serves files front) :
    400 ≤ (impl.dispatch files (front.received clientAddress behind)).status := by
  rw [Impl.dispatch,handler_eq_none impl files front clientAddress behind unserved]
  simp only
  split
  · next response static =>
    have target : impl.serveStatic files front = some response := static
    rw [Impl.serveStatic] at target
    split at target
    · cases target
    · rw [← Option.some.inj target]
      decide
    · next relative full found =>
      obtain ⟨body,opened,_⟩ := Option.map_eq_some_iff.mp target
      exact absurd (.inr ⟨relative,full,found,by simp [opened]⟩) unserved
  · split
    · exact (show (400 : Int) ≤ 405 by decide)
    · exact (show (400 : Int) ≤ 404 by decide)

theorem dispatch_static (impl : Impl) (files : Files) (request : Inbound) (relative full : Bytes)
    (free : impl.handler request = none) (target : impl.staticTarget request.toServerRequest = .file relative full)
    (opened : (files full).isSome) : (impl.dispatch files request).status = 200 := by
  obtain ⟨body,opened⟩ := Option.isSome_iff_exists.mp opened
  simp [Impl.dispatch,free,Impl.serveStatic,target,opened]

theorem wholeBody_iff (impl : Impl) (files : Files) (clientAddress : Bytes) (pieces : List Bytes) :
    impl.WholeBody files clientAddress pieces ↔ ∀ front behind, Accepted impl.config pieces front behind →
      impl.Serves files front → Framed front.headers behind := by
  constructor
  · intro whole front behind accepted serves
    have received := (receiveRequest_ok impl.config clientAddress pieces _).mpr ⟨front,behind,accepted,rfl⟩
    have called := invocation_of_received impl clientAddress pieces _ received
    rw [← complete_iff front clientAddress]
    cases free : impl.handler (front.received clientAddress behind) with
    | some call =>
      obtain ⟨handler,request⟩ := call
      have complete := whole.handler handler request (called.trans free)
      rw [Impl.handler] at free
      split at free
      · obtain ⟨rfl,rfl⟩ := by simpa using free
        exact complete
      · cases free
    | none =>
      by_contra missing
      rcases serves with ⟨route,parameters,found⟩ | ⟨relative,full,target,opened⟩
      · have method : impl.match (front.received clientAddress behind).method
            (front.received clientAddress behind).path = .route route parameters := found
        simp [Impl.handler,method] at free
      · have status := dispatch_static impl files _ relative full free target opened
        have answer := whole.other fun request other => by
          rw [received] at other
          rwa [← Except.ok.inj other]
        simp only [Impl.handleConnection,received] at answer
        rcases answer with empty | error
        · simp [responseText,ascii] at empty
        · rw [isError_responseText _ _ (by omega)] at error
          omega
  · intro condition
    cases received : receiveRequest impl.config clientAddress pieces with
    | error refusal =>
      refine ⟨fun handler request called => ?_,fun _ => ?_⟩
      · simp [Impl.invocation,received,Except.toOption] at called
      · simpa only [Impl.handleConnection,received] using refusal.answer_error
    | ok request =>
      have called := invocation_of_received impl clientAddress pieces request received
      obtain ⟨front,behind,accepted,rfl⟩ := (receiveRequest_ok _ _ _ _).mp received
      by_cases serves : impl.Serves files front
      · have complete := (complete_iff front clientAddress behind).mpr (condition front behind accepted serves)
        refine ⟨fun handler request found => ?_,fun incomplete => absurd complete (incomplete _ received)⟩
        rw [called,Impl.handler] at found
        split at found
        · obtain ⟨rfl,rfl⟩ := by simpa using found
          exact complete
        · cases found
      · refine ⟨fun handler request found => ?_,fun _ => .inr ?_⟩
        · rw [called,handler_eq_none impl files front clientAddress behind serves] at found
          cases found
        · have large := dispatch_error impl files front clientAddress behind serves
          simp only [Impl.handleConnection,received]
          exact (isError_responseText _ _ (by omega)).mpr large

/-- The API with its one route that starts runs; the handler answers with the body it got. -/
def echoing : Impl where
  routes := [{ method := ascii "POST", segments := [ascii "api",ascii "runs"], handler := fun request => some {
    status := 202, body := request.body } }]

/-- The connection is lost behind the head: the handler is called with no body at all, which
for this route asks for a run of everything. -/
theorem lost_body_dispatched : ¬echoing.WholeBody (fun _ => none) [] [
    ascii "POST /api/runs HTTP/1.1\r\nContent-Length: 19\r\n\r\n"] := by
  intro whole
  obtain ⟨call,called⟩ := Option.isSome_iff_exists.mp (show (echoing.invocation [] [
    ascii "POST /api/runs HTTP/1.1\r\nContent-Length: 19\r\n\r\n"]).isSome by decide)
  have body : (echoing.invocation [] [ascii "POST /api/runs HTTP/1.1\r\nContent-Length: 19\r\n\r\n"]).map
      (fun call => (call.2.headers,call.2.body)) = some (⟨[(ascii "Content-Length",ascii "19")]⟩,[]) := by decide
  rw [called,Option.map_some,Option.some.injEq,Prod.mk.injEq] at body
  have length := whole.handler call.1 call.2 called (ascii "19") (by rw [body.1]; decide)
  rw [body.2] at length
  exact absurd length (by decide)

end TestForge.HttpServer
