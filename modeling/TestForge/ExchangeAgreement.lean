import TestForge.HeaderAgreement

/-! Client and server together. With the wire between them, an exchange is a call of the
server's handler: the request that is dispatched is the one the client was given, and the
response the client returns is the one the handler made. So a chain of redirects is a chain of
such calls. -/
namespace TestForge

open Sequence Strings Chunked HttpClient HttpServer Settings Segmentation

/-! ### A call without a wire -/

/-- The request a server dispatches for a hop. -/
def inboundOf (options : HttpClientOptions) (clientAddress : Bytes) (request : HttpRequest) (url : Url) : Inbound where
  method := toUpper request.method
  path := urlDecode url.path
  query := url.query
  headers := mergedHeaders options request url
  body := request.body
  clientAddress

section

variable (options : HttpClientOptions) (impl : Impl) (files : Files) (clientAddress : Bytes)

/-- What the handler of a hop answers. -/
def answerOf (request : HttpRequest) (url : Url) : ServerResponse :=
  impl.dispatch files (inboundOf options clientAddress request url)

/-- One hop whose handler is called directly. -/
def callOnce (request : HttpRequest) : Option Hop × Option HttpResponse :=
  let response := HttpClient.blank request
  match parseUrl request.url with
  | none => (none,some (failed response (ascii "not a valid absolute http(s) URL: " ++ request.url)))
  | some url =>
    let rejection := options.policy.reject url
    if rejection ≠ [] then
      (none,some (failed response (ascii "request blocked by URL policy: " ++ rejection)))
    else if url.isHttps then (some { request, url },some (failed response httpsUnsupported))
    else (some { request, url, sent := some (mergedHeaders options request url) },
      some (delivered request (answerOf options impl files clientAddress request url)))

/-- A request and the redirects it leads to, as calls. -/
def call : Nat → HttpRequest → List Hop × Option HttpResponse
  | 0, request =>
    let (hop,response) := callOnce options impl files clientAddress request
    (hop.toList,response)
  | remaining + 1, request =>
    let (hop,response) := callOnce options impl files clientAddress request
    match hop.bind fun hop => response.bind (followUp options hop) with
    | none => (hop.toList,response)
    | some next =>
      let (later,final) := call remaining next
      (hop.toList ++ later,final)

end

/-! ### What is sent -/

/-- A request that is read back as it was written, and fits. -/
structure Sendable (server : ServerConfig) (request : HttpRequest) (url : Url) (headers : HttpHeaders) : Prop where
  method : request.method ≠ [] ∧ 32 ∉ request.method ∧ 10 ∉ request.method
  target : 32 ∉ url.requestTarget ∧ 10 ∉ url.requestTarget
  fields : headers.Plain
  identity : unsupportedEncoding headers = false
  announced : request.body.length ≤ contentLength headers
  bounded : (contentLength headers : Int) ≤ server.maxRequestBytes.toInt
  fits : ((wire request url headers).length : Int) ≤ server.maxRequestBytes.toInt

theorem wire_ends (request : HttpRequest) (url : Url) (headers : HttpHeaders) :
    ∃ head behind, cutOn headEnd (wire request url headers) = some (head,behind) := by
  obtain ⟨before,ends⟩ := items_end headers.items
  have occurs : headEnd <:+: wire request url headers := by
    refine ⟨request.method ++ 32 :: (url.requestTarget ++ 32 :: ascii "HTTP/1.1") ++ before,request.body,?_⟩
    rw [wire_line,← List.append_assoc crlf,← List.append_assoc crlf,ends]
    simp [headEnd]
  obtain ⟨⟨head,behind⟩,cuts⟩ := Option.ne_none_iff_exists'.mp ((cutOn_eq_none headEnd _).not.mpr (not_not.mpr occurs))
  exact ⟨head,behind,cuts⟩

/-- The server dispatches the request the client was given. -/
theorem receiveRequest_sent (server : ServerConfig) (options : HttpClientOptions) (clientAddress : Bytes)
    (pieces : List Bytes) (request : HttpRequest) (url : Url) (valid : url.WellFormed)
    (sendable : Sendable server request url (mergedHeaders options request url))
    (arrives : pieces.flatten = wire request url (mergedHeaders options request url)) :
    receiveRequest server clientAddress pieces = .ok (inboundOf options clientAddress request url) := by
  obtain ⟨named,word,feed⟩ := sendable.method
  obtain ⟨blank,targetFeed⟩ := sendable.target
  obtain ⟨head,behind,cuts⟩ := wire_ends request url (mergedHeaders options request url)
  have text := wire_line request url (mergedHeaders options request url)
  obtain ⟨fields,found,line⟩ := requestOf_clean _ (mergedHeaders options request url) request.body head behind (by simp)
    (by simp [feed,targetFeed,ascii]) (line_last request.method url.requestTarget) (text ▸ cuts)
  rw [readBack_plain _ request.body sendable.fields] at found
  obtain ⟨rfl,rfl⟩ := Prod.mk.inj (Option.some.inj found)
  have parts : targetParts url.requestTarget = (url.path,url.query) := valid.cut_target
  rw [parseRequestLine_line request.method _ _ named word valid.target_rooted blank,parts] at line
  apply (receiveRequest_fits server clientAddress pieces _ (by rw [arrives]; exact sendable.fits)).mpr
  refine ⟨head,request.body,_,by rw [arrives]; exact cuts,line,sendable.identity,sendable.bounded,?_⟩
  simp only [ServerRequest.received,List.take_of_length_le sendable.announced]
  rfl

/-- A header that is read back as it was written, and says nothing of the body. -/
structure GivenField (item : Bytes × Bytes) : Prop where
  plain : PlainField item
  unencoded : toLower item.1 ≠ toLower (ascii "Transfer-Encoding")
  unmeasured : toLower item.1 ≠ toLower (ascii "Content-Length")

instance (item : Bytes × Bytes) : Decidable (GivenField item) :=
  decidable_of_iff (PlainField item ∧ toLower item.1 ≠ toLower (ascii "Transfer-Encoding") ∧
      toLower item.1 ≠ toLower (ascii "Content-Length"))
    ⟨fun ⟨plain,unencoded,unmeasured⟩ => ⟨plain,unencoded,unmeasured⟩,
    fun given => ⟨given.plain,given.unencoded,given.unmeasured⟩⟩

theorem HttpHeaders.get_absent (headers : HttpHeaders) (name : Bytes)
    (absent : ∀ item ∈ headers.items, toLower item.1 ≠ toLower name) : headers.get name = none := by
  rw [get,Option.map_eq_none_iff,List.find?_eq_none]
  intro item member same
  exact absent item member ((equalsIgnoreCase_iff item.1 name).mp same)

section

variable (options : HttpClientOptions) (request : HttpRequest) (url : Url)
  (defaults : ∀ item ∈ options.defaultHeaders.items, GivenField item) (own : ∀ item ∈ request.headers.items, GivenField item)
include defaults own

theorem mergedHeaders_whole (agent : PlainField (ascii "User-Agent",options.userAgent))
    (host : PlainField (ascii "Host",url.authority)) : (mergedHeaders options request url).Plain := by
  refine mergedHeaders_forall options request url PlainField (fun item member => (defaults item member).plain) ?_
    fun item member => (own item member).plain
  intro item mine
  simp only [ownHeaders,List.mem_cons,List.not_mem_nil,or_false] at mine
  rcases mine with rfl | rfl | rfl | rfl | rfl
  · exact host
  · exact agent
  · decide
  · decide
  · have bare : PlainField (ascii "Content-Length",[]) := by decide
    exact ⟨bare.nameLine,bare.nameColon,bare.nameTrimmed,(number_plain _).1,(number_plain _).2⟩

theorem mergedHeaders_unencoded : unsupportedEncoding (mergedHeaders options request url) = false := by
  have apart : ∀ name ∈ [ascii "Host",ascii "User-Agent",ascii "Accept",ascii "Connection",ascii "Content-Length"],
      toLower name ≠ toLower (ascii "Transfer-Encoding") := by decide
  have others : ∀ item ∈ ownHeaders options request url, toLower item.1 ≠ toLower (ascii "Transfer-Encoding") := by
    intro item mine
    simp only [ownHeaders,List.mem_cons,List.not_mem_nil,or_false] at mine
    rcases mine with rfl | rfl | rfl | rfl | rfl <;> exact apart _ (by simp)
  have absent := mergedHeaders_forall options request url (fun item => toLower item.1 ≠ toLower (ascii "Transfer-Encoding"))
    (fun item member => (defaults item member).unencoded) others fun item member => (own item member).unencoded
  rw [unsupportedEncoding,HttpHeaders.get_absent _ _ absent]

theorem mergedHeaders_length (small : request.body.length < 2^63) :
    contentLength (mergedHeaders options request url) = request.body.length := by
  obtain ⟨settled,merged,same⟩ := mergedHeaders_settled options request url
  by_cases bodied : Bodied request.method request.body
  · rw [merged,if_pos bodied,contentLength,HttpHeaders.get_set_same]
    simp [parseInt_decimal _ small]
  · have empty : request.body = [] := not_not.mp fun filled => bodied (.inl filled)
    have absent := HttpHeaders.get_absent _ (ascii "Content-Length") (HttpHeaders.merge_forall options.defaultHeaders
      request.headers (fun item => toLower item.1 ≠ toLower (ascii "Content-Length"))
      (fun item member => (defaults item member).unmeasured) fun item member => (own item member).unmeasured)
    have apart : ∀ name ∈ clientNames, toLower name ≠ toLower (ascii "Content-Length") := by decide
    have none : settled.get (ascii "Content-Length") = none := by
      have missed : ∀ name ∈ clientNames, ∀ item : Bytes × Bytes, toLower item.1 = toLower name →
          equalsIgnoreCase item.1 (ascii "Content-Length") = false := by
        intro name mine item equal
        rw [Bool.eq_false_iff,ne_eq,equalsIgnoreCase_iff,equal]
        exact apart name mine
      rw [HttpHeaders.get,same _ missed]
      exact absent
    rw [merged,if_neg bodied,contentLength,none,empty]
    rfl

end

/-- A hop whose request line and host are read back, and that fits into the server's limit. -/
structure Writable (server : ServerConfig) (request : HttpRequest) (url : Url) (headers : HttpHeaders) : Prop where
  method : request.method ≠ [] ∧ 32 ∉ request.method ∧ 10 ∉ request.method
  target : 32 ∉ url.requestTarget ∧ 10 ∉ url.requestTarget
  host : PlainField (ascii "Host",url.authority)
  fits : ((wire request url headers).length : Int) ≤ server.maxRequestBytes.toInt

theorem Writable.sendable {server : ServerConfig} {options : HttpClientOptions} {request : HttpRequest} {url : Url}
    (writable : Writable server request url (mergedHeaders options request url))
    (defaults : ∀ item ∈ options.defaultHeaders.items, GivenField item)
    (agent : PlainField (ascii "User-Agent",options.userAgent)) (own : ∀ item ∈ request.headers.items, GivenField item) :
    Sendable server request url (mergedHeaders options request url) := by
  have fits := writable.fits
  have largest := server.maxRequestBytes.toInt_lt
  have inside (headers : HttpHeaders) : request.body.length ≤ (wire request url headers).length := by
    simp only [wire,List.length_append]
    omega
  have inside := inside (mergedHeaders options request url)
  have length := mergedHeaders_length options request url defaults own (by omega)
  exact {
    method := writable.method
    target := writable.target
    fields := mergedHeaders_whole options request url defaults own agent writable.host
    identity := mergedHeaders_unencoded options request url defaults own
    announced := length.ge
    bounded := by omega
    fits }

/-! ### What is answered -/

/-- An answer within the limits of the client. -/
structure Fitting (cap : Nat) (request : HttpRequest) (response : ServerResponse) : Prop where
  small : response.body.length < 2^63
  head : (answerHead response).length + 4 ≤ maxHeaderBytes + 1
  body : bodyless (toUpper request.method) response.status ∨ response.body.length ≤ cap + 1

theorem Fitting.agrees (fitting : Fitting cap request response) (plain : response.Plain) : Agrees cap request response :=
  (response_agrees_iff cap request response plain fitting.small).mpr ⟨fitting.head,fitting.body⟩

theorem error_plain (status : Int) (message code : Bytes) (low : -2^31 ≤ status) (high : status < 2^31) :
    (ServerResponse.error status message code).Plain := by
  refine ⟨⟨low,high⟩,fun item member => ?_,rfl⟩
  obtain rfl : item = (ascii "Content-Type",ascii "application/json; charset=utf-8") := by
    have only : (({} : HttpHeaders).set (ascii "Content-Type") (ascii "application/json; charset=utf-8")).items =
        [(ascii "Content-Type",ascii "application/json; charset=utf-8")] := by decide
    exact List.mem_singleton.mp (only ▸ member)
  decide

theorem mimeTypeFor_plain (path : Bytes) : PlainField (ascii "Content-Type",mimeTypeFor path) := by
  have types : mimeTypeFor path ∈ ascii "application/octet-stream" :: mimeTypes.map (·.2) := by
    rw [mimeTypeFor]
    cases found : mimeTypes.find? fun entry => entry.1.any (·.isSuffixOf path) with
    | none => exact List.mem_cons_self
    | some entry => exact List.mem_cons_of_mem _ (List.mem_map_of_mem (List.mem_of_find?_eq_some found))
  revert types
  generalize mimeTypeFor path = value
  revert value
  decide

theorem serveStatic_plain (impl : Impl) (files : Files) (request : ServerRequest) (response : ServerResponse)
    (served : impl.serveStatic files request = some response) : response.Plain := by
  rw [Impl.serveStatic] at served
  split at served
  · cases served
  · cases served
    exact error_plain 400 _ _ (by decide) (by decide)
  · next relative full _ =>
    obtain ⟨body,_,rfl⟩ := Option.map_eq_some_iff.mp served
    have start : ({} : HttpHeaders).Plain := fun item member => absurd member (List.not_mem_nil)
    have cache : PlainField (ascii "Cache-Control",ascii "no-cache") := by decide
    refine ⟨⟨by simp,by simp⟩,(start.set _ _ (mimeTypeFor_plain relative)).set _ _ cache,?_⟩
    rw [HttpHeaders.getOr,HttpHeaders.get_set_other _ _ _ _ (by decide),HttpHeaders.get_set_other _ _ _ _ (by decide)]
    decide

theorem dispatch_plain (impl : Impl) (files : Files) (request : Inbound)
    (routes : ∀ route ∈ impl.routes, ∀ inbound response, route.handler inbound = some response → response.Plain) :
    (impl.dispatch files request).Plain := by
  rw [Impl.dispatch]
  split
  · next handler inbound chosen =>
    cases called : handler inbound with
    | none => exact error_plain 500 _ _ (by decide) (by decide)
    | some response =>
      rw [Impl.handler] at chosen
      split at chosen
      · next route parameters found =>
        obtain ⟨rfl,rfl⟩ := Prod.mk.inj (Option.some.inj chosen)
        have member : route ∈ impl.routes := by
          simp only [Impl.match] at found
          split at found
          · next taken =>
            cases found
            obtain ⟨other,inside,fitting⟩ := List.mem_filterMap.mp (List.mem_of_find?_eq_some taken)
            obtain ⟨_,_,same⟩ := Option.map_eq_some_iff.mp fitting
            exact (Prod.mk.inj same).1 ▸ inside
          · split at found <;> cases found
        exact routes route member _ response called
      · cases chosen
  · split
    · next response served => exact serveStatic_plain impl files _ response served
    · split
      · exact error_plain 405 _ _ (by decide) (by decide)
      · exact error_plain 404 _ _ (by decide) (by decide)

/-! ### The exchange -/

/-- The network carries what the client writes to the server, and the server's answer back, in
some pieces. -/
structure Serves (impl : Impl) (files : Files) (clientAddress : Bytes) (written : Bytes) (exchange : Exchange) : Prop where
  reached : exchange.unreachable = none
  sent : exchange.sendError = none
  closed : exchange.readError = none
  answered : ∃ pieces, pieces.flatten = written ∧
    Segments readChunk (impl.handleConnection files clientAddress pieces) exchange.received

/-- A hop that fits into the limits of both sides, over a network that carries it. -/
def Served (options : HttpClientOptions) (impl : Impl) (files : Files) (clientAddress : Bytes) (hop : Hop)
    (exchange : Exchange) : Prop :=
  ∀ headers, hop.sent = some headers → Writable impl.config hop.request hop.url headers ∧
    Fitting options.maxResponseBytes hop.request (answerOf options impl files clientAddress hop.request hop.url) ∧
    Serves impl files clientAddress (wire hop.request hop.url headers) exchange

theorem callOnce_request (options : HttpClientOptions) (impl : Impl) (files : Files) (clientAddress : Bytes)
    (request : HttpRequest) (hop : Hop) (first : (callOnce options impl files clientAddress request).1 = some hop) :
    hop.request = request := by
  simp only [callOnce] at first
  split at first
  · cases first
  · split at first
    · cases first
    · split at first
      · cases first
        rfl
      · cases first
        rfl

theorem stripCredentials_subset (headers : HttpHeaders) : (stripCredentials headers).items ⊆ headers.items := by
  simp only [stripCredentials,credentialHeaders,List.foldl_cons,List.foldl_nil,HttpHeaders.items_remove]
  intro item member
  exact List.mem_of_mem_filter (List.mem_of_mem_filter (List.mem_of_mem_filter member))

theorem followUp_given (options : HttpClientOptions) (hop : Hop) (response : HttpResponse) (next : HttpRequest)
    (followed : followUp options hop response = some next) : next.headers.items ⊆ hop.request.headers.items := by
  obtain ⟨_,_,_,_,_,headers⟩ := followUp_some options hop response next followed
  rw [headers]
  split
  · exact List.Subset.refl _
  · exact stripCredentials_subset _

section

variable (options : HttpClientOptions) (impl : Impl) (files : Files) (clientAddress : Bytes)
  (defaults : ∀ item ∈ options.defaultHeaders.items, GivenField item)
  (agent : PlainField (ascii "User-Agent",options.userAgent))
  (routes : ∀ route ∈ impl.routes, ∀ inbound response, route.handler inbound = some response → response.Plain)
include defaults agent routes

theorem performOnce_eq_callOnce (exchange : Exchange) (request : HttpRequest)
    (own : ∀ item ∈ request.headers.items, GivenField item)
    (served : ∀ hop ∈ (callOnce options impl files clientAddress request).1,
      Served options impl files clientAddress hop exchange) :
    performOnce options exchange request = callOnce options impl files clientAddress request := by
  simp only [performOnce,callOnce,HttpClient.blank] at served ⊢
  cases parsed : parseUrl request.url with
  | none => rfl
  | some url =>
    simp only [parsed] at served ⊢
    split
    · rfl
    · next allowed =>
      rw [if_neg allowed] at served
      split
      · rfl
      · next plain =>
        rw [if_neg plain] at served
        obtain ⟨writable,fitting,reached,sent,closed,pieces,arrives,segments⟩ := served _ rfl _ rfl
        have received := receiveRequest_sent impl.config options clientAddress pieces request url
          (parseUrl_wellFormed _ url parsed) (writable.sendable defaults agent own) arrives
        rw [Impl.handleConnection,received] at segments
        have plain := dispatch_plain impl files (inboundOf options clientAddress request url) routes
        have agrees := fitting.agrees plain exchange.received segments
        simp only [reached,sent]
        rw [respond,HttpClient.blank] at agrees
        have same : exchange = { received := exchange.received } := by
          cases exchange
          simp_all
        rw [same,agrees]

/-- A chain of redirects over the wire is the same chain of calls: no hop is lost or added, and
the final response is the last handler's. -/
theorem perform_eq_call (network : Nat → Exchange) (remaining count : Nat) (request : HttpRequest)
    (own : ∀ item ∈ request.headers.items, GivenField item)
    (served : ∀ i hop, (call options impl files clientAddress remaining request).1[i]? = some hop →
      Served options impl files clientAddress hop (network (count + i))) :
    perform options network remaining count request = call options impl files clientAddress remaining request := by
  induction remaining generalizing count request with
  | zero =>
    have once := performOnce_eq_callOnce options impl files clientAddress defaults agent routes (network count) request own
      fun hop first => served 0 hop (by simp [call,Option.mem_def.mp first])
    simp only [perform,call,once]
  | succ remaining ih =>
    have once := performOnce_eq_callOnce options impl files clientAddress defaults agent routes (network count) request own
        fun hop first => by
      refine served 0 hop ?_
      simp only [call]
      split <;> simp [Option.mem_def.mp first]
    cases follows : (callOnce options impl files clientAddress request).1.bind fun hop =>
        (callOnce options impl files clientAddress request).2.bind (followUp options hop) with
    | none => simp only [perform,call,once,follows]
    | some next =>
      obtain ⟨hop,first,answered⟩ := Option.bind_eq_some_iff.mp follows
      obtain ⟨response,_,followed⟩ := Option.bind_eq_some_iff.mp answered
      have kept := followUp_given options hop response next followed
      rw [callOnce_request options impl files clientAddress request hop first] at kept
      have hops : (call options impl files clientAddress (remaining + 1) request).1 =
          hop :: (call options impl files clientAddress remaining next).1 := by
        simp only [call,follows]
        simp only [first,Option.toList_some,List.singleton_append]
      have rest := ih (count + 1) next (fun item member => own item (kept member)) fun i other found => by
        have later := served (i + 1) other (by simpa [hops] using found)
        rwa [Nat.add_comm i 1,← Nat.add_assoc] at later
      simp only [perform,call,once,follows,rest]

end

def moved : ServerResponse where
  status := 302
  headers := ⟨[(ascii "Location",ascii "/hello")]⟩

/-- A server that greets behind a redirect. -/
def greeter : Impl where
  routes := [{ method := ascii "GET", segments := [], handler := fun _ => some moved },
    { method := ascii "GET", segments := [ascii "hello"], handler := fun _ => some hello }]

def greeted (path : Bytes) : Hop where
  request := { url := ascii "http://h" ++ path }
  url := { scheme := ascii "http", host := ascii "h", port := 80, path }
  sent := some ⟨[(ascii "Host",ascii "h"),(ascii "User-Agent",ascii "TestForge/0.9"),(ascii "Accept",ascii "*/*"),
    (ascii "Connection",ascii "close")]⟩

def greeterAnswers (count : Nat) : Exchange where
  received :=
    let hop := greeted (if count = 0 then ascii "/" else ascii "/hello")
    [greeter.handleConnection (fun _ => none) [] [wire hop.request hop.url (hop.sent.getD {})]]

theorem perform_eq_call_greeter : perform {} greeterAnswers 5 0 { url := ascii "http://h/" } =
    call {} greeter (fun _ => none) [] 5 { url := ascii "http://h/" } := by
  have routes : ∀ route ∈ greeter.routes, ∀ inbound response, route.handler inbound = some response → response.Plain := by
    intro route member inbound response answered
    simp only [greeter,List.mem_cons,List.not_mem_nil,or_false] at member
    rcases member with rfl | rfl
    · obtain rfl := Option.some.inj answered
      exact ⟨by decide,by decide,by decide +kernel⟩
    · obtain rfl := Option.some.inj answered
      exact ⟨by decide,by decide,by decide +kernel⟩
  refine perform_eq_call {} greeter (fun _ => none) [] (by decide) (by decide) routes greeterAnswers 5 0 _ (by decide)
    fun i hop found => ?_
  have hops : (call {} greeter (fun _ => none) [] 5 { url := ascii "http://h/" }).1 =
      [greeted (ascii "/"),greeted (ascii "/hello")] := by decide +kernel
  rw [hops] at found
  rintro headers sent
  match i with
  | 0 | 1 =>
    obtain rfl := Option.some.inj found
    obtain rfl := Option.some.inj sent
    refine ⟨⟨by decide,by decide,by decide,by decide⟩,⟨by decide,by decide +kernel,by decide⟩,rfl,rfl,rfl,_,
      List.flatten_singleton,List.flatten_singleton,?_⟩
    decide +kernel
  | i + 2 => cases found

end TestForge
