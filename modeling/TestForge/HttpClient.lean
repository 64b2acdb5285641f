import TestForge.Chunked
import TestForge.HttpTypes
import TestForge.Url

/-! The HTTP client: one exchange, and the redirects that follow it. What the
network does with each hop is given by an `Exchange`. Timeouts appear only as
the errors with which an exchange may end. -/
namespace TestForge

open Sequence Strings Chunked

structure HttpClientOptions where
  maxResponseBytes : Nat := 8 * 1024 * 1024
  followRedirects : Bool := true
  maxRedirects : Int := 5
  defaultHeaders : HttpHeaders := {}
  policy : UrlPolicy := {}
  userAgent : Bytes := ascii "TestForge/0.9"

/-- The network's part in one hop. -/
structure Exchange where
  /-- Resolving or connecting failed: nothing was written. -/
  unreachable : Option Bytes := none
  /-- Sending failed, possibly after a part of the request was written. -/
  sendError : Option Bytes := none
  /-- The non-empty results of `recv`, in order. -/
  received : List Bytes := []
  /-- The error behind the last piece; `none` when the server closes. -/
  readError : Option Bytes := none

namespace HttpClient

def maxHeaderBytes : Nat := 64 * 1024

def headEnd : Bytes := crlf ++ crlf

/-- The merged header collection of one hop. -/
def mergedHeaders (options : HttpClientOptions) (request : HttpRequest) (url : Url) : HttpHeaders :=
  let headers := options.defaultHeaders.merge request.headers
  let headers := headers.set (ascii "Host") url.authority
  let headers := if headers.contains (ascii "User-Agent") then headers
    else headers.set (ascii "User-Agent") options.userAgent
  let headers := if headers.contains (ascii "Accept") then headers
    else headers.set (ascii "Accept") (ascii "*/*")
  let headers := headers.set (ascii "Connection") (ascii "close")
  if request.body ≠ [] ∨ request.method ∈ [ascii "POST",ascii "PUT",ascii "PATCH"] then
    headers.set (ascii "Content-Length") (decimal request.body.length)
  else headers

def requestLine (request : HttpRequest) (url : Url) : Bytes :=
  request.method ++ 32 :: url.requestTarget ++ ascii " HTTP/1.1" ++ crlf

def headerLine (item : Bytes × Bytes) : Bytes := item.1 ++ ascii ": " ++ item.2 ++ crlf

/-- The bytes written for one hop. -/
def wire (request : HttpRequest) (url : Url) (headers : HttpHeaders) : Bytes :=
  requestLine request url ++ headers.items.flatMap headerLine ++ crlf ++ request.body

/-- Reads until the blank line: the head, what was read behind it, and the pieces left. -/
def readHead (readError : Option Bytes) : List Bytes → Bytes → Except Bytes (Bytes × Bytes × List Bytes)
  | [], _ => .error (readError.getD
      (ascii "connection closed before the response headers were complete"))
  | piece :: later, raw =>
    match cutOn headEnd (raw ++ piece) with
    | some (head,behind) => .ok (head,behind,later)
    | none =>
      if (raw ++ piece).length > maxHeaderBytes then
        .error (ascii "response headers exceeded " ++ decimal maxHeaderBytes ++ ascii " bytes")
      else readHead readError later (raw ++ piece)

/-- Status code and text of a status line; the code is narrowed to 32 bits. -/
def parseStatusLine (line : Bytes) : Except Bytes (Int × Bytes) :=
  match cut 32 line with
  | none => .error (ascii "malformed status line: " ++ truncate line 120)
  | some (_,behind) =>
    let codeText := ((cut 32 behind).map (·.1)).getD behind
    match parseInt codeText with
    | none => .error (ascii "malformed status code: " ++ codeText)
    | some code =>
      let statusCode := code.bmod (2^32)
      .ok (statusCode,match cut 32 behind with
        | none => reasonPhrase statusCode
        | some (_,text) => trim text)

/-- The header grammar shared by client and server: lines without ':' are ignored. -/
def parseHeaderLine (line : Bytes) : Option (Bytes × Bytes) :=
  (cut 58 line).map fun parts => (trim parts.1,trim parts.2)

def parseHeaderLines (lines : List Bytes) : HttpHeaders := ⟨lines.filterMap parseHeaderLine⟩

/-- How the body of a response is delimited. -/
inductive Framing where
  | chunked
  | length (bytes : Nat)
  | untilClose
  deriving DecidableEq, Repr

def framing (headers : HttpHeaders) : Framing :=
  if equalsIgnoreCase (headers.getOr (ascii "Transfer-Encoding") []) (ascii "chunked") then .chunked
  else
    match (headers.get (ascii "Content-Length")).bind parseInt with
    | some length => if 0 ≤ length then .length length.toNat else .untilClose
    | none => .untilClose

inductive Body where
  | complete (body : Bytes)
  | truncated (body : Bytes)
  | failed (message : Bytes)
  /-- The chunked decoder does not return. -/
  | hangs
  deriving DecidableEq, Repr

/-- The body that is already complete in the buffer; the inner `none` asks for more. -/
def bodyOf (framing : Framing) (buffer : Bytes) : Option Body :=
  match framing with
  | .chunked =>
    match decodeChunked buffer with
    | none => some .hangs
    | some decoded =>
      if decoded.wellFormed = false then some (.failed (ascii "malformed chunked response body"))
      else if decoded.complete then some (.complete decoded.out)
      else none
  | .length bytes => if bytes ≤ buffer.length then some (.complete (buffer.take bytes)) else none
  | .untilClose => none

def readBody (maxResponseBytes : Nat) (framing : Framing) (readError : Option Bytes) :
    List Bytes → Bytes → Body
  | pieces, buffer =>
    match bodyOf framing buffer with
    | some body => body
    | none =>
      if buffer.length > maxResponseBytes then .truncated (buffer.take maxResponseBytes)
      else
        match pieces with
        | [] => match readError with
          | none => .complete buffer
          | some message => .failed message
        | piece :: later => readBody maxResponseBytes framing readError later (buffer ++ piece)

def failed (response : HttpResponse) (message : Bytes) : HttpResponse :=
  { response with transportError := true, errorMessage := message }

def bodyless (method : Bytes) (statusCode : Int) : Prop :=
  method = ascii "HEAD" ∨ statusCode = 204 ∨ statusCode = 304

instance (method : Bytes) (statusCode : Int) : Decidable (bodyless method statusCode) :=
  inferInstanceAs (Decidable (_ ∨ _))

/-- Receives and parses one response; `none` when the call never returns. -/
def receive (maxResponseBytes : Nat) (exchange : Exchange) (response : HttpResponse) :
    Option HttpResponse :=
  match readHead exchange.readError exchange.received [] with
  | .error message => some (failed response message)
  | .ok (head,behind,later) =>
    match splitLines head with
    | [] => some (failed response (ascii "empty response"))
    | statusLine :: lines =>
      match parseStatusLine statusLine with
      | .error message => some (failed response message)
      | .ok (statusCode,statusText) =>
        let response := { response with statusCode, statusText, headers := parseHeaderLines lines }
        if bodyless response.requestMethod statusCode then some response
        else
          match readBody maxResponseBytes (framing response.headers) exchange.readError later behind with
          | .complete body => some { response with body }
          | .truncated body => some { response with
              body, headers := response.headers.set (ascii "X-TestForge-Truncated") (ascii "true") }
          | .failed message => some (failed response message)
          | .hangs => none

/-- One hop whose URL parsed and passed the policy. `sent` holds the headers
once the client starts to write. -/
structure Hop where
  request : HttpRequest
  url : Url
  sent : Option HttpHeaders := none
  deriving DecidableEq, Repr

def httpsUnsupported : Bytes :=
  ascii "HTTPS is not supported by the built-in client (no TLS stack is linked). Point TestForge at an http:// " ++
    ascii "endpoint, or route the call through the Python AI sidecar."

/-- `perform` without its redirects. -/
def performOnce (options : HttpClientOptions) (exchange : Exchange) (request : HttpRequest) :
    Option Hop × Option HttpResponse :=
  let response : HttpResponse := { requestMethod := request.method, requestUrl := request.url }
  match parseUrl request.url with
  | none => (none,some (failed response (ascii "not a valid absolute http(s) URL: " ++ request.url)))
  | some url =>
    let rejection := options.policy.reject url
    if rejection ≠ [] then
      (none,some (failed response (ascii "request blocked by URL policy: " ++ rejection)))
    else if url.isHttps then (some { request, url },some (failed response httpsUnsupported))
    else
      match exchange.unreachable with
      | some message => (some { request, url },some (failed response message))
      | none =>
        let hop := { request, url, sent := some (mergedHeaders options request url) }
        match exchange.sendError with
        | some message => (some hop,some (failed response message))
        | none => (some hop,receive options.maxResponseBytes exchange response)

def isRedirect (statusCode : Int) : Bool := statusCode ∈ [301,302,303,307,308]

/-- What a `Location` refers to, seen from `url`. -/
def redirectTarget (url : Url) (location : Bytes) : Option Bytes :=
  if startsWith location (ascii "http://") || startsWith location (ascii "https://") then some location
  else if location.head? = some 47 then
    let (path,query) := (cut 63 location).getD (location,[])
    some ({ url with path, query, fragment := [] } : Url).toString
  else joinUrl url.toString location

def sameOrigin (url target : Url) : Bool :=
  target.scheme == url.scheme && equalsIgnoreCase target.host url.host && target.port == url.port

def credentialHeaders : List Bytes := [ascii "Authorization",ascii "Cookie",ascii "Proxy-Authorization"]

def stripCredentials (headers : HttpHeaders) : HttpHeaders :=
  credentialHeaders.foldl HttpHeaders.remove headers

/-- The copy of a request that a redirect continues with. Credentials do not cross
an origin boundary. -/
def redirected (hop : Hop) (next : Bytes) : HttpRequest :=
  if ((parseUrl next).map (sameOrigin hop.url)).getD false then { hop.request with url := next }
  else { hop.request with url := next, headers := stripCredentials hop.request.headers }

/-- 303, and 301/302 in practice, degrade to GET without a body. -/
def degrade (statusCode : Int) (request : HttpRequest) : HttpRequest :=
  if statusCode = 303 ∨ ((statusCode = 301 ∨ statusCode = 302) ∧
      request.method ≠ ascii "GET" ∧ request.method ≠ ascii "HEAD") then
    { request with method := ascii "GET", body := [] }
  else request

/-- The request that follows a redirect response, if one does. -/
def followUp (options : HttpClientOptions) (hop : Hop) (response : HttpResponse) : Option HttpRequest :=
  if options.followRedirects && !response.transportError && isRedirect response.statusCode then
    match response.headers.get (ascii "Location") with
    | none => none
    | some [] => none
    | some location =>
      (redirectTarget hop.url location).map fun next => degrade response.statusCode (redirected hop next)
  else none

/-- The hops of a whole chain and the final response. `network` gives what the
network does with each hop, counted from `count`. -/
def perform (options : HttpClientOptions) (network : Nat → Exchange) :
    Nat → Nat → HttpRequest → List Hop × Option HttpResponse
  | 0, count, request =>
    let (hop,response) := performOnce options (network count) request
    (hop.toList,response)
  | remaining + 1, count, request =>
    let (hop,response) := performOnce options (network count) request
    match hop.bind fun hop => response.bind (followUp options hop) with
    | none => (hop.toList,response)
    | some next =>
      let (later,final) := perform options network remaining (count + 1) next
      (hop.toList ++ later,final)

def send (options : HttpClientOptions) (network : Nat → Exchange) (request : HttpRequest) :
    List Hop × Option HttpResponse :=
  perform options network options.maxRedirects.toNat 0 request

end HttpClient
end TestForge
