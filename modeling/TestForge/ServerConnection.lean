import TestForge.Config
import TestForge.HttpServer
import TestForge.JsonDump

/-! One connection of the HTTP server: the request is received, routed and answered. What
arrives is given as the results of `recv`; behind the last one the peer closes or the
receive times out. Logging and the socket options are left out. -/
namespace TestForge.HttpServer

open Json Sequence Strings Chunked HttpClient Settings

/-- The request a handler is given. -/
structure Inbound extends ServerRequest where
  body : Bytes := []
  clientAddress : Bytes := []
  pathParameters : List (Bytes × Bytes) := []
  deriving DecidableEq, Repr

structure ServerResponse where
  status : Int := 200
  headers : HttpHeaders := {}
  body : Bytes := []
  deriving DecidableEq, Repr

namespace ServerResponse

def json (status : Int) (payload : Value) : ServerResponse where
  status
  body := payload.dumpInto 2 0
  headers := ({} : HttpHeaders).set (ascii "Content-Type") (ascii "application/json; charset=utf-8")

def error (status : Int) (message : Bytes) (code : Bytes := []) : ServerResponse :=
  json status (.object [(ascii "error",.object [
    (ascii "code",.string (if code = [] then reasonPhrase status else code)),
    (ascii "message",.string message),
    (ascii "status",.int status)])])

end ServerResponse

/-- A handler that throws gives no response. -/
abbrev Handler := Inbound → Option ServerResponse

structure Route where
  method : Bytes
  /-- A segment that starts with ':' is a capture. -/
  segments : List Bytes
  handler : Handler

structure Impl where
  config : ServerConfig := {}
  routes : List Route := []
  staticDirectory : Bytes := []
  staticPrefix : Bytes := ascii "/"

/-! ### Routing -/

def pathSegments (path : Bytes) : List Bytes := split path 47 true

/-- `map[name] = segment`. -/
def assign (captured : List (Bytes × Bytes)) (name segment : Bytes) : List (Bytes × Bytes) :=
  captured.filter (·.1 ≠ name) ++ [(name,segment)]

def capture : List Bytes → List Bytes → List (Bytes × Bytes) → Option (List (Bytes × Bytes))
  | [],[],captured => some captured
  | (58 :: name) :: patterns,segment :: segments,captured =>
    capture patterns segments (assign captured name segment)
  | pattern :: patterns,segment :: segments,captured =>
    if pattern = segment then capture patterns segments captured else none
  | _,_,_ => none

inductive Match where
  | route (route : Route) (parameters : List (Bytes × Bytes))
  | methodNotAllowed
  | nothing

def Route.fits (route : Route) (path : Bytes) : Option (List (Bytes × Bytes)) :=
  capture route.segments (pathSegments path) []

def Impl.match (impl : Impl) (method path : Bytes) : Match :=
  let fitting := impl.routes.filterMap fun route => (route.fits path).map (route,·)
  match fitting.find? (·.1.method = method) with
  | some (route,parameters) => .route route parameters
  | none => if fitting.isEmpty then .nothing else .methodNotAllowed

/-- Registration replaces a route of the same method and pattern. -/
def Impl.route (impl : Impl) (method pattern : Bytes) (handler : Handler) : Impl :=
  let entry : Route := { method := toUpper method, segments := pathSegments pattern, handler }
  let same (route : Route) := route.method == entry.method && route.segments == entry.segments
  match impl.routes.findIdx? same with
  | some i => { impl with routes := impl.routes.modify i fun route => { route with handler } }
  | none => { impl with routes := impl.routes ++ [entry] }

/-! ### Static files -/

def mimeTypes : List (List Bytes × Bytes) := [
  ([ascii ".html",ascii ".htm"],ascii "text/html; charset=utf-8"),
  ([ascii ".css"],ascii "text/css; charset=utf-8"),
  ([ascii ".js",ascii ".mjs"],ascii "application/javascript; charset=utf-8"),
  ([ascii ".json"],ascii "application/json"),
  ([ascii ".svg"],ascii "image/svg+xml"),
  ([ascii ".png"],ascii "image/png"),
  ([ascii ".jpg",ascii ".jpeg"],ascii "image/jpeg"),
  ([ascii ".ico"],ascii "image/x-icon"),
  ([ascii ".woff2"],ascii "font/woff2"),
  ([ascii ".txt",ascii ".log"],ascii "text/plain; charset=utf-8"),
  ([ascii ".xml"],ascii "application/xml")]

def mimeTypeFor (path : Bytes) : Bytes :=
  ((mimeTypes.find? fun entry => entry.1.any (·.isSuffixOf path)).map (·.2)).getD (ascii "application/octet-stream")

def isSafeRelativePath (path : Bytes) : Bool :=
  if path = [] ∨ path.head? = some 47 ∨ 0 ∈ path ∨ 92 ∈ path then false
  else (split path 47 true).all fun segment => segment ≠ ascii ".." ∧ segment ≠ ascii "."

/-- What the static handler does with a request before it looks at the file system. -/
inductive StaticTarget where
  | declined
  | invalid
  | file (relative full : Bytes)
  deriving DecidableEq, Repr

/-- The path without the served prefix and without slashes in front. -/
def Impl.relativePath (impl : Impl) (path : Bytes) : Bytes :=
  let relative := if impl.staticPrefix ≠ [] ∧ impl.staticPrefix ≠ ascii "/" ∧ startsWith path impl.staticPrefix
    then path.drop impl.staticPrefix.length else path
  let relative := relative.dropWhile (· == 47)
  if relative = [] then ascii "index.html" else relative

def Impl.staticTarget (impl : Impl) (request : ServerRequest) : StaticTarget :=
  if impl.staticDirectory = [] ∨ (request.method ≠ ascii "GET" ∧ request.method ≠ ascii "HEAD") then .declined
  else
    let relative := impl.relativePath request.path
    if isSafeRelativePath relative = false then .invalid
    else
      let directory := if impl.staticDirectory.getLast? = some 47 then impl.staticDirectory
        else impl.staticDirectory ++ [47]
      .file relative (directory ++ relative)

/-- The content of every regular file that can be opened. -/
abbrev Files := Bytes → Option Bytes

def Impl.serveStatic (impl : Impl) (files : Files) (request : ServerRequest) : Option ServerResponse :=
  match impl.staticTarget request with
  | .declined => none
  | .invalid => some (.error 400 (ascii "invalid path") (ascii "INVALID_PATH"))
  | .file relative full =>
    (files full).map fun body => {
      body
      headers := (({} : HttpHeaders).set (ascii "Content-Type") (mimeTypeFor relative)).set
        (ascii "Cache-Control") (ascii "no-cache") }

/-! ### Receiving -/

/-- `static_cast<std::size_t>` of the configured limit. -/
def maxRequest (config : ServerConfig) : Nat := config.maxRequestBytes.toUInt64.toNat

inductive Head where
  /-- The client vanished or timed out. -/
  | vanished
  | tooLarge
  /-- What stands in front of the blank line and behind it, and the pieces left. -/
  | complete (head behind : Bytes) (later : List Bytes)
  deriving DecidableEq, Repr

def readHead (limit : Nat) : List Bytes → Bytes → Head
  | [], _ => .vanished
  | piece :: later, raw =>
    if (raw ++ piece).length > limit then .tooLarge
    else
      match cutOn headEnd (raw ++ piece) with
      | some (head,behind) => .complete head behind later
      | none => readHead limit later (raw ++ piece)

/-- The request of a head; nothing when there is no request line with two words. -/
def requestOf (head : Bytes) : Option ServerRequest :=
  match splitLines head with
  | [] => none
  | first :: lines => (parseRequestLine first).map fun request => { request with headers := parseHeaderLines lines }

def unsupportedEncoding (headers : HttpHeaders) : Bool :=
  match headers.get (ascii "Transfer-Encoding") with
  | none => false
  | some encoding => trim encoding != [] && !equalsIgnoreCase (trim encoding) (ascii "identity")

/-- A length that is no number, or negative, counts as zero. -/
def contentLength (headers : HttpHeaders) : Nat :=
  (((headers.get (ascii "Content-Length")).bind parseInt).getD 0).toNat

/-- Appends pieces until there are `length` bytes or no more pieces. -/
def readBody (length : Nat) : List Bytes → Bytes → Bytes
  | [], body => body
  | piece :: later, body => if body.length < length then readBody length later (body ++ piece) else body

/-- How a connection ends before there is a request to dispatch. -/
inductive Refusal where
  | closed
  | headTooLarge
  | unsupportedEncoding
  | bodyTooLarge
  deriving DecidableEq, Repr

/-- Receives one request. -/
def receiveRequest (config : ServerConfig) (clientAddress : Bytes) (pieces : List Bytes) : Except Refusal Inbound :=
  match readHead (maxRequest config) pieces [] with
  | .vanished => .error .closed
  | .tooLarge => .error .headTooLarge
  | .complete head behind later =>
    match requestOf head with
    | none => .error .closed
    | some request =>
      if unsupportedEncoding request.headers then .error .unsupportedEncoding
      else
        let length := contentLength request.headers
        if (length : Int) > config.maxRequestBytes.toInt then .error .bodyTooLarge
        else .ok { request with body := (readBody length later behind).take length, clientAddress }

/-! ### Answering -/

/-- A fixed answer, sent before there is a request. -/
def refusalText (statusLine : Bytes) (response : ServerResponse) : Bytes :=
  ascii "HTTP/1.1 " ++ statusLine ++ crlf ++ ascii "Content-Length: " ++ decimal response.body.length ++ crlf ++
    ascii "Content-Type: application/json" ++ crlf ++ ascii "Connection: close" ++ headEnd ++ response.body

def Refusal.answer : Refusal → Bytes
  | .closed => []
  | .headTooLarge => refusalText (ascii "413 Payload Too Large")
    (.error 413 (ascii "request exceeds the configured size limit"))
  | .unsupportedEncoding => refusalText (ascii "400 Bad Request")
    (.error 400 (ascii "chunked request bodies are not supported; send a Content-Length instead")
      (ascii "UNSUPPORTED_TRANSFER_ENCODING"))
  | .bodyTooLarge => refusalText (ascii "413 Payload Too Large") (.error 413 (ascii "request body is too large"))

/-- The handler that is called, with the request it is given. -/
def Impl.handler (impl : Impl) (request : Inbound) : Option (Handler × Inbound) :=
  match impl.match request.method request.path with
  | .route route parameters => some (route.handler,{ request with pathParameters := parameters })
  | _ => none

def Impl.dispatch (impl : Impl) (files : Files) (request : Inbound) : ServerResponse :=
  match impl.handler request with
  | some (handler,request) => (handler request).getD (.error 500 (ascii "internal error handling the request"))
  | none =>
    match impl.serveStatic files request.toServerRequest with
    | some response => response
    | none =>
      match impl.match request.method request.path with
      | .methodNotAllowed => .error 405 (ascii "method " ++ request.method ++ ascii " is not allowed for " ++ request.path)
      | _ => .error 404 (ascii "no route for " ++ request.method ++ ascii " " ++ request.path)

def finishedHeaders (response : ServerResponse) : HttpHeaders :=
  let headers := response.headers.set (ascii "Content-Length") (decimal response.body.length)
  let headers := headers.set (ascii "Connection") (ascii "close")
  let headers := if headers.contains (ascii "Content-Type") then headers
    else headers.set (ascii "Content-Type") (ascii "application/json; charset=utf-8")
  let headers := headers.set (ascii "Access-Control-Allow-Origin") (ascii "*")
  headers.set (ascii "X-Content-Type-Options") (ascii "nosniff")

def responseText (method : Bytes) (response : ServerResponse) : Bytes :=
  ascii "HTTP/1.1 " ++ decimalInt response.status ++ 32 :: reasonPhrase response.status ++ crlf ++
    (finishedHeaders response).items.flatMap headerLine ++ crlf ++
      if method = ascii "HEAD" then [] else response.body

/-- What is sent on a connection. -/
def Impl.handleConnection (impl : Impl) (files : Files) (clientAddress : Bytes) (pieces : List Bytes) : Bytes :=
  match receiveRequest impl.config clientAddress pieces with
  | .error refusal => refusal.answer
  | .ok request => responseText request.method (impl.dispatch files request)

/-- The call of a route handler that a connection leads to. -/
def Impl.invocation (impl : Impl) (clientAddress : Bytes) (pieces : List Bytes) : Option (Handler × Inbound) :=
  (receiveRequest impl.config clientAddress pieces).toOption.bind impl.handler

end TestForge.HttpServer
