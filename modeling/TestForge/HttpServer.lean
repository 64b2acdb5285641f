import TestForge.HttpClient

/-! How the server reads the head of a request. Receiving, the size limit and the
body are left out: the text given is one that holds a whole head. -/
namespace TestForge.HttpServer

open Sequence Strings Chunked HttpClient

structure ServerRequest where
  method : Bytes
  path : Bytes
  query : Bytes := []
  headers : HttpHeaders := {}
  deriving DecidableEq, Repr

def hexValue (c : UInt8) : Option Nat :=
  if 48 ≤ c ∧ c ≤ 57 then some (c.toNat - 48)
  else if 97 ≤ c ∧ c ≤ 102 then some (c.toNat - 97 + 10)
  else if 65 ≤ c ∧ c ≤ 70 then some (c.toNat - 65 + 10)
  else none

/-- Percent escapes and '+'; an escape that is not two hex digits stays as it is. -/
def urlDecode : Bytes → Bytes
  | [] => []
  | 43 :: rest => 32 :: urlDecode rest
  | 37 :: a :: b :: rest =>
    match hexValue a,hexValue b with
    | some high,some low => UInt8.ofNat (16 * high + low) :: urlDecode rest
    | _,_ => 37 :: urlDecode (a :: b :: rest)
  | c :: rest => c :: urlDecode rest

/-- Method, path and query of a request line. -/
def parseRequestLine (line : Bytes) : Option ServerRequest :=
  match split line 32 true with
  | method :: target :: _ =>
    let (path,query) := (cut 63 target).getD (target,[])
    some { method := toUpper method, path := urlDecode path, query }
  | _ => none

def parseHead (raw : Bytes) : Option ServerRequest :=
  match cutOn headEnd raw with
  | none => none
  | some (head,_) =>
    match splitLines head with
    | [] => none
    | first :: lines =>
      (parseRequestLine first).map fun request =>
        { request with headers := parseHeaderLines lines }

end TestForge.HttpServer
