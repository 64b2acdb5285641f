import TestForge.Transition
import TestForge.Strings

/-! Chunked transfer decoding with 64-bit positions. -/
namespace TestForge.Chunked

open Sequence Strings

/-- `std::size_t` arithmetic wraps at 2^64. -/
def sizeLimit : Nat := 2^64

def crlf : Bytes := [13,10]

def hexDigit (c : UInt8) : Option Nat :=
  if 48 ≤ c ∧ c ≤ 57 then some (c.toNat - 48)
  else if 97 ≤ c ∧ c ≤ 102 then some (c.toNat - 97 + 10)
  else if 65 ≤ c ∧ c ≤ 70 then some (c.toNat - 65 + 10)
  else none

/-- The digits of a size line, accumulated modulo 2^64; blanks are skipped. -/
def chunkDigits : Bytes → Nat → Option Nat
  | [], size => some size
  | c :: rest, size =>
    match hexDigit c with
    | some digit => chunkDigits rest ((size * 16 + digit) % sizeLimit)
    | none => if c = 32 ∨ c = 9 then chunkDigits rest size else none

def chunkSize (line : Bytes) : Option Nat :=
  let line := ((cut 59 line).map (·.1)).getD line
  if line = [] then none else chunkDigits line 0

def sizeLine (raw : Bytes) (pos : Nat) : Option Bytes :=
  (cutOn crlf (raw.drop pos)).map (·.1)

inductive Iteration where
  /-- The function returns; `complete` is its third result. -/
  | returns (wellFormed complete : Bool)
  /-- `count` bytes from `offset` are appended and the loop goes on at `next`. -/
  | continues (offset count next : Nat)
  deriving DecidableEq, Repr

def iterate (raw : Bytes) (pos : Nat) : Iteration :=
  match sizeLine raw pos with
  | none => .returns true false
  | some line =>
    match chunkSize line with
    | none => .returns false false
    | some size =>
      let dataStart := (pos + line.length + 2) % sizeLimit
      if size = 0 then .returns true true
      else
        let next := (dataStart + size + 2) % sizeLimit
        if next > raw.length then .returns true false else .continues dataStart size next

/-- `string_view::substr` clamps the count. -/
def substr (raw : Bytes) (offset count : Nat) : Bytes := (raw.drop offset).take count

structure Decoded where
  wellFormed : Bool
  complete : Bool
  out : Bytes
  deriving DecidableEq, Repr

/-- The loop, for at most `fuel` passes; `none` when it is still running. -/
def decodeLoop (raw : Bytes) : Nat → Nat → Bytes → Option Decoded
  | 0, _, _ => none
  | fuel + 1, pos, out =>
    if pos < raw.length then
      match iterate raw pos with
      | .returns wellFormed complete => some ⟨wellFormed,complete,out⟩
      | .continues offset count next => decodeLoop raw fuel next (out ++ substr raw offset count)
    else some ⟨true,false,out⟩

/-- `none` stands for a call that has not returned after one pass per input byte. -/
def decodeChunked (raw : Bytes) : Option Decoded := decodeLoop raw (raw.length + 1) 0 []

structure Cursor where
  pos : Nat := 0
  out : Bytes := []

/-- The loop as a transition function; no step from a cursor where it returns. -/
def step (raw : Bytes) (_ : Unit) (cursor : Cursor) : Option Cursor :=
  if cursor.pos < raw.length then
    match iterate raw cursor.pos with
    | .returns _ _ => none
    | .continues offset count next => some ⟨next,cursor.out ++ substr raw offset count⟩
  else none

end TestForge.Chunked
