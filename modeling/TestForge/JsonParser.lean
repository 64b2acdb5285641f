import TestForge.Reading
import TestForge.Json

/-! The JSON parser. The text still to be read stands for the position in it. -/
namespace TestForge.Json

open Strings Reading

structure ParseLimits where
  maxDepth : Nat := 64
  maxLength : Nat := 16 * 1024 * 1024

structure ParseError where
  what : Bytes
  offset : Nat
  line : Nat
  column : Nat

/-- What went wrong and what is left of the text there. -/
structure Failure where
  message : Bytes
  rest : Bytes

abbrev Parser (α : Type) := Reader UInt8 Failure α

def fail (message : Bytes) (rest : Bytes) : Except Failure α := .error ⟨message,rest⟩

/-- For a loop that has run out of turns, which never happens. -/
def unread (rest : Bytes) : Failure := ⟨[],rest⟩

def isBlank (c : UInt8) : Bool := c == 32 || c == 9 || c == 10 || c == 13

def skipWhitespace (rest : Bytes) : Bytes := rest.dropWhile isBlank

def expect (c : UInt8) : Bytes → Except Failure Bytes
  | first :: rest =>
    if first = c then .ok rest else fail (ascii "expected '" ++ c :: ascii "'") (first :: rest)
  | [] => fail (ascii "expected '" ++ c :: ascii "'") []

def consumeLiteral (literal : Bytes) (value : Value) : Parser Value := fun rest =>
  if startsWith rest literal then .ok (value,rest.drop literal.length)
  else fail (ascii "invalid literal") rest

/-- A lone surrogate becomes U+FFFD. -/
def appendUtf8 (cp : Nat) : Bytes :=
  let cp := if 0xD800 ≤ cp ∧ cp ≤ 0xDFFF then 0xFFFD else cp
  if cp ≤ 0x7F then [UInt8.ofNat cp]
  else if cp ≤ 0x7FF then [UInt8.ofNat (0xC0 ||| cp >>> 6),UInt8.ofNat (0x80 ||| cp &&& 0x3F)]
  else if cp ≤ 0xFFFF then
    [UInt8.ofNat (0xE0 ||| cp >>> 12),UInt8.ofNat (0x80 ||| (cp >>> 6) &&& 0x3F),
      UInt8.ofNat (0x80 ||| cp &&& 0x3F)]
  else
    [UInt8.ofNat (0xF0 ||| cp >>> 18),UInt8.ofNat (0x80 ||| (cp >>> 12) &&& 0x3F),
      UInt8.ofNat (0x80 ||| (cp >>> 6) &&& 0x3F),UInt8.ofNat (0x80 ||| cp &&& 0x3F)]

def hexDigit (c : UInt8) : Option Nat :=
  if 48 ≤ c ∧ c ≤ 57 then some (c.toNat - 48)
  else if 97 ≤ c ∧ c ≤ 102 then some (c.toNat - 97 + 10)
  else if 65 ≤ c ∧ c ≤ 70 then some (c.toNat - 65 + 10)
  else none

def hexDigits (value : Nat) : Nat → Parser Nat
  | 0, rest => .ok (value,rest)
  | _ + 1, [] => fail (ascii "truncated \\u escape") []
  | count + 1, c :: rest =>
    match hexDigit c with
    | some digit => hexDigits (16 * value + digit) count rest
    | none => fail (ascii "invalid hex digit in \\u escape") rest

def parseHex4 : Parser Nat := fun rest =>
  if rest.length < 4 then fail (ascii "truncated \\u escape") rest else hexDigits 0 4 rest

def isHighSurrogate (cp : Nat) : Bool := 0xD800 ≤ cp && cp ≤ 0xDBFF
def isLowSurrogate (cp : Nat) : Bool := 0xDC00 ≤ cp && cp ≤ 0xDFFF

/-- What follows `\u`. A second escape that does not complete a pair is put back. -/
def parseCodePoint : Parser Nat := fun rest =>
  match parseHex4 rest with
  | .error failure => .error failure
  | .ok (cp,rest) =>
    match isHighSurrogate cp,rest with
    | true,92 :: 117 :: behind =>
      match parseHex4 behind with
      | .error failure => .error failure
      | .ok (low,after) =>
        if isLowSurrogate low then .ok (0x10000 + (cp - 0xD800) * 1024 + (low - 0xDC00),after)
        else .ok (cp,rest)
    | _,_ => .ok (cp,rest)

/-- The escapes of one character after the backslash. -/
def unescape (c : UInt8) : Option UInt8 :=
  if c = 34 then some 34
  else if c = 92 then some 92
  else if c = 47 then some 47
  else if c = 98 then some 8
  else if c = 102 then some 12
  else if c = 110 then some 10
  else if c = 114 then some 13
  else if c = 116 then some 9
  else none

/-- One turn of the loop of `parseString`: the bytes it appends, and whether the
literal goes on. -/
def stringTurn : Parser (Bytes × Bool)
  | [] => fail (ascii "unterminated string") []
  | 34 :: rest => .ok (([],false),rest)
  | 92 :: [] => fail (ascii "unterminated escape sequence") []
  | 92 :: 117 :: rest =>
    match parseCodePoint rest with
    | .error failure => .error failure
    | .ok (cp,rest) => .ok ((appendUtf8 cp,true),rest)
  | 92 :: c :: rest =>
    match unescape c with
    | some byte => .ok (([byte],true),rest)
    | none => fail (ascii "invalid escape sequence") rest
  | c :: rest =>
    if c < 32 then fail (ascii "unescaped control character in string") (c :: rest)
    else .ok (([c],true),rest)

/-- What stands behind the opening quote. -/
def parseString : Parser Bytes := fun rest =>
  match readItems unread stringTurn rest with
  | .error failure => .error failure
  | .ok (pieces,rest) => .ok (pieces.flatten,rest)

def scanWhole : Bytes → Except Failure Bytes
  | [] => fail (ascii "truncated number") []
  | 48 :: rest => .ok rest
  | c :: rest =>
    if 49 ≤ c ∧ c ≤ 57 then .ok (rest.dropWhile isDigit) else fail (ascii "invalid number") (c :: rest)

def scanDigits (message : Bytes) (rest : Bytes) : Except Failure Bytes :=
  match rest with
  | [] => fail message []
  | c :: behind => if isDigit c then .ok (behind.dropWhile isDigit) else fail message (c :: behind)

/-- With whether there is a fraction. -/
def scanFraction : Parser Bool
  | 46 :: rest =>
    match scanDigits (ascii "expected digit after decimal point") rest with
    | .error failure => .error failure
    | .ok rest => .ok (true,rest)
  | rest => .ok (false,rest)

def skipExponentSign : Bytes → Bytes
  | 43 :: rest => rest
  | 45 :: rest => rest
  | rest => rest

/-- With whether there is an exponent. -/
def scanExponent : Parser Bool
  | [] => .ok (false,[])
  | c :: rest =>
    if c = 101 ∨ c = 69 then
      match scanDigits (ascii "expected digit in exponent") (skipExponentSign rest) with
      | .error failure => .error failure
      | .ok rest => .ok (true,rest)
    else .ok (false,c :: rest)

def inInt64 (z : Int) : Bool := -2^63 ≤ z && z < 2^63

/-- `errno` is `ERANGE` exactly when the value does not fit. -/
def numberOf (literal : Bytes) (isDouble : Bool) : Value :=
  let (parsed,behind) := strtoll literal
  if !isDouble && inInt64 parsed && behind.isEmpty then .int parsed else .double (.strtod literal)

def skipMinus : Bytes → Bytes
  | 45 :: rest => rest
  | rest => rest

def parseNumber : Parser Value := fun start =>
  match scanWhole (skipMinus start) with
  | .error failure => .error failure
  | .ok rest =>
    match scanFraction rest with
    | .error failure => .error failure
    | .ok (fraction,rest) =>
      match scanExponent rest with
      | .error failure => .error failure
      | .ok (exponent,rest) =>
        .ok (numberOf (start.take (start.length - rest.length)) (fraction || exponent),rest)

/-- What follows an item of a container: another one, or its end. -/
def separator (closing : UInt8) (message : Bytes) (rest : Bytes) : Except Failure (Bool × Bytes) :=
  match rest with
  | [] => fail message []
  | c :: behind =>
    if c = 44 then .ok (true,behind)
    else if c = closing then .ok (false,behind)
    else fail message (c :: behind)

def itemTurn (element : Parser Value) : Parser (Value × Bool) := fun rest => do
  let (item,rest) ← element (skipWhitespace rest)
  let (again,rest) ← separator 93 (ascii "expected ',' or ']' in array") (skipWhitespace rest)
  return ((item,again),rest)

/-- What stands behind the opening bracket; `element` reads a value one level down. -/
def parseArray (element : Parser Value) : Parser Value := fun rest =>
  match skipWhitespace rest with
  | 93 :: behind => .ok (.array [],behind)
  | behind =>
    match readItems unread (itemTurn element) behind with
    | .error failure => .error failure
    | .ok (items,rest) => .ok (.array items,rest)

def parseKey : Parser Bytes
  | 34 :: rest => parseString rest
  | rest => fail (ascii "expected string key in object") rest

def memberTurn (element : Parser Value) : Parser ((Bytes × Value) × Bool) := fun rest => do
  let (key,rest) ← parseKey (skipWhitespace rest)
  let rest ← expect 58 (skipWhitespace rest)
  let (value,rest) ← element (skipWhitespace rest)
  let (again,rest) ← separator 125 (ascii "expected ',' or '\x7d' in object") (skipWhitespace rest)
  return (((key,value),again),rest)

/-- What stands behind the opening brace. -/
def parseObject (element : Parser Value) : Parser Value := fun rest =>
  match skipWhitespace rest with
  | 125 :: behind => .ok (.object [],behind)
  | behind =>
    match readItems unread (memberTurn element) behind with
    | .error failure => .error failure
    | .ok (members,rest) => .ok (.objectOf members,rest)

/-- `levels` counts down what `depth` counts up: it is zero when `depth` has passed
`maxDepth`. -/
def parseValue : Nat → Parser Value
  | 0, rest => fail (ascii "maximum nesting depth exceeded") rest
  | _ + 1, [] => fail (ascii "unexpected end of input") []
  | levels + 1, c :: rest =>
    if c = 110 then consumeLiteral (ascii "null") .null (c :: rest)
    else if c = 116 then consumeLiteral (ascii "true") (.bool true) (c :: rest)
    else if c = 102 then consumeLiteral (ascii "false") (.bool false) (c :: rest)
    else if c = 34 then
      match parseString rest with
      | .error failure => .error failure
      | .ok (text,rest) => .ok (.string text,rest)
    else if c = 91 then parseArray (parseValue levels) rest
    else if c = 123 then parseObject (parseValue levels) rest
    else parseNumber (c :: rest)

def parseDocument (limits : ParseLimits) (text : Bytes) : Except Failure Value :=
  match parseValue (limits.maxDepth + 1) (skipWhitespace text) with
  | .error failure => .error failure
  | .ok (result,rest) =>
    match skipWhitespace rest with
    | [] => .ok result
    | behind => fail (ascii "trailing characters after top-level value") behind

/-- The line and the column behind the bytes read. -/
def position (read : Bytes) : Nat × Nat :=
  read.foldl (fun (line,column) (c : UInt8) => if c = 10 then (line + 1,1) else (line,column + 1)) (1,1)

def formatParseError (message : Bytes) (line column : Nat) : Bytes :=
  ascii "JSON parse error at line " ++ decimal line ++ ascii ", column " ++ decimal column ++
    ascii ": " ++ message

def parse (limits : ParseLimits) (text : Bytes) : Except ParseError Value :=
  if text.length > limits.maxLength then
    .error ⟨formatParseError (ascii "document exceeds maximum length") 1 1,0,1,1⟩
  else
    match parseDocument limits text with
    | .ok value => .ok value
    | .error failure =>
      let offset := text.length - failure.rest.length
      let (line,column) := position (text.take offset)
      .error ⟨formatParseError failure.message line column,offset,line,column⟩

/-- `tryParse` without its error text. -/
def tryParse (limits : ParseLimits) (text : Bytes) : Option Value := (parse limits text).toOption

end TestForge.Json
