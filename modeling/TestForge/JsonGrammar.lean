import TestForge.JsonParser
import Mathlib.Data.List.Dedup

/-! The RFC 8259 grammar on bytes: syntax trees, the texts that spell them and the
values they denote. -/
namespace TestForge.Json

open Strings

/-- Each escape of one character with the byte it stands for. -/
def shortEscapes : List (UInt8 × UInt8) :=
  [(34,34),(92,92),(47,47),(98,8),(102,12),(110,10),(114,13),(116,9)]

abbrev HexDigit := {c : UInt8 // (hexDigit c).isSome = true}

def HexDigit.value (digit : HexDigit) : Nat := (hexDigit digit.1).get digit.2

/-- An element of a string literal. -/
inductive StringUnit where
  | plain (c : UInt8) (allowed : 32 ≤ c ∧ c ≠ 34 ∧ c ≠ 92)
  | short (letter byte : UInt8) (known : (letter,byte) ∈ shortEscapes)
  | code (a b c d : HexDigit)

namespace StringUnit

def text : StringUnit → Bytes
  | plain c _ => [c]
  | short letter _ _ => [92,letter]
  | code a b c d => [92,117,a.1,b.1,c.1,d.1]

/-- The UTF-16 code unit of a `\u` escape. -/
def codeUnit : StringUnit → Option Nat
  | code a b c d => some (4096 * a.value + 256 * b.value + 16 * c.value + d.value)
  | _ => none

/-- UTF-8, with U+FFFD for what is no code point. -/
def utf8 (cp : Nat) : Bytes :=
  String.utf8EncodeChar (if cp.isValidChar then Char.ofNat cp else Char.ofNat 0xFFFD)

/-- What the element stands for when it is not half of a pair. -/
def bytes : StringUnit → Bytes
  | plain c _ => [c]
  | short _ byte _ => [byte]
  | unit@(code _ _ _ _) => utf8 (unit.codeUnit.getD 0)

/-- The code point of a surrogate pair. -/
def pair (first second : StringUnit) : Option Nat :=
  match first.codeUnit,second.codeUnit with
  | some high,some low =>
    if 0xD800 ≤ high ∧ high < 0xDC00 ∧ 0xDC00 ≤ low ∧ low < 0xE000 then
      some (0x10000 + 1024 * (high - 0xD800) + (low - 0xDC00))
    else none
  | _,_ => none

def denote : List StringUnit → Bytes
  | [] => []
  | [unit] => unit.bytes
  | unit :: next :: rest =>
    match pair unit next with
    | some cp => utf8 cp ++ denote rest
    | none => unit.bytes ++ denote (next :: rest)

/-- The literal with its quotes. -/
def literal (units : List StringUnit) : Bytes := 34 :: units.flatMap text ++ [34]

end StringUnit

structure Digits where
  text : Bytes
  nonempty : text ≠ []
  numeric : ∀ c ∈ text, isDigit c = true

structure Exponent where
  marker : UInt8
  /-- `-` or `+`, when there is a sign. -/
  sign : Option UInt8
  digits : Digits
  markers : marker = 101 ∨ marker = 69
  signs : ∀ c ∈ sign, c = 45 ∨ c = 43

structure Numeral where
  negative : Bool
  whole : Digits
  fraction : Option Digits
  exponent : Option Exponent
  plainWhole : whole.text.head? = some 48 → whole.text = [48]

namespace Exponent

def text (e : Exponent) : Bytes := e.marker :: e.sign.toList ++ e.digits.text

def value (e : Exponent) : Int :=
  if e.sign = some 45 then -(digitsValue e.digits.text) else digitsValue e.digits.text

end Exponent

namespace Numeral

def places (n : Numeral) : Bytes := (n.fraction.map Digits.text).getD []

def text (n : Numeral) : Bytes :=
  (if n.negative then [45] else []) ++ n.whole.text ++
    (n.fraction.elim [] fun digits => 46 :: digits.text) ++ n.exponent.elim [] Exponent.text

/-- The power of ten behind all the digits read as one integer. -/
def scale (n : Numeral) : Int := (n.exponent.elim 0 Exponent.value) - n.places.length

def toDouble (n : Numeral) : Double :=
  .ofRatio n.negative (digitsValue (n.whole.text ++ n.places) * 10^n.scale.toNat) (10^(-n.scale).toNat)

def toInt (n : Numeral) : Int :=
  if n.negative then -(digitsValue n.whole.text) else digitsValue n.whole.text

def isInteger (n : Numeral) : Bool := n.fraction.isNone && n.exponent.isNone

def value (n : Numeral) : Value :=
  if n.isInteger ∧ -2^63 ≤ n.toInt ∧ n.toInt < 2^63 then .int n.toInt else .double n.toDouble

end Numeral

inductive Node where
  | null
  | bool (value : Bool)
  | number (numeral : Numeral)
  | string (units : List StringUnit)
  | array (items : List Node)
  | object (members : List (List StringUnit × Node))

/-- Each key where it first appears, with the member that has it last. -/
def lastWins (members : List (Bytes × Value)) : List (Bytes × Value) :=
  (members.map (·.1)).reverse.dedup.reverse.filterMap fun key => members.reverse.find? (·.1 = key)

namespace Node

mutual
def value : Node → Value
  | .null => .null
  | .bool value => .bool value
  | .number numeral => numeral.value
  | .string units => .string (StringUnit.denote units)
  | .array items => .array (itemValues items)
  | .object members => .object (lastWins (memberValues members))

def itemValues : List Node → List Value
  | [] => []
  | item :: rest => item.value :: itemValues rest

def memberValues : List (List StringUnit × Node) → List (Bytes × Value)
  | [] => []
  | (key,node) :: rest => (StringUnit.denote key,node.value) :: memberValues rest
end

mutual
/-- The most containers a value of the text is enclosed in. -/
def depth : Node → Nat
  | .array items => itemDepth items
  | .object members => memberDepth members
  | _ => 0

def itemDepth : List Node → Nat
  | [] => 0
  | item :: rest => max (item.depth + 1) (itemDepth rest)

def memberDepth : List (List StringUnit × Node) → Nat
  | [] => 0
  | (_,node) :: rest => max (node.depth + 1) (memberDepth rest)
end

end Node

def Blank (text : Bytes) : Prop := ∀ c ∈ text, isBlank c = true

/-- Items with whitespace around them and commas between them. -/
inductive Separated (spells : α → Bytes → Prop) : List α → Bytes → Prop where
  | last : Blank before → spells item text → Blank after →
      Separated spells [item] (before ++ text ++ after)
  | more : Blank before → spells item text → Blank after → Separated spells items others →
      Separated spells (item :: items) (before ++ text ++ after ++ 44 :: others)

inductive Member (spells : Node → Bytes → Prop) : List StringUnit × Node → Bytes → Prop where
  | intro : Blank before → Blank after → spells node text →
      Member spells (key,node) (StringUnit.literal key ++ before ++ 58 :: after ++ text)

inductive Node.Spells : Node → Bytes → Prop where
  | null : Spells .null (ascii "null")
  | true : Spells (.bool true) (ascii "true")
  | false : Spells (.bool false) (ascii "false")
  | number : Spells (.number numeral) numeral.text
  | string : Spells (.string units) (StringUnit.literal units)
  | emptyArray : Blank inside → Spells (.array []) (91 :: inside ++ [93])
  | array : Separated Spells items body → Spells (.array items) (91 :: body ++ [93])
  | emptyObject : Blank inside → Spells (.object []) (123 :: inside ++ [125])
  | object : Separated (Member Spells) members body → Spells (.object members) (123 :: body ++ [125])

/-- A text that is one value with whitespace around it. -/
def Document (node : Node) (text : Bytes) : Prop :=
  ∃ before body after, Blank before ∧ node.Spells body ∧ Blank after ∧ text = before ++ body ++ after

end TestForge.Json
