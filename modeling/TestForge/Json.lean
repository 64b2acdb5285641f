import TestForge.Double

/-! JSON values: access, update and serialisation. -/
namespace TestForge.Json

open Strings

/-- Integers are 64-bit in the source and stay apart from doubles. Objects keep
the order of insertion. -/
inductive Value where
  | null
  | bool (value : Bool)
  | int (value : Int)
  | double (value : Double)
  | string (value : Bytes)
  | array (items : List Value)
  | object (members : List (Bytes × Value))
  deriving Repr

/-- The suffix of `text` behind a run of digits is cut and replaced when the text
would otherwise read as an integer. -/
def formatDouble (d : Double) : Bytes :=
  if !d.isFinite then ascii "null"
  else
    let candidates := (List.range 16).map fun i => d.formatG (i + 1)
    let text := (candidates.find? fun text => (Double.strtod text).equals d).getD (d.formatG 17)
    if text.any fun c => c == 46 || c == 101 || c == 69 || c == 110 then text
    else text ++ ascii ".0"

def hexLower (n : Nat) : UInt8 := if n < 10 then UInt8.ofNat (48 + n) else UInt8.ofNat (87 + n)

def escapeByte (c : UInt8) : Bytes :=
  if c = 34 then ascii "\\\""
  else if c = 92 then ascii "\\\\"
  else if c = 8 then ascii "\\b"
  else if c = 12 then ascii "\\f"
  else if c = 10 then ascii "\\n"
  else if c = 13 then ascii "\\r"
  else if c = 9 then ascii "\\t"
  else if c < 32 then ascii "\\u00" ++ [hexLower (c.toNat / 16),hexLower (c.toNat % 16)]
  else [c]

def escape (text : Bytes) : Bytes := 34 :: text.flatMap escapeByte ++ [34]

namespace Value

mutual
/-- The compact form. -/
def dump : Value → Bytes
  | .null => ascii "null"
  | .bool value => if value then ascii "true" else ascii "false"
  | .int value => decimalInt value
  | .double value => formatDouble value
  | .string value => escape value
  | .array items => 91 :: dumpItems items ++ [93]
  | .object members => 123 :: dumpMembers members ++ [125]

def dumpItems : List Value → Bytes
  | [] => []
  | [item] => dump item
  | item :: rest => dump item ++ 44 :: dumpItems rest

def dumpMembers : List (Bytes × Value) → Bytes
  | [] => []
  | [(key,value)] => escape key ++ 58 :: dump value
  | (key,value) :: rest => escape key ++ 58 :: dump value ++ 44 :: dumpMembers rest
end

def isNull : Value → Bool
  | .null => true
  | _ => false

def isNumber : Value → Bool
  | .int _ => true
  | .double _ => true
  | _ => false

def isArray : Value → Bool
  | .array _ => true
  | _ => false

/-- `isString` and `asString` in one. -/
def asString? : Value → Option Bytes
  | .string value => some value
  | _ => none

def intOr (fallback : Int) : Value → Int
  | .int value => value
  | .double value => value.toInt
  | _ => fallback

def stringOr (fallback : Bytes) (value : Value) : Bytes := value.asString?.getD fallback

/-- The value of a key; nothing on a value that is no object. -/
def find (key : Bytes) : Value → Option Value
  | .object members => (members.find? (·.1 = key)).map (·.2)
  | _ => none

/-- The member list after `set`: in place when the key is there, appended otherwise. -/
def setMember (key : Bytes) (value : Value) : List (Bytes × Value) → List (Bytes × Value)
  | [] => [(key,value)]
  | member :: rest => if member.1 = key then (key,value) :: rest else member :: setMember key value rest

/-- `set` on an object; every other value is left out here, where `set` throws or
turns null into an object. -/
def set (target : Value) (key : Bytes) (value : Value) : Value :=
  match target with
  | .object members => .object (setMember key value members)
  | other => other

/-- An object whose members are `set` one after the other. -/
def objectOf (members : List (Bytes × Value)) : Value :=
  .object (members.foldl (fun built member => setMember member.1 member.2 built) [])

theorem setMember_fresh (key : Bytes) (value : Value) (members : List (Bytes × Value))
    (fresh : key ∉ members.map (·.1)) : setMember key value members = members ++ [(key,value)] := by
  induction members with
  | nil => rfl
  | cons member rest ih =>
    simp only [List.map_cons,List.mem_cons,not_or] at fresh
    simp [setMember,Ne.symm fresh.1,ih fresh.2]

/-- Setting members with distinct keys lists them in the order of the calls. -/
theorem objectOf_distinct (members : List (Bytes × Value)) (distinct : (members.map (·.1)).Nodup) :
    objectOf members = .object members := by
  suffices extended : ∀ built : List (Bytes × Value), ((built ++ members).map (·.1)).Nodup →
      members.foldl (fun built member => setMember member.1 member.2 built) built =
        built ++ members by
    rw [objectOf,extended [] (by simpa using distinct),List.nil_append]
  clear distinct
  induction members with
  | nil => simp
  | cons member rest ih =>
    intro built distinct
    have fresh : member.1 ∉ built.map (·.1) := by
      rw [List.map_append,List.nodup_append] at distinct
      intro earlier
      exact distinct.2.2 _ earlier _ (by simp) rfl
    rw [List.foldl_cons,setMember_fresh _ _ _ fresh,ih _ (by simpa using distinct)]
    simp

theorem set_fresh (key : Bytes) (value : Value) (members : List (Bytes × Value))
    (fresh : key ∉ members.map (·.1)) :
    (object members).set key value = .object (members ++ [(key,value)]) := by
  rw [set,setMember_fresh _ _ _ fresh]

end Value
end TestForge.Json
