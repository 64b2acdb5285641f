import TestForge.Sequence
import Mathlib.Data.List.Sort

/-! Dynamically typed values as Python's JSON decoder builds them, with the built-in operations
that raise when a value has another type. What rests on Unicode's tables, and how a float is
compared and printed, is a parameter. Limits on recursion and memory are left out. -/
namespace TestForge.Python

/-- The code points of a string; a surrogate may stand alone. -/
abbrev Text := List Nat

def text (literal : String) : Text := literal.toList.map Char.toNat

/-- The first of two items of a dictionary with one key is the one that counts. -/
inductive Value (Float : Type) where
  | none
  | bool (value : Bool)
  | int (value : Int)
  | float (value : Float)
  | str (value : Text)
  | list (items : List (Value Float))
  | dict (items : List (Text × Value Float))

inductive Exception where
  | attributeError
  | typeError
  deriving DecidableEq, Repr

structure Runtime (Float : Type) where
  upper : Text → Text
  lower : Text → Text
  printable : Nat → Bool
  /-- Not zero; NaN is true. -/
  truthy : Float → Bool
  /-- `low <= x <= high` -/
  between : Int → Int → Float → Bool
  repr : Float → Text

/-! ### Texts -/

def decimal (n : Nat) : Text := (Nat.toDigits 10 n).map Char.toNat
def decimalInt (z : Int) : Text := if z < 0 then 45 :: decimal z.natAbs else decimal z.natAbs

def hexadecimal (width n : Nat) : Text :=
  let digits := (Nat.toDigits 16 n).map Char.toNat
  List.replicate (width - digits.length) 48 ++ digits

def join (separator : Text) (parts : List Text) : Text := separator.intercalate parts
def startsWith (whole front : Text) : Bool := front.isPrefixOf whole

/-- `part in whole` -/
def includes (whole part : Text) : Bool := (Sequence.cutOn part whole).isSome

/-- The order of texts by their code points. -/
def atMost : Text → Text → Bool
  | [],_ => true
  | _ :: _,[] => false
  | a :: as,b :: bs => a < b || (a == b && atMost as bs)

def sorted (texts : List Text) : List Text := texts.insertionSort fun a b => atMost a b = true

variable {Float : Type}

def Runtime.escaped (runtime : Runtime Float) (quote c : Nat) : Text :=
  if c = quote ∨ c = 92 then [92,c]
  else if c = 9 then text "\\t"
  else if c = 10 then text "\\n"
  else if c = 13 then text "\\r"
  else if 32 ≤ c ∧ c < 127 ∨ 127 < c ∧ runtime.printable c then [c]
  else if c < 256 then text "\\x" ++ hexadecimal 2 c
  else if c < 65536 then text "\\u" ++ hexadecimal 4 c
  else text "\\U" ++ hexadecimal 8 c

/-- Single quotes, unless there are such inside and no double ones. -/
def Runtime.quoted (runtime : Runtime Float) (whole : Text) : Text :=
  let quote := if 39 ∈ whole ∧ 34 ∉ whole then 34 else 39
  quote :: whole.flatMap (runtime.escaped quote) ++ [quote]

namespace Value

mutual
/-- `repr` -/
def shown (runtime : Runtime Float) : Value Float → Text
  | .none => text "None"
  | .bool value => if value then text "True" else text "False"
  | .int value => decimalInt value
  | .float value => runtime.repr value
  | .str value => runtime.quoted value
  | .list items => 91 :: shownItems runtime items ++ [93]
  | .dict items => 123 :: shownMembers runtime items ++ [125]

def shownItems (runtime : Runtime Float) : List (Value Float) → Text
  | [] => []
  | item :: rest => item.shown runtime ++ (if rest.isEmpty then [] else text ", ") ++ shownItems runtime rest

def shownMembers (runtime : Runtime Float) : List (Text × Value Float) → Text
  | [] => []
  | (key,item) :: rest => runtime.quoted key ++ text ": " ++ item.shown runtime ++
      (if rest.isEmpty then [] else text ", ") ++ shownMembers runtime rest
end

/-- `str` -/
def toText (runtime : Runtime Float) : Value Float → Text
  | .str value => value
  | value => value.shown runtime

/-! ### Types and truth -/

def isStr : Value Float → Bool
  | .str _ => true
  | _ => false

/-- `isinstance(value,int)`; the booleans are integers. -/
def isInt : Value Float → Bool
  | .int _ => true
  | .bool _ => true
  | _ => false

def isBool : Value Float → Bool
  | .bool _ => true
  | _ => false

def isList : Value Float → Bool
  | .list _ => true
  | _ => false

def isDict : Value Float → Bool
  | .dict _ => true
  | _ => false

def isHashable : Value Float → Bool
  | .list _ => false
  | .dict _ => false
  | _ => true

def truthy (runtime : Runtime Float) : Value Float → Bool
  | .none => false
  | .bool value => value
  | .int value => value != 0
  | .float value => runtime.truthy value
  | .str value => !value.isEmpty
  | .list items => !items.isEmpty
  | .dict items => !items.isEmpty

/-! ### Operations that can raise -/

/-- `value.get(key,default)` -/
def get (value : Value Float) (key : Text) (default : Value Float := .none) : Except Exception (Value Float) :=
  match value with
  | .dict items => .ok ((items.lookup key).getD default)
  | _ => .error .attributeError

/-- The text that a method of `str` is called on. -/
def asStr : Value Float → Except Exception Text
  | .str value => .ok value
  | _ => .error .attributeError

/-- `value in members` for a set of texts, which hashes the value. -/
def isIn (value : Value Float) (members : List Text) : Except Exception Bool :=
  match value with
  | .str value => .ok (members.contains value)
  | .list _ => .error .typeError
  | .dict _ => .error .typeError
  | _ => .ok false

def len : Value Float → Except Exception Nat
  | .str value => .ok value.length
  | .list items => .ok items.length
  | .dict items => .ok items.length
  | _ => .error .typeError

/-- What a loop runs through. -/
def elements : Value Float → Except Exception (List (Value Float))
  | .str value => .ok (value.map fun c => .str [c])
  | .list items => .ok items
  | .dict items => .ok (items.map fun item => .str item.1)
  | _ => .error .typeError

/-- `low <= value <= high` -/
def between (runtime : Runtime Float) (low high : Int) : Value Float → Except Exception Bool
  | .int value => .ok (low ≤ value ∧ value ≤ high)
  | .bool value => .ok (low ≤ value.toInt ∧ value.toInt ≤ high)
  | .float value => .ok (runtime.between low high value)
  | _ => .error .typeError

/-- `value.setdefault(key,default)` -/
def setdefault (value : Value Float) (key : Text) (default : Value Float) : Except Exception (Value Float) :=
  match value with
  | .dict items => .ok (.dict (if (items.lookup key).isSome then items else items ++ [(key,default)]))
  | _ => .error .attributeError

/-- `value[key] = item`; a key that is there keeps its place. -/
def setItem (value : Value Float) (key : Text) (item : Value Float) : Except Exception (Value Float) :=
  match value with
  | .dict items => .ok (.dict (if (items.lookup key).isSome then items.map fun entry =>
      if entry.1 = key then (key,item) else entry else items ++ [(key,item)]))
  | _ => .error .typeError

/-- What a dictionary holds under a key. -/
def find (value : Value Float) (key : Text) : Option (Value Float) :=
  match value with
  | .dict items => items.lookup key
  | _ => Option.none

end Value

/-! ### Programs that raise nothing -/

section
variable {α β ε : Type}

def Returns (action : Except ε α) : Prop := ∃ value, action = .ok value

@[simp] theorem returns_ok (value : α) : Returns (.ok value : Except ε α) := ⟨value,rfl⟩
@[simp] theorem returns_pure (value : α) : Returns (pure value : Except ε α) := ⟨value,rfl⟩

@[simp] theorem returns_error (error : ε) : ¬Returns (.error error : Except ε α) := by
  rintro ⟨value,same⟩
  cases same

theorem returns_bind (action : Except ε α) (next : α → Except ε β) :
    Returns (action >>= next) ↔ ∃ value, action = .ok value ∧ Returns (next value) := by
  cases action with
  | error error => exact iff_of_false (returns_error error) (by rintro ⟨value,same,-⟩; cases same)
  | ok value =>
    constructor
    · exact fun later => ⟨value,rfl,later⟩
    · rintro ⟨other,same,later⟩
      obtain rfl := Except.ok.inj same
      exact later

/-- An action whose result has no influence on what raises behind it. -/
theorem returns_bind_and {action : Except ε α} {next : α → Except ε β} {P : Prop}
    (later : ∀ value, action = .ok value → (Returns (next value) ↔ P)) :
    Returns (action >>= next) ↔ Returns action ∧ P := by
  rw [returns_bind]
  constructor
  · rintro ⟨value,same,behind⟩
    exact ⟨⟨value,same⟩,(later value same).mp behind⟩
  · rintro ⟨⟨value,same⟩,holds⟩
    exact ⟨value,same,(later value same).mpr holds⟩

theorem Returns.bind {action : Except ε α} {next : α → Except ε β} (first : Returns action)
    (later : ∀ value, Returns (next value)) : Returns (action >>= next) := by
  obtain ⟨value,same⟩ := first
  exact (returns_bind _ _).mpr ⟨value,same,later value⟩

/-- What checks report one behind the other. -/
def gather : List (Except ε (List β)) → Except ε (List β)
  | [] => .ok []
  | check :: checks => do
    let first ← check
    let later ← gather checks
    return first ++ later

theorem returns_gather (checks : List (Except ε (List β))) : Returns (gather checks) ↔ ∀ check ∈ checks, Returns check := by
  induction checks with
  | nil => exact iff_of_true (returns_ok _) (by simp)
  | cons check checks ih =>
    have tail (first : List β) : Returns (gather checks >>= fun later => pure (first ++ later)) ↔
        ∀ check ∈ checks, Returns check := by
      rw [returns_bind_and fun later _ => iff_of_true (returns_pure _) trivial,and_true,ih]
    rw [gather,returns_bind_and fun first _ => tail first,List.forall_mem_cons]

end

end TestForge.Python
