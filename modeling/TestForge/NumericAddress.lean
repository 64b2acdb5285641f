import TestForge.Strings
import Mathlib.Data.Nat.Digits.Defs
import Mathlib.Data.Nat.Digits.Lemmas

/-! The numeric spellings of an address that a resolver takes without asking a name
server: those of `inet_aton` for IPv4 and of `inet_pton` for IPv6. -/
namespace TestForge.NumericAddress

open Sequence Strings

/-! ### Numerals -/

def digitIn (base : Nat) (c : UInt8) : Option Nat :=
  Option.filter (· < base) <|
    if isDigit c then some (c.toNat - 48)
    else if 97 ≤ c ∧ c ≤ 122 then some (c.toNat - 87)
    else if 65 ≤ c ∧ c ≤ 90 then some (c.toNat - 55)
    else none

/-- At least one digit, the most significant one first. -/
def numeral (base : Nat) (text : Bytes) : Option Nat :=
  if text = [] then none else (text.mapM (digitIn base)).map fun digits => Nat.ofDigits base digits.reverse

theorem digitIn_lt {base d : Nat} {c : UInt8} (digit : digitIn base c = some d) : d < base :=
  of_decide_eq_true (Option.filter_eq_some_iff.mp digit).2

theorem digitIn_decimal {base d : Nat} {c : UInt8} (decimal : isDigit c = true) (digit : digitIn base c = some d) :
    d = c.toNat - 48 := by
  rw [digitIn,if_pos decimal] at digit
  exact (Option.some.inj (Option.filter_eq_some_iff.mp digit).1).symm

theorem numeral_some {base n : Nat} {text : Bytes} (read : numeral base text = some n) :
    text ≠ [] ∧ ∃ digits, text.mapM (digitIn base) = some digits ∧ n = Nat.ofDigits base digits.reverse := by
  unfold numeral at read
  split at read
  · cases read
  · next named =>
    obtain ⟨digits,spelt,rfl⟩ := Option.map_eq_some_iff.mp read
    exact ⟨named,digits,spelt,rfl⟩

theorem mapM_digitIn {base : Nat} {text : Bytes} {digits : List Nat}
    (spelt : text.mapM (digitIn base) = some digits) (decimal : ∀ c ∈ text, isDigit c = true) :
    digits = text.map (·.toNat - 48) ∧ ∀ d ∈ digits, d < base := by
  induction text generalizing digits with
  | nil =>
    obtain rfl : [] = digits := by simpa using spelt
    simp
  | cons c rest ih =>
    simp only [List.mapM_cons,Option.bind_eq_bind,Option.bind_eq_some_iff,Option.pure_def,Option.some.injEq] at spelt
    obtain ⟨d,first,others,tail,rfl⟩ := spelt
    obtain ⟨same,small⟩ := ih tail fun x listed => decimal x (by simp [listed])
    have value := digitIn_lt first
    obtain rfl := digitIn_decimal (decimal c (by simp)) first
    exact ⟨by simp [same],List.forall_mem_cons.mpr ⟨value,small⟩⟩

theorem digitsValue_eq_ofDigits (text : Bytes) :
    digitsValue text = Nat.ofDigits 10 (text.map (·.toNat - 48)).reverse := by
  induction text using List.reverseRecOn with
  | nil => rfl
  | append_singleton text c ih =>
    have step : digitsValue (text ++ [c]) = 10 * digitsValue text + (c.toNat - 48) := by simp [digitsValue]
    rw [step,ih,List.map_append,List.reverse_append]
    simp [Nat.ofDigits_cons,Nat.add_comm]

/-- The digits of a number in base eight, read in base ten. -/
def octalAsDecimal (n : Nat) : Nat := Nat.ofDigits 10 (Nat.digits 8 n)

theorem ofDigits_octal {digits : List Nat} (small : ∀ d ∈ digits, d < 8) :
    Nat.ofDigits 10 digits = octalAsDecimal (Nat.ofDigits 8 digits) := by
  induction digits with
  | nil => rfl
  | cons d rest ih =>
    have low : d < 8 := small d (by simp)
    have step (n : Nat) : octalAsDecimal (d + 8 * n) = d + 10 * octalAsDecimal n := by
      rcases Nat.eq_zero_or_pos (d + 8 * n) with zero | positive
      · obtain ⟨rfl,rfl⟩ : d = 0 ∧ n = 0 := by omega
        rfl
      · have last : (d + 8 * n) % 8 = d := by omega
        have front : (d + 8 * n) / 8 = n := by omega
        rw [octalAsDecimal,Nat.digits_def' (by decide) positive,last,front,Nat.ofDigits_cons]
        rfl
    rw [Nat.ofDigits_cons,Nat.ofDigits_cons,step,ih fun x listed => small x (by simp [listed])]

/-! ### IPv4 -/

/-- One part of an address: hexadecimal behind `0x`, octal behind another `0`. -/
def part (text : Bytes) : Option Nat :=
  match text with
  | 48 :: 120 :: digits => numeral 16 digits
  | 48 :: 88 :: digits => numeral 16 digits
  | 48 :: _ => numeral 8 text
  | _ => numeral 10 text

/-- One to four parts; the last one fills what the others leave of the 32 bits. -/
def inetAton (text : Bytes) : Option Nat :=
  match (text.splitOn 46).mapM part with
  | some [a] => if a < 2^32 then some a else none
  | some [a,b] => if a < 256 ∧ b < 2^24 then some (a * 2^24 + b) else none
  | some [a,b,c] => if a < 256 ∧ b < 256 ∧ c < 2^16 then some (a * 2^24 + b * 2^16 + c) else none
  | some [a,b,c,d] =>
    if a < 256 ∧ b < 256 ∧ c < 256 ∧ d < 256 then some (a * 2^24 + b * 2^16 + c * 2^8 + d) else none
  | _ => none

theorem part_decimal {text : Bytes} {n : Nat} (read : part text = some n) (decimal : ∀ c ∈ text, isDigit c = true) :
    digitsValue text = n ∨ digitsValue text = octalAsDecimal n := by
  unfold part at read
  split at read
  · cases decimal 120 (by simp)
  · cases decimal 88 (by simp)
  · obtain ⟨-,digits,spelt,rfl⟩ := numeral_some read
    obtain ⟨rfl,small⟩ := mapM_digitIn spelt decimal
    right
    rw [digitsValue_eq_ofDigits,ofDigits_octal fun d listed => small d (List.mem_reverse.mp listed)]
  · obtain ⟨-,digits,spelt,rfl⟩ := numeral_some read
    obtain ⟨rfl,-⟩ := mapM_digitIn spelt decimal
    exact .inl (digitsValue_eq_ofDigits text)

/-! ### IPv6 -/

def group (text : Bytes) : Option Nat := if text.length ≤ 4 then numeral 16 text else none

/-- A number of a dotted quad inside an IPv6 address, without leading zeros. -/
def octet (text : Bytes) : Option Nat :=
  if text.head? = some 48 ∧ text ≠ [48] then none else (numeral 10 text).filter (· < 256)

def dottedQuad (text : Bytes) : Option (List Nat) :=
  match (text.splitOn 46).mapM octet with
  | some [a,b,c,d] => some [a * 256 + b,c * 256 + d]
  | _ => none

/-- Groups up to the end of the address, the last two perhaps as a dotted quad. -/
def lastGroups : List Bytes → Option (List Nat)
  | [] => some []
  | [text] => if 46 ∈ text then dottedQuad text else (group text).map ([·])
  | text :: rest => (group text).bind fun first => (lastGroups rest).map (first :: ·)

/-- Eight groups, of which one `::` stands for all that are left out. -/
def inetPton6 (text : Bytes) : Option (List Nat) :=
  match cutOn (ascii "::") text with
  | some (before,after) => do
    let front ← if before = [] then some [] else (before.splitOn 58).mapM group
    let back ← if after = [] then some [] else lastGroups (after.splitOn 58)
    if front.length + back.length < 8 then
      some (front ++ List.replicate (8 - front.length - back.length) 0 ++ back)
    else none
  | none => (lastGroups (text.splitOn 58)).filter (·.length = 8)

theorem dottedQuad_length {text : Bytes} {groups : List Nat} (read : dottedQuad text = some groups) :
    groups.length = 2 := by
  unfold dottedQuad at read
  split at read
  · cases read
    rfl
  · cases read

theorem inetPton6_colon {text : Bytes} {groups : List Nat} (read : inetPton6 text = some groups) : 58 ∈ text := by
  unfold inetPton6 at read
  split at read
  · next before after found =>
    rw [(cutOn_split _ _ _ _ found)]
    simp [ascii]
  · by_contra absent
    rw [List.splitOn_eq_singleton absent] at read
    obtain ⟨short,long⟩ := Option.filter_eq_some_iff.mp read
    simp only [lastGroups] at short
    split at short
    · rw [dottedQuad_length short] at long
      cases long
    · obtain ⟨n,-,rfl⟩ := Option.map_eq_some_iff.mp short
      cases long

/-! ### Addresses -/

inductive Address where
  | v4 (address : Nat)
  | v6 (groups : List Nat)
  deriving DecidableEq, Repr

/-- The address a text denotes without a name server. -/
def numericAddress (text : Bytes) : Option Address :=
  match inetAton text with
  | some address => some (.v4 address)
  | none => (inetPton6 text).map .v6

/-- In 169.254.0.0/16, also when mapped into IPv6, or in fe80::/10. -/
def Address.linkLocal : Address → Bool
  | .v4 address => address / 2^16 == 169 * 256 + 254
  | .v6 [0,0,0,0,0,0xffff,high,_] => high == 169 * 256 + 254
  | .v6 (first :: _) => first / 64 == 0xfe80 / 64
  | .v6 [] => false

end TestForge.NumericAddress
