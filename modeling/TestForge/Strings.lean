import TestForge.Sequence
import Mathlib.Algebra.Order.Ring.Int
import Mathlib.Data.List.DropRight

/-! Byte strings and the character helpers of StringUtils, in the C locale. -/
namespace TestForge

abbrev Bytes := List UInt8

instance Bytes.lawful : LawfulBEq Bytes := inferInstance

/-- The bytes of an ASCII literal. -/
def ascii (literal : String) : Bytes := literal.toList.map fun c => UInt8.ofNat c.toNat

theorem encode_plain (c : Char) (plain : ∀ b ∈ String.utf8EncodeChar c, b < 128) :
    String.utf8EncodeChar c = [UInt8.ofNat c.toNat] := by
  unfold String.utf8EncodeChar at plain ⊢
  simp only [] at plain ⊢
  split
  · rfl
  · next big =>
    exfalso
    rw [if_neg big] at plain
    have lead {n k : Nat} {rest : List UInt8} (plain : ∀ b ∈ UInt8.ofNat (n + k) :: rest, b < 128)
        (small : n < 256 - k) (high : 128 ≤ k) : False := by
      have first := plain _ List.mem_cons_self
      rw [UInt8.lt_iff_toNat_lt,UInt8.toNat_ofNat_of_lt' (show n + k < 2^8 by omega)] at first
      have bound : n + k < 128 := first
      omega
    split at plain
    · exact lead plain (by omega) (by omega)
    · split at plain
      · exact lead plain (by omega) (by omega)
      · exact lead plain (by omega) (by omega)

/-- `ascii` read off the UTF-8 text of the literal, which evaluates much faster. -/
def literalBytes (literal : String) : Bytes :=
  if literal.toByteArray.data.toList.all (· < 128) then literal.toByteArray.data.toList else ascii literal

theorem ascii_eq_literalBytes (literal : String) : ascii literal = literalBytes literal := by
  unfold literalBytes
  split
  · next plain =>
    obtain ⟨chars,rfl⟩ := literal.exists_eq_ofList
    rw [ascii,String.toList_ofList,String.toByteArray_ofList,List.utf8Encode,List.data_toByteArray,
      List.toList_toArray] at *
    simp only [List.all_eq_true,List.mem_flatMap,decide_eq_true_eq,forall_exists_index,and_imp] at plain
    induction chars with
    | nil => rfl
    | cons c rest ih =>
      rw [List.map_cons,List.flatMap_cons,encode_plain c fun b inside => plain b c (by simp) inside,
        ih fun b d listed inside => plain b d (by simp [listed]) inside]
      rfl
  · rfl

namespace Strings

open Sequence

def lowerAscii (c : UInt8) : UInt8 := if 65 ≤ c ∧ c ≤ 90 then c + 32 else c
def upperAscii (c : UInt8) : UInt8 := if 97 ≤ c ∧ c ≤ 122 then c - 32 else c
def isSpace (c : UInt8) : Bool := c == 32 || (9 ≤ c && c ≤ 13)
def isDigit (c : UInt8) : Bool := 48 ≤ c && c ≤ 57
def isAlpha (c : UInt8) : Bool := (65 ≤ c && c ≤ 90) || (97 ≤ c && c ≤ 122)
def isAlnum (c : UInt8) : Bool := isDigit c || isAlpha c

def trim (text : Bytes) : Bytes := (text.dropWhile isSpace).rdropWhile isSpace
def toLower (text : Bytes) : Bytes := text.map lowerAscii
def toUpper (text : Bytes) : Bytes := text.map upperAscii
def startsWith (text pre : Bytes) : Bool := pre.isPrefixOf text
def contains (text needle : Bytes) : Bool := (cutOn needle text).isSome
def equalsIgnoreCase (a b : Bytes) : Bool := toLower a == toLower b

def split (text : Bytes) (delimiter : UInt8) (skipEmpty : Bool) : List Bytes :=
  let parts := text.splitOn delimiter
  if skipEmpty then parts.filter (· ≠ []) else parts

def stripCarriageReturn (line : Bytes) : Bytes :=
  if line.getLast? = some 13 then line.dropLast else line

def splitLines (text : Bytes) : List Bytes :=
  let lines := (split text 10 false).map stripCarriageReturn
  if lines.getLast? = some [] then lines.dropLast else lines

def join (parts : List Bytes) (separator : Bytes) : Bytes := separator.intercalate parts

def truncationMarker : Bytes := ascii "... [truncated]"

def truncate (text : Bytes) (maxLength : Nat) : Bytes :=
  if text.length ≤ maxLength then text
  else if maxLength ≤ truncationMarker.length then text.take maxLength
  else text.take (maxLength - truncationMarker.length) ++ truncationMarker

theorem truncate_length (whole : Bytes) (limit : Nat) : (truncate whole limit).length ≤ limit := by
  unfold truncate
  split
  · assumption
  split
  · exact List.length_take_le limit whole
  · simp only [List.length_append,List.length_take]
    omega

/-- `std::to_string` of an unsigned and of a signed integer. -/
def decimal (n : Nat) : Bytes := (Nat.toDigits 10 n).map fun c => UInt8.ofNat c.toNat
def decimalInt (z : Int) : Bytes := if z < 0 then 45 :: decimal z.natAbs else decimal z.natAbs

def digitsValue (digits : Bytes) : Nat := digits.foldl (fun value c => 10 * value + (c.toNat - 48)) 0

/-- `strtoll` in base ten on a NUL-terminated text: the unbounded value read and
what follows it. Without digits nothing is consumed. -/
def strtoll (text : Bytes) : Int × Bytes :=
  let body := text.dropWhile isSpace
  let (negative,digits) := match body with
    | 45 :: rest => (true,rest)
    | 43 :: rest => (false,rest)
    | other => (false,other)
  if digits.takeWhile isDigit = [] then (0,text)
  else
    let magnitude : Int := digitsValue (digits.takeWhile isDigit)
    (if negative then -magnitude else magnitude,digits.dropWhile isDigit)

def parseInt (text : Bytes) : Option Int :=
  let trimmed := trim text
  if trimmed = [] then none
  else
    let (value,rest) := strtoll (trimmed.takeWhile (· ≠ 0))
    if value < -2^63 ∨ 2^63 ≤ value ∨ rest ≠ [] then none else some value

@[simp] theorem lowerAscii_lowerAscii (c : UInt8) : lowerAscii (lowerAscii c) = lowerAscii c := by
  unfold lowerAscii
  grind

@[simp] theorem toLower_toLower (text : Bytes) : toLower (toLower text) = toLower text := by
  simp [toLower]

@[simp] theorem toLower_append (a b : Bytes) : toLower (a ++ b) = toLower a ++ toLower b := by
  simp [toLower]

@[simp] theorem toLower_length (a : Bytes) : (toLower a).length = a.length := by simp [toLower]

/-- Lowering only moves letters: it keeps every byte outside 'A'..'Z' in place. -/
theorem mem_toLower_of_not_letter (c : UInt8) (text : Bytes) (other : isAlpha c = false) :
    c ∈ toLower text ↔ c ∈ text := by
  have fixed (x : UInt8) : lowerAscii x = c ↔ x = c := by
    simp only [isAlpha,Bool.or_eq_false_iff,Bool.and_eq_false_iff,decide_eq_false_iff_not] at other
    unfold lowerAscii
    grind
  simp [toLower,fixed]

@[simp] theorem equalsIgnoreCase_self (a : Bytes) : equalsIgnoreCase a a = true := by
  simp [equalsIgnoreCase]

theorem equalsIgnoreCase_iff (a b : Bytes) : equalsIgnoreCase a b = true ↔ toLower a = toLower b := by
  simp [equalsIgnoreCase]

theorem contains_iff (text needle : Bytes) : contains text needle = true ↔ needle <:+: text := by
  rw [contains,Option.isSome_iff_ne_none,ne_eq,cutOn_eq_none,not_not]

theorem trim_of_ends (text : Bytes) (front : ∀ c ∈ text.head?, isSpace c = false)
    (back : ∀ c ∈ text.getLast?, isSpace c = false) : trim text = text := by
  have whole : text.dropWhile isSpace = text := by
    cases text with
    | nil => rfl
    | cons c rest => simp [front c (by simp)]
  rw [trim,whole,List.rdropWhile_eq_self_iff]
  intro nonempty
  simp [back _ (List.getLast?_eq_some_getLast nonempty)]

theorem trim_ends (text : Bytes) :
    (∀ c ∈ (trim text).head?, isSpace c = false) ∧ ∀ c ∈ (trim text).getLast?, isSpace c = false := by
  constructor
  · intro c first
    have pre : trim text <+: text.dropWhile isSpace := List.rdropWhile_prefix _ _
    have head := List.head?_dropWhile_not isSpace text
    obtain ⟨rest,whole⟩ := pre
    cases shown : trim text with
    | nil => simp [shown] at first
    | cons d more =>
      obtain rfl : d = c := by simpa [shown] using first
      rw [shown] at whole
      simpa [← whole] using head
  · intro c last
    have named : trim text ≠ [] := by
      intro empty
      simp [empty] at last
    have visible := List.rdropWhile_last_not isSpace (text.dropWhile isSpace) named
    rw [List.getLast?_eq_some_getLast named] at last
    obtain rfl := Option.some.inj last
    exact Bool.eq_false_iff.mpr visible

@[simp] theorem trim_trim (text : Bytes) : trim (trim text) = trim text :=
  trim_of_ends _ (trim_ends text).1 (trim_ends text).2

/-- A text with a visible first byte is trimmed at its end only. -/
theorem trim_of_head (c : UInt8) (rest : Bytes) (visible : isSpace c = false) :
    trim (c :: rest) = (c :: rest).rdropWhile isSpace := by
  simp [trim,visible]

/-- Trimming at the end never crosses a visible byte. -/
theorem rdropWhile_append_visible (before after : Bytes) (c : UInt8) (visible : isSpace c = false) :
    ∃ kept, (before ++ c :: after).rdropWhile isSpace = before ++ c :: kept ∧ kept <+: after := by
  induction after using List.reverseRecOn with
  | nil =>
    refine ⟨[],?_,List.nil_prefix⟩
    simp [visible]
  | append_singleton after x ih =>
    by_cases space : isSpace x = true
    · obtain ⟨kept,equal,pre⟩ := ih
      refine ⟨kept,?_,pre.trans (List.prefix_append _ _)⟩
      rw [← equal,show before ++ c :: (after ++ [x]) = (before ++ c :: after) ++ [x] by simp,
        List.rdropWhile_concat_pos _ _ _ space]
    · refine ⟨after ++ [x],?_,List.prefix_rfl⟩
      rw [show before ++ c :: (after ++ [x]) = (before ++ c :: after) ++ [x] by simp,
        List.rdropWhile_concat_neg _ _ _ space]

theorem isDigit_decimal (n : Nat) (c : UInt8) (member : c ∈ decimal n) : isDigit c = true := by
  obtain ⟨digit,digitMember,rfl⟩ := List.mem_map.mp member
  have numeric := Nat.isDigit_of_mem_toDigits (by decide) (by decide) digitMember
  simp only [Char.isDigit,Bool.and_eq_true,decide_eq_true_eq,UInt32.le_iff_toNat_le] at numeric
  have bounds : 48 ≤ digit.toNat ∧ digit.toNat ≤ 57 := numeric
  simp only [isDigit,Bool.and_eq_true,decide_eq_true_eq,UInt8.le_iff_toNat_le,UInt8.toNat_ofNat',
    Nat.mod_eq_of_lt (show digit.toNat < 2^8 by omega)]
  exact bounds

theorem decimal_ne_nil (n : Nat) : decimal n ≠ [] := by
  simp [decimal,Nat.toDigits_ne_nil]

theorem digit_range (c : UInt8) (digit : isDigit c = true) : 48 ≤ c ∧ c ≤ 57 := by
  simpa [isDigit] using digit

theorem digit_visible (c : UInt8) (digit : isDigit c = true) :
    isSpace c = false ∧ c ≠ 0 ∧ c ≠ 43 ∧ c ≠ 45 ∧ c ≠ 58 ∧ c ≠ 64 ∧ c ≠ 93 := by
  obtain ⟨low,high⟩ := digit_range c digit
  simp only [isSpace,Bool.or_eq_false_iff,beq_eq_false_iff_ne,Bool.and_eq_false_iff,
    decide_eq_false_iff_not]
  grind

theorem digitsValue_decimal (n : Nat) : digitsValue (decimal n) = n := by
  have step : digitsValue (decimal n) = Nat.ofDigitChars 10 (Nat.toDigits 10 n) 0 := by
    rw [digitsValue,decimal,List.foldl_map,Nat.ofDigitChars_eq_foldl]
    apply List.foldl_ext
    intro value digit member
    have numeric := Nat.isDigit_of_mem_toDigits (by decide) (by decide) member
    simp only [Char.isDigit,Bool.and_eq_true,decide_eq_true_eq,UInt32.le_iff_toNat_le] at numeric
    have bounds : 48 ≤ digit.toNat ∧ digit.toNat ≤ 57 := numeric
    have zero : '0'.toNat = 48 := rfl
    rw [UInt8.toNat_ofNat',Nat.mod_eq_of_lt (show digit.toNat < 2^8 by omega),zero]
  rw [step,Nat.ofDigitChars_ten_toDigits]

theorem strtoll_digits (digits : Bytes) (nonempty : digits ≠ [])
    (numeric : ∀ c ∈ digits, isDigit c = true) : strtoll digits = ((digitsValue digits : Int),[]) := by
  obtain ⟨c,rest,rfl⟩ := List.exists_cons_of_ne_nil nonempty
  obtain ⟨visible,_,plus,minus,_⟩ := digit_visible c (numeric c (by simp))
  have all : (c :: rest).takeWhile isDigit = c :: rest := List.takeWhile_eq_self_iff.mpr numeric
  have nothing : (c :: rest).dropWhile isDigit = [] := List.dropWhile_eq_nil_iff.mpr numeric
  have body : (c :: rest).dropWhile isSpace = c :: rest := by simp [visible]
  simp only [strtoll,body]
  split
  · next equal => simp only [List.cons.injEq] at equal; exact absurd equal.1 minus
  · next equal => simp only [List.cons.injEq] at equal; exact absurd equal.1 plus
  · simp [all,nothing]

/-- Reading back a printed number below 2^63 gives the number. -/
theorem parseInt_decimal (n : Nat) (small : n < 2^63) : parseInt (decimal n) = some (n : Int) := by
  have nonempty := decimal_ne_nil n
  have numeric := isDigit_decimal n
  have trimmed : trim (decimal n) = decimal n := by
    apply trim_of_ends
    · intro c member
      exact (digit_visible c (numeric c (List.mem_of_mem_head? member))).1
    · intro c member
      exact (digit_visible c (numeric c (List.mem_of_getLast? member))).1
  have whole : (decimal n).takeWhile (· ≠ 0) = decimal n := by
    apply List.takeWhile_eq_self_iff.mpr
    intro c member
    simpa using (digit_visible c (numeric c member)).2.1
  simp only [parseInt,trimmed,if_neg nonempty,whole,strtoll_digits _ nonempty numeric,
    digitsValue_decimal]
  rw [if_neg (by simp; omega)]

/-! ### The parts of a text -/

theorem flatten_splitOn (text : Bytes) (delimiter : UInt8) :
    (text.splitOn delimiter).flatten = text.filter (· ≠ delimiter) := by
  induction text with
  | nil => simp
  | cons c text ih =>
    rw [List.splitOn_cons_eq_if_modifyHead]
    by_cases same : c = delimiter
    · simpa [same] using ih
    · obtain ⟨first,others,parts⟩ := List.exists_cons_of_ne_nil (List.splitOn_ne_nil delimiter text)
      rw [parts] at ih ⊢
      simpa [same] using ih

/-- The bytes of the parts. -/
theorem mem_parts_iff (text : Bytes) (delimiter c : UInt8) :
    (∃ part ∈ text.splitOn delimiter, c ∈ part) ↔ c ∈ text ∧ c ≠ delimiter := by
  rw [← List.mem_flatten,flatten_splitOn,List.mem_filter,decide_eq_true_eq]

end Strings
end TestForge
