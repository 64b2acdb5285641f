import TestForge.DoubleRange
import TestForge.DoubleWhole

/-! Durations as text: `strtod` on any text, and what becomes of the value it reads. -/
namespace TestForge

namespace Double

def isNaN (d : Double) : Bool := !d.isFinite && d.fraction ≠ 0

/-- `d < 0.0` -/
def belowZero (d : Double) : Bool := d.negative && d.units ≠ 0 && !d.isNaN

def infinity (negative : Bool) : Double := if negative then ⟨0xfff0000000000000⟩ else ⟨0x7ff0000000000000⟩

/-- A quiet NaN; nothing depends on its payload. -/
def quietNaN (negative : Bool) : Double := if negative then ⟨0xfff8000000000000⟩ else ⟨0x7ff8000000000000⟩

/-- The product with a positive whole number; what is not finite stays as it is. -/
def times (d : Double) (factor : Nat) : Double := if d.isFinite then d.mul (ofInt factor) else d

end Double

namespace Strings

open Json (hexDigit)

/-! ### `strtod` -/

/-- The value read, the text behind it, and whether `errno` becomes ERANGE. -/
structure Scanned where
  value : Double
  rest : Bytes
  range : Bool := false
  deriving DecidableEq, Repr

/-- The result is below the normal numbers and not exact. -/
def underflows (num den : Nat) : Bool :=
  num * 2^1076 < (2^54 - 1) * den && num * 2^1074 ≠ (Double.ofRatio false num den).units * den

def Scanned.ofRatio (negative : Bool) (num den : Nat) (rest : Bytes) : Scanned where
  value := .ofRatio negative num den
  rest
  range := !(Double.ofRatio negative num den).isFinite || underflows num den

def signed : Bytes → Bool × Bytes
  | 45 :: rest => (true,rest)
  | 43 :: rest => (false,rest)
  | other => (false,other)

/-- The digits before and behind the point, and the text behind them; at least one digit is needed. -/
def mantissa (digit : UInt8 → Bool) (text : Bytes) : Option (Bytes × Bytes × Bytes) :=
  let (places,rest) := match text.dropWhile digit with
    | 46 :: behind => (behind.takeWhile digit,behind.dropWhile digit)
    | other => ([],other)
  if text.takeWhile digit = [] ∧ places = [] then none else some (text.takeWhile digit,places,rest)

/-- The exponent behind its letter; without digits the letter does not belong to the number. -/
def exponentPart (letter : UInt8) : Bytes → Int × Bytes
  | [] => (0,[])
  | c :: rest =>
    let (negative,digits) := signed rest
    if lowerAscii c = letter ∧ digits.takeWhile isDigit ≠ [] then
      let magnitude : Int := digitsValue (digits.takeWhile isDigit)
      (if negative then -magnitude else magnitude,digits.dropWhile isDigit)
    else (0,c :: rest)

def scanDecimal (negative : Bool) (text : Bytes) : Option Scanned :=
  (mantissa isDigit text).map fun (whole,places,behind) =>
    let exponent := (exponentPart 101 behind).1 - places.length
    .ofRatio negative (digitsValue (whole ++ places) * 10^exponent.toNat) (10^(-exponent).toNat) (exponentPart 101 behind).2

def hexDigitsValue (digits : Bytes) : Nat := digits.foldl (fun value c => 16 * value + (hexDigit c).getD 0) 0

def scanHexadecimal (negative : Bool) : Bytes → Option Scanned
  | 48 :: x :: text =>
    if lowerAscii x = 120 then
      (mantissa (fun c => (hexDigit c).isSome) text).map fun (whole,places,behind) =>
        let exponent := (exponentPart 112 behind).1 - 4 * places.length
        .ofRatio negative (hexDigitsValue (whole ++ places) * 2^exponent.toNat) (2^(-exponent).toNat) (exponentPart 112 behind).2
    else none
  | _ => none

/-- What may stand behind "nan" in parentheses. -/
def skipPayload (text : Bytes) : Bytes :=
  match text with
  | 40 :: inside =>
    match inside.dropWhile (fun c => isAlnum c || c == 95) with
    | 41 :: behind => behind
    | _ => text
  | _ => text

def scanWord (negative : Bool) (text : Bytes) : Option Scanned :=
  if startsWith (toLower text) (ascii "infinity") then some { value := .infinity negative, rest := text.drop 8 }
  else if startsWith (toLower text) (ascii "inf") then some { value := .infinity negative, rest := text.drop 3 }
  else if startsWith (toLower text) (ascii "nan") then
    some { value := .quietNaN negative, rest := skipPayload (text.drop 3) }
  else none

/-- `strtod` on a NUL-terminated text. -/
def strtod (text : Bytes) : Scanned :=
  let (negative,body) := signed (text.dropWhile isSpace)
  (((scanWord negative body).or (scanHexadecimal negative body)).or (scanDecimal negative body)).getD
    { value := ⟨0⟩, rest := text }

/-! ### Durations -/

def parseDouble (text : Bytes) : Option Double :=
  let trimmed := trim text
  if trimmed = [] then none
  else
    let parsed := strtod (trimmed.takeWhile (· ≠ 0))
    if parsed.range ∨ parsed.rest ≠ [] then none else some parsed.value

/-- Milliseconds in the unit that the suffix names. -/
def multiplier (suffix : Bytes) : Option Nat :=
  if suffix = [] ∨ suffix = ascii "ms" then some 1
  else if suffix = ascii "s" ∨ suffix = ascii "sec" then some 1000
  else if suffix = ascii "m" ∨ suffix = ascii "min" then some (60 * 1000)
  else if suffix = ascii "h" then some (60 * 60 * 1000)
  else none

inductive Duration where
  | rejected
  /-- The cast to an integer has no defined value. -/
  | undefined
  | millis (value : Int64)
  deriving DecidableEq

def parseDurationMillis (text : Bytes) : Duration :=
  let trimmed := trim text
  if trimmed = [] then .rejected
  else
    match parseDouble (trimmed.rdropWhile isAlpha),multiplier (toLower (trimmed.rtakeWhile isAlpha)) with
    | some value,some factor =>
      if value.belowZero then .rejected
      else if (value.times factor).inInt64 then .millis (Int64.ofInt (value.times factor).toInt)
      else .undefined
    | _,_ => .rejected

/-! ### What is read -/

open Json (Digits)

theorem startsWith_head (c : UInt8) (text word : Bytes) (different : ∃ d ∈ word.head?, d ≠ c) :
    startsWith (c :: text) word = false := by
  obtain ⟨d,first,apart⟩ := different
  obtain ⟨rest,rfl⟩ := List.head?_eq_some_iff.mp first
  rw [startsWith,List.isPrefixOf_cons_cons,beq_eq_false_iff_ne.mpr apart,Bool.false_and]

theorem lowerAscii_digit {c : UInt8} (digit : isDigit c = true) : lowerAscii c = c := by
  rw [lowerAscii,if_neg]
  rintro ⟨letter,-⟩
  exact absurd (UInt8.le_trans letter ((digit_range c digit).2)) (by decide)

theorem digit_ne {c letter : UInt8} (digit : isDigit c = true) (above : 57 < letter) : letter ≠ c :=
  fun same => UInt8.not_le.mpr above (same ▸ (digit_range c digit).2)

theorem scanWord_digit (negative : Bool) (c : UInt8) (rest : Bytes) (digit : isDigit c = true) :
    scanWord negative (c :: rest) = none := by
  have apart : ∀ word ∈ [ascii "infinity",ascii "inf",ascii "nan"], startsWith (toLower (c :: rest)) word = false := by
    intro word listed
    rw [toLower,List.map_cons,lowerAscii_digit digit]
    apply startsWith_head
    simp only [List.mem_cons,List.not_mem_nil,or_false] at listed
    rcases listed with rfl | rfl | rfl
    · exact ⟨105,rfl,digit_ne digit (by decide)⟩
    · exact ⟨105,rfl,digit_ne digit (by decide)⟩
    · exact ⟨110,rfl,digit_ne digit (by decide)⟩
  simp only [List.forall_mem_cons] at apart
  simp [scanWord,apart]

theorem scanHexadecimal_digits (negative : Bool) (digits : Digits) : scanHexadecimal negative digits.text = none := by
  unfold scanHexadecimal
  split
  · next x text shape =>
    have digit : isDigit x = true := digits.numeric x (by simp [shape])
    rw [lowerAscii_digit digit]
    exact if_neg (digit_ne digit (by decide)).symm
  · rfl

theorem scanDecimal_digits (negative : Bool) (digits : Digits) :
    scanDecimal negative digits.text = some (.ofRatio negative (digitsValue digits.text) 1 []) := by
  have taken : digits.text.takeWhile isDigit = digits.text := List.takeWhile_eq_self_iff.mpr digits.numeric
  have left : digits.text.dropWhile isDigit = [] := List.dropWhile_eq_nil_iff.mpr digits.numeric
  have parts : mantissa isDigit digits.text = some (digits.text,[],[]) := by
    rw [mantissa,taken,left]
    exact if_neg fun both => digits.nonempty both.1
  rw [scanDecimal,parts,Option.map_some]
  dsimp only
  rw [exponentPart,List.append_nil,List.length_nil]
  simp

theorem strtod_digits (digits : Digits) : strtod digits.text = .ofRatio false (digitsValue digits.text) 1 [] := by
  obtain ⟨c,rest,shape,digit⟩ := digits.head
  obtain ⟨visible,-,plus,minus,-⟩ := digit_visible c digit
  have body : signed (digits.text.dropWhile isSpace) = (false,digits.text) := by
    rw [shape,List.dropWhile_cons_of_neg (by simp [visible])]
    unfold signed
    split
    · next same => exact absurd (List.cons.inj same).1 minus
    · next same => exact absurd (List.cons.inj same).1 plus
    · rfl
  have word : scanWord false digits.text = none := by
    rw [shape]
    exact scanWord_digit false c rest digit
  rw [strtod,body]
  dsimp only
  rw [word,scanHexadecimal_digits,scanDecimal_digits]
  rfl

end Strings

/-! ### Whole numbers of milliseconds -/

namespace Double

theorem ofRatio_finite (n : Nat) (positive : 0 < n) (small : n < 2^50) : (ofRatio false n 1).isFinite = true ∧
    (ofRatio false n 1).negative = false ∧ (ofRatio false n 1).units = n * 2^1074 := by
  have plain : ofInt n = ofRatio false n 1 := by
    rw [ofInt,Int.natAbs_natCast,decide_eq_false (by omega)]
  have close := ofRatio_close n 1 Nat.one_pos (wide positive (by decide)) (narrow Nat.one_pos small)
  have exact := units_ofInt_natCast n positive small
  rw [plain] at exact
  exact ⟨close.1,exact⟩

theorem times_whole (n factor : Nat) (positive : 0 < n) (unit : 0 < factor) (small : n * factor < 2^50) :
    (ofRatio false n 1).times factor = ofRatio false (n * factor) 1 := by
  have first := ofRatio_finite n positive (Nat.lt_of_le_of_lt (Nat.le_mul_of_pos_right n unit) small)
  have second := units_ofInt_natCast factor unit (Nat.lt_of_le_of_lt (Nat.le_mul_of_pos_left factor positive) small)
  rw [times,if_pos first.1,mul,first.2.1,first.2.2,second.1,second.2]
  apply ofRatio_congr _ _ _ _ _ (Nat.mul_pos (Nat.two_pow_pos _) (Nat.two_pow_pos _)) Nat.one_pos
  rw [Nat.mul_one,Nat.mul_mul_mul_comm]

end Double

namespace Strings

open Json (Digits)

theorem underflows_whole (n : Nat) (positive : 0 < n) : underflows n 1 = false := by
  have large : ¬n * 2^1076 < (2^54 - 1) * 1 := by
    rw [Nat.mul_one,Nat.not_lt]
    calc (2^54 - 1 : Nat) ≤ 1 * 2^54 := by omega
      _ ≤ n * 2^1076 := Nat.mul_le_mul positive (pow_le_pow_right₀ one_le_two (by decide))
  rw [underflows,decide_eq_false large,Bool.false_and]

theorem parseDouble_digits (digits : Digits) (positive : 0 < digitsValue digits.text)
    (small : digitsValue digits.text < 2^50) :
    parseDouble digits.text = some (.ofRatio false (digitsValue digits.text) 1) := by
  have visible : ∀ c ∈ digits.text, isSpace c = false ∧ c ≠ 0 := fun c inside =>
    have told := digit_visible c (digits.numeric c inside)
    ⟨told.1,told.2.1⟩
  have trimmed : trim digits.text = digits.text := by
    apply trim_of_ends
    · exact fun c first => (visible c (List.mem_of_head? first)).1
    · exact fun c last => (visible c (List.mem_of_getLast? last)).1
  have whole : digits.text.takeWhile (· ≠ 0) = digits.text := by
    apply List.takeWhile_eq_self_iff.mpr
    intro c inside
    simpa using (visible c inside).2
  have finite := (Double.ofRatio_finite _ positive small).1
  rw [parseDouble,trimmed,if_neg digits.nonempty,whole,strtod_digits]
  simp [Scanned.ofRatio,finite,underflows_whole _ positive]

theorem letter_visible (c : UInt8) (letter : isAlpha c = true) : isSpace c = false := by
  simp only [isAlpha,Bool.or_eq_true,Bool.and_eq_true,decide_eq_true_eq] at letter
  simp only [isSpace,Bool.or_eq_false_iff,beq_eq_false_iff_ne,Bool.and_eq_false_iff,decide_eq_false_iff_not]
  grind

theorem digit_not_letter (c : UInt8) (digit : isDigit c = true) : isAlpha c = false := by
  have range := digit_range c digit
  simp only [isAlpha,Bool.or_eq_false_iff,Bool.and_eq_false_iff,decide_eq_false_iff_not]
  grind

/-- The suffix is cut off where the digits end. -/
theorem suffix_cut (digits : Digits) (unit : Bytes) (letters : ∀ c ∈ unit, isAlpha c = true) :
    trim (digits.text ++ unit) = digits.text ++ unit ∧ (digits.text ++ unit).rdropWhile isAlpha = digits.text ∧
      (digits.text ++ unit).rtakeWhile isAlpha = unit := by
  have visible : ∀ c ∈ digits.text ++ unit, isSpace c = false := by
    intro c inside
    rcases List.mem_append.mp inside with digit | letter
    · exact (digit_visible c (digits.numeric c digit)).1
    · exact letter_visible c (letters c letter)
  have last : ∀ c ∈ digits.text.reverse.head?, isAlpha c = false := fun c final =>
    digit_not_letter c (digits.numeric c (List.mem_reverse.mp (List.mem_of_head? final)))
  have backward : ∀ c ∈ unit.reverse, isAlpha c = true := fun c member => letters c (List.mem_reverse.mp member)
  refine ⟨?_,?_,?_⟩
  · apply trim_of_ends
    · exact fun c first => visible c (List.mem_of_head? first)
    · exact fun c final => visible c (List.mem_of_getLast? final)
  · rw [List.rdropWhile,List.reverse_append,List.dropWhile_append_of_pos backward]
    cases shape : digits.text.reverse with
    | nil => exact absurd (List.reverse_eq_nil_iff.mp shape) digits.nonempty
    | cons c rest =>
      rw [List.dropWhile_cons_of_neg (by simp [last c (by simp [shape])]),← shape,List.reverse_reverse]
  · rw [List.rtakeWhile,List.reverse_append,List.takeWhile_append_of_pos backward]
    cases shape : digits.text.reverse with
    | nil => exact absurd (List.reverse_eq_nil_iff.mp shape) digits.nonempty
    | cons c rest =>
      rw [List.takeWhile_cons_of_neg (by simp [last c (by simp [shape])]),List.append_nil,List.reverse_reverse]

theorem multiplier_bounds {suffix : Bytes} {factor : Nat} (known : multiplier suffix = some factor) :
    0 < factor ∧ factor < 2^50 := by
  unfold multiplier at known
  split_ifs at known <;> cases known <;> decide

/-- Digits with a unit are read as what they say. -/
theorem parseDurationMillis_digits (digits : Digits) (unit : Bytes) (factor : Nat) (letters : ∀ c ∈ unit, isAlpha c = true)
    (known : multiplier (toLower unit) = some factor) (positive : 0 < digitsValue digits.text)
    (small : digitsValue digits.text * factor < 2^50) :
    parseDurationMillis (digits.text ++ unit) = .millis (Int64.ofInt (digitsValue digits.text * factor : Nat)) := by
  have given := (multiplier_bounds known).1
  obtain ⟨trimmed,number,suffix⟩ := suffix_cut digits unit letters
  have read := parseDouble_digits digits positive (Nat.lt_of_le_of_lt (Nat.le_mul_of_pos_right _ given) small)
  have product := Double.times_whole _ factor positive given small
  generalize digitsValue digits.text = n at read product positive small
  have total : 0 < n * factor := Nat.mul_pos positive given
  obtain ⟨finite,sign,units⟩ := Double.ofRatio_finite (n * factor) total small
  have plain := (Double.ofRatio_finite n positive (Nat.lt_of_le_of_lt (Nat.le_mul_of_pos_right n given) small)).2.1
  have unit : 0 < 2^1074 := Nat.two_pow_pos _
  have below : (Double.ofRatio false n 1).belowZero = false := by rw [Double.belowZero,plain]; rfl
  have inside : (Double.ofRatio false (n * factor) 1).inInt64 = true := by
    rw [Double.inInt64,finite,sign,units]
    have less : n * factor < 2^63 := Nat.lt_trans small (by decide)
    have fits : n * factor * 2^1074 < 2^63 * 2^1074 := Nat.mul_lt_mul_of_pos_right less unit
    simpa using fits
  have cast : (Double.ofRatio false (n * factor) 1).toInt = (n * factor : Nat) := by
    rw [Double.toInt,sign,units,Nat.mul_div_cancel _ unit]
    rfl
  rw [parseDurationMillis,trimmed,if_neg (List.append_ne_nil_of_left_ne_nil digits.nonempty _),number,suffix,read,known]
  dsimp only
  rw [below,product,inside,cast]
  rfl

/-- A product of no units is a zero. -/
theorem ofRatio_none (negative : Bool) (den : Nat) : (Double.ofRatio negative 0 den).units = 0 := by
  have magnitude := (Double.ofRatio_fields negative 0 den).2
  have empty : Double.place 0 den * 2^52 + Double.rounded 0 den = 0 := by
    simp [Double.place,Double.rounded,Double.roundHalfEven]
  rw [empty,Nat.zero_min,Double.magnitude] at magnitude
  rw [Double.units_eq,(Nat.add_eq_zero_iff.mp magnitude).2,Nat.zero_mul]

theorem toInt_nonneg (value : Double) (factor : Nat) (unit : 0 < factor) (small : factor < 2^50)
    (above : value.belowZero = false) (inside : (value.times factor).inInt64 = true) :
    0 ≤ (value.times factor).toInt ∧ (value.times factor).toInt < 2^63 := by
  have finite : value.isFinite = true := by
    by_contra infinite
    rw [Double.times,if_neg infinite,Double.inInt64,Bool.and_eq_true] at inside
    exact infinite inside.1
  have second := (Double.units_ofInt_natCast factor unit small).1
  rw [Double.times,if_pos finite,Double.mul,second,Bool.bne_false] at inside ⊢
  have sign := fun num den => (Double.ofRatio_fields value.negative num den).1
  cases negative : value.negative with
  | true =>
    have zero : value.units = 0 := by simpa [Double.belowZero,Double.isNaN,negative,finite] using above
    rw [zero,Nat.zero_mul,Double.toInt,ofRatio_none,Nat.zero_div]
    split <;> decide
  | false =>
    rw [negative] at inside sign
    rw [Double.inInt64,sign,Bool.and_eq_true,if_neg (by decide),decide_eq_true_eq] at inside
    rw [Double.toInt,sign,if_neg (by decide)]
    have less := Nat.div_lt_of_lt_mul ((Nat.mul_comm _ _).trans_gt inside.2)
    omega

/-- No duration is negative. -/
theorem parseDurationMillis_nonneg (text : Bytes) (millis : Int64) (parsed : parseDurationMillis text = .millis millis) :
    0 ≤ millis.toInt := by
  simp only [parseDurationMillis] at parsed
  split at parsed
  · cases parsed
  · split at parsed
    · next value factor read known =>
      split_ifs at parsed with below inside
      · cases parsed
        obtain ⟨given,small⟩ := multiplier_bounds known
        obtain ⟨low,high⟩ := toInt_nonneg value factor given small (Bool.eq_false_iff.mpr below) inside
        rw [Int64.toInt_ofInt_of_le (by omega) high]
        exact low
    · cases parsed

end Strings
end TestForge
