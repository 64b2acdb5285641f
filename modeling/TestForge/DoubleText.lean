import TestForge.DoubleRounding
import TestForge.JsonNumbers
import Mathlib.Tactic.Positivity

/-! The text of a double: every precision gives a number literal, seventeen digits
read back as the double itself. -/
namespace TestForge.Double

open Strings Json

/-! ### Decimal digits -/

theorem digitsValue_snoc (digits : Bytes) (c : UInt8) :
    digitsValue (digits ++ [c]) = 10 * digitsValue digits + (c.toNat - 48) := by
  simp [digitsValue]

theorem digitsValue_append (a b : Bytes) :
    digitsValue (a ++ b) = digitsValue a * 10^b.length + digitsValue b := by
  induction b using List.reverseRecOn with
  | nil => simp [digitsValue]
  | append_singleton b c ih =>
    rw [← List.append_assoc,digitsValue_snoc,digitsValue_snoc,ih,List.length_append,List.length_singleton]
    ring

theorem digitsValue_lt (digits : Bytes) (numeric : ∀ c ∈ digits, isDigit c = true) :
    digitsValue digits < 10^digits.length := by
  induction digits using List.reverseRecOn with
  | nil => simp [digitsValue]
  | append_singleton digits c ih =>
    have first := ih fun x member => numeric x (List.mem_append_left _ member)
    obtain ⟨-,high⟩ := digit_range c (numeric c (by simp))
    simp only [UInt8.le_iff_toNat_le,UInt8.reduceToNat] at high
    rw [digitsValue_snoc,List.length_append,List.length_singleton,Nat.pow_succ]
    omega

theorem digitsValue_zeros (count : Nat) (digits : Bytes) :
    digitsValue (List.replicate count 48 ++ digits) = digitsValue digits := by
  have zero : digitsValue (List.replicate count 48) = 0 := by
    induction count with
    | zero => rfl
    | succ count ih => simp [List.replicate_succ',digitsValue_snoc,ih]
  rw [digitsValue_append,zero]
  omega

/-- Dropping zeros at the end divides by a power of ten. -/
theorem digitsValue_trimmed (digits : Bytes) :
    (digits.rdropWhile (· == 48)).length ≤ digits.length ∧
      digitsValue digits = digitsValue (digits.rdropWhile (· == 48)) *
        10^(digits.length - (digits.rdropWhile (· == 48)).length) := by
  induction digits using List.reverseRecOn with
  | nil => simp [digitsValue]
  | append_singleton digits c ih =>
    obtain ⟨shorter,value⟩ := ih
    by_cases zero : c = 48
    · subst zero
      rw [List.rdropWhile_concat_pos _ _ _ (by decide),digitsValue_snoc,value,List.length_append,
        List.length_singleton]
      refine ⟨by omega,?_⟩
      rw [Nat.sub_add_comm shorter,Nat.pow_succ]
      simp only [UInt8.reduceToNat]
      ring
    · rw [List.rdropWhile_concat_neg _ _ _ (by simpa using zero)]
      simp

theorem decimal_length_le (n k : Nat) (positive : 0 < k) : (decimal n).length ≤ k ↔ n < 10^k := by
  rw [decimal,List.length_map]
  exact Nat.length_toDigits_le_iff (by decide) positive

theorem decimal_length (n k : Nat) (low : 10^k ≤ n) (high : n < 10^(k + 1)) : (decimal n).length = k + 1 := by
  have upper := (decimal_length_le n (k + 1) (by omega)).mpr high
  by_cases single : k = 0
  · have := List.length_pos_iff.mpr (decimal_ne_nil n)
    omega
  · have lower : ¬(decimal n).length ≤ k := by
      rw [decimal_length_le n k (by omega)]
      omega
    omega

theorem decimal_bounds (n : Nat) (positive : 0 < n) :
    10^((decimal n).length - 1) ≤ n ∧ n < 10^(decimal n).length := by
  have nonempty := List.length_pos_iff.mpr (decimal_ne_nil n)
  refine ⟨?_,(decimal_length_le n _ nonempty).mp (Nat.le_refl _)⟩
  by_cases single : (decimal n).length = 1
  · simp [single]
    omega
  · have longer : ¬(decimal n).length ≤ (decimal n).length - 1 := by omega
    rw [decimal_length_le n _ (by omega)] at longer
    omega

theorem decimal_head (n : Nat) (positive : 0 < n) : (decimal n).head? ≠ some 48 := by
  intro zero
  obtain ⟨rest,shape⟩ : ∃ rest, decimal n = 48 :: rest := by
    cases digits : decimal n with
    | nil => simp [digits] at zero
    | cons c rest => exact ⟨rest,by rw [digits] at zero; simpa using zero⟩
  have numeric : ∀ c ∈ rest, isDigit c = true := fun c member =>
    isDigit_decimal n c (by rw [shape]; exact List.mem_cons_of_mem _ member)
  have value : digitsValue rest = n := by
    rw [← digitsValue_decimal n,shape]
    exact (digitsValue_zeros 1 rest).symm
  have low := (decimal_bounds n positive).1
  have high := digitsValue_lt rest numeric
  rw [shape,List.length_cons,Nat.add_sub_cancel] at low
  omega

/-- A digit string with its first digit not zero loses no leading digit to trimming. -/
theorem trimmed_head (c : UInt8) (rest : Bytes) (nonzero : c ≠ 48) :
    ∃ kept, (c :: rest).rdropWhile (· == 48) = c :: kept ∧ kept <+: rest := by
  induction rest using List.reverseRecOn with
  | nil =>
    refine ⟨[],?_,List.nil_prefix⟩
    rw [show [c] = [] ++ [c] by rfl,List.rdropWhile_concat_neg _ _ _ (by simpa using nonzero)]
  | append_singleton rest x ih =>
    by_cases zero : x = 48
    · obtain ⟨kept,shape,pre⟩ := ih
      refine ⟨kept,?_,pre.trans (List.prefix_append _ _)⟩
      rw [← List.cons_append,List.rdropWhile_concat_pos _ _ _ (by simpa using zero),shape]
    · refine ⟨rest ++ [x],?_,List.prefix_rfl⟩
      rw [← List.cons_append,List.rdropWhile_concat_neg _ _ _ (by simpa using zero)]

/-! ### The layout of `%g` -/

/-- Digits behind a point, where there are any. -/
def point (before after : Bytes) : Bytes := if after = [] then before else before ++ 46 :: after

def exponentDigits (exponent : Int) : Bytes :=
  let written := decimal exponent.natAbs
  if written.length < 2 then 48 :: written else written

/-- What `formatG` writes behind the sign once the digits and their exponent are known. -/
def layout (precision : Nat) (exponent : Int) (digits : Bytes) : Bytes :=
  let significant := digits.rdropWhile (· == 48)
  if -4 ≤ exponent ∧ exponent < precision then
    if exponent < 0 then point (ascii "0") (List.replicate (-exponent - 1).toNat 48 ++ significant)
    else
      let whole := exponent.toNat + 1
      point (digits.take whole) ((digits.drop whole).rdropWhile (· == 48))
  else
    point (significant.take 1) (significant.drop 1) ++ 101 ::
      (if exponent < 0 then 45 else 43) :: exponentDigits exponent

/-- The digits of a value to so many decimal places. -/
def scaleTo (d : Double) (places : Int) : Nat :=
  roundHalfEven (d.units * 10^places.toNat) (2^1074 * 10^(-places).toNat)

/-- The decimal exponent after rounding to so many digits. -/
def writtenExponent (precision : Nat) (d : Double) : Int :=
  let exponent := decimalExponent d.units (2^1074)
  if d.scaleTo (precision - 1 - exponent) = 10^precision then exponent + 1 else exponent

theorem formatG_eq (precision : Nat) (d : Double) (nonzero : d.units ≠ 0) :
    d.formatG precision = (if d.negative then [45] else []) ++
      layout precision (writtenExponent precision d)
        (decimal (d.scaleTo (precision - 1 - writtenExponent precision d))) := by
  let sign : Bytes := if d.negative then [45] else []
  let exponent := writtenExponent precision d
  let digits := decimal (d.scaleTo (precision - 1 - exponent))
  let significant := digits.rdropWhile (· == 48)
  have shape : d.formatG precision =
      if -4 ≤ exponent ∧ exponent < precision then
        if exponent < 0 then
          sign ++ point (ascii "0") (List.replicate (-exponent - 1).toNat 48 ++ significant)
        else
          sign ++ point (digits.take (exponent.toNat + 1))
            ((digits.drop (exponent.toNat + 1)).rdropWhile (· == 48))
      else
        sign ++ point (significant.take 1) (significant.drop 1) ++ 101 ::
          (if exponent < 0 then 45 else 43) :: exponentDigits exponent := by
    unfold formatG
    rw [if_neg nonzero]
    rfl
  rw [shape,layout]
  by_cases plain : -4 ≤ exponent ∧ exponent < precision
  · by_cases small : exponent < 0
    · rw [if_pos plain,if_pos small,if_pos plain,if_pos small]
    · rw [if_pos plain,if_neg small,if_pos plain,if_neg small]
  · rw [if_neg plain,if_neg plain,List.append_assoc]

def fractionOf (text : Bytes) (numeric : ∀ c ∈ text, isDigit c = true) : Option Digits :=
  if nonempty : text ≠ [] then some ⟨text,nonempty,numeric⟩ else none

theorem fractionOf_places (text : Bytes) (numeric : ∀ c ∈ text, isDigit c = true) :
    ((fractionOf text numeric).map Digits.text).getD [] = text := by
  unfold fractionOf
  by_cases empty : text = []
  · simp [empty]
  · simp [empty]

theorem point_eq (before text : Bytes) (numeric : ∀ c ∈ text, isDigit c = true) :
    point before text = before ++ fractionText (fractionOf text numeric) := by
  unfold fractionOf point fractionText
  by_cases empty : text = []
  · simp [empty]
  · simp [empty]

/-- The text of a number literal with the value `value * 10^-places`. -/
def Spells (negative : Bool) (text : Bytes) (value : Nat) (places : Int) : Prop :=
  ∃ n : Numeral, n.negative = negative ∧ (if negative then [45] else []) ++ text = n.text ∧
    ∃ zeros : Nat, value = digitsValue (n.whole.text ++ n.places) * 10^zeros ∧ n.scale = zeros - places

theorem spells_fixed (negative : Bool) (whole : Digits) (plain : whole.text.head? = some 48 → whole.text = [48])
    (after : Bytes) (numeric : ∀ c ∈ after, isDigit c = true) (value zeros : Nat) (places : Int)
    (valued : value = digitsValue (whole.text ++ after) * 10^zeros) (scaled : -(after.length : Int) = zeros - places) :
    Spells negative (point whole.text after) value places := by
  refine ⟨⟨negative,whole,fractionOf after numeric,none,plain⟩,rfl,?_,zeros,?_,?_⟩
  · simp [Numeral.text_eq,point_eq _ _ numeric,exponentText]
  · simpa [Numeral.places,fractionOf_places] using valued
  · simpa [Numeral.scale,Numeral.places,fractionOf_places] using scaled

theorem exponentDigits_numeric (exponent : Int) : ∃ digits : Digits, digits.text = exponentDigits exponent ∧
    digitsValue digits.text = exponent.natAbs := by
  have numeric := isDigit_decimal exponent.natAbs
  unfold exponentDigits
  dsimp only
  split
  · refine ⟨⟨48 :: decimal exponent.natAbs,by simp,?_⟩,rfl,?_⟩
    · intro c member
      rcases List.mem_cons.mp member with rfl | member
      · decide
      · exact numeric c member
    · exact (digitsValue_zeros 1 _).trans (digitsValue_decimal _)
  · exact ⟨⟨_,decimal_ne_nil _,numeric⟩,rfl,digitsValue_decimal _⟩

theorem spells_scientific (negative : Bool) (first : UInt8) (digit : isDigit first = true) (nonzero : first ≠ 48)
    (after : Bytes) (numeric : ∀ c ∈ after, isDigit c = true) (exponent : Int) (value zeros : Nat) (places : Int)
    (valued : value = digitsValue (first :: after) * 10^zeros)
    (scaled : exponent - after.length = zeros - places) :
    Spells negative (point [first] after ++ 101 :: (if exponent < 0 then 45 else 43) :: exponentDigits exponent)
      value places := by
  obtain ⟨digits,written,magnitude⟩ := exponentDigits_numeric exponent
  let sign : UInt8 := if exponent < 0 then 45 else 43
  have signs : ∀ c ∈ some sign, c = 45 ∨ c = 43 := by
    intro c member
    simp only [Option.mem_some_iff,sign] at member
    split at member <;> simp [← member]
  let e : Exponent := ⟨101,some sign,digits,.inl rfl,signs⟩
  have power : e.value = exponent := by
    simp only [Exponent.value,e,magnitude,Option.some.injEq]
    by_cases below : exponent < 0
    · rw [if_pos (show sign = 45 from if_pos below)]
      omega
    · rw [if_neg (by simp [sign,below])]
      omega
  refine ⟨⟨negative,⟨[first],by simp,by simpa using digit⟩,fractionOf after numeric,some e,?_⟩,rfl,?_,zeros,?_,?_⟩
  · intro zero
    exact absurd (by simpa using zero) nonzero
  · simp [Numeral.text_eq,point_eq _ _ numeric,exponentText,Exponent.text,e,written,sign]
  · simpa [Numeral.places,fractionOf_places] using valued
  · simpa [Numeral.scale,Numeral.places,fractionOf_places,power] using scaled

/-- The digits of a number without the zeros at their end. -/
structure Significant (precision value : Nat) (first : UInt8) (kept : Bytes) : Prop where
  length : (decimal value).length = precision
  leads : (decimal value).head? = some first
  nonzero : first ≠ 48
  digit : isDigit first = true
  shape : (decimal value).rdropWhile (· == 48) = first :: kept
  numeric : ∀ c ∈ kept, isDigit c = true
  shorter : kept.length + 1 ≤ precision
  valued : value = digitsValue (first :: kept) * 10^(precision - (kept.length + 1))

theorem exists_significant (precision value : Nat) (low : 10^(precision - 1) ≤ value) (high : value < 10^precision)
    (positive : 0 < precision) : ∃ first kept, Significant precision value first kept := by
  have length : (decimal value).length = precision := by
    have := decimal_length value (precision - 1) low (by rwa [Nat.sub_add_cancel positive])
    omega
  have head := decimal_head value (Nat.lt_of_lt_of_le (Nat.pow_pos (by decide)) low)
  have numeric := isDigit_decimal value
  obtain ⟨first,rest,shape⟩ := List.exists_cons_of_ne_nil (decimal_ne_nil value)
  have nonzero : first ≠ 48 := by
    rintro rfl
    exact head (by rw [shape]; rfl)
  obtain ⟨kept,significant,pre⟩ := trimmed_head first rest nonzero
  rw [← shape] at significant
  obtain ⟨shorter,trimmed⟩ := digitsValue_trimmed (decimal value)
  rw [digitsValue_decimal,significant,length] at trimmed
  rw [significant,length] at shorter
  exact ⟨first,kept,length,by rw [shape]; rfl,nonzero,numeric first (by rw [shape]; exact List.mem_cons_self),significant,
    fun c member => numeric c (by rw [shape]; exact List.mem_cons_of_mem _ (pre.subset member)),shorter,trimmed⟩

namespace Significant

variable {precision value : Nat} {first : UInt8} {kept : Bytes} (digits : Significant precision value first kept)
include digits

/-- Below one, zeros stand between the point and the digits. -/
theorem spells_small (negative : Bool) (exponent : Int) (small : exponent < 0) :
    Spells negative (point (ascii "0") (List.replicate (-exponent - 1).toNat 48 ++ first :: kept)) value
      (precision - 1 - exponent) := by
  have shorter := digits.shorter
  refine spells_fixed negative .zero (fun _ => rfl) _ ?_ value (precision - (kept.length + 1)) _ ?_ ?_
  · intro c member
    rcases List.mem_append.mp member with zero | member
    · rw [List.eq_of_mem_replicate zero]
      decide
    · rcases List.mem_cons.mp member with rfl | member
      · exact digits.digit
      · exact digits.numeric c member
  · have zeros : Digits.zero.text ++ (List.replicate (-exponent - 1).toNat 48 ++ first :: kept) =
        List.replicate ((-exponent - 1).toNat + 1) 48 ++ (first :: kept) := rfl
    rw [zeros,digitsValue_zeros]
    exact digits.valued
  · simp only [List.length_append,List.length_replicate,List.length_cons]
    omega

/-- From one on, the point stands among the digits or behind them. -/
theorem spells_large (negative : Bool) (whole : Nat) (places : Int) (some_ : 0 < whole) (inside : whole ≤ precision)
    (scaled : places = precision - whole) :
    Spells negative (point ((decimal value).take whole) (((decimal value).drop whole).rdropWhile (· == 48))) value
      places := by
  have split : (decimal value).take whole ++ (decimal value).drop whole = decimal value :=
    List.take_append_drop _ _
  have front : ((decimal value).take whole).head? = some first := by
    rw [List.head?_take,if_neg (by omega),digits.leads]
  obtain ⟨lessAfter,trimmedAfter⟩ := digitsValue_trimmed ((decimal value).drop whole)
  have dropped : ((decimal value).drop whole).length = precision - whole := by simp [digits.length]
  refine spells_fixed negative ⟨(decimal value).take whole,?_,?_⟩ ?_ _ ?_ value
    (((decimal value).drop whole).length - (((decimal value).drop whole).rdropWhile (· == 48)).length) _ ?_ ?_
  · intro empty
    rw [empty] at front
    cases front
  · exact fun c member => isDigit_decimal value c (List.mem_of_mem_take member)
  · intro zero
    rw [front,Option.some.injEq] at zero
    exact absurd zero digits.nonzero
  · intro c member
    exact isDigit_decimal value c (List.mem_of_mem_drop ((List.rdropWhile_prefix _ _).subset member))
  · dsimp only
    rw [digitsValue_append,Nat.add_mul,← trimmedAfter,Nat.mul_assoc,← Nat.pow_add,
      Nat.add_sub_cancel' lessAfter,← digitsValue_append,split,digitsValue_decimal]
  · omega

end Significant

/-- Whatever the exponent, the layout of `precision` digits is a literal of their value. -/
theorem layout_spells (negative : Bool) (precision : Nat) (exponent : Int) (value : Nat)
    (low : 10^(precision - 1) ≤ value) (high : value < 10^precision) (positive : 0 < precision) :
    Spells negative (layout precision exponent (decimal value)) value (precision - 1 - exponent) := by
  obtain ⟨first,kept,digits⟩ := exists_significant precision value low high positive
  unfold layout
  dsimp only
  split
  · next plain =>
    split
    · next small =>
      rw [digits.shape]
      exact digits.spells_small negative exponent small
    · next large => exact digits.spells_large negative (exponent.toNat + 1) _ (by omega) (by omega) (by omega)
  · have shorter := digits.shorter
    rw [digits.shape]
    exact spells_scientific negative first digits.digit digits.nonzero kept digits.numeric exponent value
      (precision - (kept.length + 1)) _ digits.valued (by omega)

/-! ### The digits -/

/-- The decimal exponent is that of the leading digit. -/
theorem decimalExponent_bounds (num den : Nat) (num_pos : 0 < num) (den_pos : 0 < den) (e : Int)
    (exponent : decimalExponent num den = e) :
    10^e.toNat * den ≤ num * 10^(-e).toNat ∧ num * 10^(-(e + 1)).toNat < 10^(e + 1).toNat * den := by
  unfold decimalExponent at exponent
  split at exponent
  · next large =>
    have quotient : 0 < num / den := Nat.div_pos large den_pos
    obtain ⟨low,high⟩ := decimal_bounds _ quotient
    have nonempty := List.length_pos_iff.mpr (decimal_ne_nil (num / den))
    have sizes : e.toNat = (decimal (num / den)).length - 1 ∧ (-e).toNat = 0 ∧ (-(e + 1)).toNat = 0 ∧
        (e + 1).toNat = (decimal (num / den)).length := by omega
    rw [sizes.1,sizes.2.1,sizes.2.2.1,sizes.2.2.2]
    rw [Nat.le_div_iff_mul_le den_pos] at low
    rw [Nat.div_lt_iff_lt_mul den_pos] at high
    simpa using ⟨low,high⟩
  · next small =>
    have quotient : 0 < (den - 1) / num := Nat.div_pos (by omega) num_pos
    obtain ⟨low,high⟩ := decimal_bounds _ quotient
    have nonempty := List.length_pos_iff.mpr (decimal_ne_nil ((den - 1) / num))
    have sizes : e.toNat = 0 ∧ (-e).toNat = (decimal ((den - 1) / num)).length ∧
        (-(e + 1)).toNat = (decimal ((den - 1) / num)).length - 1 ∧ (e + 1).toNat = 0 := by omega
    rw [sizes.1,sizes.2.1,sizes.2.2.1,sizes.2.2.2]
    rw [Nat.le_div_iff_mul_le num_pos] at low
    rw [Nat.div_lt_iff_lt_mul num_pos] at high
    rw [Nat.mul_comm num,Nat.mul_comm num]
    omega

/-- To so many digits the value is between the two powers of ten. -/
theorem scaled_bounds (precision : Nat) (positive : 0 < precision) (num den : Nat) (num_pos : 0 < num)
    (den_pos : 0 < den) (places : Int) (scale : places = precision - 1 - decimalExponent num den) :
    10^(precision - 1) * (den * 10^(-places).toNat) ≤ num * 10^places.toNat ∧
      num * 10^places.toNat < 10^precision * (den * 10^(-places).toNat) := by
  obtain ⟨low,high⟩ := decimalExponent_bounds num den num_pos den_pos _ rfl
  generalize decimalExponent num den = e at low high scale
  obtain ⟨p,rfl⟩ : ∃ p, precision = p + 1 := ⟨precision - 1,by omega⟩
  constructor
  · have exponents : p + (-places).toNat + (-e).toNat = e.toNat + places.toNat := by omega
    refine Nat.le_of_mul_le_mul_right ?_ (Nat.pow_pos (n := (-e).toNat) (by decide : 0 < 10))
    calc 10^p * (den * 10^(-places).toNat) * 10^(-e).toNat
        = 10^(p + (-places).toNat + (-e).toNat) * den := by rw [Nat.pow_add,Nat.pow_add]; ring
      _ = 10^e.toNat * den * 10^places.toNat := by rw [exponents,Nat.pow_add]; ring
      _ ≤ num * 10^(-e).toNat * 10^places.toNat := Nat.mul_le_mul_right _ low
      _ = num * 10^places.toNat * 10^(-e).toNat := by ring
  · have exponents : p + 1 + (-places).toNat + (-(e + 1)).toNat = (e + 1).toNat + places.toNat := by omega
    refine Nat.lt_of_mul_lt_mul_right (a := 10^(-(e + 1)).toNat) ?_
    calc num * 10^places.toNat * 10^(-(e + 1)).toNat
        = num * 10^(-(e + 1)).toNat * 10^places.toNat := by ring
      _ < 10^(e + 1).toNat * den * 10^places.toNat :=
          (Nat.mul_lt_mul_right (Nat.pow_pos (by decide))).mpr high
      _ = 10^(p + 1 + (-places).toNat + (-(e + 1)).toNat) * den := by rw [exponents,Nat.pow_add]; ring
      _ = 10^(p + 1) * (den * 10^(-places).toNat) * 10^(-(e + 1)).toNat := by
          rw [Nat.pow_add,Nat.pow_add]; ring

/-- One digit fewer of a quotient that rounds up to a power of ten. -/
theorem roundHalfEven_tenth (a b a' b' power : Nat) (positive : 0 < b) (positive' : 0 < b')
    (tenth : 10 * b * a' = a * b') (below : a < 10 * (power * b))
    (half : 2 * (10 * (power * b)) ≤ 2 * a + b) : roundHalfEven a' b' = power := by
  apply Nat.le_antisymm
  · apply roundHalfEven_le _ _ _ positive'
    apply Nat.lt_of_mul_lt_mul_left (a := 10 * b)
    calc 10 * b * (2 * a') = 2 * (10 * b * a') := by ring
      _ = 2 * a * b' := by rw [tenth]; ring
      _ < (2 * (10 * (power * b)) + 10 * b) * b' := (Nat.mul_lt_mul_right positive').mpr (by omega)
      _ = 10 * b * (2 * (power * b') + b') := by ring
  · apply le_roundHalfEven _ _ _ positive'
    apply Nat.lt_of_mul_lt_mul_left (a := 10 * b)
    calc 10 * b * (2 * (power * b')) = 2 * (10 * (power * b)) * b' := by ring
      _ < (2 * a + 10 * b) * b' := (Nat.mul_lt_mul_right positive').mpr (by omega)
      _ = 2 * (10 * b * a') + 10 * b * b' := by rw [tenth]; ring
      _ = 10 * b * (2 * a' + b') := by ring

/-- A value to one place fewer is a tenth of it. -/
theorem scale_tenth (units unit : Nat) (places : Int) :
    10 * (unit * 10^(-places).toNat) * (units * 10^(places - 1).toNat) =
      units * 10^places.toNat * (unit * 10^(-(places - 1)).toNat) := by
  have exponents : 1 + (places - 1).toNat + (-places).toNat = places.toNat + (-(places - 1)).toNat := by
    omega
  calc 10 * (unit * 10^(-places).toNat) * (units * 10^(places - 1).toNat)
      = units * unit * 10^(1 + (places - 1).toNat + (-places).toNat) := by
        rw [Nat.pow_add,Nat.pow_add]; ring
    _ = units * 10^places.toNat * (unit * 10^(-(places - 1)).toNat) := by
        rw [exponents,Nat.pow_add]; ring

/-- A carry leaves the power of ten itself, and otherwise every digit is there. -/
theorem scaleTo_bounds (precision : Nat) (positive : 0 < precision) (d : Double) (nonzero : d.units ≠ 0) :
    10^(precision - 1) ≤ d.scaleTo (precision - 1 - writtenExponent precision d) ∧
      d.scaleTo (precision - 1 - writtenExponent precision d) < 10^precision := by
  obtain ⟨e,exponent⟩ : ∃ e, decimalExponent d.units (2^1074) = e := ⟨_,rfl⟩
  have written : writtenExponent precision d =
      if d.scaleTo (precision - 1 - e) = 10^precision then e + 1 else e := by
    rw [writtenExponent]
    simp only [exponent]
  obtain ⟨places,places_eq⟩ : ∃ places : Int, places = precision - 1 - e := ⟨_,rfl⟩
  obtain ⟨low,high⟩ := scaled_bounds precision positive d.units (2^1074) (Nat.pos_of_ne_zero nonzero)
    (by positivity) places (by rw [exponent,places_eq])
  rw [written,← places_eq]
  have denominator : ∀ places : Int, 0 < 2^1074 * 10^(-places).toNat := fun places => by
    positivity
  obtain ⟨p,rfl⟩ : ∃ p, precision = p + 1 := ⟨precision - 1,by omega⟩
  rw [Nat.add_sub_cancel] at low ⊢
  have tenfold : ∀ b, 10^(p + 1) * b = 10 * (10^p * b) := fun b => by ring
  rw [tenfold] at high
  split
  · next carried =>
    have half := (roundHalfEven_half (d.units * 10^places.toNat) _ (denominator places)).1
    rw [← scaleTo,carried,tenfold] at half
    have fewer : ((p + 1 : Nat) : Int) - 1 - (e + 1) = places - 1 := by omega
    rw [fewer]
    have power : d.scaleTo (places - 1) = 10^p :=
      roundHalfEven_tenth _ _ _ _ _ (denominator places) (denominator (places - 1)) (scale_tenth _ _ places) high half
    rw [power]
    exact ⟨le_rfl,Nat.pow_lt_pow_right (by decide) (by omega)⟩
  · next whole =>
    have positive := denominator places
    have lower : 10^p ≤ d.scaleTo places := le_roundHalfEven _ _ _ positive (by omega)
    have upper : d.scaleTo places ≤ 10^(p + 1) := roundHalfEven_le _ _ _ positive (by
      rw [tenfold]
      omega)
    rw [← places_eq]
    omega

/-! ### Reading the text back -/

theorem toDouble_of_value (n : Numeral) (value zeros : Nat) (places : Int)
    (valued : value = digitsValue (n.whole.text ++ n.places) * 10^zeros) (scaled : n.scale = zeros - places) :
    n.toDouble = ofRatio n.negative (value * 10^(-places).toNat) (10^places.toNat) := by
  apply ofRatio_congr _ _ _ _ _ (Nat.pow_pos (by decide)) (Nat.pow_pos (by decide))
  have exponents : n.scale.toNat + places.toNat = zeros + (-places).toNat + (-n.scale).toNat := by omega
  calc digitsValue (n.whole.text ++ n.places) * 10^n.scale.toNat * 10^places.toNat
      = digitsValue (n.whole.text ++ n.places) * 10^(zeros + (-places).toNat + (-n.scale).toNat) := by
        rw [← exponents,Nat.pow_add]; ring
    _ = value * 10^(-places).toNat * 10^(-n.scale).toNat := by
        rw [valued,Nat.pow_add,Nat.pow_add]; ring

/-- Every precision writes a literal of the grammar. -/
theorem formatG_numeral (precision : Nat) (positive : 0 < precision) (d : Double) :
    ∃ n : Numeral, d.formatG precision = n.text ∧ n.negative = d.negative ∧
      (d.units = 0 → n.toDouble = ofRatio d.negative 0 1) ∧
      (d.units ≠ 0 → n.toDouble = ofRatio d.negative
        (d.scaleTo (precision - 1 - writtenExponent precision d) *
          10^(-(precision - 1 - writtenExponent precision d)).toNat)
        (10^(precision - 1 - writtenExponent precision d).toNat)) := by
  by_cases zero : d.units = 0
  · refine ⟨⟨d.negative,.zero,none,none,fun _ => rfl⟩,?_,rfl,fun _ => rfl,absurd zero⟩
    simp [formatG,zero,Numeral.text]
    rfl
  · obtain ⟨low,high⟩ := scaleTo_bounds precision positive d zero
    obtain ⟨n,sign,written,zeros,valued,scaled⟩ :=
      layout_spells d.negative precision (writtenExponent precision d) _ low high positive
    refine ⟨n,?_,sign,fun same => absurd same zero,fun _ => ?_⟩
    · rw [formatG_eq precision d zero,written]
    · rw [toDouble_of_value n _ zeros _ valued scaled,sign]

theorem ofRatio_zero (d : Double) (finite : d.isFinite = true) (zero : d.units = 0) :
    ofRatio d.negative 0 1 = d :=
  ofRatio_near d finite 0 1 (by decide) (by rw [zero,Nat.zero_mul]; exact Nat.zero_le _)
    (by rw [Nat.zero_mul]; exact Nat.zero_le _)

/-- Seventeen digits are within half a unit of the last one, which is less than a
quarter of the spacing of doubles. -/
theorem strtod_seventeen (d : Double) (finite : d.isFinite = true) :
    strtod (d.formatG 17) = d := by
  obtain ⟨n,written,-,zeros,digits⟩ := formatG_numeral 17 (by decide) d
  rw [written,strtod_text]
  by_cases zero : d.units = 0
  · rw [zeros zero,ofRatio_zero d finite zero]
  · rw [digits zero]
    obtain ⟨low,-⟩ := scaleTo_bounds 17 (by decide) d zero
    generalize ((17 : Nat) : Int) - 1 - writtenExponent 17 d = places at low ⊢
    have positive : 0 < 2^1074 * 10^(-places).toNat := by positivity
    obtain ⟨above,below⟩ := roundHalfEven_half (d.units * 10^places.toNat) _ positive
    rw [← scaleTo] at above below
    have large := Nat.mul_le_mul_right (2^1074 * 10^(-places).toNat) low
    have same : d.scaleTo places * 10^(-places).toNat * 2^1074 =
        d.scaleTo places * (2^1074 * 10^(-places).toNat) := by
      rw [Nat.mul_assoc,Nat.mul_comm (10^(-places).toNat)]
    apply ofRatio_near d finite _ _ (Nat.pow_pos (by decide))
    · rw [same]
      omega
    · rw [same]
      omega

end TestForge.Double
