import TestForge.DoubleText

/-! Which decimal literals become a double that `static_cast<std::int64_t>` is defined on. -/
namespace TestForge

open Json Strings

namespace Double

/-- A finite value whose whole part fits 64 bits. -/
def inInt64 (d : Double) : Bool :=
  d.isFinite && if d.negative then d.units ≤ 2^63 * 2^1074 else d.units < 2^63 * 2^1074

/-- All bits but the sign, as one integer. -/
def magnitude (d : Double) : Nat := d.shift * 2^52 + d.significand

theorem isFinite_iff (d : Double) : d.isFinite = true ↔ d.magnitude < 2047 * 2^52 := by
  refine ⟨d.magnitude_lt,fun small => ?_⟩
  by_contra infinite
  have field : d.exponentField = 2047 := by simpa [isFinite] using infinite
  rw [magnitude,shift,significand,field,if_neg (by decide)] at small
  omega

/-- The doubles are ordered as their bits are; 2^63 has the exponent field 1086. -/
theorem units_lt_iff (d : Double) : d.units < 2^63 * 2^1074 ↔ d.magnitude < 1086 * 2^52 := by
  have above := d.significand_lt
  have normal := d.significand_normal
  rw [units_eq,magnitude]
  have bound : (2 : Nat)^63 * 2^1074 = 2^53 * 2^1084 := by rw [← pow_add,← pow_add]
  constructor
  · intro less
    by_contra great
    have wide : 1085 ≤ d.shift := by omega
    have least : 2^52 * 2^1085 ≤ d.significand * 2^d.shift :=
      Nat.mul_le_mul (normal (by omega)) (pow_le_pow_right₀ one_le_two wide)
    have equal : (2 : Nat)^63 * 2^1074 = 2^52 * 2^1085 := by rw [← pow_add,← pow_add]
    rw [equal] at less
    exact absurd less (Nat.not_lt.mpr least)
  · intro less
    have narrow : d.shift ≤ 1084 := by
      by_contra wide
      have := normal (by omega)
      omega
    rw [bound]
    exact Nat.mul_lt_mul_of_lt_of_le above (pow_le_pow_right₀ one_le_two narrow) (pow_pos Nat.zero_lt_two _)

theorem units_le_iff (d : Double) : d.units ≤ 2^63 * 2^1074 ↔ d.magnitude ≤ 1086 * 2^52 := by
  have above := d.significand_lt
  have normal := d.significand_normal
  constructor
  · intro atMost
    by_contra great
    rw [units_eq] at atMost
    rw [magnitude] at great
    have equal : (2 : Nat)^63 * 2^1074 = 2^52 * 2^1085 := by rw [← pow_add,← pow_add]
    have wide : 1085 ≤ d.shift := by omega
    have least : 2^52 < d.significand ∨ 1085 < d.shift := by omega
    have power : 2^1085 ≤ 2^d.shift := pow_le_pow_right₀ one_le_two wide
    have normal := normal (by omega)
    have beyond : 2^52 * 2^1085 < d.significand * 2^d.shift := by
      rcases least with large | wider
      · exact Nat.mul_lt_mul_of_lt_of_le large power (Nat.two_pow_pos _)
      · exact Nat.mul_lt_mul_of_le_of_lt normal (pow_lt_pow_right₀ one_lt_two wider) (by omega)
    rw [equal] at atMost
    exact absurd atMost (Nat.not_le.mpr beyond)
  · intro atMost
    rcases Nat.lt_or_eq_of_le atMost with less | equal
    · exact Nat.le_of_lt ((units_lt_iff d).mpr less)
    · rw [magnitude] at equal
      have exact : d.shift = 1085 ∧ d.significand = 2^52 := by
        have wide : d.shift ≤ 1085 := by
          by_contra wider
          have := normal (by omega)
          omega
        omega
      rw [units_eq,exact.1,exact.2,← pow_add,← pow_add]

theorem inInt64_iff (d : Double) : d.inInt64 = true ↔
    if d.negative then d.magnitude ≤ 1086 * 2^52 else d.magnitude < 1086 * 2^52 := by
  rw [inInt64,Bool.and_eq_true,isFinite_iff]
  split <;> simp only [decide_eq_true_eq,units_le_iff,units_lt_iff] <;> omega

/-! ### Rounding at 2^63 -/

theorem roundHalfEven_le_iff (num den quotient : Nat) (positive : 0 < den) :
    roundHalfEven num den ≤ quotient ↔
      2 * num < (2 * quotient + 1) * den ∨ 2 * num = (2 * quotient + 1) * den ∧ quotient % 2 = 0 := by
  have split := Nat.div_add_mod num den
  have small := Nat.mod_lt num positive
  have expand : (2 * quotient + 1) * den = 2 * (den * quotient) + den := by ring
  rw [expand,roundHalfEven]
  generalize num % den = rest at split small
  generalize num / den = whole at split
  rcases Nat.lt_trichotomy whole quotient with less | rfl | more
  · have gap : den * whole + den ≤ den * quotient := Nat.mul_le_mul_left den less
    split_ifs <;> omega
  · split_ifs <;> omega
  · have gap : den * quotient + den ≤ den * whole := Nat.mul_le_mul_left den more
    split_ifs <;> omega

/-- The place of the last bit, its rounded multiple, and both with no overflow looked at. -/
def place (num den : Nat) : Nat := Nat.log2 (num * 2^1074 / den) - 52
def rounded (num den : Nat) : Nat := roundHalfEven (num * 2^1074) (den * 2^place num den)

theorem ofRatio_fields (negative : Bool) (num den : Nat) : (ofRatio negative num den).negative = negative ∧
    (ofRatio negative num den).magnitude = min (place num den * 2^52 + rounded num den) (2047 * 2^52) := by
  have shape : ofRatio negative num den = ⟨UInt64.ofNat ((if negative then 2^63 else 0) +
      min (place num den * 2^52 + rounded num den) (2047 * 2^52))⟩ := rfl
  rw [shape]
  have capped : min (place num den * 2^52 + rounded num den) (2047 * 2^52) ≤ 2047 * 2^52 := Nat.min_le_right _ _
  generalize min (place num den * 2^52 + rounded num den) (2047 * 2^52) = kept at capped
  have word : (UInt64.ofNat ((if negative = true then 2^63 else 0) + kept)).toNat =
      (if negative = true then 2^63 else 0) + kept := by
    rw [UInt64.toNat_ofNat']
    exact Nat.mod_eq_of_lt (by split <;> omega)
  have sign : Double.negative ⟨UInt64.ofNat ((if negative = true then 2^63 else 0) + kept)⟩ = negative := by
    have bit : ∀ d : Double, d.negative = decide (2^63 ≤ d.bits.toNat) :=
      fun _ => decide_eq_decide.mpr UInt64.le_iff_toNat_le
    rw [bit,word]
    cases negative with
    | true => simp
    | false =>
      simp
      omega
  refine ⟨sign,?_⟩
  have bits := bits_eq ⟨UInt64.ofNat ((if negative = true then 2^63 else 0) + kept)⟩
  rw [word,sign] at bits
  rw [magnitude]
  omega

/-- Where the first bit of the quotient stands. -/
theorem place_bounds (num den : Nat) (positive : 0 < den) :
    num * 2^1074 < 2^53 * (den * 2^place num den) ∧
    (0 < place num den → 2^52 * (den * 2^place num den) ≤ num * 2^1074) := by
  have spread : ∀ k, 2^k * (den * 2^place num den) = 2^(k + place num den) * den := by
    intro k
    rw [pow_add]
    ring
  rw [spread,spread]
  by_cases zero : num * 2^1074 / den = 0
  · have low : place num den = 0 := by rw [place,zero]; rfl
    rw [low]
    refine ⟨?_,fun inside => absurd inside (by decide)⟩
    have below := (Nat.div_eq_zero_iff_lt positive).mp zero
    calc num * 2^1074 < 1 * den := by rwa [Nat.one_mul]
      _ ≤ 2^(53 + 0) * den := Nat.mul_le_mul_right den Nat.one_le_two_pow
  · constructor
    · apply (Nat.div_lt_iff_lt_mul positive).mp
      apply (Nat.log2_lt zero).mp
      rw [place]
      omega
    · intro inside
      apply (Nat.le_div_iff_mul_le positive).mp
      apply (Nat.le_log2 zero).mp
      rw [place] at inside ⊢
      omega

theorem rounded_bounds (num den : Nat) (positive : 0 < den) :
    rounded num den ≤ 2^53 ∧ (0 < place num den → 2^52 ≤ rounded num den) := by
  obtain ⟨upper,lower⟩ := place_bounds num den positive
  have unit : 0 < den * 2^place num den := Nat.mul_pos positive (Nat.two_pow_pos _)
  constructor
  · apply roundHalfEven_le _ _ _ unit
    omega
  · intro inside
    apply le_roundHalfEven _ _ _ unit
    have := lower inside
    omega

/-- With its last bit at a place above the units the quotient needs no scaling. -/
theorem rounded_above (num den extra : Nat) (here : place num den = 1074 + extra) :
    rounded num den = roundHalfEven num (den * 2^extra) := by
  have scaled : den * 2^(1074 + extra) = 2^1074 * (den * 2^extra) := by
    rw [pow_add]
    ring
  rw [rounded,here,scaled,Nat.mul_comm num,roundHalfEven_scale _ _ _ (pow_pos Nat.zero_lt_two _)]

theorem num_lt_of_place (num den k : Nat) (positive : 0 < den) (low : place num den + 53 ≤ 1074 + k) :
    num < 2^k * den := by
  have upper := (place_bounds num den positive).1
  apply Nat.lt_of_mul_lt_mul_right (a := 2^1074)
  calc num * 2^1074 < 2^53 * (den * 2^place num den) := upper
    _ = 2^(53 + place num den) * den := by rw [pow_add]; ring
    _ ≤ 2^(1074 + k) * den := Nat.mul_le_mul_right den (pow_le_pow_right₀ one_le_two (by omega))
    _ = 2^k * den * 2^1074 := by rw [pow_add,Nat.mul_comm (2^1074),Nat.mul_right_comm]

theorem le_num_of_place (num den k : Nat) (positive : 0 < den) (high : 1074 + k ≤ place num den + 52)
    (inside : 0 < place num den) : 2^k * den ≤ num := by
  have lower := (place_bounds num den positive).2 inside
  apply Nat.le_of_mul_le_mul_right _ (pow_pos Nat.zero_lt_two 1074)
  calc 2^k * den * 2^1074 = 2^(1074 + k) * den := by rw [pow_add,Nat.mul_comm (2^1074),Nat.mul_right_comm]
    _ ≤ 2^(52 + place num den) * den := Nat.mul_le_mul_right den (pow_le_pow_right₀ one_le_two (by omega))
    _ = 2^52 * (den * 2^place num den) := by rw [pow_add]; ring
    _ ≤ num * 2^1074 := lower

/-- What is half a unit below 2^63 is rounded up to it. -/
theorem below_iff (num den : Nat) (positive : 0 < den) :
    place num den * 2^52 + rounded num den < 1086 * 2^52 ↔ num < (2^63 - 512) * den := by
  obtain ⟨most,least⟩ := rounded_bounds num den positive
  rcases Nat.lt_trichotomy (place num den) 1084 with low | exact | high
  · have small := num_lt_of_place num den 62 positive (by omega)
    omega
  · have rounding := rounded_above num den 10 exact
    have crossing := roundHalfEven_le_iff num (den * 2^10) (2^53 - 1) (Nat.mul_pos positive (by decide))
    rw [← rounding] at crossing
    rw [exact]
    omega
  · have large := le_num_of_place num den 63 positive (by omega) (by omega)
    have := least (by omega)
    omega

theorem atMost_iff (num den : Nat) (positive : 0 < den) :
    place num den * 2^52 + rounded num den ≤ 1086 * 2^52 ↔ num ≤ (2^63 + 1024) * den := by
  obtain ⟨most,least⟩ := rounded_bounds num den positive
  rcases Nat.lt_trichotomy (place num den) 1085 with low | exact | high
  · have small := num_lt_of_place num den 63 positive (by omega)
    omega
  · have rounding := rounded_above num den 11 exact
    have crossing := roundHalfEven_le_iff num (den * 2^11) (2^52) (Nat.mul_pos positive (by decide))
    rw [← rounding] at crossing
    rw [exact]
    omega
  · have large := le_num_of_place num den 64 positive (by omega) (by omega)
    have := least (by omega)
    omega

theorem ofRatio_inInt64 (negative : Bool) (num den : Nat) (positive : 0 < den) :
    (ofRatio negative num den).inInt64 = true ↔
      if negative then num ≤ (2^63 + 1024) * den else num < (2^63 - 512) * den := by
  obtain ⟨sign,magnitude⟩ := ofRatio_fields negative num den
  rw [inInt64_iff,sign,magnitude]
  cases negative with
  | true =>
    rw [if_pos rfl,if_pos rfl,← atMost_iff num den positive]
    omega
  | false =>
    rw [if_neg (by decide),if_neg (by decide),← below_iff num den positive]
    omega

end Double

namespace Json

/-- The literal is read as a 64-bit integer or as a double that a cast to one is defined on:
below the last half unit before 2^63, and not beyond the first half unit behind -2^63. -/
def Numeral.Convertible (n : Numeral) : Prop :=
  (n.isInteger = true ∧ -2^63 ≤ n.toInt ∧ n.toInt < 2^63) ∨
    if n.negative then
      digitsValue (n.whole.text ++ n.places) * 10^n.scale.toNat ≤ (2^63 + 1024) * 10^(-n.scale).toNat
    else digitsValue (n.whole.text ++ n.places) * 10^n.scale.toNat < (2^63 - 512) * 10^(-n.scale).toNat

/-- The doubles that `asInt` and `intOr` convert when they are applied to the value. -/
def Value.conversion : Value → List Double
  | .double d => [d]
  | _ => []

theorem Numeral.convertible_iff (n : Numeral) :
    (∀ d ∈ n.value.conversion, d.inInt64 = true) ↔ n.Convertible := by
  rw [Numeral.value,Numeral.Convertible]
  split
  · next fits => exact ⟨fun _ => .inl fits,fun _ _ none => absurd none (List.not_mem_nil)⟩
  · next beyond =>
    rw [or_iff_right beyond,Value.conversion,List.forall_mem_singleton,Numeral.toDouble]
    exact Double.ofRatio_inInt64 _ _ _ (pow_pos (by decide) _)

end Json
end TestForge
