import TestForge.DoubleOrder

/-! Doubles beside whole numbers: rounding never crosses one, so that a rounded quotient rounds up
to the same whole number as the quotient itself. -/
namespace TestForge.Double

/-- A quotient that is neither tiny nor huge becomes the nearest multiple of a power of two. -/
theorem ofRatio_units (num den : Nat) (positive : 0 < den) (low : 2^52 * den ≤ num * 2^1074)
    (high : num * 2^1074 < 2^1126 * den) : ∃ shift ≤ 1074,
    (ofRatio false num den).units = roundHalfEven (num * 2^1074) (den * 2^shift) * 2^shift := by
  have binade := binade_log2 (num * 2^1074) den positive low high
  generalize place : Nat.log2 (num * 2^1074 / den) - 52 = shift at binade
  obtain ⟨least,most,small⟩ := binade
  have unit : 0 < den * 2^shift := Nat.mul_pos positive (Nat.two_pow_pos _)
  have lower := le_roundHalfEven (num * 2^1074) (den * 2^shift) (2^52) unit (by omega)
  have upper := roundHalfEven_le (num * 2^1074) (den * 2^shift) (2^53) unit (by omega)
  refine ⟨shift,small,?_⟩
  generalize rounding : roundHalfEven (num * 2^1074) (den * 2^shift) = rounded at lower upper
  have shape : ofRatio false num den = ⟨UInt64.ofNat (shift * 2^52 + rounded)⟩ := by
    have inside : shift * 2^52 + rounded ≤ 2047 * 2^52 := by omega
    simp only [ofRatio,place,rounding,Bool.false_eq_true,if_false,Nat.zero_add,Nat.min_eq_left inside]
  rw [shape]
  exact (units_ofBits shift rounded small lower upper).2.2

theorem whole_steps (whole den shift : Nat) (small : shift ≤ 1074) :
    whole * 2^(1074 - shift) * (den * 2^shift) = whole * den * 2^1074 := by
  have power : 2^(1074 - shift) * 2^shift = 2^1074 := by rw [← pow_add,Nat.sub_add_cancel small]
  calc whole * 2^(1074 - shift) * (den * 2^shift) = whole * den * (2^(1074 - shift) * 2^shift) := by ring
    _ = whole * den * 2^1074 := by rw [power]

theorem whole_units (whole shift : Nat) (small : shift ≤ 1074) :
    whole * 2^(1074 - shift) * 2^shift = whole * 2^1074 := by
  rw [Nat.mul_assoc,← pow_add,Nat.sub_add_cancel small]

theorem ofRatio_le_whole (num den whole : Nat) (positive : 0 < den) (low : 2^52 * den ≤ num * 2^1074)
    (high : num * 2^1074 < 2^1126 * den) (below : num ≤ whole * den) :
    (ofRatio false num den).units ≤ whole * 2^1074 := by
  obtain ⟨shift,small,units⟩ := ofRatio_units num den positive low high
  have unit : 0 < den * 2^shift := Nat.mul_pos positive (Nat.two_pow_pos _)
  rw [units,← whole_units whole shift small]
  apply Nat.mul_le_mul_right
  apply roundHalfEven_le _ _ _ unit
  rw [whole_steps whole den shift small]
  have scaled := Nat.mul_le_mul_right (2^1074) below
  omega

theorem whole_le_ofRatio (num den whole : Nat) (positive : 0 < den) (low : 2^52 * den ≤ num * 2^1074)
    (high : num * 2^1074 < 2^1126 * den) (above : whole * den ≤ num) :
    whole * 2^1074 ≤ (ofRatio false num den).units := by
  obtain ⟨shift,small,units⟩ := ofRatio_units num den positive low high
  have unit : 0 < den * 2^shift := Nat.mul_pos positive (Nat.two_pow_pos _)
  rw [units,← whole_units whole shift small]
  apply Nat.mul_le_mul_right
  apply le_roundHalfEven _ _ _ unit
  rw [whole_steps whole den shift small]
  have scaled := Nat.mul_le_mul_right (2^1074) above
  omega

theorem units_ofInt_natCast (n : Nat) (positive : 0 < n) (small : n < 2^50) :
    (ofInt n).negative = false ∧ (ofInt n).units = n * 2^1074 := by
  have low : 2^52 * 1 ≤ n * 2^1074 := wide positive (by decide)
  have high : n * 2^1074 < 2^1126 * 1 := narrow Nat.one_pos small
  have plain : ofInt n = ofRatio false n 1 := by
    rw [ofInt,Int.natAbs_natCast,decide_eq_false (by omega)]
  have sign := (ofRatio_close n 1 Nat.one_pos low high).2.1
  rw [plain]
  refine ⟨sign,Nat.le_antisymm ?_ ?_⟩
  · exact ofRatio_le_whole n 1 n Nat.one_pos low high (by omega)
  · exact whole_le_ofRatio n 1 n Nat.one_pos low high (by omega)

/-- Rounding up behind the rounding is rounding up the quotient, when no whole number is closer below it than
the error. -/
theorem ceil_ofRatio (num den whole : Nat) (positive : 0 < den) (low : 2^52 * den ≤ num * 2^1074)
    (high : num * 2^1074 < 2^1126 * den) (below : num ≤ (whole + 1) * den)
    (above : 2^53 * (whole * den) + num < 2^53 * num) : (ofRatio false num den).ceil = whole + 1 := by
  have upper := ofRatio_le_whole num den (whole + 1) positive low high below
  have lower := (ofRatio_close num den positive low high).2.2.2
  have unit : 0 < 2^1074 := pow_pos Nat.zero_lt_two _
  rw [ceil]
  generalize (ofRatio false num den).units = units at upper lower
  generalize 2^1074 = unitsOfOne at upper lower unit
  have beyond : whole * unitsOfOne < units := by
    apply Nat.lt_of_mul_lt_mul_right (a := den)
    have scaled := Nat.mul_lt_mul_of_pos_right above unit
    have left : (2^53 * (whole * den) + num) * unitsOfOne = 2^53 * (whole * unitsOfOne * den) + num * unitsOfOne := by
      ring
    have right : 2^53 * num * unitsOfOne = 2^53 * (num * unitsOfOne) := Nat.mul_assoc _ _ _
    rw [left,right] at scaled
    omega
  rw [Nat.div_eq_iff unit]
  rw [Nat.succ_mul] at upper ⊢
  omega

end TestForge.Double
