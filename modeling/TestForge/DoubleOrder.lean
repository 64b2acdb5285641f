import TestForge.DoubleRounding

/-! The order of doubles, and that rounding does not disturb it between two small quotients. -/
namespace TestForge.Double

/-- A finite double in units of 2^-1074, with its sign. -/
def signedUnits (d : Double) : Int := if d.negative then -(d.units : Int) else d.units

/-- `a >= b` for finite doubles. -/
def ge (a b : Double) : Bool := a.isFinite && b.isFinite && b.signedUnits ≤ a.signedUnits

/-- The binade of a quotient that is neither tiny nor huge. -/
structure Binade (scaled den shift : Nat) : Prop where
  low : 2^52 * (den * 2^shift) ≤ scaled
  high : scaled < 2^53 * (den * 2^shift)
  small : shift ≤ 1074

theorem binade_log2 (scaled den : Nat) (positive : 0 < den) (low : 2^52 * den ≤ scaled)
    (high : scaled < 2^1126 * den) : Binade scaled den (Nat.log2 (scaled / den) - 52) := by
  have whole : 2^52 ≤ scaled / den := (Nat.le_div_iff_mul_le positive).mpr low
  have nonzero : scaled / den ≠ 0 := by
    have := Nat.two_pow_pos 52
    omega
  have least : 52 ≤ Nat.log2 (scaled / den) := (Nat.le_log2 nonzero).mpr whole
  have below : scaled / den < 2^1126 := (Nat.div_lt_iff_lt_mul positive).mpr high
  have most : Nat.log2 (scaled / den) < 1126 := (Nat.log2_lt nonzero).mpr below
  obtain ⟨shift,log⟩ := Nat.exists_eq_add_of_le least
  rw [log,Nat.add_sub_cancel_left]
  constructor
  case low =>
    have power : 2^(52 + shift) ≤ scaled / den := (Nat.le_log2 nonzero).mp log.ge
    calc 2^52 * (den * 2^shift) = 2^(52 + shift) * den := by ring
      _ ≤ scaled := (Nat.le_div_iff_mul_le positive).mp power
  case high =>
    have power : scaled / den < 2^(53 + shift) := (Nat.log2_lt nonzero).mp (by omega)
    calc scaled < 2^(53 + shift) * den := (Nat.div_lt_iff_lt_mul positive).mp power
      _ = 2^53 * (den * 2^shift) := by ring
  case small => omega

theorem units_ofBits (shift rounded : Nat) (small : shift ≤ 1074) (low : 2^52 ≤ rounded) (high : rounded ≤ 2^53) :
    let d : Double := ⟨UInt64.ofNat (shift * 2^52 + rounded)⟩
    d.isFinite = true ∧ d.negative = false ∧ d.units = rounded * 2^shift := by
  intro d
  have bits : d.bits.toNat = shift * 2^52 + rounded := by
    change (UInt64.ofNat _).toNat = _
    rw [UInt64.toNat_ofNat']
    omega
  have sign : d.negative = false := by
    rw [negative,decide_eq_false_iff_not]
    intro large
    have := UInt64.le_iff_toNat_le.mp large
    rw [bits] at this
    have literal : UInt64.toNat 0x8000000000000000 = 2^63 := rfl
    omega
  rcases Nat.lt_or_eq_of_le high with below | rfl
  · have field : d.exponentField = shift + 1 := by
      rw [exponentField,bits]
      omega
    have rest : d.fraction = rounded - 2^52 := by
      rw [fraction,bits]
      omega
    refine ⟨by simp [isFinite,field]; omega,sign,?_⟩
    rw [units,field,rest,if_neg (by omega),Nat.add_sub_cancel,Nat.add_sub_cancel' low]
  · have field : d.exponentField = shift + 2 := by
      rw [exponentField,bits]
      omega
    have rest : d.fraction = 0 := by
      rw [fraction,bits]
      omega
    refine ⟨by simp [isFinite,field]; omega,sign,?_⟩
    rw [units,field,rest,if_neg (by omega),Nat.add_zero,show shift + 2 - 1 = shift + 1 from rfl]
    ring

theorem ofRatio_close (num den : Nat) (positive : 0 < den) (low : 2^52 * den ≤ num * 2^1074)
    (high : num * 2^1074 < 2^1126 * den) :
    let d := ofRatio false num den
    d.isFinite = true ∧ d.negative = false ∧
      2^53 * (d.units * den) ≤ (2^53 + 1) * (num * 2^1074) ∧
        2^53 * (num * 2^1074) ≤ 2^53 * (d.units * den) + num * 2^1074 := by
  intro d
  have binade := binade_log2 (num * 2^1074) den positive low high
  generalize place : Nat.log2 (num * 2^1074 / den) - 52 = shift at binade
  obtain ⟨least,most,small⟩ := binade
  have unit : 0 < den * 2^shift := Nat.mul_pos positive (Nat.two_pow_pos _)
  have lower := le_roundHalfEven (num * 2^1074) (den * 2^shift) (2^52) unit (by omega)
  have upper := roundHalfEven_le (num * 2^1074) (den * 2^shift) (2^53) unit (by omega)
  have half := roundHalfEven_half (num * 2^1074) (den * 2^shift) unit
  generalize rounding : roundHalfEven (num * 2^1074) (den * 2^shift) = rounded at lower upper half
  have shape : d = ⟨UInt64.ofNat (shift * 2^52 + rounded)⟩ := by
    have inside : shift * 2^52 + rounded ≤ 2047 * 2^52 := by omega
    simp only [d,ofRatio,place,rounding,Bool.false_eq_true,if_false,Nat.zero_add,Nat.min_eq_left inside]
  obtain ⟨finite,sign,units⟩ := units_ofBits shift rounded small lower upper
  rw [← shape] at finite sign units
  have product : d.units * den = rounded * (den * 2^shift) := by
    rw [units]
    ring
  refine ⟨finite,sign,?_,?_⟩ <;> rw [product] <;> omega

theorem wide {num den : Nat} (positive : 0 < num) (small : den < 2^50) : 2^52 * den ≤ num * 2^1074 := by
  calc 2^52 * den ≤ 2^52 * 2^50 := Nat.mul_le_mul_left _ small.le
    _ = 1 * 2^102 := by norm_num
    _ ≤ num * 2^1074 := Nat.mul_le_mul positive (pow_le_pow_right₀ (by decide) (by decide))

theorem narrow {num den : Nat} (positive : 0 < den) (small : num < 2^50) : num * 2^1074 < 2^1126 * den := by
  have unit : 0 < 2^1074 := pow_pos Nat.zero_lt_two _
  calc num * 2^1074 < 2^50 * 2^1074 := Nat.mul_lt_mul_of_pos_right small unit
    _ = 2^(50 + 1074) := (pow_add 2 50 1074).symm
    _ ≤ 2^1126 := pow_le_pow_right₀ (by decide) (by decide)
    _ ≤ 2^1126 * den := Nat.le_mul_of_pos_right _ positive

theorem factors_lt {a b bound : Nat} (positive : 0 < a) (positive' : 0 < b) (small : a * b < bound) :
    a < bound ∧ b < bound :=
  ⟨(Nat.le_mul_of_pos_right a positive').trans_lt small,(Nat.le_mul_of_pos_left b positive).trans_lt small⟩

/-- The doubles of two different quotients of small numbers are as far apart as they need to be. -/
theorem units_lt (num den num' den' : Nat) (positive : 0 < num ∧ 0 < den) (positive' : 0 < num' ∧ 0 < den')
    (less : num * den' < num' * den) (small : num' * den < 2^50) :
    (ofRatio false num den).units < (ofRatio false num' den').units := by
  obtain ⟨num_lt,den'_lt⟩ := factors_lt positive.1 positive'.2 (less.trans small)
  obtain ⟨num'_lt,den_lt⟩ := factors_lt positive'.1 positive.2 small
  obtain ⟨-,-,above,-⟩ := ofRatio_close num den positive.2 (wide positive.1 den_lt) (narrow positive.2 num_lt)
  obtain ⟨-,-,-,below⟩ :=
    ofRatio_close num' den' positive'.2 (wide positive'.1 den'_lt) (narrow positive'.2 num'_lt)
  generalize (ofRatio false num den).units = u at above ⊢
  generalize (ofRatio false num' den').units = u' at below ⊢
  have unit : 0 < 2^1074 := pow_pos Nat.zero_lt_two _
  generalize 2^1074 = unitsOfOne at above below unit
  have above := Nat.mul_le_mul_right den' above
  have below := Nat.mul_le_mul_right den below
  have gap := Nat.mul_le_mul_right unitsOfOne (Nat.succ_le_of_lt less)
  have bound := Nat.mul_lt_mul_of_pos_right small unit
  have scaled : 2^53 * (u * (den * den')) < 2^53 * (u' * (den * den')) := by
    have left : 2^53 * (u * den) * den' = 2^53 * (u * (den * den')) := by ring
    have left' : (2^53 + 1) * (num * unitsOfOne) * den' = (2^53 + 1) * (num * den' * unitsOfOne) := by ring
    have right : 2^53 * (num' * unitsOfOne) * den = 2^53 * (num' * den * unitsOfOne) := by ring
    have right' : (2^53 * (u' * den') + num' * unitsOfOne) * den =
        2^53 * (u' * (den * den')) + num' * den * unitsOfOne := by ring
    rw [left,left'] at above
    rw [right,right'] at below
    rw [Nat.succ_mul] at gap
    omega
  exact Nat.lt_of_mul_lt_mul_right (Nat.lt_of_mul_lt_mul_left scaled)

theorem ofRatio_ge_iff (num den num' den' : Nat) (positive : 0 < num ∧ 0 < den) (positive' : 0 < num' ∧ 0 < den')
    (small : num * den' < 2^50) (small' : num' * den < 2^50) :
    (ofRatio false num den).ge (ofRatio false num' den') = true ↔ num' * den ≤ num * den' := by
  have plain : ∀ n d : Nat, 0 < n → 0 < d → n < 2^50 → d < 2^50 →
      (ofRatio false n d).isFinite = true ∧ (ofRatio false n d).signedUnits = (ofRatio false n d).units := by
    intro n d nonzero den small small'
    obtain ⟨finite,sign,-⟩ := ofRatio_close n d den (wide nonzero small') (narrow den small)
    exact ⟨finite,by simp [signedUnits,sign]⟩
  obtain ⟨num_lt,den'_lt⟩ := factors_lt positive.1 positive'.2 small
  obtain ⟨num'_lt,den_lt⟩ := factors_lt positive'.1 positive.2 small'
  obtain ⟨finite,units⟩ := plain num den positive.1 positive.2 num_lt den_lt
  obtain ⟨finite',units'⟩ := plain num' den' positive'.1 positive'.2 num'_lt den'_lt
  have order : (ofRatio false num den).ge (ofRatio false num' den') = true ↔
      (ofRatio false num' den').units ≤ (ofRatio false num den).units := by
    simp [ge,finite,finite',units,units']
  rw [order]
  constructor
  · intro above
    by_contra less
    exact absurd above (Nat.not_le.mpr (units_lt num den num' den' positive positive' (Nat.not_le.mp less) small'))
  · intro above
    rcases Nat.lt_or_eq_of_le above with less | same
    · exact (units_lt num' den' num den positive' positive less small).le
    · rw [ofRatio_congr false num den num' den' positive.2 positive'.2 same.symm]

end TestForge.Double
