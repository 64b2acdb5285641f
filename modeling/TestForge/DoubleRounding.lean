import TestForge.Double
import Mathlib.Algebra.Order.Ring.Nat
import Mathlib.Tactic.Ring

/-! Correct rounding: a ratio near enough to a finite double rounds to it. -/
namespace TestForge.Double

/-- The rounded quotient is at most half away. -/
theorem roundHalfEven_half (num den : Nat) (positive : 0 < den) :
    2 * (roundHalfEven num den * den) ≤ 2 * num + den ∧ 2 * num ≤ 2 * (roundHalfEven num den * den) + den := by
  have split := Nat.div_add_mod num den
  have small := Nat.mod_lt num positive
  rw [Nat.mul_comm] at split
  unfold roundHalfEven
  dsimp only
  split_ifs with up
  · rw [Nat.add_mul,Nat.one_mul]
    omega
  · omega

theorem le_roundHalfEven (num den quotient : Nat) (positive : 0 < den)
    (below : 2 * (quotient * den) < 2 * num + den) : quotient ≤ roundHalfEven num den := by
  obtain ⟨-,upper⟩ := roundHalfEven_half num den positive
  by_contra less
  have gap := Nat.mul_le_mul_right den (Nat.succ_le_of_lt (Nat.lt_of_not_le less))
  rw [Nat.succ_mul] at gap
  omega

theorem roundHalfEven_le (num den quotient : Nat) (positive : 0 < den)
    (above : 2 * num < 2 * (quotient * den) + den) : roundHalfEven num den ≤ quotient := by
  obtain ⟨lower,-⟩ := roundHalfEven_half num den positive
  by_contra greater
  have gap := Nat.mul_le_mul_right den (Nat.succ_le_of_lt (Nat.lt_of_not_le greater))
  rw [Nat.succ_mul] at gap
  omega

/-- The one integer less than half away is the rounded quotient. -/
theorem roundHalfEven_unique (num den quotient : Nat) (positive : 0 < den)
    (below : 2 * (quotient * den) < 2 * num + den) (above : 2 * num < 2 * (quotient * den) + den) :
    roundHalfEven num den = quotient :=
  Nat.le_antisymm (roundHalfEven_le num den quotient positive above)
    (le_roundHalfEven num den quotient positive below)

theorem roundHalfEven_scale (factor num den : Nat) (positive : 0 < factor) :
    roundHalfEven (factor * num) (factor * den) = roundHalfEven num den := by
  have twice : ∀ n, 2 * (factor * n) = factor * (2 * n) := fun n => by ring
  simp only [roundHalfEven,Nat.mul_div_mul_left _ _ positive,Nat.mul_mod_mul_left,twice,gt_iff_lt,
    Nat.mul_lt_mul_left positive,Nat.mul_right_inj (Nat.ne_of_gt positive)]

theorem ofRatio_scale (negative : Bool) (factor num den : Nat) (positive : 0 < factor) :
    ofRatio negative (factor * num) (factor * den) = ofRatio negative num den := by
  have scaled : factor * num * 2^1074 = factor * (num * 2^1074) := Nat.mul_assoc _ _ _
  have shifted : ∀ shift, factor * den * 2^shift = factor * (den * 2^shift) := fun _ => Nat.mul_assoc _ _ _
  simp only [ofRatio,scaled,shifted,Nat.mul_div_mul_left _ _ positive,roundHalfEven_scale _ _ _ positive]

/-- Only the ratio counts. -/
theorem ofRatio_congr (negative : Bool) (num den num' den' : Nat) (positive : 0 < den) (positive' : 0 < den')
    (same : num * den' = num' * den) : ofRatio negative num den = ofRatio negative num' den' := by
  rw [← ofRatio_scale negative den' num den positive',← ofRatio_scale negative den num' den' positive,
    Nat.mul_comm den' num,same,Nat.mul_comm num' den,Nat.mul_comm den' den]

/-- The integer significand and the power of two it is scaled by. -/
def significand (d : Double) : Nat := if d.exponentField = 0 then d.fraction else 2^52 + d.fraction
def shift (d : Double) : Nat := d.exponentField - 1

theorem units_eq (d : Double) : d.units = d.significand * 2^d.shift := by
  unfold units significand shift
  split
  · next zero => simp [zero]
  · rfl

theorem significand_lt (d : Double) : d.significand < 2^53 := by
  have small : d.fraction < 2^52 := Nat.mod_lt _ (by decide)
  unfold significand
  split <;> omega

theorem significand_normal (d : Double) (scaled : 0 < d.shift) : 2^52 ≤ d.significand := by
  have normal : d.exponentField ≠ 0 := by
    unfold shift at scaled
    omega
  rw [significand,if_neg normal]
  omega

theorem bits_eq (d : Double) : d.bits.toNat =
    (if d.negative then 2^63 else 0) + (d.shift * 2^52 + d.significand) := by
  have small := d.bits.toNat_lt
  have sign : d.negative = decide (2^63 ≤ d.bits.toNat) := by
    rw [negative]
    exact decide_eq_decide.mpr UInt64.le_iff_toNat_le
  have fields : d.bits.toNat = (if d.negative then 2^63 else 0) + (d.exponentField * 2^52 + d.fraction) := by
    simp only [exponentField,fraction,sign,decide_eq_true_eq]
    split <;> omega
  rw [fields,shift,significand]
  by_cases subnormal : d.exponentField = 0
  · rw [if_pos subnormal]
    omega
  · rw [if_neg subnormal]
    omega

theorem magnitude_lt (d : Double) (finite : d.isFinite = true) :
    d.shift * 2^52 + d.significand < 2047 * 2^52 := by
  have field : d.exponentField < 2048 := Nat.mod_lt _ (by decide)
  have below : d.exponentField ≠ 2047 := by simpa [isFinite] using finite
  have small : d.fraction < 2^52 := Nat.mod_lt _ (by decide)
  unfold shift significand
  split <;> omega

theorem log2_shift (whole shift : Nat) (below : whole < 2^(53 + shift)) (above : shift = 0 ∨ 2^(52 + shift) ≤ whole) :
    Nat.log2 whole - 52 = shift := by
  have upper : whole.log2 < 53 + shift ∨ whole = 0 := by
    by_cases zero : whole = 0
    · exact .inr zero
    · exact .inl ((Nat.log2_lt zero).mpr below)
  rcases above with rfl | above
  · rcases upper with upper | rfl
    · omega
    · simp
  · have nonzero : whole ≠ 0 := Nat.ne_of_gt (Nat.lt_of_lt_of_le (Nat.two_pow_pos _) above)
    have lower := (Nat.le_log2 nonzero).mpr above
    omega

/-- A ratio of another relative distance than 1 in 2 * 10^16 lies in a binade that
rounds it to the double. -/
theorem roundHalfEven_near (d : Double) (scaled den : Nat) (positive : 0 < den)
    (below : 2 * 10^16 * (d.units * den) ≤ (2 * 10^16 + 1) * scaled)
    (above : 2 * 10^16 * scaled ≤ 2 * 10^16 * (d.units * den) + scaled) :
    (Nat.log2 (scaled / den) - 52) * 2^52 +
        roundHalfEven scaled (den * 2^(Nat.log2 (scaled / den) - 52)) =
      d.shift * 2^52 + d.significand := by
  have bound := d.significand_lt
  obtain ⟨unit,unit_eq⟩ : ∃ unit, unit = 2^d.shift * den := ⟨_,rfl⟩
  have unitPositive : 0 < unit := unit_eq ▸ Nat.mul_pos (Nat.two_pow_pos _) positive
  have units : d.units * den = d.significand * unit := by rw [d.units_eq,unit_eq]; ring
  rw [units] at below above
  have largest : d.significand * unit + unit ≤ 2^53 * unit := by
    have := Nat.mul_le_mul_right unit (Nat.succ_le_of_lt bound)
    rwa [Nat.succ_mul] at this
  have high : scaled < 2^53 * unit := by omega
  have wholeHigh : scaled / den < 2^(53 + d.shift) := by
    rw [Nat.div_lt_iff_lt_mul positive,Nat.pow_add,Nat.mul_assoc,← unit_eq]
    exact high
  by_cases low : d.shift = 0 ∨ 2^52 * unit ≤ scaled
  · have same : Nat.log2 (scaled / den) - 52 = d.shift := by
      apply log2_shift _ _ wholeHigh
      rcases low with zero | low
      · exact .inl zero
      · right
        rw [Nat.le_div_iff_mul_le positive,Nat.pow_add,Nat.mul_assoc,← unit_eq]
        exact low
    rw [same,Nat.mul_comm den,← unit_eq,roundHalfEven_unique scaled unit d.significand unitPositive (by omega)
      (by omega)]
  · rw [not_or,Nat.not_le] at low
    obtain ⟨normal,low⟩ := low
    have lowest := d.significand_normal (Nat.pos_of_ne_zero normal)
    have atLeast := Nat.mul_le_mul_right unit lowest
    have exact : d.significand = 2^52 := by
      by_contra other
      have more := Nat.mul_le_mul_right unit (show 2^52 + 1 ≤ d.significand by omega)
      omega
    obtain ⟨finer,finer_eq⟩ : ∃ finer, d.shift = finer + 1 := ⟨d.shift - 1,by omega⟩
    obtain ⟨half,half_eq⟩ : ∃ half, half = 2^finer * den := ⟨_,rfl⟩
    have double : unit = 2 * half := by rw [unit_eq,finer_eq,half_eq]; ring
    rw [exact,double] at below above
    have same : Nat.log2 (scaled / den) - 52 = finer := by
      apply log2_shift
      · rw [Nat.div_lt_iff_lt_mul positive,Nat.pow_add,Nat.mul_assoc,← half_eq]
        omega
      · right
        rw [Nat.le_div_iff_mul_le positive,Nat.pow_add,Nat.mul_assoc,← half_eq]
        omega
    rw [same,Nat.mul_comm den,← half_eq,roundHalfEven_unique scaled half (2^53) (by omega) (by omega)
      (by omega),exact,finer_eq]
    ring

theorem ofRatio_near (d : Double) (finite : d.isFinite = true) (num den : Nat) (positive : 0 < den)
    (below : 2 * 10^16 * (d.units * den) ≤ (2 * 10^16 + 1) * (num * 2^1074))
    (above : 2 * 10^16 * (num * 2^1074) ≤ 2 * 10^16 * (d.units * den) + num * 2^1074) :
    ofRatio d.negative num den = d := by
  have magnitude := roundHalfEven_near d (num * 2^1074) den positive below above
  have small := d.magnitude_lt finite
  have bits := d.bits_eq
  cases d with
  | mk bits' =>
    simp only [ofRatio,magnitude,Nat.min_eq_left (Nat.le_of_lt small),← bits]
    simp

end TestForge.Double
