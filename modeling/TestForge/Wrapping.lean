import Mathlib.Data.Int.Init
import Mathlib.Order.Lattice

/-! Integers cut to a signed word of `2 * half` values, and what is left of a clamp behind it. -/
namespace Wrapping

def clamp (low high z : Int) : Int := max low (min z high)

def wrap (half : Nat) (z : Int) : Int := z.bmod (2 * half)

/-- An integer outside the word comes back beyond the same bound: above `high` when it was above
the word, below `low` when it was below. -/
def KeepsSide (half : Nat) (low high z : Int) : Prop :=
  (-half ≤ z ∧ z < half) ∨
  (half ≤ z ∧ high ≤ z % (2 * half) ∧ z % (2 * half) < half) ∨
  (z < -half ∧ (z % (2 * half) ≤ low ∨ half ≤ z % (2 * half)))

variable {half : Nat} {low high z : Int}

theorem wrap_eq : wrap half z =
    if z % (2 * half) < half then z % (2 * half) else z % (2 * half) - 2 * half := by
  rw [wrap,Int.bmod_def]
  push_cast
  split <;> split <;> omega

theorem wrap_self (inside : -half ≤ z ∧ z < half) : wrap half z = z := by
  apply Int.bmod_eq_of_le_mul_two <;> push_cast <;> omega

theorem wrap_eq_self_iff (word : 0 < half) : wrap half z = z ↔ -half ≤ z ∧ z < half := by
  constructor
  · intro same
    have residue := Int.emod_lt_of_pos z (show (0 : Int) < 2 * half by omega)
    have positive := Int.emod_nonneg z (show (2 * half : Int) ≠ 0 by omega)
    rw [wrap_eq] at same
    split at same <;> omega
  · exact wrap_self

theorem clamp_eq_high (ordered : low ≤ high) : clamp low high z = high ↔ high ≤ z ∨ low = high := by
  unfold clamp
  omega

theorem clamp_eq_low (ordered : low ≤ high) : clamp low high z = low ↔ z ≤ low ∨ low = high := by
  unfold clamp
  omega

/-- A clamp within the word undoes the wrapping exactly when the side is kept. -/
theorem clamp_wrap_iff (nonnegative : 0 ≤ low) (ordered : low < high) (bounded : high < half) :
    clamp low high (wrap half z) = clamp low high z ↔ KeepsSide half low high z := by
  have residue : 0 ≤ z % (2 * half) ∧ z % (2 * half) < 2 * half := by
    constructor
    · exact Int.emod_nonneg _ (by omega)
    · exact Int.emod_lt_of_pos _ (by omega)
  unfold KeepsSide
  by_cases inside : -half ≤ z ∧ z < half
  · rw [wrap_self inside]
    exact iff_of_true rfl (.inl inside)
  · rcases not_and_or.mp inside with below | above
    · have bottom : clamp low high z = low := (clamp_eq_low ordered.le).mpr (.inl (by omega))
      rw [bottom,clamp_eq_low ordered.le,wrap_eq]
      split <;> omega
    · have top : clamp low high z = high := (clamp_eq_high ordered.le).mpr (.inl (by omega))
      rw [top,clamp_eq_high ordered.le,wrap_eq]
      split <;> omega

end Wrapping
