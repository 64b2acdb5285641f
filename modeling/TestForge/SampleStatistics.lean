import Mathlib.Data.List.Sort
import Mathlib.Order.Basic

/-! What a list of samples says: its nearest-rank percentiles, the greatest of its items, and how
often its outcomes change. -/

/-! Nearest-rank percentiles: the smallest value with at least a given fraction of the list at or
below it, for a fraction that is exactly `num / den`. -/
namespace NearestRank

variable {α : Type*} [LinearOrder α]

/-- The value is one of the list, and the smallest that has the fraction at or below it. -/
structure IsPercentile (num den : Nat) (values : List α) (x : α) : Prop where
  observed : x ∈ values
  enough : num * values.length ≤ den * values.countP (· ≤ x)
  least : ∀ y ∈ values, num * values.length ≤ den * values.countP (· ≤ y) → x ≤ y

theorem IsPercentile.unique {num den : Nat} {values : List α} {x y : α} (first : IsPercentile num den values x)
    (second : IsPercentile num den values y) : x = y :=
  le_antisymm (first.least y second.observed second.enough) (second.least x first.observed first.enough)

theorem IsPercentile.perm {num den : Nat} {a b : List α} {x : α} (of : IsPercentile num den a x) (perm : a.Perm b) :
    IsPercentile num den b x := by
  constructor
  case observed => exact perm.mem_iff.mp of.observed
  case enough =>
    rw [← perm.length_eq,← perm.countP_eq]
    exact of.enough
  case least =>
    intro y member enough
    rw [← perm.length_eq,← perm.countP_eq] at enough
    exact of.least y (perm.mem_iff.mpr member) enough

/-- The rank, from 1: the fraction of the length rounded up. -/
def rank (num den length : Nat) : Nat := (num * length + (den - 1)) / den

theorem rank_le_iff (num den length count : Nat) (positive : 0 < den) :
    rank num den length ≤ count ↔ num * length ≤ den * count := by
  obtain ⟨less,rfl⟩ := Nat.exists_eq_succ_of_ne_zero positive.ne'
  rw [rank,← Nat.lt_succ_iff,Nat.div_lt_iff_lt_mul positive,Nat.succ_mul]
  simp only [Nat.succ_eq_add_one,Nat.add_sub_cancel]
  rw [Nat.mul_comm count]
  omega

theorem rank_le (num den length : Nat) (positive : 0 < den) (proper : num ≤ den) : rank num den length ≤ length :=
  (rank_le_iff num den length length positive).mpr (Nat.mul_le_mul_right _ proper)

theorem rank_pos (num den length : Nat) (positive : 0 < num) (positive' : 0 < den) (filled : 0 < length) :
    0 < rank num den length := by
  by_contra none
  have zero := (rank_le_iff num den length 0 positive').mp (Nat.not_lt.mp none)
  have := Nat.mul_pos positive filled
  omega

theorem rank_mono (num num' den den' length : Nat) (positive : 0 < den) (positive' : 0 < den')
    (less : num * den' ≤ num' * den) : rank num den length ≤ rank num' den' length := by
  apply (rank_le_iff num den length _ positive).mpr
  have above := (rank_le_iff num' den' length _ positive').mp (Nat.le_refl _)
  refine Nat.le_of_mul_le_mul_right ?_ positive'
  calc num * length * den' = num * den' * length := Nat.mul_right_comm _ _ _
    _ ≤ num' * den * length := Nat.mul_le_mul_right _ less
    _ = num' * length * den := Nat.mul_right_comm _ _ _
    _ ≤ den' * rank num' den' length * den := Nat.mul_le_mul_right _ above
    _ = den * rank num' den' length * den' := by
      rw [Nat.mul_comm den',Nat.mul_right_comm,Nat.mul_comm _ den]

section

variable (sorted : List α) (ordered : sorted.Pairwise (· ≤ ·)) (i : Nat) (inside : i < sorted.length)
include ordered

theorem lt_countP_get : i < sorted.countP (· ≤ sorted[i]) := by
  have front : ∀ x ∈ sorted.take (i + 1), decide (x ≤ sorted[i]) = true := by
    intro x member
    obtain ⟨j,bound,rfl⟩ := List.mem_take_iff_getElem.mp member
    apply decide_eq_true
    rcases Nat.lt_or_eq_of_le (show j ≤ i by omega) with before | rfl
    · exact List.pairwise_iff_getElem.mp ordered j i _ inside before
    · exact le_refl _
  have all := List.countP_eq_length.mpr front
  rw [List.length_take,Nat.min_eq_left inside] at all
  have part := (List.take_sublist (i + 1) sorted).countP_le (p := fun x => decide (x ≤ sorted[i]))
  omega

theorem countP_le_of_lt (y : α) (below : y < sorted[i]) : sorted.countP (· ≤ y) ≤ i := by
  have back : ∀ x ∈ sorted.drop i, ¬decide (x ≤ y) = true := by
    intro x member
    obtain ⟨j,bound,rfl⟩ := List.mem_drop_iff_getElem.mp member
    intro small
    have order : sorted[i] ≤ sorted[i + j] := by
      rcases Nat.eq_zero_or_pos j with rfl | positive
      · exact le_refl _
      · exact List.pairwise_iff_getElem.mp ordered i (i + j) _ _ (by omega)
    exact absurd (order.trans (of_decide_eq_true small)) (not_le.mpr below)
  have none := List.countP_eq_zero.mpr back
  calc sorted.countP (· ≤ y) = (sorted.take i).countP (· ≤ y) + (sorted.drop i).countP (· ≤ y) := by
        rw [← List.countP_append,List.take_append_drop]
    _ ≤ i := by
        rw [none,Nat.add_zero]
        exact List.countP_le_length.trans (List.length_take_le _ _)

/-- A sorted list has its percentile at the rank. -/
theorem isPercentile_get (num den : Nat) (positive : 0 < den) (place : i + 1 = rank num den sorted.length) :
    IsPercentile num den sorted sorted[i] := by
  constructor
  case observed => exact List.getElem_mem inside
  case enough =>
    apply (rank_le_iff num den sorted.length _ positive).mp
    rw [← place]
    exact lt_countP_get sorted ordered i inside
  case least =>
    intro y _ enough
    by_contra below
    have few := countP_le_of_lt sorted ordered i inside y (not_le.mp below)
    have many := (rank_le_iff num den sorted.length _ positive).mpr enough
    omega

end

end NearestRank

/-! The greatest of many, in order. What is kept among equals is left open. -/
namespace Sequence

variable {α β : Type} {κ : Type} [LinearOrder κ]

/-- The kept ones are in descending order and no more than there may be, none that is left has a greater
key, and only where there are as many as there may be is something left. -/
structure IsTop (key : α → κ) (limit : Nat) (all kept : List α) : Prop where
  ordered : kept.Pairwise fun a b => key b ≤ key a
  few : kept.length ≤ limit
  rest : ∃ left, (kept ++ left).Perm all ∧ (∀ a ∈ kept, ∀ b ∈ left, key b ≤ key a) ∧ (left = [] ∨ kept.length = limit)

def descending (key : α → κ) (items : List α) : List α := items.mergeSort fun a b => key b ≤ key a

theorem descending_perm (key : α → κ) (items : List α) : (descending key items).Perm items := List.mergeSort_perm _ _

theorem descending_ordered (key : α → κ) (items : List α) : (descending key items).Pairwise fun a b => key b ≤ key a := by
  have sorted : (items.mergeSort fun a b => decide (key b ≤ key a)).Pairwise fun a b => decide (key b ≤ key a) = true :=
    List.pairwise_mergeSort
      (fun a b c first second => by simpa using le_trans (of_decide_eq_true second) (of_decide_eq_true first))
      (fun a b => by simpa using le_total (key b) (key a)) items
  exact sorted.imp fun below => of_decide_eq_true below

/-- The front of the sorted list is such a selection. -/
theorem isTop_take (key : α → κ) (limit : Nat) (items : List α) : IsTop key limit items ((descending key items).take limit) where
  ordered := (descending_ordered key items).sublist (List.take_sublist _ _)
  few := List.length_take_le _ _
  rest := by
    refine ⟨(descending key items).drop limit,?_,?_,?_⟩
    · rw [List.take_append_drop]
      exact descending_perm key items
    · have sorted := descending_ordered key items
      rw [← List.take_append_drop limit (descending key items),List.pairwise_append] at sorted
      exact sorted.2.2
    · by_cases long : limit ≤ (descending key items).length
      · exact .inr (by rw [List.length_take]; exact Nat.min_eq_left long)
      · exact .inl (List.drop_eq_nil_of_le (Nat.le_of_not_le long))

theorem isTop_all (key : α → κ) (items : List α) : IsTop key items.length items (descending key items) where
  ordered := descending_ordered key items
  few := (descending_perm key items).length_eq.le
  rest := ⟨[],by simpa using descending_perm key items,by simp,.inl rfl⟩

end Sequence

/-! How often a sequence of outcomes changes, and when that is often. -/
namespace Sequence

/-- The consecutive pairs whose outcomes differ. -/
def flips : List Bool → Nat
  | first :: second :: rest => (if second ≠ first then 1 else 0) + flips (second :: rest)
  | _ => 0

/-- At least one of five consecutive pairs is a change, and there is a pair. -/
def Changing (outcomes : List Bool) : Prop := 2 ≤ outcomes.length ∧ outcomes.length - 1 ≤ 5 * flips outcomes

instance (outcomes : List Bool) : Decidable (Changing outcomes) := instDecidableAnd

theorem flips_le (outcomes : List Bool) : flips outcomes ≤ outcomes.length - 1 := by
  induction outcomes with
  | nil => exact Nat.le_refl _
  | cons first rest ih =>
    cases rest with
    | nil => exact Nat.le_refl _
    | cons second rest =>
      rw [flips]
      simp only [List.length_cons] at ih ⊢
      split <;> omega

theorem flips_pos_iff (outcomes : List Bool) : 0 < flips outcomes ↔ true ∈ outcomes ∧ false ∈ outcomes := by
  induction outcomes with
  | nil => simp [flips]
  | cons first rest ih =>
    cases rest with
    | nil => cases first <;> simp [flips]
    | cons second rest =>
      rw [flips]
      by_cases changed : second ≠ first
      · rw [if_pos changed]
        refine iff_of_true (by omega) ?_
        cases first <;> cases second <;> simp_all
      · obtain rfl := not_not.mp changed
        rw [if_neg changed,Nat.zero_add,ih]
        simp

theorem Changing.mixed {outcomes : List Bool} (changing : Changing outcomes) :
    true ∈ outcomes ∧ false ∈ outcomes := by
  obtain ⟨some_,often⟩ := changing
  apply (flips_pos_iff outcomes).mp
  omega

/-- Among fewer than seven outcomes one change is enough. -/
theorem changing_of_mixed {outcomes : List Bool} (short : outcomes.length ≤ 6)
    (mixed : true ∈ outcomes ∧ false ∈ outcomes) : Changing outcomes := by
  have changed := (flips_pos_iff outcomes).mpr mixed
  have bounded := flips_le outcomes
  exact ⟨by omega,by omega⟩

end Sequence
