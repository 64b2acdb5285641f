import TestForge.DoubleOrder
import TestForge.DoubleRange
import TestForge.JsonEquivalence

/-! Below 2^53 the comparison of an integer with a double rounds nothing. -/
namespace TestForge

open Json

namespace Double

/-- A finite double below 2^53. -/
def isModest (d : Double) : Bool := d.isFinite && d.units < 2^53 * 2^1074

theorem units_of_magnitude {a b : Double} (same : a.magnitude = b.magnitude) : a.units = b.units := by
  have left := a.significand_lt
  have right := b.significand_lt
  have normal := a.significand_normal
  have normal' := b.significand_normal
  simp only [magnitude] at same
  have shifts : a.shift = b.shift := by omega
  have significands : a.significand = b.significand := by omega
  rw [units_eq,units_eq,shifts,significands]

theorem magnitude_of_modest (d : Double) (modest : d.isModest = true) : d.magnitude < 1076 * 2^52 := by
  have below : d.units < 2^53 * 2^1074 := of_decide_eq_true (Bool.and_eq_true_iff.mp modest).2
  have normal := d.significand_normal
  have small := d.significand_lt
  rw [magnitude]
  by_contra large
  have wide : 1075 ≤ d.shift := by omega
  have least : 2^52 * 2^1075 ≤ d.significand * 2^d.shift :=
    Nat.mul_le_mul (normal (by omega)) (pow_le_pow_right₀ one_le_two wide)
  have equal : (2 : Nat)^53 * 2^1074 = 2^52 * 2^1075 := by rw [← pow_add,← pow_add]
  rw [← units_eq,← equal] at least
  exact absurd below (Nat.not_lt.mpr least)

/-- An integer with 53 bits is a double. -/
theorem exists_units (n : Nat) (positive : 0 < n) (small : n < 2^53) :
    ∃ d : Double, d.isFinite = true ∧ d.negative = false ∧ d.units = n * 2^1074 := by
  have least := Nat.log2_self_le (Nat.ne_of_gt positive)
  have most := Nat.lt_log2_self (n := n)
  have place : n.log2 ≤ 52 := by
    have := (Nat.log2_lt (Nat.ne_of_gt positive)).mpr small
    omega
  have low : 2^52 ≤ n * 2^(52 - n.log2) := by
    calc 2^52 = 2^n.log2 * 2^(52 - n.log2) := by rw [← pow_add,Nat.add_sub_cancel' place]
      _ ≤ n * 2^(52 - n.log2) := Nat.mul_le_mul_right _ least
  have high : n * 2^(52 - n.log2) ≤ 2^53 := by
    calc n * 2^(52 - n.log2) ≤ 2^(n.log2 + 1) * 2^(52 - n.log2) := Nat.mul_le_mul_right _ most.le
      _ = 2^53 := by rw [← pow_add,Nat.add_right_comm,Nat.add_sub_cancel' place]
  obtain ⟨finite,sign,units⟩ := units_ofBits (1022 + n.log2) _ (by omega) low high
  refine ⟨_,finite,sign,units.trans ?_⟩
  rw [Nat.mul_assoc,← pow_add]
  congr 2
  omega

theorem ofInt_units (z : Int) (small : z.natAbs < 2^53) : (ofInt z).isInt z = true := by
  rcases Nat.eq_zero_or_pos z.natAbs with zero | positive
  · have nought : ofInt 0 = ⟨0⟩ := by
      rw [ofInt,ofRatio,Int.natAbs_zero,Nat.zero_mul]
      rfl
    obtain rfl := Int.natAbs_eq_zero.mp zero
    refine (isInt_iff _ 0).mpr ?_
    rw [nought,Int.natAbs_zero,Nat.zero_mul]
    exact ⟨by decide,by decide,.inl rfl⟩
  · obtain ⟨d,finite,plain,units⟩ := exists_units z.natAbs positive small
    have rounded := ofRatio_exact d finite z.natAbs units
    rw [plain] at rounded
    obtain ⟨-,same⟩ := ofRatio_fields false z.natAbs 1
    obtain ⟨sign,magnitude⟩ := ofRatio_fields (z < 0) z.natAbs 1
    rw [← same,rounded] at magnitude
    refine (isInt_iff _ z).mpr ⟨?_,?_,.inr sign⟩
    · rw [ofInt,isFinite_iff,magnitude]
      exact (isFinite_iff d).mp finite
    · rw [ofInt,units_of_magnitude magnitude,units]

theorem magnitude_ofInt_large (z : Int) (large : 2^53 ≤ z.natAbs) : 1076 * 2^52 ≤ (ofInt z).magnitude := by
  have beyond : 1127 ≤ Nat.log2 (z.natAbs * 2^1074 / 1) := by
    rw [Nat.div_one]
    have positive : z.natAbs * 2^1074 ≠ 0 := Nat.mul_ne_zero (by omega) (pow_pos Nat.zero_lt_two _).ne'
    apply (Nat.le_log2 positive).mpr
    calc 2^1127 = 2^53 * 2^1074 := pow_add 2 53 1074
      _ ≤ z.natAbs * 2^1074 := Nat.mul_le_mul_right _ large
  have least := (rounded_bounds z.natAbs 1 Nat.one_pos).2
  rw [ofInt,(ofRatio_fields _ _ _).2]
  unfold place at least ⊢
  omega

/-- A comparison that finds them equal is right, when either of them is small. -/
theorem isInt_of_equals (z : Int) (d : Double) (equal : (ofInt z).equals d = true)
    (small : z.natAbs < 2^53 ∨ d.isModest = true) : d.isInt z = true := by
  obtain ⟨-,-,known⟩ := (equals_iff _ _).mp equal
  have within : z.natAbs < 2^53 := by
    by_contra large
    have beyond := magnitude_ofInt_large z (Nat.not_lt.mp large)
    have modest := magnitude_of_modest d (small.resolve_left large)
    rcases known with rfl | ⟨finite,-,zero,-⟩
    · exact absurd beyond (Nat.not_le.mpr modest)
    · have nothing : (ofInt z).isModest = true := by
        rw [isModest,finite,zero,Bool.true_and,decide_eq_true_eq]
        exact Nat.mul_pos (by decide) (pow_pos Nat.zero_lt_two _)
      exact absurd beyond (Nat.not_le.mpr (magnitude_of_modest _ nothing))
  have exact := ofInt_units z within
  rcases known with rfl | ⟨-,finite,zero,nought⟩
  · exact exact
  · obtain ⟨-,units,-⟩ := (isInt_iff _ z).mp exact
    have none : z = 0 := by
      rw [zero] at units
      have factor := Nat.mul_eq_zero.mp units.symm
      exact Int.natAbs_eq_zero.mp (factor.resolve_right (pow_pos Nat.zero_lt_two _).ne')
    exact (isInt_iff d z).mpr ⟨finite,by rw [nought,none,Int.natAbs_zero,Nat.zero_mul],.inl none⟩

end Double

namespace Json.Value

/-- No number of 2^53 or more. -/
def Modest : Value → Prop
  | .int z => z.natAbs < 2^53
  | .double d => d.isModest = true
  | _ => True

theorem modest_found {members : List (Bytes × Value)} {key : Bytes} {found : Value}
    (modest : ∀ u ∈ (object members).subvalues, u.Modest) (known : (object members).find key = some found) :
    ∀ u ∈ found.subvalues, u.Modest := by
  obtain ⟨member,listed,rfl⟩ := Option.map_eq_some_iff.mp known
  exact fun u inside => modest u (subvalues_member (List.mem_of_find?_eq_some listed) inside)

mutual
/-- Against modest numbers the comparison is exact. -/
theorem same_of_equals : ∀ a b : Value, (∀ u ∈ b.subvalues, u.Modest) → a.equals b = true → a.same b = true
  | .null, b, _ => by cases b <;> simp [equals,same,equalsBy]
  | .bool _, b, _ => by cases b <;> simp [equals,same,equalsBy]
  | .int z, b, modest => by
    cases b with
    | double d => exact fun equal => d.isInt_of_equals z equal (.inr (modest _ (self_mem_subvalues _)))
    | _ => simp [equals,same,equalsBy]
  | .double d, b, modest => by
    cases b with
    | int z => exact fun equal => d.isInt_of_equals z equal (.inl (modest _ (self_mem_subvalues _)))
    | _ => simp [equals,same,equalsBy]
  | .string _, b, _ => by cases b <;> simp [equals,same,equalsBy]
  | .array a, b, modest => by
    cases b with
    | array b =>
      exact itemsSame_of_equal a b fun item member u inside => modest u (subvalues_item member inside)
    | _ => simp [equals,same,equalsBy]
  | .object a, b, modest => by
    cases b with
    | object b =>
      simp only [equals,same,equalsBy,Bool.and_eq_true]
      exact And.imp_right (membersSame_of_equal a b modest)
    | _ => simp [equals,same,equalsBy]

theorem itemsSame_of_equal : ∀ a b : List Value, (∀ item ∈ b, ∀ u ∈ item.subvalues, u.Modest) →
    itemsEqual (fun z d => (Double.ofInt z).equals d) a b = true → itemsEqual (fun z d => d.isInt z) a b = true
  | [], b, _ => by cases b <;> simp [itemsEqual]
  | a :: rest, b, modest => by
    cases b with
    | nil => simp [itemsEqual]
    | cons b others =>
      simp only [itemsEqual,Bool.and_eq_true]
      exact And.imp (same_of_equals a b (modest b (by simp)))
        (itemsSame_of_equal rest others fun item member => modest item (by simp [member]))

theorem membersSame_of_equal : ∀ a b : List (Bytes × Value), (∀ u ∈ (object b).subvalues, u.Modest) →
    membersEqual (fun z d => (Double.ofInt z).equals d) a b = true → membersEqual (fun z d => d.isInt z) a b = true
  | [], _, _ => by simp [membersEqual]
  | (key,value) :: rest, others, modest => by
    simp only [membersEqual,Bool.and_eq_true]
    refine And.imp (fun here => ?_) (membersSame_of_equal rest others modest)
    cases found : (object others).find key with
    | none => simp [found] at here
    | some other =>
      simp only [found] at here ⊢
      exact same_of_equals value other (modest_found modest found) here
end

end Json.Value
end TestForge
