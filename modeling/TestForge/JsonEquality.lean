import TestForge.DoubleText
import TestForge.JsonAccess

/-! Equality of values: the one of the source, which rounds an integer before it compares it
with a double, and the exact one. -/
namespace TestForge

open Json

namespace Double

/-- The double is exactly the integer. -/
def isInt (d : Double) (z : Int) : Bool :=
  d.isFinite && d.units == z.natAbs * 2^1074 && (z == 0 || d.negative == decide (z < 0))

theorem isInt_iff (d : Double) (z : Int) : d.isInt z = true ↔
    d.isFinite = true ∧ d.units = z.natAbs * 2^1074 ∧ (z = 0 ∨ d.negative = decide (z < 0)) := by
  simp only [isInt,Bool.and_eq_true,Bool.or_eq_true,beq_iff_eq,and_assoc]

theorem ofRatio_exact (d : Double) (finite : d.isFinite = true) (n : Nat) (exact : d.units = n * 2^1074) :
    ofRatio d.negative n 1 = d := by
  refine ofRatio_near d finite n 1 (by decide) ?_ ?_ <;> rw [Nat.mul_one,exact]
  · exact Nat.mul_le_mul_right _ (by decide)
  · exact Nat.le_add_right _ _

theorem ofInt_equals (d : Double) (z : Int) (exact : d.isInt z = true) : (ofInt z).equals d = true := by
  obtain ⟨finite,units,sign⟩ := (d.isInt_iff z).mp exact
  rcases sign with rfl | sign
  · rw [Int.natAbs_zero,Nat.zero_mul] at units
    have nought : ofInt 0 = ⟨0⟩ := by
      rw [ofInt,ofRatio,Int.natAbs_zero,Nat.zero_mul]
      rfl
    have plain : isFinite ⟨0⟩ = true ∧ Double.units ⟨0⟩ = 0 := by decide
    simp [nought,equals,finite,units,plain]
  · rw [ofInt,← sign,ofRatio_exact d finite _ units]
    simp [equals,finite]

theorem toInt_of_isInt (d : Double) (z : Int) (exact : d.isInt z = true) : d.toInt = z := by
  obtain ⟨-,units,sign⟩ := (d.isInt_iff z).mp exact
  rw [toInt,units,Nat.mul_div_cancel _ (Nat.two_pow_pos _)]
  rcases sign with rfl | sign
  · simp
  · rw [sign]
    by_cases negative : z < 0 <;> simp only [negative,decide_true,decide_false,if_true,Bool.false_eq_true,if_false] <;> omega

end Double

namespace Json.Value

mutual
/-- `operator==`, with the comparison of an integer and a double left open. -/
def equalsBy (mixed : Int → Double → Bool) : Value → Value → Bool
  | .null, .null => true
  | .bool a, .bool b => a == b
  | .int a, .int b => a == b
  | .double a, .double b => a.equals b
  | .int a, .double b => mixed a b
  | .double a, .int b => mixed b a
  | .string a, .string b => a == b
  | .array a, .array b => itemsEqual mixed a b
  | .object a, .object b => a.length == b.length && membersEqual mixed a b
  | _, _ => false

def itemsEqual (mixed : Int → Double → Bool) : List Value → List Value → Bool
  | [], [] => true
  | a :: rest, b :: others => equalsBy mixed a b && itemsEqual mixed rest others
  | _, _ => false

/-- Every member has its equal among the others, in whatever order. -/
def membersEqual (mixed : Int → Double → Bool) : List (Bytes × Value) → List (Bytes × Value) → Bool
  | [], _ => true
  | (key,value) :: rest, others =>
    (match (object others).find key with
      | some other => equalsBy mixed value other
      | none => false) && membersEqual mixed rest others
end

/-- `operator==`. -/
def equals : Value → Value → Bool := equalsBy fun z d => (Double.ofInt z).equals d

/-- Equality without rounding. -/
def same : Value → Value → Bool := equalsBy fun z d => d.isInt z

mutual
theorem equalsBy_mono {mixed wider : Int → Double → Bool} (implied : ∀ z d, mixed z d = true → wider z d = true) :
    ∀ a b : Value, equalsBy mixed a b = true → equalsBy wider a b = true
  | .null, b => by cases b <;> simp [equalsBy]
  | .bool _, b => by cases b <;> simp [equalsBy]
  | .int _, b => by cases b <;> simp +contextual [equalsBy,implied]
  | .double _, b => by cases b <;> simp +contextual [equalsBy,implied]
  | .string _, b => by cases b <;> simp [equalsBy]
  | .array a, b => by
    cases b with
    | array b => simpa only [equalsBy] using itemsEqual_mono implied a b
    | _ => simp [equalsBy]
  | .object a, b => by
    cases b with
    | object b =>
      simp only [equalsBy,Bool.and_eq_true]
      exact And.imp_right (membersEqual_mono implied a b)
    | _ => simp [equalsBy]

theorem itemsEqual_mono {mixed wider : Int → Double → Bool} (implied : ∀ z d, mixed z d = true → wider z d = true) :
    ∀ a b : List Value, itemsEqual mixed a b = true → itemsEqual wider a b = true
  | [], b => by cases b <;> simp [itemsEqual]
  | a :: rest, b => by
    cases b with
    | nil => simp [itemsEqual]
    | cons b others =>
      simp only [itemsEqual,Bool.and_eq_true]
      exact And.imp (equalsBy_mono implied a b) (itemsEqual_mono implied rest others)

theorem membersEqual_mono {mixed wider : Int → Double → Bool}
    (implied : ∀ z d, mixed z d = true → wider z d = true) :
    ∀ a b : List (Bytes × Value), membersEqual mixed a b = true → membersEqual wider a b = true
  | [], _ => by simp [membersEqual]
  | (key,value) :: rest, others => by
    simp only [membersEqual,Bool.and_eq_true]
    refine And.imp (fun here => ?_) (membersEqual_mono implied rest others)
    cases found : (object others).find key with
    | none => simp [found] at here
    | some other =>
      simp only [found] at here ⊢
      exact equalsBy_mono implied value other here
end

theorem equals_of_same (a b : Value) (equal : a.same b = true) : a.equals b = true :=
  equalsBy_mono (fun z d exact => d.ofInt_equals z exact) a b equal

end Json.Value
end TestForge
