import TestForge.JsonNumbers

/-! Decimal integers as texts, and what `parseInt` makes of them. -/
namespace TestForge

open Json Strings

/-- The text is an integer, with or without a sign. -/
def IsInteger (text : Bytes) (n : Int) : Prop :=
  ∃ (sign : Option UInt8) (digits : Digits), (∀ c ∈ sign, c = 45 ∨ c = 43) ∧
    trim text = sign.toList ++ digits.text ∧
    n = if sign = some 45 then -(digitsValue digits.text : Int) else digitsValue digits.text

theorem trim_signed (sign : Option UInt8) (digits : Digits) (signs : ∀ c ∈ sign, c = 45 ∨ c = 43) :
    trim (sign.toList ++ digits.text) = sign.toList ++ digits.text := by
  have visible : ∀ c ∈ sign.toList ++ digits.text, isSpace c = false := by
    intro c inside
    rcases List.mem_append.mp inside with front | digit
    · rcases signs c (Option.mem_toList.mp front) with rfl | rfl <;> rfl
    · exact (digit_visible c (digits.numeric c digit)).1
  apply trim_of_ends
  · exact fun c first => visible c (List.mem_of_head? first)
  · exact fun c last => visible c (List.mem_of_getLast? last)

theorem isInteger_decimalInt (z : Int) : IsInteger (decimalInt z) z := by
  let digits : Digits := ⟨decimal z.natAbs,decimal_ne_nil _,isDigit_decimal _⟩
  let sign : Option UInt8 := if z < 0 then some 45 else none
  have signs : ∀ c ∈ sign, c = 45 ∨ c = 43 := by
    intro c shown
    by_cases negative : z < 0
    · rw [show sign = some 45 from if_pos negative] at shown
      exact .inl (Option.some.inj shown).symm
    · rw [show sign = none from if_neg negative] at shown
      cases shown
  have text : decimalInt z = sign.toList ++ digits.text := by
    by_cases negative : z < 0 <;> simp [decimalInt,sign,digits,negative]
  refine ⟨sign,digits,signs,?_,?_⟩
  · rw [text]
    exact trim_signed sign digits signs
  · rw [digitsValue_decimal]
    by_cases negative : z < 0
    · rw [if_pos (show sign = some 45 from if_pos negative)]
      omega
    · have unsigned : sign ≠ some 45 := by simp [sign,negative]
      rw [if_neg unsigned]
      omega

/-- `parseInt` reads every integer that has 64 bits, and no other. -/
theorem parseInt_integer (text : Bytes) (n : Int) (integer : IsInteger text n) :
    parseInt text = if -2^63 ≤ n ∧ n < 2^63 then some n else none := by
  obtain ⟨sign,digits,signs,shape,rfl⟩ := integer
  have signed := strtoll_signed sign signs digits [] (by simp)
  rw [List.append_nil] at signed
  have nonempty : sign.toList ++ digits.text ≠ [] := List.append_ne_nil_of_right_ne_nil _ digits.nonempty
  have whole : (sign.toList ++ digits.text).takeWhile (· ≠ 0) = sign.toList ++ digits.text := by
    apply List.takeWhile_eq_self_iff.mpr
    intro c inside
    rcases List.mem_append.mp inside with front | digit
    · rcases signs c (Option.mem_toList.mp front) with rfl | rfl <;> rfl
    · simpa using (digit_visible c (digits.numeric c digit)).2.1
  simp only [parseInt,shape,if_neg nonempty,whole,signed]
  generalize (if sign = some 45 then -(digitsValue digits.text : Int) else digitsValue digits.text) = n
  by_cases inside : -2^63 ≤ n ∧ n < 2^63
  · have small : ¬(n < -2^63 ∨ 2^63 ≤ n ∨ ([] : Bytes) ≠ []) := by
      rintro (below | above | rest)
      · omega
      · omega
      · exact rest rfl
    rw [if_pos inside,if_neg small]
  · have large : n < -2^63 ∨ 2^63 ≤ n ∨ ([] : Bytes) ≠ [] := by
      rcases not_and_or.mp inside with below | above
      · exact .inl (by omega)
      · exact .inr (.inl (by omega))
    rw [if_neg inside,if_pos large]

theorem parseInt_decimalInt (z : Int) (low : -2^63 ≤ z) (high : z < 2^63) : parseInt (decimalInt z) = some z := by
  rw [parseInt_integer _ z (isInteger_decimalInt z),if_pos ⟨low,high⟩]

end TestForge
