import TestForge.Glob
import TestForge.Selector

/-! The glob matcher behind test selection: which texts its loop accepts, and where that is
what the pattern says. -/
namespace TestForge.Strings

open Glob

/-- `*` matches any sequence of characters, `?` any one character. -/
abbrev GlobMatches : Bytes → Bytes → Prop := Glob.Matches (63 : UInt8) 42

abbrev GlobLiteralFirst : Bytes → Bytes → Prop := Glob.LiteralFirst (63 : UInt8) 42

/-- The text behind the latest star. -/
def starText (text : Bytes) : Option (Bytes × Bytes) → Bytes
  | some (_,at_) => at_
  | none => text

/-- What the loop knows of the latest star: the walk from it has not skipped since. -/
def StarFits (pattern text : Bytes) : Option (Bytes × Bytes) → Prop
  | some (behind,at_) => Walk 63 behind at_ pattern text
  | none => True

/-- A later place for the latest star. -/
def Later : Option (Bytes × Bytes) → Prop
  | some (behind,at_) => ∃ k, GlobLiteralFirst behind (at_.tail.drop k)
  | none => False

/-- The rounds that are left are enough: a text behind the star can begin once at each place. -/
structure Budget (size rounds : Nat) (pattern text : Bytes) (star : Option (Bytes × Bytes)) : Prop where
  ahead : pattern.length ≤ size
  behind : ∀ points ∈ star, points.1.length ≤ size ∧ text.length ≤ points.2.length
  enough : (starText text star).length * (size + 1) + pattern.length < rounds

theorem exists_drop_iff (behind text : Bytes) : (∃ k, GlobLiteralFirst behind (text.drop k)) ↔
    GlobLiteralFirst behind text ∨ Later (some (behind,text)) := by
  constructor
  · rintro ⟨k,taken⟩
    cases k with
    | zero => exact .inl taken
    | succ k => exact .inr ⟨k,by rwa [← List.drop_one,List.drop_drop,Nat.add_comm]⟩
  · rintro (taken | ⟨k,taken⟩)
    · exact ⟨0,taken⟩
    · exact ⟨k + 1,by rwa [Nat.add_comm,← List.drop_drop,List.drop_one]⟩

theorem StarFits.later {pattern text : Bytes} {star : Option (Bytes × Bytes)} (fits : StarFits pattern text star)
    (later : Later star) : ∃ m, GlobLiteralFirst pattern (text.drop m) := by
  cases star with
  | none => exact later.elim
  | some points =>
    obtain ⟨k,taken⟩ := later
    rw [← List.drop_one,List.drop_drop] at taken
    exact Walk.advance (by decide) fits _ taken

theorem Budget.backtrack {size rounds : Nat} {pattern text behind at_ : Bytes} {c : UInt8}
    (budget : Budget size (rounds + 1) pattern (c :: text) (some (behind,at_))) :
    Budget size rounds behind at_.tail (some (behind,at_.tail)) := by
  have short : behind.length ≤ size := (budget.behind _ rfl).1
  have inside : (c :: text).length ≤ at_.length := (budget.behind _ rfl).2
  have enough := budget.enough
  cases at_ with
  | nil => simp at inside
  | cons a at_ =>
    refine ⟨short,fun points same => ?_,?_⟩
    · obtain rfl := Option.some.inj same
      exact ⟨short,Nat.le_refl _⟩
    · rw [starText,List.length_cons,Nat.add_mul] at enough
      rw [starText,List.tail_cons]
      omega

theorem Budget.advance {size rounds : Nat} {p c : UInt8} {rest text : Bytes} {star : Option (Bytes × Bytes)}
    (budget : Budget size (rounds + 1) (p :: rest) (c :: text) star) : Budget size rounds rest text star := by
  have enough := budget.enough
  have short := budget.ahead
  rw [List.length_cons] at short
  refine ⟨by omega,fun points same => ⟨(budget.behind points same).1,?_⟩,?_⟩
  · have := (budget.behind points same).2
    rw [List.length_cons] at this
    omega
  · cases star <;> simp only [starText,List.length_cons,Nat.add_mul] at enough ⊢ <;> omega

theorem Budget.star {size rounds : Nat} {p c : UInt8} {rest text : Bytes} {star : Option (Bytes × Bytes)}
    (budget : Budget size (rounds + 1) (p :: rest) (c :: text) star) :
    Budget size rounds rest (c :: text) (some (rest,c :: text)) := by
  have enough := budget.enough
  have short := budget.ahead
  rw [List.length_cons] at short enough
  have near : (c :: text).length ≤ (starText (c :: text) star).length := by
    cases star with
    | none => exact Nat.le_refl _
    | some points => exact (budget.behind points rfl).2
  have shorter : rest.length ≤ size := by omega
  refine ⟨shorter,fun points same => ?_,?_⟩
  · obtain rfl := Option.some.inj same
    exact ⟨shorter,Nat.le_refl _⟩
  · have scaled := Nat.mul_le_mul_right (size + 1) near
    simp only [starText]
    omega

theorem allStars_iff (pattern : Bytes) : (pattern.dropWhile (· == 42) == []) = true ↔ ∀ p ∈ pattern, p = 42 := by
  rw [beq_iff_eq,List.dropWhile_eq_nil_iff]
  simp

theorem star_drop {rest text : Bytes} (free : text.head? ≠ some 42) (m : Nat)
    (taken : GlobLiteralFirst (42 :: rest) (text.drop m)) : GlobLiteralFirst (42 :: rest) text := by
  generalize shape : text.drop m = later at taken
  refine (literalFirst_star (by decide) free).mpr ?_
  cases taken with
  | letter c behind => exact ⟨m + 1,by rwa [← List.drop_drop,shape]⟩
  | star skipped split _ behind => exact ⟨m + skipped.length,by rwa [← List.drop_drop,shape,← split,List.drop_left]⟩

/-- What the loop does when the pattern cannot go on. -/
def backtrack (rounds : Nat) : Option (Bytes × Bytes) → Bool
  | some (behind,at_) => globLoop rounds behind at_.tail (some (behind,at_.tail))
  | none => false

theorem globLoop_nil (rounds : Nat) (c : UInt8) (text : Bytes) (star : Option (Bytes × Bytes)) :
    globLoop (rounds + 1) [] (c :: text) star = backtrack rounds star := by
  cases star <;> rfl

theorem globLoop_cons (rounds : Nat) (p c : UInt8) (rest text : Bytes) (star : Option (Bytes × Bytes)) :
    globLoop (rounds + 1) (p :: rest) (c :: text) star =
      if p = 63 ∨ p = c then globLoop rounds rest text star
      else if p = 42 then globLoop rounds rest (c :: text) (some (rest,c :: text))
      else backtrack rounds star := by
  cases star <;> rfl

/-- The induction is on the rounds; the walk from the latest star is what makes it safe to
forget the stars before it. -/
theorem globLoop_iff (size rounds : Nat) (pattern text : Bytes) (star : Option (Bytes × Bytes))
    (budget : Budget size rounds pattern text star) (fits : StarFits pattern text star) :
    globLoop rounds pattern text star = true ↔ GlobLiteralFirst pattern text ∨ Later star := by
  have distinct : (63 : UInt8) ≠ 42 := by decide
  induction rounds generalizing pattern text star with
  | zero => exact absurd budget.enough (Nat.not_lt_zero _)
  | succ rounds ih =>
    cases text with
    | nil =>
      rw [globLoop,allStars_iff,← literalFirst_nil_iff distinct]
      refine ⟨.inl,fun taken => taken.elim id fun later => ?_⟩
      obtain ⟨m,taken⟩ := fits.later later
      rwa [List.drop_nil] at taken
    | cons c text =>
      have stuck (mismatch : ¬GlobLiteralFirst pattern (c :: text)) :
          backtrack rounds star = true ↔ GlobLiteralFirst pattern (c :: text) ∨ Later star := by
        rw [or_iff_right mismatch]
        cases star with
        | none => simp [Later,backtrack]
        | some points =>
          obtain ⟨behind,at_⟩ := points
          exact (ih behind at_.tail _ budget.backtrack .start).trans (exists_drop_iff behind at_.tail).symm
      cases pattern with
      | nil =>
        rw [globLoop_nil]
        exact stuck (by rintro ⟨⟩)
      | cons p rest =>
        rw [globLoop_cons]
        by_cases consumed : p = 63 ∨ p = c
        · rw [if_pos consumed]
          refine (ih rest text star budget.advance ?_).trans (or_congr_left (literalFirst_cons distinct consumed).symm)
          cases star with
          | none => trivial
          | some points => exact .step fits consumed
        · rw [if_neg consumed]
          by_cases many : p = 42
          · subst many
            have free : (c :: text).head? ≠ some 42 := fun same => consumed (.inr (Option.some.inj same).symm)
            rw [if_pos rfl]
            refine (ih rest (c :: text) _ budget.star .start).trans ?_
            rw [← exists_drop_iff]
            refine ((literalFirst_star distinct free).symm).trans ⟨.inl,fun matched => matched.elim id fun later => ?_⟩
            obtain ⟨m,taken⟩ := fits.later later
            exact star_drop free m taken
          · rw [if_neg many]
            exact stuck (literalFirst_mismatch consumed many)

theorem globMatch_iff (pattern text : Bytes) : globMatch pattern text = true ↔ GlobLiteralFirst pattern text := by
  have rounds : text.length * (pattern.length + 1) + pattern.length <
      (pattern.length + 1) * (text.length + 2) + 1 := by
    rw [Nat.mul_add (pattern.length + 1),Nat.mul_comm text.length]
    omega
  have budget : Budget pattern.length ((pattern.length + 1) * (text.length + 2) + 1) pattern text none :=
    ⟨Nat.le_refl _,fun _ absent => (Option.not_mem_none _ absent).elim,rounds⟩
  exact (globLoop_iff _ _ pattern text none budget trivial).trans (or_iff_left id)

theorem globMatch_sound (pattern text : Bytes) (accepted : globMatch pattern text = true) : GlobMatches pattern text :=
  ((globMatch_iff pattern text).mp accepted).matches

theorem globMatch_complete (pattern text : Bytes) (apart : 42 ∉ pattern ∨ 42 ∉ text)
    (matched : GlobMatches pattern text) : globMatch pattern text = true :=
  (globMatch_iff pattern text).mpr (matched.literalFirst apart)

/-- When the matcher is right: for one pattern and one text, for a pattern with every text, and
for a text with every pattern. -/
theorem globMatch_correct_iff (pattern text : Bytes) :
    ((globMatch pattern text = true ↔ GlobMatches pattern text) ↔
      (GlobMatches pattern text → GlobLiteralFirst pattern text)) ∧
    ((∀ text, globMatch pattern text = true ↔ GlobMatches pattern text) ↔ 42 ∉ pattern) ∧
    ((∀ pattern, globMatch pattern text = true ↔ GlobMatches pattern text) ↔ 42 ∉ text) := by
  have distinct : (63 : UInt8) ≠ 42 := by decide
  refine ⟨⟨fun right matched => ?_,fun reads => ?_⟩,⟨fun right starred => ?_,fun plain text => ?_⟩,
    ⟨fun right starred => ?_,fun plain pattern => ?_⟩⟩
  · exact (globMatch_iff pattern text).mp (right.mpr matched)
  · exact ⟨globMatch_sound pattern text,fun matched => (globMatch_iff pattern text).mpr (reads matched)⟩
  · obtain ⟨text,matched,differs⟩ := exists_text distinct starred
    exact differs ((globMatch_iff pattern text).mp ((right text).mpr matched))
  · exact ⟨globMatch_sound pattern text,globMatch_complete pattern text (.inl plain)⟩
  · obtain ⟨pattern,matched,differs⟩ := exists_pattern distinct starred
    exact differs ((globMatch_iff pattern text).mp ((right pattern).mpr matched))
  · exact ⟨globMatch_sound pattern text,globMatch_complete pattern text (.inr plain)⟩

/-- The star of the pattern is taken for the star of the text. -/
theorem star_misses : ¬∀ pattern text, globMatch pattern text = true ↔ GlobMatches pattern text := by
  intro correct
  have matched : GlobMatches (ascii "*") (ascii "*a") := .star (ascii "*a") rfl .nil
  exact absurd ((correct _ _).mpr matched) (by decide)

end TestForge.Strings
