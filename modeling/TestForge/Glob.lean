import Mathlib.Data.List.Basic
import Mathlib.Logic.Basic

/-! Glob patterns over any alphabet: `any` stands for one letter, `star` for any number of
letters. A matcher that compares letters first reads a star before a star as that letter. -/
namespace Glob

variable {α : Type}

/-- The reading of a pattern. -/
inductive Matches (any star : α) : List α → List α → Prop where
  | nil : Matches any star [] []
  | any {p t : List α} (c : α) (rest : Matches any star p t) : Matches any star (any :: p) (c :: t)
  | star {p t text : List α} (skipped : List α) (split : skipped ++ t = text) (rest : Matches any star p t) :
      Matches any star (star :: p) text
  | letter {p t : List α} (c : α) (plain : c ≠ any ∧ c ≠ star) (rest : Matches any star p t) : Matches any star (c :: p) (c :: t)

/-- The reading in which a star that meets a star takes just that letter. -/
inductive LiteralFirst (any star : α) : List α → List α → Prop where
  | nil : LiteralFirst any star [] []
  | any {p t : List α} (c : α) (rest : LiteralFirst any star p t) : LiteralFirst any star (any :: p) (c :: t)
  | letter {p t : List α} (c : α) (rest : LiteralFirst any star p t) : LiteralFirst any star (c :: p) (c :: t)
  | star {p t text : List α} (skipped : List α) (split : skipped ++ t = text) (free : text.head? ≠ some star)
      (rest : LiteralFirst any star p t) : LiteralFirst any star (star :: p) text

variable {any star : α} {p pattern t text : List α} {x c : α}

theorem LiteralFirst.matches [DecidableEq α] (taken : LiteralFirst any star pattern text) : Matches any star pattern text := by
  induction taken with
  | nil => exact .nil
  | any c _ ih => exact .any c ih
  | letter c _ ih =>
    by_cases wild : c = any
    · subst wild
      exact .any c ih
    · by_cases many : c = star
      · subst many
        exact .star [c] rfl ih
      · exact .letter c ⟨wild,many⟩ ih
  | star skipped split _ _ ih => exact .star skipped split ih

/-- Without a star on one of the two sides the readings agree. -/
theorem Matches.literalFirst (matched : Matches any star pattern text) (apart : star ∉ pattern ∨ star ∉ text) :
    LiteralFirst any star pattern text := by
  induction matched with
  | nil => exact .nil
  | any c _ ih => exact .any c (ih (apart.imp (fun absent member => absent (by simp [member])) fun absent member =>
      absent (by simp [member])))
  | letter c _ _ ih => exact .letter c (ih (apart.imp (fun absent member => absent (by simp [member])) fun absent member =>
      absent (by simp [member])))
  | star skipped split _ ih =>
    have absent := apart.resolve_left fun absent => absent List.mem_cons_self
    refine .star skipped split (fun front => absent (List.mem_of_mem_head? front)) (ih (.inr fun member => absent ?_))
    rw [← split]
    exact List.mem_append_right skipped member

/-! ### One letter at a time -/

/-- What the matcher consumes without a choice. -/
def Fits (any x c : α) : Prop := x = any ∨ x = c

theorem literalFirst_cons (distinct : any ≠ star) (fits : Fits any x c) :
    LiteralFirst any star (x :: p) (c :: t) ↔ LiteralFirst any star p t := by
  constructor
  · intro taken
    cases taken with
    | any _ rest => exact rest
    | letter _ rest => exact rest
    | star skipped split free rest =>
      rcases fits with same | same
      · exact absurd same.symm distinct
      · exact absurd (by rw [List.head?_cons,same]) free
  · intro rest
    rcases fits with rfl | rfl
    · exact .any c rest
    · exact .letter x rest

/-- A star that does not meet a star skips to any later place. -/
theorem literalFirst_star (distinct : any ≠ star) (free : text.head? ≠ some star) :
    LiteralFirst any star (star :: p) text ↔ ∃ k, LiteralFirst any star p (text.drop k) := by
  constructor
  · intro taken
    cases taken with
    | any => exact absurd rfl distinct
    | letter => exact absurd rfl free
    | star skipped split _ rest => exact ⟨skipped.length,by rwa [← split,List.drop_left]⟩
  · rintro ⟨k,rest⟩
    exact .star (text.take k) (List.take_append_drop k text) free rest

theorem literalFirst_mismatch (fits : ¬Fits any x c) (single : x ≠ star) :
    ¬LiteralFirst any star (x :: p) (c :: t) := by
  intro taken
  cases taken with
  | any => exact fits (.inl rfl)
  | letter => exact fits (.inr rfl)
  | star => exact single rfl

theorem literalFirst_nil_iff (distinct : any ≠ star) : LiteralFirst any star pattern [] ↔ ∀ x ∈ pattern, x = star := by
  induction pattern with
  | nil => simp [LiteralFirst.nil]
  | cons x p ih =>
    rw [List.forall_mem_cons]
    constructor
    · intro taken
      cases taken with
      | star skipped split _ rest =>
        obtain ⟨-,rfl⟩ := List.append_eq_nil_iff.mp split
        exact ⟨rfl,ih.mp rest⟩
    · rintro ⟨rfl,stars⟩
      exact (literalFirst_star distinct (by simp)).mpr ⟨0,ih.mpr stars⟩

/-- A match that does not skip reaches `p` and `t` from `q` and `s`. -/
inductive Walk (any : α) : List α → List α → List α → List α → Prop where
  | start {p t : List α} : Walk any p t p t
  | step {q s p t : List α} {x c : α} (before : Walk any q s (x :: p) (c :: t)) (fits : Fits any x c) : Walk any q s p t

/-- A match that begins later has come at least as far as the walk. -/
theorem Walk.advance {q s : List α} (distinct : any ≠ star) (walk : Walk any q s p t) (k : Nat)
    (taken : LiteralFirst any star q (s.drop k)) : ∃ m, LiteralFirst any star p (t.drop m) := by
  induction walk with
  | start => exact ⟨k,taken⟩
  | @step p t x c before fits ih =>
    obtain ⟨m,behind⟩ := ih
    cases m with
    | zero => exact ⟨0,(literalFirst_cons distinct fits).mp behind⟩
    | succ m =>
      rw [List.drop_succ_cons] at behind
      generalize shape : t.drop m = text at behind
      cases behind with
      | any d rest => exact ⟨m + 1,by rwa [← List.drop_drop,shape]⟩
      | letter d rest => exact ⟨m + 1,by rwa [← List.drop_drop,shape]⟩
      | star skipped split _ rest =>
        refine ⟨m + skipped.length,?_⟩
        rwa [← List.drop_drop,shape,← split,List.drop_left]

/-! ### Where the readings part -/

theorem literalFirst_append (distinct : any ≠ star) (front : List α) :
    LiteralFirst any star (front ++ p) (front ++ t) ↔ LiteralFirst any star p t := by
  induction front with
  | nil => rfl
  | cons c front ih => exact (literalFirst_cons distinct (.inr rfl)).trans ih

theorem literalFirst_replicate (distinct : any ≠ star) (front : List α) :
    LiteralFirst any star (List.replicate front.length any ++ p) (front ++ t) ↔ LiteralFirst any star p t := by
  induction front with
  | nil => rfl
  | cons c front ih => exact (literalFirst_cons distinct (.inl rfl)).trans ih

theorem LiteralFirst.length (taken : LiteralFirst any star pattern text) (plain : star ∉ pattern) :
    pattern.length = text.length := by
  induction taken with
  | nil => rfl
  | any c _ ih => simpa using ih fun member => plain (by simp [member])
  | letter c _ ih => simpa using ih fun member => plain (by simp [member])
  | star => exact absurd List.mem_cons_self plain

theorem matches_append [DecidableEq α] (front : List α) (rest : Matches any star p t) :
    Matches any star (front ++ p) (front ++ t) := by
  induction front with
  | nil => exact rest
  | cons c front ih =>
    by_cases wild : c = any
    · subst wild
      exact .any c ih
    · by_cases many : c = star
      · subst many
        exact .star [c] rfl ih
      · exact .letter c ⟨wild,many⟩ ih

theorem matches_replicate (front : List α) (rest : Matches any star p t) :
    Matches any star (List.replicate front.length any ++ p) (front ++ t) := by
  induction front with
  | nil => exact rest
  | cons c front ih => exact .any c ih

/-- Every pattern with a star has a text on which the readings differ: itself, with a letter
behind the last star. -/
theorem exists_text [DecidableEq α] (distinct : any ≠ star) (starred : star ∈ pattern) :
    ∃ text, Matches any star pattern text ∧ ¬LiteralFirst any star pattern text := by
  obtain ⟨back,front,shape,plain⟩ := List.eq_append_cons_of_mem (List.mem_reverse.mpr starred)
  have shape : pattern = front.reverse ++ star :: back.reverse := by
    rw [← List.reverse_reverse pattern,shape]
    simp
  rw [List.mem_reverse.symm] at plain
  refine ⟨front.reverse ++ star :: any :: back.reverse,?_,?_⟩
  · rw [shape]
    have same : Matches any star back.reverse back.reverse := by
      simpa using matches_append back.reverse (.nil : Matches any star [] [])
    exact matches_append _ (.star [star,any] rfl same)
  · rw [shape,literalFirst_append distinct,literalFirst_cons distinct (.inr rfl)]
    intro taken
    have lengths := taken.length plain
    simp at lengths

/-- Every text with a star has a pattern on which the readings differ. -/
theorem exists_pattern (distinct : any ≠ star) (starred : star ∈ text) :
    ∃ pattern, Matches any star pattern text ∧ ¬LiteralFirst any star pattern text := by
  obtain ⟨front,back,rfl⟩ := List.append_of_mem starred
  refine ⟨List.replicate front.length any ++ star :: any :: List.replicate back.length any,?_,?_⟩
  · have blanks : Matches any star (List.replicate back.length any) back := by
      simpa using matches_replicate back (.nil : Matches any star [] [])
    exact matches_replicate front (.star [] rfl (.any star blanks))
  · rw [literalFirst_replicate distinct,literalFirst_cons distinct (.inr rfl)]
    intro taken
    have plain : star ∉ any :: List.replicate back.length any := by
      simp [List.mem_replicate,distinct.symm]
    have lengths := taken.length plain
    simp at lengths

/-! ### Patterns inside a text -/

theorem matches_join {q : List α} : Matches any star (p ++ q) text ↔
    ∃ front back, front ++ back = text ∧ Matches any star p front ∧ Matches any star q back := by
  constructor
  · intro matched
    induction p generalizing text with
    | nil => exact ⟨[],text,rfl,.nil,matched⟩
    | cons x p ih =>
      cases matched with
      | any c rest =>
        obtain ⟨front,back,rfl,first,second⟩ := ih rest
        exact ⟨c :: front,back,rfl,.any c first,second⟩
      | star skipped split rest =>
        obtain ⟨front,back,rfl,first,second⟩ := ih rest
        exact ⟨skipped ++ front,back,by rw [List.append_assoc,split],.star skipped rfl first,second⟩
      | letter c plain rest =>
        obtain ⟨front,back,rfl,first,second⟩ := ih rest
        exact ⟨x :: front,back,rfl,.letter x plain first,second⟩
  · rintro ⟨front,back,rfl,first,second⟩
    induction first with
    | nil => exact second
    | any c _ ih => exact .any c ih
    | star skipped split _ ih => exact .star skipped (by rw [← List.append_assoc,split]) ih
    | letter c plain _ ih => exact .letter c plain ih

theorem matches_star (text : List α) : Matches any star [star] text := .star text (List.append_nil text) .nil

theorem matches_around : Matches any star (star :: p ++ [star]) text ↔ ∃ part, part <:+: text ∧ Matches any star p part := by
  rw [matches_join (p := star :: p),← List.singleton_append]
  constructor
  · rintro ⟨before,back,rfl,first,-⟩
    obtain ⟨front,part,rfl,-,inner⟩ := matches_join.mp first
    exact ⟨part,⟨front,back,rfl⟩,inner⟩
  · rintro ⟨part,⟨front,back,rfl⟩,inner⟩
    exact ⟨front ++ part,back,rfl,matches_join.mpr ⟨front,part,rfl,matches_star front,inner⟩,matches_star back⟩

theorem matches_plain (plain : any ∉ p ∧ star ∉ p) : Matches any star p text ↔ text = p := by
  constructor
  · intro matched
    induction matched with
    | nil => rfl
    | any c _ ih => exact absurd List.mem_cons_self plain.1
    | star skipped split _ ih => exact absurd List.mem_cons_self plain.2
    | letter c _ _ ih => rw [ih ⟨mt (List.mem_cons_of_mem c) plain.1,mt (List.mem_cons_of_mem c) plain.2⟩]
  · rintro rfl
    induction text with
    | nil => exact .nil
    | cons c rest ih =>
      have single : c ≠ any ∧ c ≠ star := ⟨fun same => plain.1 (same ▸ List.mem_cons_self),fun same =>
        plain.2 (same ▸ List.mem_cons_self)⟩
      exact .letter c single (ih ⟨mt (List.mem_cons_of_mem c) plain.1,mt (List.mem_cons_of_mem c) plain.2⟩)

end Glob
