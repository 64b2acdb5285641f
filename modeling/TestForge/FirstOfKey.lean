import Mathlib.Data.List.Nodup
import Mathlib.Data.List.Sublists

/-! Keeping the first element of every key, except where it is bad. A bad element takes its key
with it: the pass below remembers the keys of all elements it has met. -/
namespace Sequence

variable {α κ : Type} [DecidableEq κ] (key : α → κ) (bad : α → Bool)

/-- One pass; `seen` holds the keys met before. -/
def firstOfKey : List κ → List α → List α
  | _, [] => []
  | seen, x :: rest =>
    if bad x = true ∨ key x ∈ seen then firstOfKey (key x :: seen) rest else x :: firstOfKey (key x :: seen) rest

theorem firstOfKey_nil (seen : List κ) : firstOfKey key bad seen [] = [] := rfl

theorem firstOfKey_cons (seen : List κ) (x : α) (rest : List α) : firstOfKey key bad seen (x :: rest) =
    if bad x = true ∨ key x ∈ seen then firstOfKey key bad (key x :: seen) rest
    else x :: firstOfKey key bad (key x :: seen) rest := rfl

theorem firstOfKey_sublist (seen : List κ) (list : List α) : (firstOfKey key bad seen list).Sublist list := by
  induction list generalizing seen with
  | nil => exact .slnil
  | cons x rest ih =>
    rw [firstOfKey_cons]
    split
    · exact (ih _).cons x
    · exact (ih _).cons_cons x

theorem firstOfKey_clean (seen : List κ) (list : List α) : ∀ x ∈ firstOfKey key bad seen list, bad x = false := by
  induction list generalizing seen with
  | nil => simp [firstOfKey_nil]
  | cons x rest ih =>
    rw [firstOfKey_cons]
    split
    · exact ih _
    · next kept =>
      rw [List.forall_mem_cons]
      exact ⟨by simp_all,ih _⟩

/-- No two elements kept have the same key, and none has a key met before. -/
theorem firstOfKey_distinct (seen : List κ) (list : List α) : ((firstOfKey key bad seen list).map key).Nodup ∧
    ∀ x ∈ firstOfKey key bad seen list, key x ∉ seen := by
  induction list generalizing seen with
  | nil => simp [firstOfKey_nil]
  | cons x rest ih =>
    obtain ⟨distinct,fresh⟩ := ih (key x :: seen)
    rw [firstOfKey_cons]
    split
    · exact ⟨distinct,fun y member old => fresh y member (List.mem_cons_of_mem _ old)⟩
    · next kept =>
      have new : key x ∉ seen := by simp_all
      rw [List.map_cons,List.nodup_cons,List.forall_mem_cons]
      refine ⟨⟨fun repeated => ?_,distinct⟩,new,fun y member old => fresh y member (List.mem_cons_of_mem _ old)⟩
      obtain ⟨y,member,same⟩ := List.mem_map.mp repeated
      exact fresh y member (by simp [same])

/-- Where nothing is bad and no key comes twice, everything is kept. -/
theorem firstOfKey_self (seen : List κ) (list : List α) (clean : ∀ x ∈ list, bad x = false)
    (distinct : (list.map key).Nodup) (fresh : ∀ x ∈ list, key x ∉ seen) : firstOfKey key bad seen list = list := by
  induction list generalizing seen with
  | nil => rfl
  | cons x rest ih =>
    rw [List.forall_mem_cons] at clean fresh
    rw [List.map_cons,List.nodup_cons] at distinct
    rw [firstOfKey_cons,if_neg (by simp [clean.1,fresh.1]),ih _ clean.2 distinct.2]
    intro y member known
    rcases List.mem_cons.mp known with same | old
    · exact distinct.1 (same ▸ List.mem_map_of_mem member)
    · exact fresh.2 y member old

theorem firstOfKey_congr (seen other : List κ) (same : ∀ k, k ∈ seen ↔ k ∈ other) (list : List α) :
    firstOfKey key bad seen list = firstOfKey key bad other list := by
  induction list generalizing seen other with
  | nil => rfl
  | cons x rest ih =>
    have onward := ih (key x :: seen) (key x :: other) fun k => by simp [same k]
    simp only [firstOfKey_cons,same (key x),onward]

theorem firstOfKey_append (seen : List κ) (first rest : List α) : firstOfKey key bad seen (first ++ rest) =
    firstOfKey key bad seen first ++ firstOfKey key bad ((first.map key).reverse ++ seen) rest := by
  induction first generalizing seen with
  | nil => rfl
  | cons x first ih =>
    have tail : ((x :: first).map key).reverse ++ seen = (first.map key).reverse ++ key x :: seen := by simp
    rw [List.cons_append,firstOfKey_cons,firstOfKey_cons,ih,tail]
    split
    · rfl
    · rfl

/-- Forgetting a key changes nothing exactly when the first element that has it is bad. -/
theorem firstOfKey_forget (k : κ) (seen : List κ) (new : k ∉ seen) (list : List α) :
    firstOfKey key bad seen list = firstOfKey key bad (k :: seen) list ↔
      ∀ x, list.find? (key · = k) = some x → bad x = true := by
  induction list generalizing seen with
  | nil => simp [firstOfKey_nil]
  | cons x rest ih =>
    by_cases same : key x = k
    · subst same
      have onward : firstOfKey key bad (key x :: key x :: seen) rest = firstOfKey key bad (key x :: seen) rest :=
        firstOfKey_congr key bad _ _ (by simp) rest
      rw [firstOfKey_cons,firstOfKey_cons,onward,List.find?_cons_of_pos (by simp)]
      cases verdict : bad x with
      | true => simp [verdict]
      | false => simp [new,verdict]
    · have apart : key x ∈ k :: seen ↔ key x ∈ seen := by simp [same]
      have onward : firstOfKey key bad (key x :: k :: seen) rest = firstOfKey key bad (k :: key x :: seen) rest :=
        firstOfKey_congr key bad _ _ (fun other => by simp [or_left_comm]) rest
      rw [firstOfKey_cons,firstOfKey_cons,onward,List.find?_cons_of_neg (by simpa using same),
        ← ih (key x :: seen) (by simp [new,Ne.symm same])]
      simp only [apart]
      split
      · rfl
      · rw [List.cons_inj_right]

end Sequence
