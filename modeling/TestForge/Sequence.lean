import Mathlib.Data.List.Infix

/-! Cutting finite sequences at the first or last occurrence of a letter or of a
block. Everything is stated over an arbitrary alphabet with decidable equality. -/
namespace Sequence

variable {α : Type} [DecidableEq α]

/-- The parts before and after the first `c`. -/
def cut (c : α) : List α → Option (List α × List α)
  | [] => none
  | x :: rest => if x = c then some ([],rest) else (cut c rest).map fun p => (x :: p.1,p.2)

/-- The parts before and after the last `c`. -/
def cutLast (c : α) (text : List α) : Option (List α × List α) :=
  (cut c text.reverse).map fun p => (p.2.reverse,p.1.reverse)

/-- The parts before and after the first occurrence of a block. -/
def cutOn (block : List α) : List α → Option (List α × List α)
  | [] => if block = [] then some ([],[]) else none
  | x :: rest =>
    if block.isPrefixOf (x :: rest) then some ([],(x :: rest).drop block.length)
    else (cutOn block rest).map fun p => (x :: p.1,p.2)

/-- Position of the first occurrence of a block. -/
def find (block text : List α) : Option Nat := (cutOn block text).map fun p => p.1.length

theorem cut_eq_none (c : α) (text : List α) : cut c text = none ↔ c ∉ text := by
  induction text with
  | nil => simp [cut]
  | cons x rest ih =>
    by_cases same : x = c
    · simp [cut,same]
    · simp [cut,same,ih,Ne.symm same]

theorem cut_eq_some (c : α) (text before after : List α) :
    cut c text = some (before,after) ↔ text = before ++ c :: after ∧ c ∉ before := by
  induction text generalizing before with
  | nil => simp [cut]
  | cons x rest ih =>
    by_cases same : x = c
    · subst same
      cases before with
      | nil => simp [cut,eq_comm]
      | cons y before => simp [cut]; rintro rfl; simp
    · cases before with
      | nil => simp [cut,same]
      | cons y before =>
        simp only [cut,if_neg same,Option.map_eq_some_iff,Prod.mk.injEq,List.cons.injEq,
          List.cons_append,List.mem_cons,not_or]
        constructor
        · rintro ⟨p,found,⟨rfl,rfl⟩,rfl⟩
          obtain ⟨split,fresh⟩ := (ih p.1).mp found
          exact ⟨⟨rfl,split⟩,Ne.symm same,fresh⟩
        · rintro ⟨⟨rfl,split⟩,_,fresh⟩
          exact ⟨(before,after),(ih before).mpr ⟨split,fresh⟩,⟨rfl,rfl⟩,rfl⟩

@[simp] theorem cut_append (c : α) (before after : List α) (fresh : c ∉ before) :
    cut c (before ++ c :: after) = some (before,after) :=
  (cut_eq_some c _ _ _).mpr ⟨rfl,fresh⟩

theorem cutLast_eq_none (c : α) (text : List α) : cutLast c text = none ↔ c ∉ text := by
  simp [cutLast,cut_eq_none]

theorem cutLast_eq_some (c : α) (text before after : List α) :
    cutLast c text = some (before,after) ↔ text = before ++ c :: after ∧ c ∉ after := by
  simp only [cutLast,Option.map_eq_some_iff,Prod.mk.injEq]
  constructor
  · rintro ⟨p,found,rfl,rfl⟩
    obtain ⟨split,fresh⟩ := (cut_eq_some c _ p.1 p.2).mp found
    exact ⟨by simpa using congrArg List.reverse split,by simpa using fresh⟩
  · rintro ⟨rfl,fresh⟩
    exact ⟨(after.reverse,before.reverse),
      (cut_eq_some c _ _ _).mpr ⟨by simp,by simpa using fresh⟩,by simp,by simp⟩

@[simp] theorem cutLast_append (c : α) (before after : List α) (fresh : c ∉ after) :
    cutLast c (before ++ c :: after) = some (before,after) :=
  (cutLast_eq_some c _ _ _).mpr ⟨rfl,fresh⟩

theorem cutOn_split (block text before after : List α)
    (found : cutOn block text = some (before,after)) : text = before ++ block ++ after := by
  induction text generalizing before with
  | nil =>
    simp only [cutOn,Option.ite_none_right_eq_some,Option.some.injEq,Prod.mk.injEq] at found
    obtain ⟨rfl,rfl,rfl⟩ := found
    rfl
  | cons x rest ih =>
    simp only [cutOn] at found
    split at found
    · next pre =>
      simp only [Option.some.injEq,Prod.mk.injEq] at found
      obtain ⟨rfl,rfl⟩ := found
      obtain ⟨tail,equal⟩ := List.isPrefixOf_iff_prefix.mp pre
      simp [← equal]
    · simp only [Option.map_eq_some_iff,Prod.mk.injEq] at found
      obtain ⟨p,found,rfl,rfl⟩ := found
      simp [ih p.1 found]

theorem cutOn_eq_none (block text : List α) : cutOn block text = none ↔ ¬block <:+: text := by
  induction text with
  | nil => simp [cutOn]
  | cons x rest ih =>
    simp only [cutOn,List.infix_cons_iff,← List.isPrefixOf_iff_prefix]
    split
    · next pre => simp [pre]
    · next pre => simp [pre,ih]

/-- The first occurrence is not overlooked: the block does not occur earlier. -/
theorem cutOn_first (block text before after : List α)
    (found : cutOn block text = some (before,after)) (early : List α)
    (shorter : early.length < before.length) : ¬early ++ block <+: text := by
  induction text generalizing before early with
  | nil =>
    simp only [cutOn,Option.ite_none_right_eq_some,Option.some.injEq,Prod.mk.injEq] at found
    obtain ⟨_,rfl,_⟩ := found
    simp at shorter
  | cons x rest ih =>
    simp only [cutOn] at found
    split at found
    · simp only [Option.some.injEq,Prod.mk.injEq] at found
      obtain ⟨rfl,_⟩ := found
      simp at shorter
    · next absent =>
      simp only [Option.map_eq_some_iff,Prod.mk.injEq] at found
      obtain ⟨p,found,rfl,rfl⟩ := found
      cases early with
      | nil => simpa [List.isPrefixOf_iff_prefix] using absent
      | cons y early =>
        intro pre
        simp only [List.cons_append,List.cons_prefix_cons] at pre
        exact ih p.1 found early (by simpa using shorter) pre.2

theorem cutOn_append_right (block before text : List α)
    (fresh : ∀ early, early.length < before.length → ¬early ++ block <+: before ++ text) :
    cutOn block (before ++ text) = (cutOn block text).map fun p => (before ++ p.1,p.2) := by
  induction before with
  | nil => simp
  | cons x before ih =>
    have absent : ¬block <+: x :: (before ++ text) := by simpa using fresh [] (by simp)
    have later := ih (fun early shorter pre => fresh (x :: early) (by simpa using shorter)
      (by simpa using pre))
    simp only [List.cons_append,cutOn,List.isPrefixOf_iff_prefix,absent,↓reduceIte,later,
      Option.map_map]
    rfl

theorem cutOn_block_append (block after : List α) :
    cutOn block (block ++ after) = some ([],after) := by
  cases block with
  | nil => cases after <;> simp [cutOn]
  | cons y block =>
    have pre : (y :: block).isPrefixOf (y :: (block ++ after)) = true :=
      List.isPrefixOf_iff_prefix.mpr ⟨after,by simp⟩
    simp only [List.cons_append,cutOn,pre,↓reduceIte]
    simp

theorem cutOn_append (block before after : List α)
    (fresh : ∀ early, early.length < before.length → ¬early ++ block <+: before ++ block ++ after) :
    cutOn block (before ++ block ++ after) = some (before,after) := by
  rw [List.append_assoc] at fresh ⊢
  simp [cutOn_append_right block before (block ++ after) fresh,cutOn_block_append]

/-- A cut found in a text is still the first one when more text follows. -/
theorem cutOn_append_left (block text before after more : List α)
    (found : cutOn block text = some (before,after)) :
    cutOn block (text ++ more) = some (before,after ++ more) := by
  have split := cutOn_split block text before after found
  have fresh := cutOn_first block text before after found
  have whole : text ++ more = before ++ block ++ (after ++ more) := by simp [split]
  rw [whole]
  refine cutOn_append block before (after ++ more) fun early shorter pre => fresh early shorter ?_
  have inside : early ++ block <+: text ++ more := by rwa [whole]
  refine List.prefix_of_prefix_length_le inside (List.prefix_append text more) ?_
  have total := congrArg List.length split
  simp only [List.length_append] at total ⊢
  omega

theorem splitOn_ended (c : α) (lines : List (List α)) (fresh : ∀ line ∈ lines, c ∉ line) :
    (lines.flatMap (· ++ [c])).splitOn c = lines ++ [[]] := by
  induction lines with
  | nil => rfl
  | cons line rest ih =>
    obtain ⟨first,others⟩ := List.forall_mem_cons.mp fresh
    have cut := List.splitOn_append_cons_self_of_not_mem first (rest.flatMap (· ++ [c]))
    rw [List.flatMap_cons,List.append_assoc,List.singleton_append,cut,ih others,List.cons_append]

end Sequence

/-! Lexical resolution of paths, given as sequences of names. One name stands for the place
itself and one for the place above it; above the top of an absolute path is the top again,
and a relative path may begin with steps up. -/
namespace LexicalPath

variable {α : Type} [DecidableEq α]

/-- The two special names, and whether the path begins at the top. -/
structure Rules (α : Type) where
  here : α
  up : α
  absolute : Bool

/-- One step from a resolved place. -/
def descend (rules : Rules α) (place : List α) (name : α) : List α :=
  if name = rules.here then place
  else if name = rules.up then
    match place.getLast? with
    | some last => if last = rules.up then place ++ [rules.up] else place.dropLast
    | none => if rules.absolute then [] else [rules.up]
  else place ++ [name]

def resolve (rules : Rules α) (names : List α) : List α := names.foldl (descend rules) []

/-- Neither stays nor goes up. -/
def Rules.Plain (rules : Rules α) (name : α) : Prop := name ≠ rules.here ∧ name ≠ rules.up

theorem descend_plain (rules : Rules α) (place : List α) (name : α) (plain : rules.Plain name) :
    descend rules place name = place ++ [name] := by
  simp [descend,plain.1,plain.2]

/-- Plain names lead down from wherever the path in front of them leads. -/
theorem resolve_append (rules : Rules α) (before names : List α) (plain : ∀ name ∈ names, rules.Plain name) :
    resolve rules (before ++ names) = resolve rules before ++ names := by
  induction names using List.reverseRecOn with
  | nil => simp
  | append_singleton names name ih =>
    have front := ih fun other member => plain other (by simp [member])
    rw [resolve,← List.append_assoc,List.foldl_append,List.foldl_cons,List.foldl_nil]
    rw [resolve] at front
    rw [front,descend_plain rules _ name (plain name (by simp)),List.append_assoc]

end LexicalPath
