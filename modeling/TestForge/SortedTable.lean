import Mathlib.Data.List.Induction
import Mathlib.Order.Basic

/-! Ordered maps as lists of slots in strictly ascending order of their keys. -/
namespace SortedTable

variable {K V : Type}

section Lookup

variable [DecidableEq K]

def find (key : K) (table : List (K × V)) : Option V := (table.find? (·.1 = key)).map (·.2)

@[simp] theorem find_nil (key : K) : find key ([] : List (K × V)) = none := rfl

theorem find_cons (key : K) (slot : K × V) (rest : List (K × V)) :
    find key (slot :: rest) = if slot.1 = key then some slot.2 else find key rest := by
  by_cases same : slot.1 = key <;> simp [find,same]

theorem mem_of_find {table : List (K × V)} {key : K} {value : V} (found : find key table = some value) :
    (key,value) ∈ table := by
  obtain ⟨slot,first,rfl⟩ := Option.map_eq_some_iff.mp found
  have same : slot.1 = key := by simpa using List.find?_some first
  exact same ▸ List.mem_of_find?_eq_some first

end Lookup

section Order

variable [LT K]

def Sorted (table : List (K × V)) : Prop := table.Pairwise fun a b => a.1 < b.1

variable [LE K] [Std.LawfulOrderLT K]

section Lookup

variable [DecidableEq K]

theorem find_of_above {table : List (K × V)} {key : K} (above : ∀ slot ∈ table, key < slot.1) :
    find key table = none := by
  have absent : table.find? (·.1 = key) = none := by
    simp only [List.find?_eq_none,decide_eq_true_eq]
    exact fun slot member same => Std.lt_irrefl (same ▸ above slot member)
  simp [find,absent]

/-- Dropping slots drops what a lookup found, and lets it find nothing else. -/
theorem Sorted.find_filter {table : List (K × V)} (sorted : Sorted table) (keep : V → Bool) (key : K) :
    find key (table.filter fun slot => keep slot.2) = (find key table).filter keep := by
  induction table with
  | nil => rfl
  | cons first rest ih =>
    have behind := List.pairwise_cons.mp sorted
    rw [List.filter_cons,find_cons]
    by_cases mine : first.1 = key
    · have absent : find key (rest.filter fun slot => keep slot.2) = none := by
        refine find_of_above fun slot member => ?_
        exact mine ▸ behind.1 slot ((List.mem_filter.mp member).1)
      cases kept : keep first.2 with
      | true => simp [find_cons,mine,Option.filter,kept]
      | false => simp [mine,Option.filter,kept,absent]
    · rw [if_neg mine,← ih behind.2]
      split
      · rw [find_cons,if_neg mine]
      · rfl

theorem Sorted.find_of_mem {table : List (K × V)} (sorted : Sorted table) {key : K} {value : V}
    (member : (key,value) ∈ table) : find key table = some value := by
  induction table with
  | nil => cases member
  | cons first rest ih =>
    have behind := List.pairwise_cons.mp sorted
    rw [find_cons]
    rcases List.mem_cons.mp member with rfl | member
    · rw [if_pos rfl]
    · have above : first.1 < key := behind.1 (key,value) member
      have other : first.1 ≠ key := Std.ne_of_lt above
      rw [if_neg other]
      exact ih behind.2 member

omit [DecidableEq K] in
theorem Sorted.keys_nodup {table : List (K × V)} (sorted : Sorted table) : (table.map (·.1)).Nodup := by
  refine List.pairwise_map.mpr (sorted.imp fun below => ?_)
  exact Std.ne_of_lt below

end Lookup

variable [Std.IsLinearOrder K]

theorem eq_of_not_lt {a b : K} (notBelow : ¬a < b) (notAbove : ¬b < a) : a = b :=
  ((Std.lt_trichotomy a b).resolve_left notBelow).resolve_right notAbove

variable [DecidableLT K]

/-- The slot of a key is replaced, or inserted where the order wants it. -/
def put (key : K) (value : V) : List (K × V) → List (K × V)
  | [] => [(key,value)]
  | slot :: rest =>
    if key < slot.1 then (key,value) :: slot :: rest
    else if slot.1 < key then slot :: put key value rest
    else (key,value) :: rest

omit [LE K] [Std.LawfulOrderLT K] [Std.IsLinearOrder K] in
theorem mem_put {key : K} {value : V} {table : List (K × V)} {slot : K × V}
    (member : slot ∈ put key value table) : slot = (key,value) ∨ slot ∈ table := by
  induction table with
  | nil => exact .inl (by simpa [put] using member)
  | cons first rest ih =>
    unfold put at member
    split at member
    · exact List.mem_cons.mp member
    · split at member
      · rcases List.mem_cons.mp member with rfl | member
        · exact .inr (by simp)
        · exact (ih member).imp_right (List.mem_cons_of_mem _)
      · exact (List.mem_cons.mp member).imp_right (List.mem_cons_of_mem _)

theorem Sorted.put {table : List (K × V)} (sorted : Sorted table) (key : K) (value : V) :
    Sorted (put key value table) := by
  induction table with
  | nil => exact List.pairwise_singleton _ _
  | cons first rest ih =>
    have behind := List.pairwise_cons.mp sorted
    unfold SortedTable.put
    split
    · next below =>
      refine List.pairwise_cons.mpr ⟨fun slot member => ?_,sorted⟩
      rcases List.mem_cons.mp member with rfl | member
      · exact below
      · exact Std.lt_trans below (behind.1 slot member)
    · next notBelow =>
      split
      · next above =>
        refine List.pairwise_cons.mpr ⟨fun slot member => ?_,ih behind.2⟩
        rcases mem_put member with rfl | member
        · exact above
        · exact behind.1 slot member
      · next notAbove =>
        have same := eq_of_not_lt notBelow notAbove
        exact List.pairwise_cons.mpr ⟨fun slot member => same ▸ behind.1 slot member,behind.2⟩

variable [DecidableEq K]

theorem find_put {table : List (K × V)} (key : K) (value : V) (other : K) :
    find other (put key value table) = if key = other then some value else find other table := by
  induction table with
  | nil => simp [put,find_cons]
  | cons first rest ih =>
    unfold put
    split
    · simp only [find_cons]
    · next notBelow =>
      split
      · next above =>
        have distinct : first.1 ≠ key := Std.ne_of_lt above
        rw [find_cons,ih,find_cons]
        by_cases mine : key = other
        · subst mine
          simp [distinct]
        · simp [mine]
      · next notAbove =>
        have same := eq_of_not_lt notBelow notAbove
        simp only [find_cons,same]
        split <;> rfl

/-- One item more under its key is one item more in all. -/
theorem perm_put {α : Type} {table : List (K × List α)} (sorted : Sorted table) (key : K) (item : α) :
    ((put key (((find key table).getD []) ++ [item]) table).flatMap (·.2)).Perm (item :: table.flatMap (·.2)) := by
  induction table with
  | nil => exact List.Perm.refl _
  | cons first rest ih =>
    have behind := List.pairwise_cons.mp sorted
    rw [find_cons]
    unfold put
    split
    · next below =>
      have other : first.1 ≠ key := (Std.ne_of_lt below).symm
      have absent : find key rest = none := find_of_above fun slot member => Std.lt_trans below (behind.1 slot member)
      rw [if_neg other,absent]
      exact List.Perm.refl _
    · next notBelow =>
      split
      · next above =>
        have other : first.1 ≠ key := Std.ne_of_lt above
        rw [if_neg other]
        simp only [List.flatMap_cons]
        exact ((ih behind.2).append_left first.2).trans List.perm_middle
      · next notAbove =>
        have same : first.1 = key := (eq_of_not_lt notBelow notAbove).symm
        rw [if_pos same]
        simp only [Option.getD_some,List.flatMap_cons,List.append_assoc]
        exact List.perm_middle

/-- The items under their keys, each list in the order of the items. -/
def gather {α : Type} (key : α → K) (items : List α) : List (K × List α) :=
  items.foldl (fun table item => put (key item) (((find (key item) table).getD []) ++ [item]) table) []

section Gather

variable {α : Type} {key : α → K}

omit [LE K] [Std.LawfulOrderLT K] [Std.IsLinearOrder K] in
theorem gather_snoc (items : List α) (item : α) : gather key (items ++ [item]) =
    put (key item) (((find (key item) (gather key items)).getD []) ++ [item]) (gather key items) := by
  simp [gather,List.foldl_append]

theorem sorted_gather (items : List α) : Sorted (gather key items) := by
  induction items using List.reverseRecOn with
  | nil => exact List.Pairwise.nil
  | append_singleton items item ih =>
    rw [gather_snoc]
    exact ih.put _ _

/-- A key has a slot when an item has it, and all its items in there. -/
theorem find_gather (items : List α) (name : K) : find name (gather key items) =
    if ∃ item ∈ items, key item = name then some (items.filter fun item => key item = name) else none := by
  induction items using List.reverseRecOn with
  | nil => simp [gather]
  | append_singleton items item ih =>
    rw [gather_snoc,find_put]
    by_cases mine : key item = name
    · subst mine
      have before : (find (key item) (gather key items)).getD [] = items.filter fun other => key other = key item := by
        rw [ih]
        split
        · rfl
        · next none =>
          refine (List.filter_eq_nil_iff.mpr fun other member same => none ⟨other,member,by simpa using same⟩).symm
      rw [if_pos rfl,before,if_pos ⟨item,by simp,rfl⟩]
      simp
    · have same : (∃ other ∈ items ++ [item], key other = name) ↔ ∃ other ∈ items, key other = name := by
        simp [mine]
      have filtered : (items ++ [item]).filter (fun other => key other = name) = items.filter fun other => key other = name := by
        simp [mine]
      rw [if_neg mine,ih,filtered]
      simp only [same]

theorem mem_gather {items : List α} {name : K} {group : List α} : (name,group) ∈ gather key items ↔
    (∃ item ∈ items, key item = name) ∧ group = items.filter fun item => key item = name := by
  constructor
  · intro member
    have found := (sorted_gather items).find_of_mem member
    rw [find_gather] at found
    split at found
    · next some => exact ⟨some,(Option.some.inj found).symm⟩
    · cases found
  · rintro ⟨some,rfl⟩
    refine mem_of_find ?_
    rw [find_gather,if_pos some]

theorem perm_gather (items : List α) : ((gather key items).flatMap (·.2)).Perm items := by
  induction items using List.reverseRecOn with
  | nil => exact List.Perm.refl _
  | append_singleton items item ih =>
    rw [gather_snoc]
    have sorted : Sorted (gather key items) := sorted_gather items
    have put := perm_put sorted (key item) item
    exact put.trans ((ih.cons item).trans (List.perm_append_singleton item items).symm)

end Gather

end Order

end SortedTable
