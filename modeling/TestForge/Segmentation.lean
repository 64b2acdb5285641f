import Mathlib.Data.List.Induction

/-! A stream that arrives in pieces, each at least one letter and at most `limit` of them. -/
namespace Segmentation

variable {α : Type}

structure Segments (limit : Nat) (stream : List α) (pieces : List (List α)) : Prop where
  whole : pieces.flatten = stream
  sizes : ∀ piece ∈ pieces, piece ≠ [] ∧ piece.length ≤ limit

/-- One letter at a time. -/
def singles (stream : List α) : List (List α) := stream.map ([·])

/-- One letter at a time, but with a piece as long as possible behind the first `count`. -/
def jump (limit count : Nat) (stream : List α) : List (List α) :=
  singles (stream.take count) ++
    if stream.length ≤ count then [] else (stream.drop count).take limit :: singles (stream.drop (count + limit))

@[simp] theorem flatten_singles (stream : List α) : (singles stream).flatten = stream := by
  induction stream with
  | nil => rfl
  | cons x rest ih => simpa [singles] using ih

@[simp] theorem singles_append (front back : List α) : singles (front ++ back) = singles front ++ singles back :=
  List.map_append

theorem segments_singles (limit : Nat) (positive : 0 < limit) (stream : List α) :
    Segments limit stream (singles stream) where
  whole := flatten_singles stream
  sizes := by
    intro piece member
    obtain ⟨x,_,rfl⟩ := List.mem_map.mp member
    exact ⟨by simp,positive⟩

theorem Segments.append (front : Segments limit stream pieces) (back : Segments limit more others) :
    Segments limit (stream ++ more) (pieces ++ others) where
  whole := by rw [List.flatten_append,front.whole,back.whole]
  sizes := by
    intro piece member
    rcases List.mem_append.mp member with member | member
    · exact front.sizes piece member
    · exact back.sizes piece member

theorem segments_jump (limit count : Nat) (positive : 0 < limit) (stream : List α) :
    Segments limit stream (jump limit count stream) := by
  have early := segments_singles limit positive (stream.take count)
  rw [jump]
  split
  · next short =>
    rw [List.append_nil]
    rwa [List.take_of_length_le short] at early ⊢
  · next long =>
    have piece : Segments limit ((stream.drop count).take limit) [(stream.drop count).take limit] := by
      refine ⟨by simp,fun piece member => ?_⟩
      rw [List.mem_singleton.mp member]
      refine ⟨List.ne_nil_of_length_pos ?_,List.length_take_le _ _⟩
      rw [List.length_take,List.length_drop]
      omega
    have late := segments_singles limit positive (stream.drop (count + limit))
    have all := early.append (piece.append late)
    have text : stream.take count ++ ((stream.drop count).take limit ++ stream.drop (count + limit)) = stream := by
      rw [← List.drop_drop,List.take_append_drop,List.take_append_drop]
    rwa [text] at all

/-- The piece with which a stream reaches a length. -/
theorem exists_reach (pieces : List (List α)) (count : Nat) (positive : 0 < count)
    (enough : count ≤ pieces.flatten.length) : ∃ early piece later, pieces = early ++ piece :: later ∧
      early.flatten.length < count ∧ count ≤ (early.flatten ++ piece).length := by
  induction pieces using List.reverseRecOn with
  | nil =>
    rw [List.flatten_nil,List.length_nil] at enough
    omega
  | append_singleton pieces last ih =>
    by_cases sooner : count ≤ pieces.flatten.length
    · obtain ⟨early,piece,later,rfl,before,reach⟩ := ih sooner
      exact ⟨early,piece,later ++ [last],by simp,before,reach⟩
    · exact ⟨pieces,last,[],rfl,by omega,by simpa using enough⟩

end Segmentation
