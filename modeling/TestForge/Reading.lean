/-! Readers that take a value off the front of a text, and the loop that takes
items as long as a turn asks for one more. A relation between the text taken, the
value and the text left says what a reader reads: a sound reader takes nothing
else, a complete one takes all of it. -/
namespace TestForge.Reading

abbrev Reader (σ ε α : Type) := List σ → Except ε (α × List σ)

abbrev Relation (σ α : Type) := List σ → α → List σ → Prop

def Sound (reader : Reader σ ε α) (relation : Relation σ α) : Prop :=
  ∀ text value rest, reader text = .ok (value,rest) →
    ∃ front, text = front ++ rest ∧ relation front value rest

def Complete (reader : Reader σ ε α) (relation : Relation σ α) : Prop :=
  ∀ front value rest, relation front value rest → reader (front ++ rest) = .ok (value,rest)

theorem bind_ok {x : Except ε α} {f : α → Except ε β} {result : β} :
    x >>= f = .ok result ↔ ∃ value, x = .ok value ∧ f value = .ok result := by
  cases x <;> simp [bind,Except.bind]

/-- `exhausted` is what a loop without turns left reports. -/
def readTurns (exhausted : List σ → ε) (turn : Reader σ ε (α × Bool)) : Nat → Reader σ ε (List α)
  | 0, text => .error (exhausted text)
  | turns + 1, text =>
    match turn text with
    | .error failure => .error failure
    | .ok ((item,false),rest) => .ok ([item],rest)
    | .ok ((item,true),rest) =>
      match readTurns exhausted turn turns rest with
      | .error failure => .error failure
      | .ok (items,rest) => .ok (item :: items,rest)

/-- The loop with a turn more than there are symbols left. -/
def readItems (exhausted : List σ → ε) (turn : Reader σ ε (α × Bool)) : Reader σ ε (List α) :=
  fun text => readTurns exhausted turn (text.length + 1) text

/-- A text that consecutive turns read, the last of which asks for no more. -/
inductive Turns (relation : Relation σ (α × Bool)) : Relation σ (List α) where
  | last : relation front (item,false) rest → Turns relation front [item] rest
  | more : relation front (item,true) (others ++ rest) → Turns relation others items rest →
      Turns relation (front ++ others) (item :: items) rest

theorem readTurns_sound {exhausted : List σ → ε} {turn : Reader σ ε (α × Bool)}
    {relation : Relation σ (α × Bool)} (sound : Sound turn relation) (turns : Nat) :
    Sound (readTurns exhausted turn turns) (Turns relation) := by
  induction turns with
  | zero => intro text items rest read; cases read
  | succ turns ih =>
    intro text items rest read
    unfold readTurns at read
    split at read
    · cases read
    · next item behind first =>
      simp only [Except.ok.injEq,Prod.mk.injEq] at read
      obtain ⟨rfl,rfl⟩ := read
      obtain ⟨front,rfl,related⟩ := sound _ _ _ first
      exact ⟨front,rfl,.last related⟩
    · next item behind first =>
      split at read
      · cases read
      · next others last remaining =>
        simp only [Except.ok.injEq,Prod.mk.injEq] at read
        obtain ⟨rfl,rfl⟩ := read
        obtain ⟨front,rfl,related⟩ := sound _ _ _ first
        obtain ⟨tail,rfl,tailRelated⟩ := ih _ _ _ remaining
        exact ⟨front ++ tail,by simp,.more related tailRelated⟩

theorem readTurns_complete {exhausted : List σ → ε} {turn : Reader σ ε (α × Bool)}
    {relation : Relation σ (α × Bool)} (complete : Complete turn relation)
    (read : Turns relation front items rest) (turns : Nat) (enough : items.length ≤ turns) :
    readTurns exhausted turn turns (front ++ rest) = .ok (items,rest) := by
  induction read generalizing turns with
  | last related =>
    obtain ⟨turns,rfl⟩ : ∃ less, turns = less + 1 := ⟨turns - 1,by simp at enough; omega⟩
    simp [readTurns,complete _ _ _ related]
  | more related _ ih =>
    obtain ⟨turns,rfl⟩ : ∃ less, turns = less + 1 := ⟨turns - 1,by simp at enough; omega⟩
    rw [List.append_assoc,readTurns,complete _ _ _ related]
    simp [ih turns (by simpa using enough)]

/-- Turns that each take something are no more than the symbols of the text. -/
theorem Turns.length_le {relation : Relation σ (α × Bool)}
    (takes : ∀ front item rest, relation front item rest → front ≠ [])
    (read : Turns relation front items rest) : items.length ≤ front.length := by
  induction read with
  | last related => exact List.length_pos_iff.mpr (takes _ _ _ related)
  | more related _ ih =>
    have := List.length_pos_iff.mpr (takes _ _ _ related)
    simp only [List.length_cons,List.length_append]
    omega

theorem readItems_sound {exhausted : List σ → ε} {turn : Reader σ ε (α × Bool)}
    {relation : Relation σ (α × Bool)} (sound : Sound turn relation) :
    Sound (readItems exhausted turn) (Turns relation) :=
  fun text => readTurns_sound sound (text.length + 1) text

theorem readItems_complete {exhausted : List σ → ε} {turn : Reader σ ε (α × Bool)}
    {relation : Relation σ (α × Bool)} (complete : Complete turn relation)
    (takes : ∀ front item rest, relation front item rest → front ≠ []) :
    Complete (readItems exhausted turn) (Turns relation) := by
  intro front items rest read
  have := read.length_le takes
  exact readTurns_complete complete read _ (by simp only [List.length_append]; omega)

end TestForge.Reading
