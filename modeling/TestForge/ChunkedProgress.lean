import TestForge.Chunked

/-! Termination, bounds and output size of the chunked decoder. The end of a chunk
is computed modulo 2^64, so everything hinges on the sizes that fit. -/
namespace TestForge.Chunked

open Sequence Strings Transition

/-- The positions between complete chunks, in unbounded arithmetic. -/
inductive Complete (raw : Bytes) : Nat → Prop
  | start : Complete raw 0
  | chunk (complete : Complete raw pos) (found : sizeLine raw pos = some line)
      (read : chunkSize line = some size) (data : size ≠ 0)
      (inside : pos + line.length + 2 + size + 2 ≤ raw.length) :
      Complete raw (pos + line.length + 2 + size + 2)

/-- Where the chunk behind a size line ends, again in unbounded arithmetic. -/
def chunkEnd (pos : Nat) (line : Bytes) (size : Nat) : Nat := pos + line.length + 2 + size + 2

/-- No size line behind complete chunks announces a chunk whose end leaves 64 bits
and comes back, wrapped, as a position of the input. -/
def SizesFit (raw : Bytes) : Prop :=
  ∀ pos line size, Complete raw pos → pos < raw.length → sizeLine raw pos = some line →
    chunkSize line = some size → chunkEnd pos line size < sizeLimit ∨
      raw.length < chunkEnd pos line size - sizeLimit

/-- What the loop owes in one state: a bounded output, and a pass that returns or
moves forward over a substring of the input. -/
structure Sound (raw : Bytes) (cursor : Cursor) : Prop where
  output : cursor.out.length ≤ raw.length
  forward : ∀ offset count next, cursor.pos < raw.length →
    iterate raw cursor.pos = .continues offset count next →
      cursor.pos < next ∧ offset + count ≤ raw.length

/-- The decoder terminates, and every state it goes through is sound. -/
structure Progresses (raw : Bytes) : Prop where
  terminates : ∃ fuel decoded, decodeLoop raw fuel 0 [] = some decoded ∧
    decoded.out.length ≤ raw.length
  sound : ∀ cursor, Reachable (step raw) {} cursor → Sound raw cursor

theorem chunkDigits_lt (line : Bytes) (start size : Nat) (small : start < sizeLimit)
    (read : chunkDigits line start = some size) : size < sizeLimit := by
  induction line generalizing start with
  | nil =>
    simp only [chunkDigits,Option.some.injEq] at read
    omega
  | cons c rest ih =>
    simp only [chunkDigits] at read
    split at read
    · exact ih _ (Nat.mod_lt _ (by decide)) read
    · split at read
      · exact ih _ small read
      · contradiction

theorem chunkSize_lt (line : Bytes) (size : Nat) (read : chunkSize line = some size) :
    size < sizeLimit := by
  simp only [chunkSize] at read
  split at read
  · contradiction
  · exact chunkDigits_lt _ 0 size (by decide) read

theorem sizeLine_inside (raw line : Bytes) (pos : Nat) (inside : pos ≤ raw.length)
    (found : sizeLine raw pos = some line) : pos + line.length + 2 ≤ raw.length := by
  simp only [sizeLine,Option.map_eq_some_iff] at found
  obtain ⟨parts,cuts,rfl⟩ := found
  have total := congrArg List.length (cutOn_split _ _ _ _ cuts)
  simp [crlf] at total
  omega

theorem iterate_continues (raw : Bytes) (pos offset count next : Nat) (small : raw.length < 2^63)
    (inside : pos < raw.length) (taken : iterate raw pos = .continues offset count next) :
    ∃ line, sizeLine raw pos = some line ∧ chunkSize line = some count ∧ count ≠ 0 ∧
      offset = pos + line.length + 2 ∧ offset ≤ raw.length ∧
      next = chunkEnd pos line count % sizeLimit ∧ next ≤ raw.length := by
  unfold iterate at taken
  split at taken
  · contradiction
  next line found =>
    split at taken
    · contradiction
    next size read =>
      have bound := sizeLine_inside raw line pos inside.le found
      have start : (pos + line.length + 2) % sizeLimit = pos + line.length + 2 :=
        Nat.mod_eq_of_lt (by simp only [sizeLimit]; omega)
      simp only [start] at taken
      split at taken
      · contradiction
      next data =>
        split at taken
        · contradiction
        next reach =>
          simp only [Iteration.continues.injEq] at taken
          obtain ⟨rfl,rfl,rfl⟩ := taken
          exact ⟨line,found,read,data,rfl,bound,rfl,by omega⟩

/-- A pass over a size line whose chunk end, wrapped, lies inside the input. -/
theorem iterate_of_end (raw line : Bytes) (pos size : Nat) (small : raw.length < 2^63)
    (inside : pos < raw.length) (found : sizeLine raw pos = some line)
    (read : chunkSize line = some size) (data : size ≠ 0)
    (reach : chunkEnd pos line size % sizeLimit ≤ raw.length) :
    iterate raw pos =
      .continues (pos + line.length + 2) size (chunkEnd pos line size % sizeLimit) := by
  have bound := sizeLine_inside raw line pos inside.le found
  have start : (pos + line.length + 2) % sizeLimit = pos + line.length + 2 :=
    Nat.mod_eq_of_lt (by simp only [sizeLimit]; omega)
  simp only [iterate,found,read,start,if_neg data]
  exact if_neg (by simp only [chunkEnd] at reach; omega)

theorem iterate_complete (raw : Bytes) (pos offset count next : Nat) (small : raw.length < 2^63)
    (fit : SizesFit raw) (complete : Complete raw pos) (inside : pos < raw.length)
    (taken : iterate raw pos = .continues offset count next) :
    Complete raw next ∧ offset + count + 2 = next ∧ pos + 4 < next ∧ next ≤ raw.length := by
  obtain ⟨line,found,read,data,rfl,_,rfl,reach⟩ :=
    iterate_continues raw pos offset count next small inside taken
  have size := chunkSize_lt line count read
  have exact : chunkEnd pos line count % sizeLimit = chunkEnd pos line count := by
    rcases fit pos line count complete inside found read with fits | beyond
    · exact Nat.mod_eq_of_lt fits
    · have once : chunkEnd pos line count < 2 * sizeLimit := by
        simp only [chunkEnd,sizeLimit] at *; omega
      have wrapped : sizeLimit ≤ chunkEnd pos line count := by omega
      rw [Nat.mod_eq_sub_mod wrapped,Nat.mod_eq_of_lt (by omega)] at reach
      omega
  rw [exact] at reach ⊢
  exact ⟨.chunk complete found read data reach,rfl,by simp only [chunkEnd]; omega,reach⟩

/-- What every state of the loop satisfies while the sizes fit. -/
structure Tracked (raw : Bytes) (cursor : Cursor) : Prop where
  complete : Complete raw cursor.pos
  written : cursor.out.length ≤ cursor.pos
  inside : cursor.pos ≤ raw.length

theorem substr_length (raw : Bytes) (offset count : Nat) : (substr raw offset count).length ≤ count := by
  simp [substr]

theorem Tracked.continue (tracked : Tracked raw cursor) (small : raw.length < 2^63)
    (fit : SizesFit raw) (inside : cursor.pos < raw.length)
    (taken : iterate raw cursor.pos = .continues offset count next) :
    Tracked raw ⟨next,cursor.out ++ substr raw offset count⟩ := by
  obtain ⟨complete,ends,_,reach⟩ :=
    iterate_complete raw _ _ _ _ small fit tracked.complete inside taken
  have length := substr_length raw offset count
  obtain ⟨line,_,_,_,start,_⟩ := iterate_continues raw _ _ _ _ small inside taken
  have written := tracked.written
  exact ⟨complete,by simp only [List.length_append]; omega,reach⟩

theorem step_preserves (small : raw.length < 2^63) (fit : SizesFit raw) (action : Unit)
    (cursor next : Cursor) (tracked : Tracked raw cursor)
    (taken : step raw action cursor = some next) : Tracked raw next := by
  unfold step at taken
  split at taken
  · next inside =>
    split at taken
    · contradiction
    · next read =>
      simp only [Option.some.injEq] at taken
      exact taken ▸ tracked.continue small fit inside read
  · contradiction

theorem tracked_sound (tracked : Tracked raw cursor) (small : raw.length < 2^63)
    (fit : SizesFit raw) : Sound raw cursor where
  output := tracked.written.trans tracked.inside
  forward := by
    intro offset count next inside taken
    obtain ⟨_,ends,further,reach⟩ :=
      iterate_complete raw _ _ _ _ small fit tracked.complete inside taken
    exact ⟨by omega,by omega⟩

theorem decodeLoop_returns (small : raw.length < 2^63) (fit : SizesFit raw) (fuel : Nat)
    (cursor : Cursor) (tracked : Tracked raw cursor) (enough : raw.length - cursor.pos < fuel) :
    ∃ decoded, decodeLoop raw fuel cursor.pos cursor.out = some decoded ∧
      decoded.out.length ≤ raw.length := by
  have output : cursor.out.length ≤ raw.length := tracked.written.trans tracked.inside
  induction fuel generalizing cursor with
  | zero => omega
  | succ fuel ih =>
    unfold decodeLoop
    split
    · next inside =>
      split
      · exact ⟨_,rfl,output⟩
      · next offset count next taken =>
        have tracked' := tracked.continue small fit inside taken
        obtain ⟨_,_,further,_⟩ := iterate_complete raw _ _ _ _ small fit tracked.complete inside taken
        exact ih _ tracked' (by simp only; omega) (tracked'.written.trans tracked'.inside)
    · exact ⟨_,rfl,output⟩

theorem tracked_start (raw : Bytes) : Tracked raw {} := ⟨.start,by simp,by simp⟩

theorem decodeChunked_returns (small : raw.length < 2^63) (fit : SizesFit raw) :
    ∃ decoded, decodeChunked raw = some decoded ∧ decoded.out.length ≤ raw.length :=
  decodeLoop_returns small fit (raw.length + 1) {} (tracked_start raw) (by simp)

theorem complete_reachable (small : raw.length < 2^63) (complete : Complete raw pos) :
    ∃ out, Reachable (step raw) {} ⟨pos,out⟩ := by
  induction complete with
  | start => exact ⟨[],[],rfl⟩
  | @chunk pos line size _ found read data reach ih =>
    obtain ⟨out,reachable⟩ := ih
    have inside : pos < raw.length := by omega
    have exact : chunkEnd pos line size % sizeLimit = pos + line.length + 2 + size + 2 :=
      Nat.mod_eq_of_lt (by simp only [chunkEnd,sizeLimit]; omega)
    have taken := iterate_of_end raw line pos size small inside found read data
      (by rw [exact]; exact reach)
    rw [exact] at taken
    exact ⟨_,reachable.next () (by simp only [step,if_pos inside,taken]; rfl)⟩

/-- The decoder keeps its promises exactly on the inputs whose sizes fit. -/
theorem progresses_iff_sizesFit (raw : Bytes) (small : raw.length < 2^63) :
    Progresses raw ↔ SizesFit raw := by
  constructor
  · intro progresses pos line size complete inside found read
    by_contra wraps
    obtain ⟨wrapped,within⟩ := not_or.mp wraps
    have bound := sizeLine_inside raw line pos inside.le found
    have limit := chunkSize_lt line size read
    have data : size ≠ 0 := by
      rintro rfl
      simp only [chunkEnd,sizeLimit] at wrapped
      omega
    have once : chunkEnd pos line size % sizeLimit = chunkEnd pos line size - sizeLimit := by
      rw [Nat.mod_eq_sub_mod (by omega),Nat.mod_eq_of_lt]
      simp only [chunkEnd,sizeLimit] at *
      omega
    obtain ⟨out,reachable⟩ := complete_reachable small complete
    have taken := iterate_of_end raw line pos size small inside found read data
      (by rw [once]; omega)
    have sound := (progresses.sound _ reachable).forward _ _ _ inside taken
    simp only [chunkEnd,sizeLimit] at *
    omega
  · intro fit
    obtain ⟨decoded,returned,output⟩ := decodeChunked_returns small fit
    exact {
      terminates := ⟨_,decoded,returned,output⟩
      sound := fun cursor reachable =>
        tracked_sound (reachable.invariant _ (step_preserves small fit) (tracked_start raw)) small fit }

theorem progresses_iff_sizesFit_hello :
    (ascii "5\r\nhello\r\n0\r\n\r\n").length < 2^63 ∧
      (Progresses (ascii "5\r\nhello\r\n0\r\n\r\n") ↔ SizesFit (ascii "5\r\nhello\r\n0\r\n\r\n")) :=
  ⟨by decide,progresses_iff_sizesFit _ (by decide)⟩

/-- A size 20 short of 2^64: its chunk ends, wrapped, where it began. -/
def wrappingChunk : Bytes := ascii "ffffffffffffffec\r\n"

theorem wrappingChunk_turns : iterate wrappingChunk 0 = .continues 18 (2^64 - 20) 0 := by decide

/-- The decoder never comes back from `wrappingChunk`. -/
theorem wrappingChunk_hangs :
    (∀ fuel, decodeLoop wrappingChunk fuel 0 [] = none) ∧ ¬Progresses wrappingChunk := by
  have nothing : substr wrappingChunk 18 (2^64 - 20) = [] := by decide
  have again : ∀ fuel, decodeLoop wrappingChunk fuel 0 [] = none := by
    intro fuel
    induction fuel with
    | zero => rfl
    | succ fuel ih =>
      rw [decodeLoop,if_pos (by decide),wrappingChunk_turns]
      simp only [nothing,List.append_nil]
      exact ih
  refine ⟨again,fun progresses => ?_⟩
  obtain ⟨fuel,decoded,returned,_⟩ := progresses.terminates
  simp [again fuel] at returned

end TestForge.Chunked
