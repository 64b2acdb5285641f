import TestForge.ChunkCodec

/-! Chunked bodies that the decoder takes for complete, compared with the strict grammar: it
reads over four kinds of malformed text. -/
namespace TestForge.Chunked

open Sequence Strings

/-- A size line: a spelled size, and possibly an extension. -/
def SizeLine (line : Bytes) (size : Nat) : Prop :=
  ∃ text extension, line = text ++ extension ∧ Spelled text size ∧ (extension = [] ∨ extension.head? = some 59) ∧
    ¬crlf <:+: line

/-- A sequence of chunks, each ended by its own line end, up to the size line that ends the
body; and their data. -/
inductive Strict : Bytes → Bytes → Prop
  | last {line : Bytes} (ends : SizeLine line 0) : Strict (line ++ crlf) []
  | chunk {line data rest out : Bytes} (first : SizeLine line data.length) (something : data ≠ [])
      (others : Strict rest out) : Strict (line ++ crlf ++ data ++ crlf ++ rest) (data ++ out)

def sizeText (line : Bytes) : Bytes := ((cut 59 line).map (·.1)).getD line

def behindRun (text : Bytes) : Bytes := (text.dropWhile blank).dropWhile isHex

/-- What the decoder reads over at a size line that it takes for the number `size`, `pos` bytes
behind the start of the text. -/
inductive Slip (pos : Nat) (line rest : Bytes) (size : Nat) : Prop
  /-- The size has no digit. -/
  | blank (only : ∀ c ∈ sizeText line, blank c = true)
  /-- Blanks stand between the digits. -/
  | broken (more : ∃ c ∈ behindRun (sizeText line), isHex c = true)
  /-- The end of the chunk leaves 64 bits. -/
  | wraps (beyond : sizeLimit ≤ pos + line.length + 2 + size + 2)
  /-- The two bytes behind the data are not a line end. -/
  | unended (data : size ≠ 0) (other : ¬crlf <+: rest.drop size)

/-- No size line that follows complete chunks shows a slip. -/
def Clean (raw : Bytes) : Prop :=
  ∀ data left line rest size, Chunks raw data left → Line left line rest → announced line = some size →
    ¬Slip (raw.length - left.length) line rest size

/-! ### Size lines -/

theorem announced_eq (line : Bytes) : announced line = if sizeText line = [] then none else digitsNumber (sizeText line) 0 :=
  rfl

theorem SizeLine.sizeText (valid : SizeLine line size) : Spelled (sizeText line) size := by
  obtain ⟨text,extension,rfl,spelled,behind,-⟩ := valid
  have fresh : 59 ∉ text := spelled.fresh 59 ⟨rfl,rfl⟩
  have text_ : Chunked.sizeText (text ++ extension) = text := by
    cases extension with
    | nil =>
      rw [Chunked.sizeText,List.append_nil,(cut_eq_none _ _).mpr fresh]
      rfl
    | cons c more =>
      obtain rfl : c = 59 := by simpa using behind
      rw [Chunked.sizeText,cut_append _ _ _ fresh]
      rfl
  rwa [text_]

theorem SizeLine.announced (valid : SizeLine line size) : announced line = some size := by
  obtain ⟨something,number⟩ := valid.sizeText.number
  rw [announced_eq,if_neg something,number]

theorem SizeLine.of_sizeText (spelled : Spelled (Chunked.sizeText line) size) (first : ¬crlf <:+: line) :
    SizeLine line size := by
  cases found : cut 59 line with
  | none =>
    have same : Chunked.sizeText line = line := by simp [Chunked.sizeText,found]
    exact ⟨line,[],by simp,same ▸ spelled,.inl rfl,first⟩
  | some parts =>
    have same : Chunked.sizeText line = parts.1 := by simp [Chunked.sizeText,found]
    obtain ⟨whole,-⟩ := (cut_eq_some 59 line parts.1 parts.2).mp found
    exact ⟨parts.1,59 :: parts.2,whole,same ▸ spelled,.inr rfl,first⟩

theorem isHex_of_blank (c : UInt8) (shown : blank c = true) : isHex c = false := by
  have two : c = 32 ∨ c = 9 := by simpa [blank] using shown
  rcases two with rfl | rfl
  · rfl
  · rfl

theorem isHex_of_not_blank (c : UInt8) (read : blank c = true ∨ isHex c = true) (other : blank c = false) :
    isHex c = true := by
  rcases read with shown | hex
  · simp [other] at shown
  · exact hex

theorem Spelled.behindRun (spelled : Spelled text size) :
    (∃ c ∈ text, blank c = false) ∧ ∀ c ∈ behindRun text, isHex c = false := by
  obtain ⟨front,digits,back,rfl,before,after,run,hex,-⟩ := spelled
  obtain ⟨digit,digits,rfl⟩ := List.exists_cons_of_ne_nil run
  have plain : blank digit = false := by
    by_contra shown
    have none := isHex_of_blank digit (by simpa using shown)
    have some : isHex digit = true := hex digit (by simp)
    simp [none] at some
  refine ⟨⟨digit,by simp,plain⟩,fun c member => ?_⟩
  have run' : (front ++ (digit :: digits) ++ back).dropWhile blank = (digit :: digits) ++ back := by
    rw [List.append_assoc,List.dropWhile_append_of_pos before,List.cons_append,List.dropWhile_cons_of_neg (by simp [plain])]
  rw [Chunked.behindRun,run',List.dropWhile_append_of_pos hex] at member
  exact isHex_of_blank c (after c ((List.dropWhile_sublist _).subset member))

theorem digitsNumber_plain (text : Bytes) (start size : Nat) (read : digitsNumber text start = some size) :
    ∀ c ∈ text, blank c = true ∨ isHex c = true := by
  induction text generalizing start with
  | nil => simp
  | cons c rest ih =>
    rw [digitsNumber] at read
    cases digit : hexDigit c with
    | some value =>
      simp only [digit] at read
      rw [List.forall_mem_cons]
      exact ⟨.inr (by simp [isHex,digit]),ih _ read⟩
    | none =>
      simp only [digit,Option.ite_none_right_eq_some] at read
      rw [List.forall_mem_cons]
      exact ⟨.inl (by simpa [blank] using read.1),ih _ read.2⟩

theorem Spelled.of_read (read : digitsNumber text 0 = some size) (digit : ∃ c ∈ text, blank c = false)
    (whole : ∀ c ∈ Chunked.behindRun text, isHex c = false) : Spelled text size := by
  have plain := digitsNumber_plain text 0 size read
  have front : ∀ c ∈ text.takeWhile blank, blank c = true := fun c member => List.mem_takeWhile_imp member
  have digits : ∀ c ∈ (text.dropWhile blank).takeWhile isHex, isHex c = true :=
    fun c member => List.mem_takeWhile_imp member
  have inside : Chunked.behindRun text <:+ text :=
    (List.dropWhile_suffix _).trans (List.dropWhile_suffix _)
  have back : ∀ c ∈ Chunked.behindRun text, blank c = true := by
    intro c member
    have other := whole c member
    simpa [other] using plain c (inside.subset member)
  have parts : text = text.takeWhile blank ++ (text.dropWhile blank).takeWhile isHex ++ Chunked.behindRun text := by
    rw [List.append_assoc,Chunked.behindRun,List.takeWhile_append_dropWhile,List.takeWhile_append_dropWhile]
  have run : (text.dropWhile blank).takeWhile isHex ≠ [] := by
    intro none
    cases rest : text.dropWhile blank with
    | nil =>
      obtain ⟨c,member,other⟩ := digit
      have shown := List.dropWhile_eq_nil_iff.mp rest c member
      simp [other] at shown
    | cons c more =>
      have other : blank c = false := by
        have head := List.head_dropWhile_not blank (l := text) (by simp [rest])
        simpa [rest] using head
      have member : c ∈ text := (List.dropWhile_sublist blank).subset (by simp [rest])
      have hex := isHex_of_not_blank c (plain c member) other
      simp [rest,hex] at none
  have spelled : Spelled text (hexNumber ((text.dropWhile blank).takeWhile isHex)) :=
    ⟨_,_,_,parts,front,back,run,digits,rfl⟩
  obtain rfl := Option.some.inj (spelled.number.2.symm.trans read)
  exact spelled

/-! ### Bodies -/

theorem Line.of_strict (first : SizeLine line size) (rest : Bytes) : Line (line ++ crlf ++ rest) line rest :=
  ⟨rfl,by obtain ⟨_,_,_,_,_,fresh⟩ := first; exact fresh⟩

theorem SizeLine.no_slip (valid : SizeLine line size) (pos : Nat) (rest : Bytes)
    (fits : pos + line.length + 2 + size + 2 < sizeLimit) (ended : size ≠ 0 → crlf <+: rest.drop size) :
    ¬Slip pos line rest size := by
  obtain ⟨⟨c,member,digit⟩,whole⟩ := valid.sizeText.behindRun
  intro slip
  cases slip with
  | blank only => simp [only c member] at digit
  | broken more =>
    obtain ⟨d,behind,hex⟩ := more
    simp [whole d behind] at hex
  | wraps beyond => omega
  | unended data other => exact other (ended data)

theorem SizeLine.of_no_slip (first : Line left line rest) (read : Chunked.announced line = some size)
    (sound : ¬Slip pos line rest size) : SizeLine line size := by
  apply SizeLine.of_sizeText _ first.first
  rw [announced_eq,Option.ite_none_left_eq_some] at read
  apply Spelled.of_read read.2
  · by_contra only
    simp only [not_exists,not_and,Bool.not_eq_false] at only
    exact sound (.blank only)
  · intro c member
    by_contra hex
    exact sound (.broken ⟨c,member,by simpa using hex⟩)

/-- A strict body at the beginning of a text keeps it clean: the decoder goes through its chunks. -/
theorem Strict.clean (strict : Strict text out) (total : Nat) (small : total < 2^63) (more : Bytes)
    (inside : (text ++ more).length ≤ total) (data left line rest : Bytes) (size : Nat)
    (chunks : Chunks (text ++ more) data left) (first : Line left line rest) (read : announced line = some size) :
    ¬Slip (total - left.length) line rest size := by
  induction strict generalizing data with
  | @last line' ends =>
    have here := Line.of_strict ends more
    have zero := ends.announced
    cases chunks with
    | nil =>
      obtain ⟨rfl,rfl⟩ := first.unique here
      obtain rfl := Option.some.inj (read.symm.trans zero)
      simp only [List.length_append,crlf,List.length_cons,List.length_nil] at inside ⊢
      exact ends.no_slip _ _ (by simp only [sizeLimit]; omega) (fun other => absurd rfl other)
    | chunk first' size' something =>
      obtain ⟨rfl,-⟩ := first'.unique here
      have none := Option.some.inj (size'.symm.trans zero)
      exact absurd (List.length_eq_zero_iff.mp none) something
  | @chunk line' data' rest' out' begins something others ih =>
    have text_ : line' ++ crlf ++ data' ++ crlf ++ rest' ++ more = line' ++ crlf ++ (data' ++ crlf ++ (rest' ++ more)) := by
      simp
    rw [text_] at chunks inside
    have here := Line.of_strict begins (data' ++ crlf ++ (rest' ++ more))
    cases chunks with
    | nil =>
      obtain ⟨rfl,rfl⟩ := first.unique here
      obtain rfl := Option.some.inj (read.symm.trans begins.announced)
      simp only [List.length_append,crlf,List.length_cons,List.length_nil] at inside ⊢
      refine begins.no_slip _ _ (by simp only [sizeLimit]; omega) fun _ => ?_
      rw [List.append_assoc,List.drop_left]
      exact List.prefix_append _ _
    | chunk first' size' something' two others' =>
      obtain ⟨rfl,rfl⟩ := chunk_unique first' size' two here begins.announced rfl
      refine ih ?_ _ others'
      simp only [List.length_append] at inside ⊢
      omega

theorem Strict.of_clean (total : Nat) (chunks : Chunks text out left) (ends : Stops left .terminated)
    (clean : ∀ data left line rest size, Chunks text data left → Line left line rest → announced line = some size →
      ¬Slip (total - left.length) line rest size) : ∃ body, body <+: text ∧ Strict body out := by
  induction chunks with
  | nil text =>
    obtain ⟨line,rest,first,zero⟩ := ends
    have sound := clean [] text line rest 0 (.nil _) first zero
    exact ⟨line ++ crlf,⟨rest,first.whole.symm⟩,.last (SizeLine.of_no_slip first zero sound)⟩
  | @chunk text line data ending rest out left first size something two others ih =>
    have sound := clean [] text line _ _ (.nil _) first size
    have ended : ending = crlf := by
      by_contra other
      refine sound (.unended (List.length_pos_iff.mpr something).ne' fun pre => other ?_)
      rw [List.append_assoc,List.drop_left] at pre
      exact (List.prefix_of_prefix_length_le (List.prefix_append ending rest) pre two.le).eq_of_length two
    subst ended
    obtain ⟨body,⟨more,whole⟩,strict⟩ := ih ends fun data' left' line' rest' size' chunks' =>
      clean (data ++ data') left' line' rest' size' (.chunk first size something two chunks')
    refine ⟨line ++ crlf ++ data ++ crlf ++ body,⟨more,?_⟩,.chunk (SizeLine.of_no_slip first size sound) something strict⟩
    simp [first.whole,← whole]

/-- Of the texts that the decoder takes for complete, those that begin with a strict body of that
output are the clean ones. -/
theorem decodeChunked_strict_iff (raw out : Bytes) (small : raw.length < 2^63)
    (complete : decodeChunked raw = some ⟨true,true,out⟩) :
    (∃ body, body <+: raw ∧ Strict body out) ↔ Clean raw := by
  constructor
  · rintro ⟨body,⟨more,rfl⟩,strict⟩ data left line rest size chunks first read
    exact strict.clean _ small more le_rfl data left line rest size chunks first read
  · intro clean
    have fits : NoWrap raw := by
      intro data left line rest size chunks first read
      by_contra beyond
      exact clean data left line rest size chunks first read (.wraps (Nat.not_lt.mp beyond))
    obtain ⟨stop,final,⟨left,chunks,ends⟩,decoded⟩ := decodeChunked_ends raw fits
    have same := Option.some.inj (complete.symm.trans decoded)
    cases stop with
    | unfinished => simp [Stop.decoded] at same
    | malformed => simp [Stop.decoded] at same
    | terminated =>
      obtain rfl : out = final := (Decoded.mk.inj same).2.2
      exact Strict.of_clean raw.length chunks ends clean

theorem decodeChunked_strict_one : (∃ body, body <+: ascii "1\r\na\r\n0\r\n" ∧ Strict body (ascii "a")) ↔
    Clean (ascii "1\r\na\r\n0\r\n") :=
  decodeChunked_strict_iff (ascii "1\r\na\r\n0\r\n") (ascii "a") (by decide) (by decide)

/-- A size line of one blank is taken for the end of the body. -/
theorem blank_size_complete : ¬∀ raw out, raw.length < 2^63 → decodeChunked raw = some ⟨true,true,out⟩ →
    ∃ body, body <+: raw ∧ Strict body out := by
  intro holds
  obtain ⟨body,⟨more,whole⟩,strict⟩ := holds (ascii " \r\n") [] (by decide) (by decide)
  have first : Line (body ++ more) (ascii " ") [] := by
    rw [whole]
    exact ⟨by decide,by decide⟩
  exact strict.clean (body ++ more).length (by rw [whole]; decide) more le_rfl [] _ _ [] 0 (.nil _) first
    rfl (.blank (List.all_eq_true.mp rfl))

end TestForge.Chunked
