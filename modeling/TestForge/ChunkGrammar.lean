import TestForge.Chunked

/-! Chunked bodies as a grammar. A size line announces a number without bound; the decoder
reads the same chunks as long as no number wraps. -/
namespace TestForge.Chunked

open Sequence Strings

/-! ### The grammar -/

/-- The number the digits of a size line stand for; blanks are skipped. -/
def digitsNumber : Bytes → Nat → Option Nat
  | [], number => some number
  | c :: rest, number =>
    match hexDigit c with
    | some digit => digitsNumber rest (number * 16 + digit)
    | none => if c = 32 ∨ c = 9 then digitsNumber rest number else none

/-- The size a line announces; extensions behind ';' have no part in it. -/
def announced (line : Bytes) : Option Nat :=
  let line := ((cut 59 line).map (·.1)).getD line
  if line = [] then none else digitsNumber line 0

/-- A text begins with a line. -/
structure Line (text line rest : Bytes) : Prop where
  whole : text = line ++ crlf ++ rest
  first : ¬crlf <:+: line

/-- A text is a sequence of chunks, with their data, and what is left behind them. Any two
bytes end a chunk. -/
inductive Chunks : Bytes → Bytes → Bytes → Prop
  | nil (text : Bytes) : Chunks text [] text
  | chunk {text line data ending rest out left : Bytes} (first : Line text line (data ++ ending ++ rest))
      (size : announced line = some data.length) (something : data ≠ []) (two : ending.length = 2)
      (others : Chunks rest out left) : Chunks text (data ++ out) left

/-- Why no further chunk follows. -/
inductive Stop where
  | unfinished
  | malformed
  | terminated
  deriving DecidableEq, Repr

def Stops (left : Bytes) : Stop → Prop
  | .unfinished => (¬crlf <:+: left) ∨ ∃ line rest size, Line left line rest ∧ announced line = some size ∧
      size ≠ 0 ∧ rest.length < size + 2
  | .malformed => ∃ line rest, Line left line rest ∧ announced line = none
  | .terminated => ∃ line rest, Line left line rest ∧ announced line = some 0

/-- The chunks of a text, all of them, have the data `out`. -/
def Ends (text : Bytes) (stop : Stop) (out : Bytes) : Prop := ∃ left, Chunks text out left ∧ Stops left stop

/-- Behind the chunks stands the last one, of size zero. -/
abbrev Terminated (text out : Bytes) : Prop := Ends text .terminated out

/-- No size line that follows complete chunks announces a chunk whose end, counted from the
start of the text, leaves 64 bits. -/
def NoWrap (text : Bytes) : Prop :=
  ∀ out left line rest size, Chunks text out left → Line left line rest → announced line = some size →
    text.length - left.length + line.length + 2 + size + 2 < sizeLimit

/-! ### Lines and chunks -/

theorem line_iff (text line rest : Bytes) : Line text line rest ↔ cutOn crlf text = some (line,rest) := by
  constructor
  · rintro ⟨rfl,first⟩
    refine cutOn_append crlf line rest fun early shorter pre => first ?_
    by_cases inside : early.length + 2 ≤ line.length
    · rw [List.append_assoc] at pre
      obtain ⟨late,equal⟩ := List.prefix_of_prefix_length_le pre (List.prefix_append _ _)
        (by simpa [crlf] using inside)
      exact ⟨early,late,equal⟩
    · have early' : early <+: line := by
        rw [List.append_assoc] at pre
        exact List.prefix_of_prefix_length_le ((List.prefix_append early crlf).trans pre)
          (List.prefix_append _ _) shorter.le
      obtain ⟨last,rfl⟩ := early'
      obtain ⟨c,rfl⟩ := List.length_eq_one_iff.mp (show last.length = 1 by
        simp only [List.length_append] at shorter inside
        omega)
      obtain ⟨late,equal⟩ := pre
      simp [crlf] at equal
  · intro found
    refine ⟨cutOn_split _ _ _ _ found,?_⟩
    rintro ⟨early,late,rfl⟩
    refine cutOn_first _ _ _ _ found early (by simp [crlf]) ?_
    rw [cutOn_split _ _ _ _ found]
    exact ⟨late ++ crlf ++ rest,by simp⟩

theorem Line.unique (one : Line text line rest) (other : Line text line' rest') : line = line' ∧ rest = rest' := by
  rw [line_iff] at one other
  simpa using one.symm.trans other

theorem Line.append (first : Line text line rest) (more : Bytes) : Line (text ++ more) line (rest ++ more) :=
  ⟨by simp [first.whole],first.first⟩

theorem Line.infix (first : Line text line rest) : crlf <:+: text := ⟨line,rest,first.whole.symm⟩

theorem exists_line (text : Bytes) (ends : crlf <:+: text) : ∃ line rest, Line text line rest := by
  obtain ⟨parts,found⟩ := Option.ne_none_iff_exists'.mp ((cutOn_eq_none crlf text).not.mpr (not_not.mpr ends))
  exact ⟨parts.1,parts.2,(line_iff _ _ _).mpr found⟩

theorem Chunks.trans (chunks : Chunks text out left) (others : Chunks left more last) :
    Chunks text (out ++ more) last := by
  induction chunks with
  | nil => exact others
  | chunk first size something two _ ih =>
    rw [List.append_assoc]
    exact .chunk first size something two (ih others)

theorem Chunks.append (chunks : Chunks text out left) (more : Bytes) :
    Chunks (text ++ more) out (left ++ more) := by
  induction chunks with
  | nil => exact .nil _
  | chunk first size something two _ ih =>
    exact .chunk (by simpa using first.append more) size something two ih

theorem Chunks.suffix (chunks : Chunks text out left) : left <:+ text := by
  induction chunks with
  | nil => exact List.suffix_refl _
  | @chunk text line data ending rest _ _ first _ _ _ _ ih =>
    exact ih.trans ⟨line ++ crlf ++ data ++ ending,by simp [first.whole]⟩

/-- Each chunk costs more bytes than it has data. -/
theorem Chunks.length (chunks : Chunks text out left) : out.length + left.length ≤ text.length := by
  induction chunks with
  | nil => simp
  | chunk first _ _ _ _ ih =>
    have total := congrArg List.length first.whole
    simp only [List.length_append] at total ⊢
    omega

theorem Stops.no_chunk (stops : Stops text stop) (first : Line text line (data ++ ending ++ rest))
    (size : announced line = some data.length) (something : data ≠ []) (two : ending.length = 2) : False := by
  have positive := List.length_pos_iff.mpr something
  cases stop with
  | unfinished =>
    rcases stops with none | ⟨_,_,_,other,size',_,short⟩
    · exact none first.infix
    · obtain ⟨rfl,rfl⟩ := first.unique other
      obtain rfl := Option.some.inj (size.symm.trans size')
      simp only [List.length_append] at short
      omega
  | malformed =>
    obtain ⟨_,_,other,size'⟩ := stops
    obtain ⟨rfl,_⟩ := first.unique other
    rw [size] at size'
    cases size'
  | terminated =>
    obtain ⟨_,_,other,size'⟩ := stops
    obtain ⟨rfl,_⟩ := first.unique other
    rw [size,Option.some.injEq] at size'
    omega

theorem Stops.unique (one : Stops left stop) (other : Stops left stop') : stop = stop' := by
  cases stop <;> cases stop' <;> first
    | rfl
    | (simp only [Stops] at one other; grind [Line.unique, Line.infix])

theorem chunk_unique (first : Line text line (data ++ ending ++ rest)) (size : announced line = some data.length)
    (two : ending.length = 2) (first' : Line text line' (data' ++ ending' ++ rest'))
    (size' : announced line' = some data'.length) (two' : ending'.length = 2) : data = data' ∧ rest = rest' := by
  obtain ⟨rfl,same⟩ := first.unique first'
  simp only [List.append_assoc] at same
  obtain ⟨rfl,behind⟩ := List.append_inj same (Option.some.inj (size.symm.trans size'))
  exact ⟨rfl,(List.append_inj behind (two.trans two'.symm)).2⟩

/-- The chunks of a text and the reason why they stop are determined. -/
theorem Ends.unique (one : Ends text stop out) (other : Ends text stop' out') : stop = stop' ∧ out = out' := by
  obtain ⟨left,chunks,stops⟩ := one
  obtain ⟨left',chunks',stops'⟩ := other
  induction chunks generalizing out' with
  | nil text =>
    cases chunks' with
    | nil => exact ⟨stops.unique stops',rfl⟩
    | chunk first size something two _ => exact (stops.no_chunk first size something two).elim
  | @chunk text line data ending rest out left first size something two others ih =>
    cases chunks' with
    | nil => exact (stops'.no_chunk first size something two).elim
    | chunk first' size' _ two' others' =>
      obtain ⟨rfl,rfl⟩ := chunk_unique first size two first' size' two'
      obtain ⟨reason,data⟩ := ih stops others'
      exact ⟨reason,by rw [data]⟩

theorem Ends.append (ends : Ends text stop out) (settled : stop ≠ .unfinished) (more : Bytes) :
    Ends (text ++ more) stop out := by
  obtain ⟨left,chunks,stops⟩ := ends
  refine ⟨left ++ more,chunks.append more,?_⟩
  cases stop with
  | unfinished => exact absurd rfl settled
  | malformed =>
    obtain ⟨line,rest,first,size⟩ := stops
    exact ⟨line,rest ++ more,first.append more,size⟩
  | terminated =>
    obtain ⟨line,rest,first,size⟩ := stops
    exact ⟨line,rest ++ more,first.append more,size⟩

theorem NoWrap.of_append (fits : NoWrap (text ++ more)) : NoWrap text := by
  intro out left line rest size chunks first announces
  have longer := fits out (left ++ more) line (rest ++ more) size (chunks.append more) (first.append more) announces
  have inside := chunks.suffix.length_le
  simp only [List.length_append] at longer
  omega

theorem NoWrap.part (fits : NoWrap text) (part : seen <+: text) : NoWrap seen := by
  obtain ⟨more,rfl⟩ := part
  exact fits.of_append

/-! ### The decoder -/

theorem chunkDigits_eq (line : Bytes) (number : Nat) :
    chunkDigits line (number % sizeLimit) = (digitsNumber line number).map (· % sizeLimit) := by
  induction line generalizing number with
  | nil => rfl
  | cons c rest ih =>
    rw [chunkDigits,digitsNumber]
    cases hexDigit c with
    | some digit =>
      have step : (number % sizeLimit * 16 + digit) % sizeLimit = (number * 16 + digit) % sizeLimit := by
        rw [Nat.add_mod,Nat.mod_mul_mod,← Nat.add_mod]
      simp only [step,ih]
    | none =>
      simp only
      split
      · exact ih number
      · rfl

theorem chunkSize_eq (line : Bytes) : chunkSize line = (announced line).map (· % sizeLimit) := by
  rw [chunkSize,announced]
  split
  · rfl
  · exact chunkDigits_eq _ 0

/-- What the decoder returns where the chunks stop. -/
def Stop.decoded (out : Bytes) : Stop → Decoded
  | .unfinished => ⟨true,false,out⟩
  | .malformed => ⟨false,false,out⟩
  | .terminated => ⟨true,true,out⟩

theorem sizeLine_eq (raw line : Bytes) (pos : Nat) :
    sizeLine raw pos = some line ↔ ∃ rest, Line (raw.drop pos) line rest := by
  simp only [sizeLine,Option.map_eq_some_iff,line_iff,Prod.exists]
  constructor
  · rintro ⟨line,rest,found,rfl⟩
    exact ⟨rest,found⟩
  · rintro ⟨rest,found⟩
    exact ⟨line,rest,found,rfl⟩

/-- A pass of the decoder, at a position where the numbers do not wrap, sees what the grammar
sees there. -/
theorem iterate_line (raw line rest : Bytes) (pos size : Nat) (inside : pos ≤ raw.length)
    (first : Line (raw.drop pos) line rest) (announces : announced line = some size)
    (fits : pos + line.length + 2 + size + 2 < sizeLimit) : iterate raw pos =
      if size = 0 then .returns true true
      else if rest.length < size + 2 then .returns true false
      else .continues (pos + line.length + 2) size (pos + line.length + 2 + size + 2) := by
  have read : chunkSize line = some size := by
    rw [chunkSize_eq,announces,Option.map_some,Nat.mod_eq_of_lt (by omega)]
  have found : sizeLine raw pos = some line := (sizeLine_eq raw line pos).mpr ⟨rest,first⟩
  have total : raw.length = pos + line.length + 2 + rest.length := by
    have split := congrArg List.length first.whole
    simp [crlf] at split
    omega
  simp only [iterate,found,read]
  rw [Nat.mod_eq_of_lt (show pos + line.length + 2 < sizeLimit by omega),Nat.mod_eq_of_lt fits]
  congr 1
  exact if_congr (by omega) rfl rfl

/-- While no number wraps, the decoder goes through the chunks and returns where they stop. -/
theorem decodeLoop_ends (raw : Bytes) (fits : NoWrap raw) (fuel pos : Nat) (out : Bytes)
    (chunks : Chunks raw out (raw.drop pos)) (inside : pos ≤ raw.length) (enough : raw.length - pos < fuel) :
    ∃ stop final, Ends raw stop final ∧ decodeLoop raw fuel pos out = some (stop.decoded final) := by
  induction fuel generalizing pos out with
  | zero => omega
  | succ fuel ih =>
    rw [decodeLoop]
    by_cases ends : crlf <:+: raw.drop pos
    · obtain ⟨line,rest,first⟩ := exists_line _ ends
      have total := congrArg List.length first.whole
      simp only [List.length_drop,List.length_append,crlf,List.length_cons,List.length_nil] at total
      rw [if_pos (by omega)]
      cases size : announced line with
      | none =>
        have pass : iterate raw pos = .returns false false := by
          have found : sizeLine raw pos = some line := (sizeLine_eq raw line pos).mpr ⟨rest,first⟩
          have bad : chunkSize line = none := by rw [chunkSize_eq,size]; rfl
          simp only [iterate,found,bad]
        exact ⟨.malformed,out,⟨_,chunks,line,rest,first,size⟩,by rw [pass]; rfl⟩
      | some size' =>
        have bound := fits out _ line rest size' chunks first size
        rw [List.length_drop,Nat.sub_sub_self inside] at bound
        rw [iterate_line raw line rest pos size' inside first size bound]
        by_cases zero : size' = 0
        · rw [if_pos zero]
          exact ⟨.terminated,out,⟨_,chunks,line,rest,first,by rw [size,zero]⟩,rfl⟩
        · rw [if_neg zero]
          by_cases short : rest.length < size' + 2
          · rw [if_pos short]
            exact ⟨.unfinished,out,⟨_,chunks,.inr ⟨line,rest,size',first,size,zero,short⟩⟩,rfl⟩
          · rw [if_neg short]
            have behind : raw.drop (pos + line.length + 2) = rest := by
              rw [Nat.add_assoc,← List.drop_drop,first.whole]
              simp [crlf]
            have next : raw.drop (pos + line.length + 2 + size' + 2) = rest.drop (size' + 2) := by
              rw [Nat.add_assoc (pos + line.length + 2),← List.drop_drop,behind]
            have parts : rest = rest.take size' ++ (rest.drop size').take 2 ++ rest.drop (size' + 2) := by
              rw [List.append_assoc,← List.drop_drop,List.take_append_drop,List.take_append_drop]
            have data : (rest.take size').length = size' := by rw [List.length_take]; omega
            have one : Chunks (raw.drop pos) (rest.take size') (rest.drop (size' + 2)) := by
              have single := Chunks.chunk (parts ▸ first) (by rw [data,size])
                (List.ne_nil_of_length_pos (by omega)) (by rw [List.length_take,List.length_drop]; omega)
                (.nil (rest.drop (size' + 2)))
              rwa [List.append_nil] at single
            have written : substr raw (pos + line.length + 2) size' = rest.take size' := by rw [substr,behind]
            simp only [written]
            exact ih _ _ (next ▸ chunks.trans one) (by omega) (by omega)
    · have none : sizeLine raw pos = none := by
        rw [sizeLine,(cutOn_eq_none _ _).mpr ends]
        rfl
      refine ⟨.unfinished,out,⟨_,chunks,.inl ends⟩,?_⟩
      split
      · rw [iterate,none]
        rfl
      · rfl

theorem decodeChunked_ends (raw : Bytes) (fits : NoWrap raw) :
    ∃ stop out, Ends raw stop out ∧ decodeChunked raw = some (stop.decoded out) :=
  decodeLoop_ends raw fits (raw.length + 1) 0 [] (.nil _) (by omega) (by omega)

theorem decodeChunked_eq (raw : Bytes) (fits : NoWrap raw) (stop : Stop) (out : Bytes)
    (ends : Ends raw stop out) : decodeChunked raw = some (stop.decoded out) := by
  obtain ⟨_,_,others,decoded⟩ := decodeChunked_ends raw fits
  obtain ⟨rfl,rfl⟩ := ends.unique others
  exact decoded

end TestForge.Chunked
