import TestForge.ChunkGrammar

/-! Chunked bodies as a sender writes them. The decoder reads a whole body back, whatever
stands behind it, and of every beginning the chunks that are there. -/
namespace TestForge.Chunked

open Sequence Strings

def blank (c : UInt8) : Bool := c == 32 || c == 9

def isHex (c : UInt8) : Bool := (hexDigit c).isSome

/-- The number a run of hexadecimal digits denotes. -/
def hexNumber (digits : Bytes) (start : Nat := 0) : Nat :=
  digits.foldl (fun number c => number * 16 + (hexDigit c).getD 0) start

/-- One unbroken run of hexadecimal digits, with blanks around it. -/
def Spelled (text : Bytes) (size : Nat) : Prop :=
  ∃ before digits after, text = before ++ digits ++ after ∧ (∀ c ∈ before, blank c = true) ∧
    (∀ c ∈ after, blank c = true) ∧ digits ≠ [] ∧ (∀ c ∈ digits, isHex c = true) ∧ hexNumber digits = size

/-- A size line: the spelled size, and the text behind a ';'. -/
structure Header (size : Nat) where
  text : Bytes
  extension : Option Bytes := none
  spelled : Spelled text size
  free : ∀ shown ∈ extension, 13 ∉ shown ∧ 10 ∉ shown

def Header.line (header : Header size) : Bytes :=
  header.text ++ (header.extension.map (59 :: ·)).getD []

structure Chunk where
  data : Bytes
  something : data ≠ []
  header : Header data.length

def Chunk.encode (chunk : Chunk) : Bytes := chunk.header.line ++ crlf ++ chunk.data ++ crlf

/-- The chunks, and the size line that ends them. -/
def encodeChunked (chunks : List Chunk) (last : Header 0) : Bytes :=
  chunks.flatMap Chunk.encode ++ last.line ++ crlf

def payload (chunks : List Chunk) : Bytes := chunks.flatMap Chunk.data

/-! ### Size lines -/

theorem digitsNumber_blanks (blanks rest : Bytes) (number : Nat) (only : ∀ c ∈ blanks, blank c = true) :
    digitsNumber (blanks ++ rest) number = digitsNumber rest number := by
  induction blanks with
  | nil => rfl
  | cons c blanks ih =>
    have first : c = 32 ∨ c = 9 := by simpa [blank] using only c (by simp)
    have none : hexDigit c = none := by
      rcases first with rfl | rfl
      · rfl
      · rfl
    rw [List.cons_append,digitsNumber]
    simp only [none,if_pos first]
    exact ih fun c member => only c (by simp [member])

theorem digitsNumber_digits (digits rest : Bytes) (number : Nat) (only : ∀ c ∈ digits, isHex c = true) :
    digitsNumber (digits ++ rest) number = digitsNumber rest (hexNumber digits number) := by
  induction digits generalizing number with
  | nil => rfl
  | cons c digits ih =>
    obtain ⟨digit,read⟩ := Option.isSome_iff_exists.mp (only c (by simp))
    rw [List.cons_append,digitsNumber]
    simp only [read,hexNumber,List.foldl_cons,Option.getD_some]
    exact ih _ fun c member => only c (by simp [member])

/-- A spelled size is the number the decoder reads. -/
theorem Spelled.number (spelled : Spelled text size) : text ≠ [] ∧ digitsNumber text 0 = some size := by
  obtain ⟨before,digits,after,rfl,front,back,run,hex,rfl⟩ := spelled
  refine ⟨by simp [run],?_⟩
  rw [List.append_assoc,digitsNumber_blanks _ _ _ front,digitsNumber_digits _ _ _ hex,← List.append_nil after,
    digitsNumber_blanks _ _ _ back]
  rfl

/-- A spelled size has no ';' and no line end in it. -/
theorem Spelled.plain (spelled : Spelled text size) (c : UInt8) (member : c ∈ text) :
    blank c = true ∨ isHex c = true := by
  obtain ⟨before,digits,after,rfl,front,back,-,hex,-⟩ := spelled
  rcases List.mem_append.mp member with member | member
  · rcases List.mem_append.mp member with member | member
    · exact .inl (front c member)
    · exact .inr (hex c member)
  · exact .inl (back c member)

theorem Spelled.fresh (spelled : Spelled text size) (c : UInt8) (other : blank c = false ∧ hexDigit c = none) :
    c ∉ text := by
  intro member
  rcases spelled.plain c member with shown | shown
  · simp [other.1] at shown
  · simp [isHex,other.2] at shown

theorem Header.free_line (header : Header size) (c : UInt8) (ending : c = 13 ∨ c = 10) : c ∉ header.line := by
  have text : c ∉ header.text := by
    apply header.spelled.fresh
    rcases ending with rfl | rfl
    · exact ⟨rfl,rfl⟩
    · exact ⟨rfl,rfl⟩
  have behind : c ∉ (header.extension.map (59 :: ·)).getD [] := by
    cases shown : header.extension with
    | none => simp
    | some extension =>
      obtain ⟨return_,feed⟩ := header.free extension shown
      rcases ending with rfl | rfl
      · simp [return_]
      · simp [feed]
  simp [line,text,behind]

theorem Header.announced (header : Header size) : announced header.line = some size := by
  have cut_ : ((cut 59 header.line).map (·.1)).getD header.line = header.text := by
    have fresh : 59 ∉ header.text := header.spelled.fresh 59 ⟨rfl,rfl⟩
    cases shown : header.extension with
    | none =>
      have whole : header.line = header.text := by simp [line,shown]
      rw [whole,(cut_eq_none _ _).mpr fresh]
      rfl
    | some extension =>
      have whole : header.line = header.text ++ 59 :: extension := by simp [line,shown]
      rw [whole,cut_append _ _ _ fresh]
      rfl
  obtain ⟨something,number⟩ := header.spelled.number
  rw [Chunked.announced,cut_,if_neg something,number]

theorem Header.first (header : Header size) (rest : Bytes) : Line (header.line ++ crlf ++ rest) header.line rest where
  whole := rfl
  first := fun inside => header.free_line 13 (.inl rfl) (inside.subset (by simp [crlf]))

/-- A size line whose line end is not complete is none. -/
theorem Header.cut_short (header : Header size) (start : Bytes) (pre : start <+: header.line ++ crlf)
    (short : start.length < (header.line ++ crlf).length) : ¬crlf <:+: start := by
  have whole : header.line ++ crlf = (header.line ++ [13]) ++ [10] := by simp [crlf]
  have inside : start <+: header.line ++ [13] := by
    apply List.prefix_of_prefix_length_le (whole ▸ pre) (List.prefix_append _ _)
    rw [whole] at short
    simp only [List.length_append,List.length_cons,List.length_nil] at short ⊢
    omega
  intro ends
  have feed : 10 ∈ header.line ++ [13] := inside.subset (ends.subset (by simp [crlf]))
  simp [header.free_line 10 (.inr rfl)] at feed

/-! ### Passes of the decoder -/

/-- A pass over a size line behind `before`. -/
theorem iterate_header (before rest : Bytes) (header : Header size)
    (fits : before.length + header.line.length + 2 + size + 2 < sizeLimit) :
    iterate (before ++ (header.line ++ crlf ++ rest)) before.length =
      if size = 0 then .returns true true
      else if rest.length < size + 2 then .returns true false
      else .continues (before.length + header.line.length + 2) size
        (before.length + header.line.length + 2 + size + 2) := by
  apply iterate_line _ header.line rest _ size (by simp) _ header.announced fits
  rw [List.drop_left]
  exact header.first rest

/-- A size line keeps the loop going. -/
theorem line_inside (before line rest : Bytes) : before.length < (before ++ (line ++ crlf ++ rest)).length := by
  simp only [List.length_append,crlf,List.length_cons]
  omega

theorem decodeLoop_last (before trailer : Bytes) (last : Header 0) (fuel : Nat) (out : Bytes)
    (fits : (before ++ (last.line ++ crlf)).length < 2^63) :
    decodeLoop (before ++ (last.line ++ crlf ++ trailer)) (fuel + 1) before.length out = some ⟨true,true,out⟩ := by
  simp only [List.length_append,crlf,List.length_cons,List.length_nil] at fits
  rw [decodeLoop,if_pos (line_inside before last.line trailer),
    iterate_header before trailer last (by simp only [sizeLimit]; omega)]
  rfl

theorem decodeLoop_chunk (before rest : Bytes) (chunk : Chunk) (fuel : Nat) (out : Bytes)
    (fits : (before ++ chunk.encode).length < 2^63) :
    decodeLoop (before ++ (chunk.encode ++ rest)) (fuel + 1) before.length out =
      decodeLoop (before ++ (chunk.encode ++ rest)) fuel (before ++ chunk.encode).length (out ++ chunk.data) := by
  have something := List.length_pos_iff.mpr chunk.something
  have text : chunk.encode ++ rest = chunk.header.line ++ crlf ++ (chunk.data ++ crlf ++ rest) := by
    simp [Chunk.encode]
  have size : (before ++ chunk.encode).length =
      before.length + chunk.header.line.length + 2 + chunk.data.length + 2 := by
    simp [Chunk.encode,crlf]
    omega
  rw [size] at fits
  have pass := iterate_header before (chunk.data ++ crlf ++ rest) chunk.header (by simp only [sizeLimit]; omega)
  rw [if_neg (by omega),if_neg (by simp [crlf])] at pass
  have written : substr (before ++ (chunk.encode ++ rest)) (before.length + chunk.header.line.length + 2)
      chunk.data.length = chunk.data := by
    have front : before.length + chunk.header.line.length + 2 = (before ++ (chunk.header.line ++ crlf)).length := by
      simp [crlf]
      omega
    have whole : before ++ (chunk.encode ++ rest) =
        (before ++ (chunk.header.line ++ crlf)) ++ (chunk.data ++ (crlf ++ rest)) := by
      simp [text]
    rw [substr,front,whole,List.drop_left,List.take_left]
  rw [decodeLoop,text,if_pos (line_inside before chunk.header.line _),pass,← text]
  simp only [written,size]

/-- A text that ends inside a chunk leaves the decoder waiting. -/
theorem decodeLoop_unfinished (before left : Bytes) (fuel : Nat) (out : Bytes)
    (stops : Stops left .unfinished) (fits : ∀ line rest size, Line left line rest → announced line = some size →
      before.length + line.length + 2 + size + 2 < sizeLimit) :
    decodeLoop (before ++ left) (fuel + 1) before.length out = some ⟨true,false,out⟩ := by
  rw [decodeLoop]
  split
  · rcases stops with open_ | ⟨line,rest,size,first,announces,data,short⟩
    · have unread : sizeLine (before ++ left) before.length = none := by
        rw [sizeLine,List.drop_left,(cutOn_eq_none _ _).mpr open_]
        rfl
      simp only [iterate,unread]
    · have pass := iterate_line (before ++ left) line rest before.length size (by simp) (by rwa [List.drop_left])
        announces (fits line rest size first announces)
      rw [if_neg data,if_pos short] at pass
      rw [pass]
  · rfl

/-! ### Whole bodies and their beginnings -/

theorem Chunk.encode_pos (chunk : Chunk) : 0 < chunk.encode.length := by
  simp only [encode,crlf,List.length_append,List.length_cons]
  omega

theorem decodeLoop_encoded (chunks : List Chunk) (last : Header 0) (before trailer out : Bytes) (fuel : Nat)
    (fits : (before ++ encodeChunked chunks last).length < 2^63) (enough : (encodeChunked chunks last).length < fuel) :
    decodeLoop (before ++ (encodeChunked chunks last ++ trailer)) fuel before.length out =
      some ⟨true,true,out ++ payload chunks⟩ := by
  induction chunks generalizing before out fuel with
  | nil =>
    obtain ⟨fuel,rfl⟩ := Nat.exists_eq_succ_of_ne_zero (show fuel ≠ 0 by omega)
    have done := decodeLoop_last before trailer last fuel out (by simpa [encodeChunked] using fits)
    simpa [encodeChunked,payload] using done
  | cons chunk chunks ih =>
    obtain ⟨fuel,rfl⟩ := Nat.exists_eq_succ_of_ne_zero (show fuel ≠ 0 by omega)
    have text : encodeChunked (chunk :: chunks) last = chunk.encode ++ encodeChunked chunks last := by
      simp [encodeChunked]
    have positive := chunk.encode_pos
    rw [text] at fits enough ⊢
    rw [List.append_assoc,decodeLoop_chunk before _ chunk fuel out (by simp at fits ⊢; omega)]
    have onward := ih (before ++ chunk.encode) (out ++ chunk.data) fuel (by simpa using fits)
      (by rw [List.length_append] at enough; omega)
    simpa [payload] using onward

/-- The part of a chunk that has arrived, not the whole of it. -/
theorem Chunk.stops (chunk : Chunk) (start : Bytes) (pre : start <+: chunk.encode)
    (short : start.length < chunk.encode.length) : Stops start .unfinished := by
  by_cases inside : start.length < (chunk.header.line ++ crlf).length
  · apply Or.inl
    apply chunk.header.cut_short start _ inside
    apply List.prefix_of_prefix_length_le pre _ inside.le
    exact ⟨chunk.data ++ crlf,by simp [encode]⟩
  · obtain ⟨rest,rfl⟩ : chunk.header.line ++ crlf <+: start := by
      apply List.prefix_of_prefix_length_le _ pre (Nat.not_lt.mp inside)
      exact ⟨chunk.data ++ crlf,by simp [encode]⟩
    have something := List.length_pos_iff.mpr chunk.something
    refine .inr ⟨chunk.header.line,rest,chunk.data.length,chunk.header.first rest,chunk.header.announced,
      by omega,?_⟩
    simp only [encode,List.length_append,crlf,List.length_cons,List.length_nil] at short
    omega

theorem Chunk.fits (chunk : Chunk) (start : Bytes) (pre : start <+: chunk.encode) (first : Line start line rest)
    (announces : Chunked.announced line = some size) : line.length + 2 + size + 2 = chunk.encode.length := by
  obtain ⟨more,whole⟩ := pre
  have other : Line chunk.encode chunk.header.line (chunk.data ++ crlf) := by
    have first := chunk.header.first (chunk.data ++ crlf)
    rwa [← List.append_assoc] at first
  obtain ⟨rfl,-⟩ := (whole ▸ first.append more).unique other
  obtain rfl := Option.some.inj (announces.symm.trans chunk.header.announced)
  simp only [encode,crlf,List.length_append,List.length_cons,List.length_nil]

theorem decodeLoop_started (chunks : List Chunk) (last : Header 0) (before start out : Bytes) (fuel : Nat)
    (pre : start <+: encodeChunked chunks last) (short : start.length < (encodeChunked chunks last).length)
    (fits : (before ++ encodeChunked chunks last).length < 2^63) (enough : start.length < fuel) :
    ∃ shown, decodeLoop (before ++ start) fuel before.length out = some ⟨true,false,out ++ shown⟩ ∧
      shown <+: payload chunks := by
  induction chunks generalizing before start out fuel with
  | nil =>
    obtain ⟨fuel,rfl⟩ := Nat.exists_eq_succ_of_ne_zero (show fuel ≠ 0 by omega)
    simp only [encodeChunked,List.flatMap_nil,List.nil_append] at pre short
    have ends := last.cut_short start pre short
    refine ⟨[],?_,List.nil_prefix⟩
    rw [decodeLoop_unfinished before start fuel out (.inl ends) fun _ _ _ first => (ends first.infix).elim,
      List.append_nil]
  | cons chunk chunks ih =>
    obtain ⟨fuel,rfl⟩ := Nat.exists_eq_succ_of_ne_zero (show fuel ≠ 0 by omega)
    have text : encodeChunked (chunk :: chunks) last = chunk.encode ++ encodeChunked chunks last := by
      simp [encodeChunked]
    rw [text] at pre short fits
    by_cases inside : start.length < chunk.encode.length
    · have part : start <+: chunk.encode :=
        List.prefix_of_prefix_length_le pre (List.prefix_append _ _) inside.le
      refine ⟨[],?_,List.nil_prefix⟩
      rw [decodeLoop_unfinished before start fuel out (chunk.stops start part inside),List.append_nil]
      intro line rest size first announces
      have whole := chunk.fits start part first announces
      simp only [List.length_append] at fits
      simp only [sizeLimit]
      omega
    · obtain ⟨more,rfl⟩ : chunk.encode <+: start :=
        List.prefix_of_prefix_length_le (List.prefix_append _ _) pre (Nat.not_lt.mp inside)
      have rest : more <+: encodeChunked chunks last := (List.prefix_append_right_inj _).mp pre
      have positive := chunk.encode_pos
      obtain ⟨shown,run,part⟩ := ih (before ++ chunk.encode) more (out ++ chunk.data) fuel rest
        (by simpa using short) (by simpa using fits) (by rw [List.length_append] at enough; omega)
      refine ⟨chunk.data ++ shown,?_,by simpa [payload] using part⟩
      rw [decodeLoop_chunk before more chunk fuel out (by simp at fits ⊢; omega)]
      simpa using run

/-- Decoding inverts encoding, whatever stands behind the body; and it waits on every part of
a body that ends before the last size line does, with the chunks that are there. -/
theorem chunked_inverts (chunks : List Chunk) (last : Header 0) (small : (encodeChunked chunks last).length < 2^63) :
    (∀ trailer, decodeChunked (encodeChunked chunks last ++ trailer) = some ⟨true,true,payload chunks⟩) ∧
    ∀ start, start <+: encodeChunked chunks last → start.length < (encodeChunked chunks last).length →
      ∃ shown, decodeChunked start = some ⟨true,false,shown⟩ ∧ shown <+: payload chunks := by
  constructor
  · intro trailer
    apply decodeLoop_encoded chunks last [] trailer [] _ small
    simp only [List.length_append]
    omega
  · intro start pre short
    exact decodeLoop_started chunks last [] start [] _ pre short small (Nat.lt_succ_self _)

/-- `7;a` in front of seven bytes, and `00` at the end. -/
def spelledSeven : Chunk where
  data := ascii "testing"
  something := by decide
  header := {
    text := ascii "7"
    extension := some (ascii "a")
    spelled := ⟨[],ascii "7",[],rfl,by simp,by simp,by decide,List.all_eq_true.mp rfl,rfl⟩
    free := by decide }

def spelledLast : Header 0 where
  text := ascii "00"
  spelled := ⟨[],ascii "00",[],rfl,by simp,by simp,by decide,List.all_eq_true.mp rfl,rfl⟩
  free := by decide

theorem chunked_inverts_seven : decodeChunked (ascii "7;a\r\ntesting\r\n00\r\nX") = some ⟨true,true,ascii "testing"⟩ ∧
    ∃ shown, decodeChunked (ascii "7;a\r\ntest") = some ⟨true,false,shown⟩ ∧ shown <+: ascii "testing" := by
  have inverts := chunked_inverts [spelledSeven] spelledLast (by decide)
  exact ⟨inverts.1 (ascii "X"),inverts.2 (ascii "7;a\r\ntest") ⟨ascii "ing\r\n00\r\n",by decide⟩ (by decide)⟩

end TestForge.Chunked
