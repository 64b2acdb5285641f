import Mathlib.Data.List.Basic
import Mathlib.Logic.Basic

/-! UTF-8 texts as lists of bytes: where they may be cut, and how many characters they have. -/
namespace Utf8

def encode (characters : List Char) : List UInt8 := characters.flatMap String.utf8EncodeChar

def IsUtf8 (text : List UInt8) : Prop := ∃ characters, encode characters = text

/-- The characters of a text; none when it is not UTF-8. -/
def decode (text : List UInt8) : Option (List Char) := (ByteArray.mk text.toArray).utf8Decode?.map Array.toList

/-- The number of characters of a text; none when it is not UTF-8. -/
def count (text : List UInt8) : Option Nat := (ByteArray.mk text.toArray).utf8Decode?.map Array.size

@[simp] theorem encode_nil : encode [] = [] := rfl

@[simp] theorem encode_cons (c : Char) (rest : List Char) : encode (c :: rest) = String.utf8EncodeChar c ++ encode rest :=
  List.flatMap_cons

@[simp] theorem encode_append (front back : List Char) : encode (front ++ back) = encode front ++ encode back :=
  List.flatMap_append

theorem utf8Encode_eq (characters : List Char) : characters.utf8Encode = ⟨(encode characters).toArray⟩ :=
  ByteArray.ext List.data_toByteArray

theorem decode_eq_some (text : List UInt8) (characters : List Char) :
    decode text = some characters ↔ encode characters = text := by
  constructor
  · intro decodes
    obtain ⟨decoded,found,rfl⟩ := Option.map_eq_some_iff.mp decodes
    have encoded := ByteArray.utf8Encode_get_utf8Decode? (b := ⟨text.toArray⟩) (h := by rw [found]; rfl)
    simp only [found,Option.get_some,utf8Encode_eq] at encoded
    simpa using encoded
  · rintro rfl
    rw [decode,← utf8Encode_eq,List.utf8Decode?_utf8Encode]
    simp

theorem count_eq_some (text : List UInt8) (n : Nat) :
    count text = some n ↔ ∃ characters, encode characters = text ∧ characters.length = n := by
  have counted : count text = (decode text).map List.length := by
    rw [count,decode,Option.map_map]
    rfl
  rw [counted,Option.map_eq_some_iff]
  simp only [decode_eq_some]

theorem encode_injective {first second : List Char} (same : encode first = encode second) : first = second := by
  have decoded := congrArg (fun text => ByteArray.utf8Decode? ⟨text.toArray⟩) same
  simp only [← utf8Encode_eq,List.utf8Decode?_utf8Encode,Option.some.injEq] at decoded
  exact List.toArray_inj decoded

theorem isUtf8_iff_count (text : List UInt8) : IsUtf8 text ↔ (count text).isSome = true := by
  simp only [Option.isSome_iff_exists,count_eq_some,IsUtf8]
  constructor
  · rintro ⟨characters,encoded⟩
    exact ⟨_,characters,encoded,rfl⟩
  · rintro ⟨_,characters,encoded,-⟩
    exact ⟨characters,encoded⟩

instance (text : List UInt8) : Decidable (IsUtf8 text) := decidable_of_iff' _ (isUtf8_iff_count text)

theorem length_le_encode (characters : List Char) : characters.length ≤ (encode characters).length := by
  induction characters with
  | nil => exact Nat.le_refl 0
  | cons c rest ih =>
    have positive := c.utf8Size_pos
    rw [encode_cons,List.length_append,String.length_utf8EncodeChar,List.length_cons]
    omega

theorem count_le (text : List UInt8) (n : Nat) (counted : count text = some n) : n ≤ text.length := by
  obtain ⟨characters,rfl,rfl⟩ := (count_eq_some text n).mp counted
  exact length_le_encode characters

/-! ### ASCII bytes -/

theorem utf8EncodeChar_ascii (c : UInt8) (plain : c < 128) : String.utf8EncodeChar (Char.ofNat c.toNat) = [c] := by
  have small : c.toNat < 128 := UInt8.lt_iff_toNat_lt.mp plain
  have valid : c.toNat.isValidChar := Or.inl (by omega)
  have value : (Char.ofNat c.toNat).val.toNat = c.toNat := by
    rw [Char.ofNat,dif_pos valid]
    rfl
  have size : (Char.ofNat c.toNat).utf8Size = 1 := by
    rw [Char.utf8Size,if_pos (UInt32.le_iff_toNat_le.mpr (by rw [value]; exact Nat.le_of_lt_succ small))]
  rw [String.utf8EncodeChar_eq_singleton size,List.singleton_inj]
  apply UInt8.toNat_inj.mp
  rw [UInt32.toNat_toUInt8,value]
  omega

/-- Only a character of one byte has an ASCII byte. -/
theorem mem_utf8EncodeChar_ascii (ch : Char) (c : UInt8) (plain : c < 128) (member : c ∈ String.utf8EncodeChar ch) :
    String.utf8EncodeChar ch = [c] := by
  have lead {n k : Nat} (small : n < 256 - k) (high : 128 ≤ k) (same : c = UInt8.ofNat (n + k)) : False := by
    rw [same,UInt8.lt_iff_toNat_lt,UInt8.toNat_ofNat_of_lt' (show n + k < 2^8 by omega)] at plain
    have bound : n + k < 128 := plain
    omega
  unfold String.utf8EncodeChar at member ⊢
  simp only [] at member ⊢
  split at member <;> rename_i range
  · rw [if_pos range,List.mem_singleton.mp member]
  · rw [if_neg range]
    split at member <;> rename_i range
    · simp only [List.mem_cons,List.not_mem_nil,or_false] at member
      rcases member with same | same
      all_goals exact (lead (by omega) (by omega) same).elim
    · split at member
      all_goals
        simp only [List.mem_cons,List.not_mem_nil,or_false] at member
      · rcases member with same | same | same
        all_goals exact (lead (by omega) (by omega) same).elim
      · rcases member with same | same | same | same
        all_goals exact (lead (by omega) (by omega) same).elim

/-- An ASCII byte ends one character and begins the next. -/
theorem encode_cut (characters : List Char) (before after : List UInt8) (c : UInt8) (plain : c < 128)
    (shape : encode characters = before ++ c :: after) : IsUtf8 before ∧ IsUtf8 after := by
  induction characters generalizing before with
  | nil => simp at shape
  | cons ch rest ih =>
    rw [encode_cons] at shape
    have behind (more : List UInt8) (front : before = String.utf8EncodeChar ch ++ more)
        (back : encode rest = more ++ c :: after) : IsUtf8 before ∧ IsUtf8 after := by
      obtain ⟨⟨left,encoded⟩,right⟩ := ih more back
      exact ⟨⟨ch :: left,by rw [encode_cons,encoded,front]⟩,right⟩
    rcases List.append_eq_append_iff.mp shape with ⟨more,front,back⟩ | ⟨more,front,back⟩
    · exact behind more front back
    · cases more with
      | nil => exact behind [] (by simpa using front.symm) (by simpa using back.symm)
      | cons d more =>
        obtain ⟨rfl,back⟩ := List.cons_eq_cons.mp back
        have alone := mem_utf8EncodeChar_ascii ch c plain (by simp [front])
        rw [alone] at front
        cases before with
        | nil =>
          obtain rfl : [] = more := (List.cons_eq_cons.mp front).2
          exact ⟨⟨[],rfl⟩,⟨rest,by simpa using back.symm⟩⟩
        | cons b before =>
          have long := congrArg List.length front
          simp at long

@[simp] theorem isUtf8_nil : IsUtf8 [] := ⟨[],rfl⟩

theorem IsUtf8.append {front back : List UInt8} (left : IsUtf8 front) (right : IsUtf8 back) : IsUtf8 (front ++ back) := by
  obtain ⟨a,rfl⟩ := left
  obtain ⟨b,rfl⟩ := right
  exact ⟨a ++ b,encode_append a b⟩

theorem isUtf8_cut (before after : List UInt8) (c : UInt8) (plain : c < 128) :
    IsUtf8 (before ++ c :: after) ↔ IsUtf8 before ∧ IsUtf8 after := by
  constructor
  · rintro ⟨characters,encoded⟩
    exact encode_cut characters before after c plain encoded
  · rintro ⟨left,right⟩
    have mid : IsUtf8 [c] := ⟨[Char.ofNat c.toNat],by simp [utf8EncodeChar_ascii c plain]⟩
    exact left.append (mid.append right)

theorem isUtf8_cons (c : UInt8) (rest : List UInt8) (plain : c < 128) : IsUtf8 (c :: rest) ↔ IsUtf8 rest := by
  simpa using isUtf8_cut [] rest c plain

theorem isUtf8_plain (front : List UInt8) (plain : ∀ c ∈ front, c < 128) : IsUtf8 front := by
  induction front with
  | nil => exact isUtf8_nil
  | cons c rest ih =>
    exact (isUtf8_cons c rest (plain c (by simp))).mpr (ih fun d member => plain d (by simp [member]))

/-- The same by computation. -/
theorem isUtf8_small (front : List UInt8) (small : front.all (·.toNat.blt 128) = true) : IsUtf8 front := by
  refine isUtf8_plain front fun c member => UInt8.lt_iff_toNat_lt.mpr ?_
  exact Nat.blt_eq.mp (List.all_eq_true.mp small c member)

/-- Texts cut behind a plain text that is not empty. -/
theorem isUtf8_cut_plain (before mid after : List UInt8) (plain : ∀ c ∈ mid, c < 128) (filled : mid ≠ []) :
    IsUtf8 (before ++ (mid ++ after)) ↔ IsUtf8 before ∧ IsUtf8 after := by
  induction mid generalizing before with
  | nil => exact absurd rfl filled
  | cons c rest ih =>
    rw [List.cons_append,isUtf8_cut _ _ c (plain c (by simp))]
    refine and_congr_right fun _ => ?_
    cases rest with
    | nil => rfl
    | cons d rest => simpa using ih [] (fun e member => plain e (by simp [member])) (by simp)

/-- Rewriting each ASCII byte of a text by an ASCII text keeps it UTF-8, and keeps it from being so. -/
theorem isUtf8_flatMap (rewrite : UInt8 → List UInt8) (text : List UInt8)
    (plain : ∀ c < 128, rewrite c ≠ [] ∧ ∀ d ∈ rewrite c, d < 128) (other : ∀ c, ¬c < 128 → rewrite c = [c]) :
    IsUtf8 (text.flatMap rewrite) ↔ IsUtf8 text := by
  suffices general : ∀ front, IsUtf8 (front ++ text.flatMap rewrite) ↔ IsUtf8 (front ++ text) by
    simpa using general []
  induction text with
  | nil => simp
  | cons c rest ih =>
    intro front
    rw [List.flatMap_cons]
    by_cases small : c < 128
    · rw [isUtf8_cut_plain _ _ _ (plain c small).2 (plain c small).1,isUtf8_cut _ _ c small]
      exact and_congr_right fun _ => by simpa using ih []
    · rw [other c small]
      simpa using ih (front ++ [c])

/-! ### Cuts -/

theorem isUtf8_iff_isValidUTF8 (text : List UInt8) : IsUtf8 text ↔ ByteArray.IsValidUTF8 ⟨text.toArray⟩ := by
  constructor
  · rintro ⟨characters,rfl⟩
    exact ⟨characters,(utf8Encode_eq characters).symm⟩
  · rintro ⟨characters,encoded⟩
    rw [utf8Encode_eq,ByteArray.mk.injEq] at encoded
    exact ⟨characters,(List.toArray_inj encoded).symm⟩

/-- A character in front of a text is neither needed nor missed. -/
theorem isUtf8_character (ch : Char) (text : List UInt8) : IsUtf8 (String.utf8EncodeChar ch ++ text) ↔ IsUtf8 text := by
  rw [isUtf8_iff_isValidUTF8,isUtf8_iff_isValidUTF8]
  have joined : (⟨(String.utf8EncodeChar ch ++ text).toArray⟩ : ByteArray) = [ch].utf8Encode ++ ⟨text.toArray⟩ := by
    rw [utf8Encode_eq]
    apply ByteArray.ext
    simp
  rw [joined,ByteArray.isValidUTF8_utf8Encode_singleton_append_iff]

theorem isUtf8_encode (characters : List Char) (text : List UInt8) : IsUtf8 (encode characters ++ text) ↔ IsUtf8 text := by
  induction characters with
  | nil => rfl
  | cons ch rest ih => rw [encode_cons,List.append_assoc,isUtf8_character,ih]

theorem IsUtf8.head {text : List UInt8} (valid : IsUtf8 text) : ∀ c ∈ text.head?, c.IsUTF8FirstByte := by
  obtain ⟨characters,rfl⟩ := valid
  intro c first
  cases characters with
  | nil => cases first
  | cons ch rest =>
    have filled : 0 < (String.utf8EncodeChar ch).length := by
      rw [String.length_utf8EncodeChar]
      exact ch.utf8Size_pos
    rw [encode_cons,List.head?_append_of_ne_nil _ (List.ne_nil_of_length_pos filled),List.head?_eq_getElem?,
      List.getElem?_eq_getElem filled] at first
    rw [← Option.some.inj first,UInt8.isUTF8FirstByte_getElem_utf8EncodeChar]

/-- A text may be cut in front of a byte that begins a character, and only there. -/
theorem isUtf8_take (text : List UInt8) (valid : IsUtf8 text) (n : Nat) :
    IsUtf8 (text.take n) ↔ ∀ c ∈ text[n]?, c.IsUTF8FirstByte := by
  obtain ⟨characters,rfl⟩ := valid
  constructor
  · rintro ⟨front,cut⟩
    have whole : IsUtf8 (encode front ++ (encode characters).drop n) := by
      rw [cut,List.take_append_drop]
      exact ⟨characters,rfl⟩
    have rest := (isUtf8_encode front _).mp whole
    intro c found
    apply rest.head
    rwa [List.head?_drop]
  · induction characters generalizing n with
    | nil => simp
    | cons ch rest ih =>
      intro begins
      rw [encode_cons] at begins ⊢
      by_cases inside : n < (String.utf8EncodeChar ch).length
      · rw [List.getElem?_append_left inside,List.getElem?_eq_getElem inside] at begins
        have front := begins _ rfl
        rw [UInt8.isUTF8FirstByte_getElem_utf8EncodeChar] at front
        rw [front,List.take_zero]
        exact isUtf8_nil
      · rw [List.getElem?_append_right (Nat.le_of_not_lt inside)] at begins
        rw [List.take_append,List.take_of_length_le (Nat.le_of_not_lt inside),isUtf8_character]
        exact ih _ begins

end Utf8
