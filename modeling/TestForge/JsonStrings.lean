import TestForge.JsonGrammar

/-! String literals: the parser reads exactly the literals of the grammar. -/
namespace TestForge.Json

open Strings Reading StringUnit

theorem appendUtf8_eq_utf8 (cp : Nat) (small : cp < 0x110000) : appendUtf8 cp = utf8 cp := by
  have low : ∀ n, n &&& 0x3F = n % 64 := fun n => Nat.and_two_pow_sub_one_eq_mod n 6
  have tail : ∀ n, 0x80 ||| n % 64 = n % 64 + 0x80 := fun n => by
    rw [show 0x80 = 2^6 * 2 by rfl,← Nat.two_pow_add_eq_or_of_lt (show n % 64 < 2^6 by omega) 2]; omega
  have two : ∀ n, n < 32 → 0xC0 ||| n = n + 0xC0 := fun n h => by
    rw [show 0xC0 = 2^5 * 6 by rfl,← Nat.two_pow_add_eq_or_of_lt (show n < 2^5 by omega) 6]; omega
  have three : ∀ n, n < 16 → 0xE0 ||| n = n + 0xE0 := fun n h => by
    rw [show 0xE0 = 2^4 * 14 by rfl,← Nat.two_pow_add_eq_or_of_lt (show n < 2^4 by omega) 14]; omega
  have four : ∀ n, n < 8 → 0xF0 ||| n = n + 0xF0 := fun n h => by
    rw [show 0xF0 = 2^3 * 30 by rfl,← Nat.two_pow_add_eq_or_of_lt (show n < 2^3 by omega) 30]; omega
  by_cases surrogate : 0xD800 ≤ cp ∧ cp ≤ 0xDFFF
  · have invalid : ¬cp.isValidChar := by simp only [Nat.isValidChar]; omega
    rw [appendUtf8,utf8,if_pos surrogate,if_neg invalid]
    decide
  · have valid : cp.isValidChar := by simp only [Nat.isValidChar]; omega
    have value : (Char.ofNat cp).val.toNat = cp := by
      rw [Char.ofNat,dif_pos valid]; rfl
    rw [appendUtf8,utf8,if_neg surrogate,if_pos valid,String.utf8EncodeChar,value]
    simp only [low,tail,Nat.shiftRight_eq_div_pow]
    by_cases one : cp ≤ 0x7F
    · simp [one]
    by_cases second : cp ≤ 0x7FF
    · rw [if_neg one,if_neg one,if_pos second,if_pos second,two _ (by omega)]
      congr 3; omega
    by_cases third : cp ≤ 0xFFFF
    · rw [if_neg one,if_neg one,if_neg second,if_neg second,if_pos third,if_pos third,three _ (by omega)]
      congr 3; omega
    · rw [if_neg one,if_neg one,if_neg second,if_neg second,if_neg third,if_neg third,four _ (by omega)]
      congr 3; omega

theorem unescape_iff (letter byte : UInt8) :
    unescape letter = some byte ↔ (letter,byte) ∈ shortEscapes := by
  simp only [unescape,shortEscapes,List.mem_cons,Prod.mk.injEq,List.not_mem_nil,or_false]
  grind

theorem hexDigit_lt (c : UInt8) (value : Nat) (digit : hexDigit c = some value) : value < 16 := by
  simp only [hexDigit,UInt8.le_iff_toNat_le,UInt8.reduceToNat] at digit
  grind

theorem HexDigit.value_lt (digit : HexDigit) : digit.value < 16 :=
  hexDigit_lt digit.1 _ (Option.some_get digit.2).symm

theorem hexDigits_succ (value count : Nat) (c : UInt8) (rest : Bytes) (result : Nat × Bytes) :
    hexDigits value (count + 1) (c :: rest) = .ok result ↔
      ∃ digit : HexDigit, digit.1 = c ∧ hexDigits (16 * value + digit.value) count rest = .ok result := by
  rw [hexDigits]
  split
  · next digit known =>
    constructor
    · intro read
      exact ⟨⟨c,by simp [known]⟩,rfl,by simpa [HexDigit.value,known] using read⟩
    · rintro ⟨⟨_,valid⟩,rfl,read⟩
      simpa [HexDigit.value,known] using read
  · next unknown =>
    simp only [fail,reduceCtorEq,false_iff,not_exists,not_and]
    rintro ⟨_,valid⟩ rfl
    simp [unknown] at valid

theorem parseHex4_iff (text rest : Bytes) (value : Nat) : parseHex4 text = .ok (value,rest) ↔
    ∃ a b c d : HexDigit, text = a.1 :: b.1 :: c.1 :: d.1 :: rest ∧
      (code a b c d).codeUnit = some value := by
  constructor
  · intro read
    unfold parseHex4 at read
    split at read
    · cases read
    · next long =>
      obtain ⟨w,x,y,z,behind,rfl⟩ : ∃ w x y z behind, text = w :: x :: y :: z :: behind := by
        match text with
        | w :: x :: y :: z :: behind => exact ⟨w,x,y,z,behind,rfl⟩
        | [] | [_] | [_,_] | [_,_,_] => simp at long
      simp only [hexDigits_succ] at read
      obtain ⟨a,rfl,b,rfl,c,rfl,d,rfl,read⟩ := read
      simp only [hexDigits,Except.ok.injEq,Prod.mk.injEq] at read
      obtain ⟨rfl,rfl⟩ := read
      refine ⟨a,b,c,d,rfl,?_⟩
      simp only [codeUnit,Option.some.injEq]
      omega
  · rintro ⟨a,b,c,d,rfl,unit⟩
    simp only [codeUnit,Option.some.injEq] at unit
    rw [parseHex4,if_neg (by simp)]
    simp only [hexDigits_succ]
    refine ⟨a,rfl,b,rfl,c,rfl,d,rfl,?_⟩
    simp only [hexDigits,Except.ok.injEq,Prod.mk.injEq,and_true]
    omega

theorem codeUnit_some {unit : StringUnit} {value : Nat} (known : unit.codeUnit = some value) :
    ∃ a b c d, unit = code a b c d := by
  cases unit with
  | code a b c d => exact ⟨a,b,c,d,rfl⟩
  | plain | short => cases known

theorem pair_eq_some (unit next : StringUnit) (cp : Nat) : pair unit next = some cp ↔
    ∃ high low, unit.codeUnit = some high ∧ next.codeUnit = some low ∧
      isHighSurrogate high = true ∧ isLowSurrogate low = true ∧
      cp = 0x10000 + (high - 0xD800) * 1024 + (low - 0xDC00) := by
  simp only [pair,isHighSurrogate,isLowSurrogate,Bool.and_eq_true,decide_eq_true_eq]
  grind

/-- Behind a high surrogate stands no `\u` escape, or a readable one that does not
complete a pair. -/
def Alone (unit : StringUnit) (rest : Bytes) : Prop :=
  ∀ high behind, unit.codeUnit = some high → isHighSurrogate high = true → rest = 92 :: 117 :: behind →
    ∃ (next : StringUnit) (low : Nat), next.text <+: rest ∧ next.codeUnit = some low ∧
      isLowSurrogate low = false

theorem parseCodePoint_alone (text rest : Bytes) (cp : Nat) (unit : StringUnit)
    (shape : 92 :: 117 :: text = unit.text ++ rest) (known : unit.codeUnit = some cp) (alone : Alone unit rest) :
    parseCodePoint text = .ok (cp,rest) := by
  obtain ⟨a,b,c,d,rfl⟩ := codeUnit_some known
  simp only [StringUnit.text,List.cons_append,List.nil_append,List.cons.injEq,true_and] at shape
  subst shape
  have first := (parseHex4_iff _ rest cp).mpr ⟨a,b,c,d,rfl,known⟩
  rw [parseCodePoint,first]
  dsimp only
  split
  · next behind isHigh =>
    obtain ⟨next,low,⟨after,pre⟩,nextKnown,notLow⟩ := alone _ _ known isHigh rfl
    obtain ⟨e,f,g,h,rfl⟩ := codeUnit_some nextKnown
    simp only [StringUnit.text,List.cons_append,List.nil_append,List.cons.injEq,true_and] at pre
    subst pre
    rw [(parseHex4_iff _ after low).mpr ⟨e,f,g,h,rfl,nextKnown⟩]
    simp [notLow]
  · rfl

theorem parseCodePoint_pair (text rest : Bytes) (cp : Nat) (unit next : StringUnit)
    (shape : 92 :: 117 :: text = unit.text ++ next.text ++ rest) (joined : pair unit next = some cp) :
    parseCodePoint text = .ok (cp,rest) := by
  obtain ⟨high,low,known,nextKnown,isHigh,isLow,value⟩ := (pair_eq_some _ _ _).mp joined
  obtain ⟨a,b,c,d,rfl⟩ := codeUnit_some known
  obtain ⟨e,f,g,h,rfl⟩ := codeUnit_some nextKnown
  simp only [StringUnit.text,List.cons_append,List.nil_append,List.cons.injEq,true_and] at shape
  subst shape
  have first := (parseHex4_iff _ (92 :: 117 :: e.1 :: f.1 :: g.1 :: h.1 :: rest) high).mpr
    ⟨a,b,c,d,rfl,known⟩
  have second := (parseHex4_iff _ rest low).mpr ⟨e,f,g,h,rfl,nextKnown⟩
  simp [parseCodePoint,first,second,isHigh,isLow,value]

theorem parseCodePoint_iff (text rest : Bytes) (cp : Nat) : parseCodePoint text = .ok (cp,rest) ↔
    (∃ unit : StringUnit, 92 :: 117 :: text = unit.text ++ rest ∧ unit.codeUnit = some cp ∧
      Alone unit rest) ∨
    ∃ unit next : StringUnit, 92 :: 117 :: text = unit.text ++ next.text ++ rest ∧
      pair unit next = some cp := by
  constructor
  · intro read
    unfold parseCodePoint at read
    split at read
    · cases read
    next high after first =>
    obtain ⟨a,b,c,d,rfl,firstUnit⟩ := (parseHex4_iff _ _ _).mp first
    split at read
    · next surrogate behind isHigh =>
      split at read
      · cases read
      next low afterSecond second =>
      obtain ⟨e,f,g,h,rfl,secondUnit⟩ := (parseHex4_iff _ _ _).mp second
      split at read
      · next isLow =>
        simp only [Except.ok.injEq,Prod.mk.injEq] at read
        obtain ⟨rfl,rfl⟩ := read
        exact .inr ⟨code a b c d,code e f g h,rfl,
          (pair_eq_some _ _ _).mpr ⟨high,low,firstUnit,secondUnit,isHigh,isLow,rfl⟩⟩
      · next notLow =>
        simp only [Except.ok.injEq,Prod.mk.injEq] at read
        obtain ⟨rfl,rfl⟩ := read
        refine .inl ⟨code a b c d,rfl,firstUnit,?_⟩
        intro _ _ _ _ _
        exact ⟨code e f g h,low,⟨afterSecond,rfl⟩,secondUnit,by simpa using notLow⟩
    · next other =>
      simp only [Except.ok.injEq,Prod.mk.injEq] at read
      obtain ⟨rfl,rfl⟩ := read
      refine .inl ⟨code a b c d,rfl,firstUnit,?_⟩
      intro high' behind unit isHigh shape
      rw [firstUnit,Option.some.injEq] at unit
      subst unit
      exact absurd shape (other behind isHigh)
  · rintro (⟨unit,shape,known,alone⟩ | ⟨unit,next,shape,joined⟩)
    · exact parseCodePoint_alone text rest cp unit shape known alone
    · exact parseCodePoint_pair text rest cp unit next shape joined

/-- What one turn takes: the closing quote, a pair, or an element by itself. -/
inductive UnitTurn : Relation UInt8 (Bytes × Bool) where
  | close : UnitTurn [34] ([],false) rest
  | pair : StringUnit.pair unit next = some cp → UnitTurn (unit.text ++ next.text) (utf8 cp,true) rest
  | single : Alone unit rest → UnitTurn unit.text (unit.bytes,true) rest

theorem codeUnit_lt {unit : StringUnit} {value : Nat} (known : unit.codeUnit = some value) :
    value < 0x10000 := by
  obtain ⟨a,b,c,d,rfl⟩ := codeUnit_some known
  simp only [codeUnit,Option.some.injEq] at known
  have := a.value_lt
  have := b.value_lt
  have := c.value_lt
  have := d.value_lt
  omega

theorem pair_lt {unit next : StringUnit} {cp : Nat} (joined : StringUnit.pair unit next = some cp) :
    cp < 0x110000 := by
  obtain ⟨high,low,_,_,isHigh,isLow,value⟩ := (pair_eq_some _ _ _).mp joined
  simp only [isHighSurrogate,isLowSurrogate,Bool.and_eq_true,decide_eq_true_eq] at isHigh isLow
  omega

theorem bytes_codeUnit {unit : StringUnit} {value : Nat} (known : unit.codeUnit = some value) :
    unit.bytes = utf8 value := by
  obtain ⟨a,b,c,d,rfl⟩ := codeUnit_some known
  rw [bytes,known,Option.getD_some]

theorem stringTurn_sound : Sound stringTurn UnitTurn := by
  intro text result rest read
  unfold stringTurn at read
  split at read
  · cases read
  · simp only [Except.ok.injEq,Prod.mk.injEq] at read
    obtain ⟨rfl,rfl⟩ := read
    exact ⟨[34],rfl,.close⟩
  · cases read
  · next behind =>
    split at read
    · cases read
    next cp after parsed =>
    simp only [Except.ok.injEq,Prod.mk.injEq] at read
    obtain ⟨rfl,rfl⟩ := read
    rcases (parseCodePoint_iff _ _ _).mp parsed with ⟨unit,shape,known,alone⟩ | ⟨unit,next,shape,joined⟩
    · rw [appendUtf8_eq_utf8 _ (by have := codeUnit_lt known; omega),← bytes_codeUnit known]
      exact ⟨_,shape,.single alone⟩
    · rw [appendUtf8_eq_utf8 _ (pair_lt joined)]
      exact ⟨_,shape,.pair joined⟩
  · next letter behind notCode =>
    split at read
    · next byte known =>
      simp only [Except.ok.injEq,Prod.mk.injEq] at read
      obtain ⟨rfl,rfl⟩ := read
      refine ⟨_,rfl,@UnitTurn.single (.short letter byte ((unescape_iff _ _).mp known)) _ ?_⟩
      intro _ _ known
      cases known
    · cases read
  · next c behind notQuote atEnd _ escape =>
    split at read
    · cases read
    next high =>
    simp only [Except.ok.injEq,Prod.mk.injEq] at read
    obtain ⟨rfl,rfl⟩ := read
    refine ⟨_,rfl,@UnitTurn.single (.plain c ⟨by simpa using high,?_,?_⟩) _ ?_⟩
    · rintro rfl
      exact notQuote rfl
    · rintro rfl
      cases behind with
      | nil => exact atEnd rfl rfl
      | cons letter after => exact escape letter after rfl rfl
    · intro _ _ known
      cases known

theorem stringTurn_code (text : Bytes) (cp : Nat) (rest : Bytes)
    (parsed : parseCodePoint text = .ok (cp,rest)) (small : cp < 0x110000) :
    stringTurn (92 :: 117 :: text) = .ok ((utf8 cp,true),rest) := by
  simp only [stringTurn,parsed,appendUtf8_eq_utf8 cp small]

theorem stringTurn_complete : Complete stringTurn UnitTurn := by
  intro front result rest related
  cases related with
  | close => rfl
  | pair joined =>
    obtain ⟨high,low,known,nextKnown,-⟩ := (pair_eq_some _ _ _).mp joined
    obtain ⟨a,b,c,d,rfl⟩ := codeUnit_some known
    have parsed := (parseCodePoint_iff _ rest _).mpr (.inr ⟨code a b c d,_,rfl,joined⟩)
    exact stringTurn_code _ _ _ parsed (pair_lt joined)
  | @single unit _ alone =>
    cases unit with
    | plain c allowed =>
      obtain ⟨high,notQuote,notBackslash⟩ := allowed
      have visible : ¬c < 32 := by simpa using high
      simp only [StringUnit.text,StringUnit.bytes,List.cons_append,List.nil_append]
      rw [stringTurn.eq_6 c rest notQuote,if_neg visible]
      all_goals intros; contradiction
    | short letter byte known =>
      simp only [shortEscapes,List.mem_cons,Prod.mk.injEq,List.not_mem_nil,or_false] at known
      rcases known with ⟨rfl,rfl⟩ | ⟨rfl,rfl⟩ | ⟨rfl,rfl⟩ | ⟨rfl,rfl⟩ | ⟨rfl,rfl⟩ | ⟨rfl,rfl⟩ |
        ⟨rfl,rfl⟩ | ⟨rfl,rfl⟩ <;> rfl
    | code a b c d =>
      have parsed := (parseCodePoint_iff _ rest _).mpr (.inl ⟨code a b c d,rfl,rfl,alone⟩)
      rw [bytes_codeUnit rfl]
      have small := @codeUnit_lt (code a b c d) _ rfl
      exact stringTurn_code _ _ _ parsed (by omega)

theorem unitTurn_takes (front : Bytes) (item : Bytes × Bool) (rest : Bytes)
    (related : UnitTurn front item rest) : front ≠ [] := by
  cases related with
  | close => simp
  | @pair unit => cases unit <;> simp [StringUnit.text]
  | @single unit => cases unit <;> simp [StringUnit.text]

/-- Escapes of code units at the front of one text are the same escape. -/
theorem codeUnit_unique {a b : StringUnit} {x y : Nat} {text : Bytes} (first : a.text <+: text)
    (second : b.text <+: text) (known : a.codeUnit = some x) (other : b.codeUnit = some y) : x = y := by
  obtain ⟨a₁,a₂,a₃,a₄,rfl⟩ := codeUnit_some known
  obtain ⟨b₁,b₂,b₃,b₄,rfl⟩ := codeUnit_some other
  have same := List.prefix_of_prefix_length_le first second (by simp [StringUnit.text])
  have equal := same.eq_of_length (by simp [StringUnit.text])
  simp only [StringUnit.text,List.cons.injEq,and_true,true_and,Subtype.val_inj] at equal
  obtain ⟨rfl,rfl,rfl,rfl⟩ := equal
  exact Option.some.inj (known.symm.trans other)

theorem escape_code {unit : StringUnit} {rest behind : Bytes}
    (shape : unit.text ++ rest = 92 :: 117 :: behind) : ∃ value, unit.codeUnit = some value := by
  cases unit with
  | plain c allowed =>
    simp only [StringUnit.text,List.cons_append,List.cons.injEq] at shape
    exact absurd shape.1 allowed.2.2
  | short letter byte known =>
    simp only [StringUnit.text,List.cons_append,List.cons.injEq] at shape
    rw [shape.2.1] at known
    simp [shortEscapes] at known
  | code => exact ⟨_,rfl⟩

/-- An element by itself keeps its own meaning in front of the others. -/
theorem denote_alone (unit : StringUnit) (units : List StringUnit) (rest : Bytes)
    (alone : Alone unit (units.flatMap StringUnit.text ++ rest)) :
    denote (unit :: units) = unit.bytes ++ denote units := by
  cases units with
  | nil => simp [denote]
  | cons next others =>
    have separate : StringUnit.pair unit next = none := by
      by_contra joined
      obtain ⟨cp,joined⟩ := Option.ne_none_iff_exists'.mp joined
      obtain ⟨high,low,known,nextKnown,isHigh,isLow,-⟩ := (pair_eq_some _ _ _).mp joined
      obtain ⟨a,b,c,d,rfl⟩ := codeUnit_some nextKnown
      obtain ⟨other,value,pre,otherKnown,notLow⟩ := alone _ _ known isHigh rfl
      have same := codeUnit_unique pre (List.prefix_append_of_prefix (List.prefix_append _ _))
        otherKnown nextKnown
      rw [same,isLow] at notLow
      cases notLow
    simp [denote,separate]

theorem units_of_turns (read : Turns UnitTurn front pieces rest) :
    ∃ units, front = units.flatMap StringUnit.text ++ [34] ∧ pieces.flatten = denote units := by
  induction read with
  | last related =>
    cases related with
    | close => exact ⟨[],rfl,rfl⟩
  | more related _ ih =>
    obtain ⟨units,rfl,meaning⟩ := ih
    cases related with
    | @pair unit next _ _ joined =>
      refine ⟨unit :: next :: units,by simp,?_⟩
      simp [denote,joined,meaning]
    | @single unit _ alone =>
      rw [List.append_assoc] at alone
      exact ⟨unit :: units,by simp,by simp [denote_alone unit units _ alone,meaning]⟩

theorem turns_of_units (units : List StringUnit) (rest : Bytes) :
    ∃ pieces, Turns UnitTurn (units.flatMap StringUnit.text ++ [34]) pieces rest ∧
      pieces.flatten = denote units := by
  induction units using denote.induct with
  | case1 => exact ⟨[[]],.last .close,rfl⟩
  | case2 unit =>
    have alone : Alone unit ([34] ++ rest) := by
      intro _ _ _ _ shape
      cases shape
    refine ⟨[unit.bytes,[]],?_,by simp [denote]⟩
    simpa using Turns.more (.single alone) (.last .close)
  | case3 unit next units cp joined ih =>
    obtain ⟨pieces,turns,meaning⟩ := ih
    refine ⟨utf8 cp :: pieces,?_,by simp [denote,joined,meaning]⟩
    simpa using Turns.more (.pair joined) turns
  | case4 unit next units separate ih =>
    obtain ⟨pieces,turns,meaning⟩ := ih
    have alone : Alone unit (((next :: units).flatMap StringUnit.text ++ [34]) ++ rest) := by
      intro high behind known isHigh shape
      simp only [List.flatMap_cons,List.append_assoc] at shape ⊢
      obtain ⟨low,nextKnown⟩ := escape_code shape
      refine ⟨next,low,List.prefix_append _ _,nextKnown,?_⟩
      by_contra isLow
      have joined := (pair_eq_some unit next _).mpr
        ⟨high,low,known,nextKnown,isHigh,by simpa using isLow,rfl⟩
      rw [separate] at joined
      cases joined
    refine ⟨unit.bytes :: pieces,?_,by simp [denote,separate,meaning]⟩
    simpa using Turns.more (.single alone) turns

/-- Behind an opening quote the parser reads exactly the elements up to the next
quote, and their meaning. -/
theorem parseString_iff (text value rest : Bytes) : parseString text = .ok (value,rest) ↔
    ∃ units, text = units.flatMap StringUnit.text ++ 34 :: rest ∧ value = denote units := by
  constructor
  · intro read
    unfold parseString at read
    split at read
    · cases read
    next pieces after turns =>
    simp only [Except.ok.injEq,Prod.mk.injEq] at read
    obtain ⟨rfl,rfl⟩ := read
    obtain ⟨front,rfl,related⟩ := readItems_sound stringTurn_sound _ _ _ turns
    obtain ⟨units,rfl,meaning⟩ := units_of_turns related
    exact ⟨units,by simp,meaning⟩
  · rintro ⟨units,rfl,rfl⟩
    obtain ⟨pieces,related,meaning⟩ := turns_of_units units rest
    have turns := @readItems_complete _ _ _ unread _ _ stringTurn_complete unitTurn_takes _ _ _ related
    rw [List.append_assoc,List.singleton_append] at turns
    rw [parseString,turns]
    simp [meaning]

end TestForge.Json
