import TestForge.JsonGrammar

/-! Number literals: the parser reads the longest literal of the grammar and gives
the value it denotes. -/
namespace TestForge.Json

open Strings Reading

theorem takeWhile_digits (digits : Digits) (rest : Bytes) (stop : ∀ c ∈ rest.head?, isDigit c = false) :
    (digits.text ++ rest).takeWhile isDigit = digits.text := by
  rw [List.takeWhile_append_of_pos digits.numeric]
  cases rest with
  | nil => simp
  | cons c rest => simp [stop c (by simp)]

theorem dropWhile_digits (digits : Digits) (rest : Bytes) (stop : ∀ c ∈ rest.head?, isDigit c = false) :
    (digits.text ++ rest).dropWhile isDigit = rest := by
  rw [List.dropWhile_append_of_pos digits.numeric]
  cases rest with
  | nil => simp
  | cons c rest => simp [stop c (by simp)]

theorem Digits.head (digits : Digits) : ∃ c rest, digits.text = c :: rest ∧ isDigit c = true := by
  obtain ⟨c,rest,shape⟩ := List.exists_cons_of_ne_nil digits.nonempty
  exact ⟨c,rest,shape,digits.numeric c (by simp [shape])⟩

def Digits.zero : Digits := ⟨[48],by simp,by simp [isDigit]⟩

/-- What may not follow a number: it would belong to it. -/
def Ends (rest : Bytes) : Prop :=
  ∀ c ∈ rest.head?, isDigit c = false ∧ c ≠ 46 ∧ c ≠ 101 ∧ c ≠ 69

theorem Ends.digits {rest : Bytes} (ends : Ends rest) : ∀ c ∈ rest.head?, isDigit c = false :=
  fun c first => (ends c first).1

def fractionText (fraction : Option Digits) : Bytes := fraction.elim [] fun digits => 46 :: digits.text

def exponentText (exponent : Option Exponent) : Bytes := exponent.elim [] Exponent.text

theorem Numeral.text_eq (n : Numeral) : n.text =
    (if n.negative then [45] else []) ++ n.whole.text ++ fractionText n.fraction ++ exponentText n.exponent :=
  rfl

theorem scanDigits_sound {message text rest : Bytes} (scanned : scanDigits message text = .ok rest) :
    ∃ digits : Digits, text = digits.text ++ rest := by
  unfold scanDigits at scanned
  split at scanned
  · cases scanned
  next c behind =>
  split at scanned
  · next numeric =>
    simp only [Except.ok.injEq] at scanned
    subst scanned
    refine ⟨⟨c :: behind.takeWhile isDigit,by simp,?_⟩,by simp⟩
    intro x member
    rcases List.mem_cons.mp member with rfl | member
    · exact numeric
    · exact List.mem_takeWhile_imp member
  · cases scanned

theorem scanDigits_complete (message : Bytes) (digits : Digits) (rest : Bytes)
    (stop : ∀ c ∈ rest.head?, isDigit c = false) :
    scanDigits message (digits.text ++ rest) = .ok rest := by
  have dropped := dropWhile_digits digits rest stop
  obtain ⟨c,others,shape,numeric⟩ := digits.head
  rw [shape] at dropped ⊢
  simpa [scanDigits,numeric] using dropped

theorem scanWhole_sound {text rest : Bytes} (scanned : scanWhole text = .ok rest) :
    ∃ whole : Digits, (whole.text.head? = some 48 → whole.text = [48]) ∧ text = whole.text ++ rest := by
  unfold scanWhole at scanned
  split at scanned
  · cases scanned
  · simp only [Except.ok.injEq] at scanned
    subst scanned
    exact ⟨.zero,fun _ => rfl,rfl⟩
  · next c behind notZero =>
    split at scanned
    · next range =>
      simp only [Except.ok.injEq] at scanned
      subst scanned
      have numeric : isDigit c = true := by
        simp only [isDigit,Bool.and_eq_true,decide_eq_true_eq]
        grind
      refine ⟨⟨c :: behind.takeWhile isDigit,by simp,?_⟩,?_,by simp⟩
      · intro x member
        rcases List.mem_cons.mp member with rfl | member
        · exact numeric
        · exact List.mem_takeWhile_imp member
      · intro first
        exact absurd (by simpa using first) notZero
    · cases scanned

theorem scanWhole_complete (whole : Digits) (plain : whole.text.head? = some 48 → whole.text = [48])
    (rest : Bytes) (stop : ∀ c ∈ rest.head?, isDigit c = false) :
    scanWhole (whole.text ++ rest) = .ok rest := by
  have dropped := dropWhile_digits whole rest stop
  obtain ⟨c,others,shape,numeric⟩ := whole.head
  obtain ⟨low,high⟩ := digit_range c numeric
  by_cases zero : c = 48
  · rw [plain (by rw [shape,zero]; rfl)]
    rfl
  · rw [shape] at dropped ⊢
    have range : 49 ≤ c ∧ c ≤ 57 := by grind
    rw [List.cons_append,scanWhole.eq_3 c (others ++ rest) zero,if_pos range]
    simpa [numeric] using dropped

theorem scanFraction_sound {text rest : Bytes} {flag : Bool} (scanned : scanFraction text = .ok (flag,rest)) :
    ∃ fraction, text = fractionText fraction ++ rest ∧ flag = fraction.isSome := by
  unfold scanFraction at scanned
  split at scanned
  · split at scanned
    · cases scanned
    next after places =>
    simp only [Except.ok.injEq,Prod.mk.injEq] at scanned
    obtain ⟨rfl,rfl⟩ := scanned
    obtain ⟨digits,rfl⟩ := scanDigits_sound places
    exact ⟨some digits,rfl,rfl⟩
  · simp only [Except.ok.injEq,Prod.mk.injEq] at scanned
    obtain ⟨rfl,rfl⟩ := scanned
    exact ⟨none,rfl,rfl⟩

theorem scanFraction_complete (fraction : Option Digits) (rest : Bytes)
    (stop : ∀ c ∈ rest.head?, isDigit c = false ∧ c ≠ 46) :
    scanFraction (fractionText fraction ++ rest) = .ok (fraction.isSome,rest) := by
  cases fraction with
  | none =>
    cases rest with
    | nil => rfl
    | cons c behind =>
      simp only [fractionText,Option.elim_none,List.nil_append]
      rw [scanFraction.eq_2 (c :: behind)]
      · rfl
      · intro others shape
        simp only [List.cons.injEq] at shape
        exact (stop c (by simp)).2 shape.1
  | some digits =>
    have scanned := scanDigits_complete (ascii "expected digit after decimal point") digits rest
      fun c first => (stop c first).1
    simp [fractionText,scanFraction,scanned]

theorem skipExponentSign_sound (text : Bytes) :
    ∃ sign : Option UInt8, (∀ c ∈ sign, c = 45 ∨ c = 43) ∧ text = sign.toList ++ skipExponentSign text := by
  unfold skipExponentSign
  split
  · exact ⟨some 43,by simp,rfl⟩
  · exact ⟨some 45,by simp,rfl⟩
  · exact ⟨none,by simp,rfl⟩

theorem skipExponentSign_complete (e : Exponent) (rest : Bytes) :
    skipExponentSign (e.sign.toList ++ e.digits.text ++ rest) = e.digits.text ++ rest := by
  cases shape : e.sign with
  | none =>
    obtain ⟨c,others,text,numeric⟩ := e.digits.head
    have visible := digit_visible c numeric
    rw [text]
    simp only [Option.toList_none,List.nil_append,List.cons_append]
    rw [skipExponentSign.eq_3]
    · intro behind same
      simp only [List.cons.injEq] at same
      exact visible.2.2.1 same.1
    · intro behind same
      simp only [List.cons.injEq] at same
      exact visible.2.2.2.1 same.1
  | some c =>
    rcases e.signs c (by simp [shape]) with rfl | rfl <;> rfl

theorem scanExponent_sound {text rest : Bytes} {flag : Bool} (scanned : scanExponent text = .ok (flag,rest)) :
    ∃ exponent, text = exponentText exponent ++ rest ∧ flag = exponent.isSome := by
  unfold scanExponent at scanned
  split at scanned
  · simp only [Except.ok.injEq,Prod.mk.injEq] at scanned
    obtain ⟨rfl,rfl⟩ := scanned
    exact ⟨none,rfl,rfl⟩
  next c behind =>
  split at scanned
  · next marker =>
    split at scanned
    · cases scanned
    next after digits =>
    simp only [Except.ok.injEq,Prod.mk.injEq] at scanned
    obtain ⟨rfl,rfl⟩ := scanned
    obtain ⟨digits,shape⟩ := scanDigits_sound digits
    obtain ⟨sign,signs,whole⟩ := skipExponentSign_sound behind
    refine ⟨some ⟨c,sign,digits,marker,signs⟩,?_,rfl⟩
    rw [whole,shape]
    simp [exponentText,Exponent.text]
  · simp only [Except.ok.injEq,Prod.mk.injEq] at scanned
    obtain ⟨rfl,rfl⟩ := scanned
    exact ⟨none,rfl,rfl⟩

theorem scanExponent_complete (exponent : Option Exponent) (rest : Bytes) (ends : Ends rest) :
    scanExponent (exponentText exponent ++ rest) = .ok (exponent.isSome,rest) := by
  cases exponent with
  | none =>
    cases rest with
    | nil => rfl
    | cons c behind =>
      have other := ends c (by simp)
      simp [exponentText,scanExponent,other]
  | some e =>
    have scanned := scanDigits_complete (ascii "expected digit in exponent") e.digits rest ends.digits
    rw [← skipExponentSign_complete] at scanned
    simp only [exponentText,Option.elim_some,Exponent.text,List.cons_append,scanExponent,if_pos e.markers,
      scanned,Option.isSome_some]

theorem skipMinus_sound (text : Bytes) :
    ∃ negative : Bool, text = (if negative then [45] else []) ++ skipMinus text := by
  unfold skipMinus
  split
  · exact ⟨true,rfl⟩
  · exact ⟨false,rfl⟩

theorem skipMinus_digits (negative : Bool) (whole : Digits) (rest : Bytes) :
    skipMinus ((if negative then [45] else []) ++ (whole.text ++ rest)) = whole.text ++ rest := by
  cases negative with
  | true => rfl
  | false =>
    obtain ⟨c,others,shape,numeric⟩ := whole.head
    rw [shape]
    simp only [Bool.false_eq_true,if_false,List.nil_append,List.cons_append]
    rw [skipMinus.eq_2]
    intro behind same
    simp only [List.cons.injEq] at same
    exact (digit_visible c numeric).2.2.2.1 same.1

/-- `strtoll` on an optional sign and digits. -/
theorem strtoll_signed (sign : Option UInt8) (signs : ∀ c ∈ sign, c = 45 ∨ c = 43) (digits : Digits)
    (rest : Bytes) (stop : ∀ c ∈ rest.head?, isDigit c = false) :
    strtoll (sign.toList ++ digits.text ++ rest) =
      (if sign = some 45 then -(digitsValue digits.text : Int) else digitsValue digits.text,rest) := by
  have taken := takeWhile_digits digits rest stop
  have dropped := dropWhile_digits digits rest stop
  have nonempty := digits.nonempty
  cases shape : sign with
  | none =>
    obtain ⟨c,others,text,numeric⟩ := digits.head
    obtain ⟨visible,-,plus,minus,-⟩ := digit_visible c numeric
    rw [text] at taken dropped nonempty
    have body : (c :: others ++ rest).dropWhile isSpace = c :: others ++ rest := by simp [visible]
    simp only [Option.toList_none,List.nil_append,text,strtoll,body]
    split
    · next same => simp only [List.cons_append,List.cons.injEq] at same; exact absurd same.1 minus
    · next same => simp only [List.cons_append,List.cons.injEq] at same; exact absurd same.1 plus
    · rw [taken,dropped,if_neg nonempty]
      simp
  | some c =>
    rcases signs c (by simp [shape]) with rfl | rfl
    · have body : (45 :: (digits.text ++ rest)).dropWhile isSpace = 45 :: (digits.text ++ rest) := rfl
      simp [-List.takeWhile_eq_nil_iff,strtoll,body,taken,dropped,nonempty]
    · have body : (43 :: (digits.text ++ rest)).dropWhile isSpace = 43 :: (digits.text ++ rest) := rfl
      simp [-List.takeWhile_eq_nil_iff,strtoll,body,taken,dropped,nonempty]

theorem exponentText_head (exponent : Option Exponent) (rest : Bytes) (ends : Ends rest) :
    ∀ c ∈ (exponentText exponent ++ rest).head?, isDigit c = false ∧ c ≠ 46 := by
  cases exponent with
  | none => exact fun c first => ⟨(ends c first).1,(ends c first).2.1⟩
  | some e =>
    intro c first
    simp only [exponentText,Option.elim_some,Exponent.text,List.cons_append,List.head?_cons,
      Option.mem_some_iff] at first
    subst first
    rcases e.markers with marker | marker <;> rw [marker] <;> decide

theorem fractionText_head (fraction : Option Digits) (exponent : Option Exponent) (rest : Bytes)
    (ends : Ends rest) :
    ∀ c ∈ (fractionText fraction ++ (exponentText exponent ++ rest)).head?, isDigit c = false := by
  have behind : ∀ c ∈ (exponentText exponent ++ rest).head?, isDigit c = false :=
    fun c first => (exponentText_head exponent rest ends c first).1
  cases fraction with
  | none => exact behind
  | some digits =>
    intro c first
    simp only [fractionText,Option.elim_some,List.cons_append,List.head?_cons,Option.mem_some_iff] at first
    subst first
    decide

theorem Ends.nil : Ends [] := by simp [Ends]

/-- The sign `strtod` reads and what follows it. -/
def takeSign : Bytes → Bool × Bytes
  | 45 :: rest => (true,rest)
  | rest => (false,rest)

/-- The digits of the fraction `strtod` reads and what follows them. -/
def takePlaces : Bytes → Bytes × Bytes
  | 46 :: rest => (rest.takeWhile isDigit,rest.dropWhile isDigit)
  | rest => ([],rest)

def takeExponent : Bytes → Int
  | 101 :: rest | 69 :: rest => (strtoll rest).1
  | _ => 0

theorem strtod_parts (literal : Bytes) : Double.strtod literal =
    let body := (takeSign literal).2
    let places := takePlaces (body.dropWhile isDigit)
    let exponent := takeExponent places.2 - places.1.length
    .ofRatio (takeSign literal).1
      (digitsValue (body.takeWhile isDigit ++ places.1) * 10^exponent.toNat) (10^(-exponent).toNat) := rfl

theorem takeSign_text (n : Numeral) : takeSign n.text =
    (n.negative,n.whole.text ++ (fractionText n.fraction ++ exponentText n.exponent)) := by
  obtain ⟨c,others,shape,numeric⟩ := n.whole.head
  rw [n.text_eq]
  cases n.negative with
  | true => simp [takeSign]
  | false =>
    simp only [Bool.false_eq_true,if_false,List.nil_append,shape,List.append_assoc,List.cons_append]
    rw [takeSign.eq_2]
    intro rest same
    simp only [List.cons.injEq] at same
    exact (digit_visible c numeric).2.2.2.1 same.1

theorem takePlaces_text (n : Numeral) :
    takePlaces (fractionText n.fraction ++ exponentText n.exponent) = (n.places,exponentText n.exponent) := by
  have head := exponentText_head n.exponent [] Ends.nil
  rw [List.append_nil] at head
  rw [Numeral.places]
  cases n.fraction with
  | none =>
    simp only [fractionText,Option.elim_none,List.nil_append,Option.map_none,Option.getD_none]
    rw [takePlaces.eq_2]
    intro rest same
    rw [same] at head
    exact (head 46 rfl).2 rfl
  | some digits =>
    have stop : ∀ c ∈ (exponentText n.exponent).head?, isDigit c = false := fun c first => (head c first).1
    simp [fractionText,takePlaces,takeWhile_digits digits _ stop,dropWhile_digits digits _ stop]

theorem takeExponent_text (exponent : Option Exponent) :
    takeExponent (exponentText exponent) = exponent.elim 0 Exponent.value := by
  cases exponent with
  | none => rfl
  | some e =>
    have read := strtoll_signed e.sign e.signs e.digits [] (by simp)
    rw [List.append_nil] at read
    rcases e.markers with marker | marker <;>
      simp [exponentText,Exponent.text,takeExponent,marker,read,Exponent.value]

theorem strtod_text (n : Numeral) : Double.strtod n.text = n.toDouble := by
  have stop := fractionText_head n.fraction n.exponent [] Ends.nil
  rw [List.append_nil] at stop
  rw [strtod_parts]
  simp only [takeSign_text,takeWhile_digits n.whole _ stop,dropWhile_digits n.whole _ stop,takePlaces_text,
    takeExponent_text]
  rfl

theorem strtoll_text (n : Numeral) (integer : n.isInteger = true) : strtoll n.text = (n.toInt,[]) := by
  have parts : n.fraction = none ∧ n.exponent = none := by simpa [Numeral.isInteger] using integer
  have read := strtoll_signed (if n.negative then some 45 else none) (by cases n.negative <;> simp) n.whole
    [] (by simp)
  rw [n.text_eq,parts.1,parts.2]
  cases negative : n.negative <;> simpa [negative,fractionText,exponentText,Numeral.toInt] using read

theorem numberOf_text (n : Numeral) : numberOf n.text (!n.isInteger) = n.value := by
  cases integer : n.isInteger with
  | true =>
    simp [numberOf,strtoll_text n integer,strtod_text,Numeral.value,integer,inInt64]
  | false => simp [numberOf,strtod_text,Numeral.value,integer]

theorem parseNumber_sound {text rest : Bytes} {value : Value}
    (parsed : parseNumber text = .ok (value,rest)) :
    ∃ n : Numeral, text = n.text ++ rest ∧ value = n.value := by
  unfold parseNumber at parsed
  split at parsed
  · cases parsed
  next afterWhole scannedWhole =>
  split at parsed
  · cases parsed
  next isFraction afterFraction scannedFraction =>
  split at parsed
  · cases parsed
  next isExponent afterExponent scannedExponent =>
  simp only [Except.ok.injEq,Prod.mk.injEq] at parsed
  obtain ⟨rfl,rfl⟩ := parsed
  obtain ⟨negative,sign⟩ := skipMinus_sound text
  obtain ⟨whole,plain,wholeText⟩ := scanWhole_sound scannedWhole
  obtain ⟨fraction,rfl,rfl⟩ := scanFraction_sound scannedFraction
  obtain ⟨exponent,rfl,rfl⟩ := scanExponent_sound scannedExponent
  let n : Numeral := ⟨negative,whole,fraction,exponent,plain⟩
  have shape : text = n.text ++ afterExponent := by
    rw [sign,wholeText]
    simp [n,Numeral.text_eq]
  refine ⟨n,shape,?_⟩
  have flag : (fraction.isSome || exponent.isSome) = !n.isInteger := by
    cases fraction <;> cases exponent <;> rfl
  rw [shape,flag]
  simp [numberOf_text]

theorem parseNumber_complete (n : Numeral) (rest : Bytes) (ends : Ends rest) :
    parseNumber (n.text ++ rest) = .ok (n.value,rest) := by
  have minus : skipMinus (n.text ++ rest) =
      n.whole.text ++ (fractionText n.fraction ++ (exponentText n.exponent ++ rest)) := by
    rw [n.text_eq]
    simpa using skipMinus_digits n.negative n.whole (fractionText n.fraction ++ (exponentText n.exponent ++ rest))
  have flag : (n.fraction.isSome || n.exponent.isSome) = !n.isInteger := by
    rw [Numeral.isInteger]
    cases n.fraction <;> cases n.exponent <;> rfl
  simp [parseNumber,minus,scanWhole_complete n.whole n.plainWhole _ (fractionText_head _ _ _ ends),
    scanFraction_complete _ _ (exponentText_head _ _ ends),scanExponent_complete _ _ ends,flag,numberOf_text]

end TestForge.Json
