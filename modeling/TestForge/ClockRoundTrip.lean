import TestForge.Clock
import TestForge.DoubleText

/-! An instant between the epoch and the year 10000, written and read back. -/
namespace TestForge.Clock

open Strings Double

/-! ### The calendar -/

/-- The quotients by 4, 100 and 400 years in `civil` add up to the leap days before the year found. -/
theorem century_eq (d : Int) (low : 0 ≤ d) (high : d < 146097) :
    (d - d / 1460 + d / 36524 - d / 146096) / 365 / 100 = d / 36524 - d / 146096 := by
  have centuries : d / 36524 = 0 ∨ d / 36524 = 1 ∨ d / 36524 = 2 ∨ d / 36524 = 3 ∨ d / 36524 = 4 := by omega
  rcases centuries with century | century | century | century | century <;> rw [century] <;> omega

theorem yearOfEra_spec (d : Int) (low : 0 ≤ d) (high : d < 146097) :
    let y := (d - d / 1460 + d / 36524 - d / 146096) / 365
    0 ≤ y ∧ y < 400 ∧ 0 ≤ d - (365 * y + y / 4 - y / 100) ∧ d - (365 * y + y / 4 - y / 100) ≤ 365 := by
  intro y
  have century : y / 100 = _ := century_eq d low high
  refine ⟨?_,?_,?_,?_⟩ <;> omega

theorem month_spec (d : Int) (low : 0 ≤ d) (high : d ≤ 365) :
    let m := (5 * d + 2) / 153
    0 ≤ m ∧ m < 12 ∧ 0 ≤ d - daysToMonth m ∧ d - daysToMonth m < 31 := by
  intro m
  unfold daysToMonth
  refine ⟨?_,?_,?_,?_⟩ <;> omega

/-- The day of an era and the month counted from March, behind every date `civil` gives. -/
theorem civil_parts (days : Int) : ∃ era y m d : Int,
    0 ≤ y ∧ y < 400 ∧ 0 ≤ m ∧ m < 12 ∧ 1 ≤ d ∧ d ≤ 31 ∧
    days + 719468 = 146097 * era + (365 * y + y / 4 - y / 100) + daysToMonth m + (d - 1) ∧
    civil days = (y + 400 * era + (if (if m < 10 then m + 3 else m - 9) ≤ 2 then 1 else 0),
      if m < 10 then m + 3 else m - 9,d) := by
  have low : 0 ≤ (days + 719468) % 146097 := Int.emod_nonneg _ (by decide)
  have high : (days + 719468) % 146097 < 146097 := Int.emod_lt_of_pos _ (by decide)
  obtain ⟨yearLow,yearHigh,dayLow,dayHigh⟩ := yearOfEra_spec _ low high
  obtain ⟨monthLow,monthHigh,firstDay,lastDay⟩ := month_spec _ dayLow dayHigh
  refine ⟨(days + 719468) / 146097,_,_,_,yearLow,yearHigh,monthLow,monthHigh,Int.le_add_of_nonneg_left firstDay,
    Int.add_le_of_le_sub_right (by omega),?_,rfl⟩
  have split := Int.mul_ediv_add_emod (days + 719468) 146097
  omega

theorem timegm_civil (seconds : Int) :
    let (year,month,day) := civil (seconds / 86400)
    timegm year month day (seconds % 86400 / 3600) (seconds % 86400 / 60 % 60) (seconds % 86400 % 60) = seconds := by
  obtain ⟨era,y,m,d,yearLow,yearHigh,monthLow,monthHigh,-,-,days,date⟩ := civil_parts (seconds / 86400)
  rw [date]
  have months : 12 * (y + 400 * era + (if (if m < 10 then m + 3 else m - 9) ≤ 2 then 1 else 0)) +
      ((if m < 10 then m + 3 else m - 9) - 1) - 2 = 12 * (y + 400 * era) + m := by
    split <;> split <;> omega
  have years : (12 * (y + 400 * era) + m) / 12 = y + 400 * era := by omega
  have ofYear : (12 * (y + 400 * era) + m) % 12 = m := by omega
  simp only [timegm,months,years,ofYear,daysToMarch]
  omega

theorem civil_bounds (days : Int) (low : 0 ≤ days) (high : days < 2932897) :
    let (year,month,day) := civil days
    1000 ≤ year ∧ year ≤ 9999 ∧ 1 ≤ month ∧ month ≤ 12 ∧ 1 ≤ day ∧ day ≤ 31 := by
  obtain ⟨era,y,m,d,yearLow,yearHigh,monthLow,monthHigh,dayLow,dayHigh,total,date⟩ := civil_parts days
  rw [date]
  unfold daysToMonth at total
  refine ⟨?_,?_,?_,?_,dayLow,dayHigh⟩
  · split <;> split <;> omega
  · split <;> split <;> omega
  · split <;> omega
  · split <;> omega

/-! ### The digits -/

theorem padTo_decimal (width n : Nat) (positive : 0 < width) (fits : n < 10^width) :
    (padTo width (decimal n)).length = width ∧ (∀ c ∈ padTo width (decimal n), isDigit c = true) ∧
      digitsValue (padTo width (decimal n)) = n := by
  have short := (decimal_length_le n width positive).mpr fits
  refine ⟨by simp [padTo]; omega,fun c member => ?_,?_⟩
  · rcases List.mem_append.mp member with zero | digit
    · rw [List.eq_of_mem_replicate zero]
      decide
    · exact isDigit_decimal n c digit
  · rw [padTo,digitsValue_zeros,digitsValue_decimal]

/-- A field of digits fills its conversion, whatever follows it. -/
theorem scanInt_digits (width : Nat) (digits rest : Bytes) (positive : 0 < width) (full : digits.length = width)
    (numeric : ∀ c ∈ digits, isDigit c = true) :
    scanInt width (digits ++ rest) = some ((digitsValue digits : Int),rest) := by
  obtain ⟨c,others,rfl⟩ := List.exists_cons_of_length_pos (by omega : 0 < digits.length)
  obtain ⟨visible,-,plus,minus,-⟩ := digit_visible c (numeric c (by simp))
  have body : (c :: others ++ rest).dropWhile isSpace = c :: others ++ rest := by simp [visible]
  have field : ((c :: others ++ rest).take width).takeWhile isDigit = c :: others := by
    rw [← full,List.take_left,List.takeWhile_eq_self_iff.mpr numeric]
  have behind : (c :: others ++ rest).drop (c :: others).length = rest := List.drop_left
  simp only [scanInt,body]
  split
  · next equal => exact absurd (List.cons.inj equal).1 minus
  · next equal => exact absurd (List.cons.inj equal).1 plus
  · simp only [field,behind,reduceCtorEq,if_false,Bool.false_eq_true]

theorem scanFields_next (c : UInt8) (width : Nat) (rest : List (Option UInt8 × Nat)) (digits text : Bytes)
    (positive : 0 < width) (full : digits.length = width) (numeric : ∀ c ∈ digits, isDigit c = true) :
    scanFields ((some c,width) :: rest) (c :: (digits ++ text)) =
      (digitsValue digits : Int) :: scanFields rest text := by
  simp [scanFields,scanInt_digits width digits text positive full numeric]

theorem scanFields_first (width : Nat) (rest : List (Option UInt8 × Nat)) (digits text : Bytes)
    (positive : 0 < width) (full : digits.length = width) (numeric : ∀ c ∈ digits, isDigit c = true) :
    scanFields ((none,width) :: rest) (digits ++ text) = (digitsValue digits : Int) :: scanFields rest text := by
  simp [scanFields,scanInt_digits width digits text positive full numeric]

theorem decimalInt_natCast (n : Nat) : decimalInt n = decimal n := by
  simp [decimalInt]

/-- The seven fields of a text that `toIso8601` could have written. -/
theorem fromIso8601_fields (year month day hour minute second millis : Nat)
    (years : 1000 ≤ year ∧ year ≤ 9999) (small : month < 100 ∧ day < 100 ∧ hour < 100 ∧ minute < 100 ∧ second < 100)
    (fraction : millis < 1000) (known : timegm year month day hour minute second ≠ -1) :
    fromIso8601 (decimal year ++ 45 :: padTo 2 (decimal month) ++ 45 :: padTo 2 (decimal day) ++
      84 :: padTo 2 (decimal hour) ++ 58 :: padTo 2 (decimal minute) ++ 58 :: padTo 2 (decimal second) ++
      46 :: padTo 3 (decimal millis) ++ [90]) =
      1000000000 * timegm year month day hour minute second + 1000000 * millis := by
  have fullYear := decimal_length year 3 years.1 (by omega)
  obtain ⟨monthLength,monthDigits,monthValue⟩ := padTo_decimal 2 month (by decide) (by omega)
  obtain ⟨dayLength,dayDigits,dayValue⟩ := padTo_decimal 2 day (by decide) (by omega)
  obtain ⟨hourLength,hourDigits,hourValue⟩ := padTo_decimal 2 hour (by decide) (by omega)
  obtain ⟨minuteLength,minuteDigits,minuteValue⟩ := padTo_decimal 2 minute (by decide) (by omega)
  obtain ⟨secondLength,secondDigits,secondValue⟩ := padTo_decimal 2 second (by decide) (by omega)
  obtain ⟨millisLength,millisDigits,millisValue⟩ := padTo_decimal 3 millis (by decide) (by omega)
  have visible {c : UInt8} (digit : isDigit c = true) : c ≠ 0 := (digit_visible c digit).2.1
  have whole : (decimal year ++ 45 :: padTo 2 (decimal month) ++ 45 :: padTo 2 (decimal day) ++
      84 :: padTo 2 (decimal hour) ++ 58 :: padTo 2 (decimal minute) ++ 58 :: padTo 2 (decimal second) ++
      46 :: padTo 3 (decimal millis) ++ [90]).takeWhile (· ≠ 0) = decimal year ++
        45 :: (padTo 2 (decimal month) ++ 45 :: (padTo 2 (decimal day) ++ 84 :: (padTo 2 (decimal hour) ++
        58 :: (padTo 2 (decimal minute) ++ 58 :: (padTo 2 (decimal second) ++
        46 :: (padTo 3 (decimal millis) ++ [90])))))) := by
    rw [List.takeWhile_eq_self_iff.mpr]
    · simp only [List.append_assoc,List.cons_append]
    · simp only [List.mem_append,List.mem_cons,List.not_mem_nil,or_false,decide_eq_true_eq]
      grind [isDigit_decimal]
  have long : ¬(decimal year ++ 45 :: padTo 2 (decimal month) ++ 45 :: padTo 2 (decimal day) ++
      84 :: padTo 2 (decimal hour) ++ 58 :: padTo 2 (decimal minute) ++ 58 :: padTo 2 (decimal second) ++
      46 :: padTo 3 (decimal millis) ++ [90]).length < 19 := by
    simp only [List.length_append,List.length_cons]
    omega
  rw [fromIso8601,if_neg long]
  simp only [whole]
  rw [scanFields_first 4 _ _ _ (by decide) fullYear (isDigit_decimal year),
    scanFields_next 45 2 _ _ _ (by decide) monthLength monthDigits,
    scanFields_next 45 2 _ _ _ (by decide) dayLength dayDigits,
    scanFields_next 84 2 _ _ _ (by decide) hourLength hourDigits,
    scanFields_next 58 2 _ _ _ (by decide) minuteLength minuteDigits,
    scanFields_next 58 2 _ _ _ (by decide) secondLength secondDigits,
    scanFields_next 46 3 _ _ _ (by decide) millisLength millisDigits]
  simp only [monthValue,dayValue,hourValue,minuteValue,secondValue,millisValue,digitsValue_decimal,scanFields,
    if_neg known,List.headD_cons]

/-- An instant rounded down to the millisecond. -/
def toMillis (instant : TimePoint) : TimePoint := 1000000 * (instant / 1000000)

theorem fromIso8601_toIso8601 (instant : Int) (low : 0 ≤ instant)
    (high : instant < 253402300800000000000) : fromIso8601 (toIso8601 instant) = toMillis instant := by
  have seconds : instant.tdiv 1000000000 = instant / 1000000000 := Int.tdiv_eq_ediv_of_nonneg low
  have millis : (instant - 1000000000 * (instant / 1000000000)).tdiv 1000000 =
      instant % 1000000000 / 1000000 := by
    rw [Int.tdiv_eq_ediv_of_nonneg (by omega)]
    omega
  have same := timegm_civil (instant / 1000000000)
  have bounds := civil_bounds (instant / 1000000000 / 86400) (by omega) (by omega)
  unfold toIso8601
  simp only [seconds,millis]
  revert same bounds
  generalize civil (instant / 1000000000 / 86400) = date
  obtain ⟨year,month,day⟩ := date
  intro same bounds
  obtain ⟨yearLow,yearHigh,monthLow,monthHigh,dayLow,dayHigh⟩ := bounds
  obtain ⟨year,rfl⟩ := Int.eq_ofNat_of_zero_le (by omega : 0 ≤ year)
  obtain ⟨month,rfl⟩ := Int.eq_ofNat_of_zero_le (by omega : 0 ≤ month)
  obtain ⟨day,rfl⟩ := Int.eq_ofNat_of_zero_le (by omega : 0 ≤ day)
  obtain ⟨hour,isHour⟩ := Int.eq_ofNat_of_zero_le (by omega : 0 ≤ instant / 1000000000 % 86400 / 3600)
  obtain ⟨minute,isMinute⟩ := Int.eq_ofNat_of_zero_le (by omega : 0 ≤ instant / 1000000000 % 86400 / 60 % 60)
  obtain ⟨second,isSecond⟩ := Int.eq_ofNat_of_zero_le (by omega : 0 ≤ instant / 1000000000 % 86400 % 60)
  obtain ⟨milli,isMilli⟩ := Int.eq_ofNat_of_zero_le (by omega : 0 ≤ instant % 1000000000 / 1000000)
  simp only [isHour,isMinute,isSecond,isMilli,decimalInt_natCast] at same ⊢
  have known : timegm year month day hour minute second ≠ -1 := by omega
  have total : 1000000000 * (instant / 1000000000) + 1000000 * (milli : Int) = 1000000 * (instant / 1000000) := by
    omega
  rw [fromIso8601_fields year month day hour minute second milli (by omega) (by omega) (by omega) known,same]
  exact total

end TestForge.Clock
