import TestForge.Strings

/-! Wall-clock instants as nanoseconds since the epoch, and their text form. -/
namespace TestForge

open Strings

abbrev TimePoint := Int

namespace Clock

/-- Days from 1970-01-01 to the first of March of a year, in the proleptic
Gregorian calendar. -/
def daysToMarch (year : Int) : Int :=
  365 * year + year / 4 - year / 100 + year / 400 - 719468

/-- Days from March the first to the first of the month `shifted` months later. -/
def daysToMonth (shifted : Int) : Int := (153 * shifted + 2) / 5

/-- `timegm` on broken-down fields: a month outside 1..12 carries into the year,
and every smaller field counts on linearly. -/
def timegm (year month day hour minute second : Int) : Int :=
  let months := 12 * year + (month - 1)
  let fromMarch := months - 2
  let days := daysToMarch (fromMarch / 12) + daysToMonth (fromMarch % 12) + (day - 1)
  86400 * days + 3600 * hour + 60 * minute + second

/-- The year, month and day that begin `days` days after the epoch. -/
def civil (days : Int) : Int × Int × Int :=
  let shifted := days + 719468
  let era := shifted / 146097
  let ofEra := shifted % 146097
  let yearOfEra := (ofEra - ofEra / 1460 + ofEra / 36524 - ofEra / 146096) / 365
  let dayOfYear := ofEra - (365 * yearOfEra + yearOfEra / 4 - yearOfEra / 100)
  let fromMarch := (5 * dayOfYear + 2) / 153
  let day := dayOfYear - daysToMonth fromMarch + 1
  let month := if fromMarch < 10 then fromMarch + 3 else fromMarch - 9
  (yearOfEra + 400 * era + (if month ≤ 2 then 1 else 0),month,day)

def padTo (width : Nat) (text : Bytes) : Bytes := List.replicate (width - text.length) 48 ++ text

/-- `%Y-%m-%dT%H:%M:%S` and milliseconds; both divisions truncate, so an instant
before the epoch has a negative millisecond part. -/
def toIso8601 (instant : TimePoint) : Bytes :=
  let seconds := instant.tdiv 1000000000
  let millis := (instant - 1000000000 * seconds).tdiv 1000000
  let (year,month,day) := civil (seconds / 86400)
  let ofDay := seconds % 86400
  decimalInt year ++ 45 :: padTo 2 (decimalInt month) ++ 45 :: padTo 2 (decimalInt day) ++
    84 :: padTo 2 (decimalInt (ofDay / 3600)) ++ 58 :: padTo 2 (decimalInt (ofDay / 60 % 60)) ++
    58 :: padTo 2 (decimalInt (ofDay % 60)) ++ 46 :: padTo 3 (decimalInt millis) ++ [90]

/-- One `%Nd` of `sscanf`: blanks do not count against the width, a sign does. -/
def scanInt (width : Nat) (text : Bytes) : Option (Int × Bytes) :=
  let body := text.dropWhile isSpace
  let (negative,room,digits) := match body with
    | 45 :: rest => (true,width - 1,rest)
    | 43 :: rest => (false,width - 1,rest)
    | other => (false,width,other)
  let taken := (digits.take room).takeWhile isDigit
  if taken = [] then none
  else
    let magnitude : Int := digitsValue taken
    some (if negative then -magnitude else magnitude,digits.drop taken.length)

/-- The numbers `sscanf` reads before the first directive that fails. Every
conversion but the first follows a literal byte. -/
def scanFields : List (Option UInt8 × Nat) → Bytes → List Int
  | [], _ => []
  | (literal,width) :: rest, text =>
    let behind := match literal with
      | none => some text
      | some c => if text.head? = some c then some text.tail else none
    match behind.bind (scanInt width) with
    | none => []
    | some (value,after) => value :: scanFields rest after

/-- The epoch stands for an unknown instant. -/
def fromIso8601 (text : Bytes) : TimePoint :=
  if text.length < 19 then 0
  else
    let format := [(none,4),(some 45,2),(some 45,2),(some 84,2),(some 58,2),(some 58,2),(some 46,3)]
    match scanFields format (text.takeWhile (· ≠ 0)) with
    | year :: month :: day :: hour :: minute :: second :: rest =>
      let epoch := timegm year month day hour minute second
      if epoch = -1 then 0 else 1000000000 * epoch + 1000000 * rest.headD 0
    | _ => 0

example : toIso8601 1789194692417000000 = ascii "2026-09-12T06:31:32.417Z" := by decide +kernel
example : fromIso8601 (ascii "2026-09-12T06:31:32.417Z") = 1789194692417000000 := by decide +kernel

/-! ### The bytes of a time -/

def isClockByte (c : UInt8) : Bool := isDigit c || c == 45 || c == 58 || c == 46 || c == 84 || c == 90

def ClockText (text : Bytes) : Prop := ∀ c ∈ text, isClockByte c = true

theorem ClockText.append {a b : Bytes} (first : ClockText a) (second : ClockText b) : ClockText (a ++ b) := by
  intro c member
  exact (List.mem_append.mp member).elim (first c) (second c)

theorem ClockText.cons {c : UInt8} {rest : Bytes} (first : isClockByte c = true) (others : ClockText rest) :
    ClockText (c :: rest) :=
  List.forall_mem_cons.mpr ⟨first,others⟩

theorem decimalInt_clock (z : Int) : ClockText (decimalInt z) := by
  have digits (n : Nat) : ClockText (decimal n) := by
    intro c member
    simp [isClockByte,isDigit_decimal n c member]
  unfold decimalInt
  split
  · exact (digits _).cons rfl
  · exact digits _

theorem padTo_clock (width : Nat) (z : Int) : ClockText (padTo width (decimalInt z)) := by
  refine ClockText.append ?_ (decimalInt_clock z)
  intro c zero
  rw [List.eq_of_mem_replicate zero]
  rfl

theorem toIso8601_clock (instant : TimePoint) : ClockText (toIso8601 instant) := by
  have field (c : UInt8) (clock : isClockByte c = true) (width : Nat) (z : Int) :
      ClockText (c :: padTo width (decimalInt z)) := (padTo_clock width z).cons clock
  exact (((((((decimalInt_clock _).append (field 45 rfl 2 _)).append (field 45 rfl 2 _)).append (field 84 rfl 2 _)).append
    (field 58 rfl 2 _)).append (field 58 rfl 2 _)).append (field 46 rfl 3 _)).append (.cons rfl (by simp [ClockText]))

end Clock
end TestForge
