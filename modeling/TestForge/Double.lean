import TestForge.Strings

/-! IEEE-754 doubles by their bit pattern, with correctly rounded arithmetic and
the two C library conversions the JSON writer needs. A finite double is an
integer number of units of 2^-1074. -/
namespace TestForge

open Strings

structure Double where
  bits : UInt64
  deriving DecidableEq, Repr

namespace Double

def negative (d : Double) : Bool := d.bits ≥ 0x8000000000000000
def exponentField (d : Double) : Nat := (d.bits.toNat / 2^52) % 2048
def fraction (d : Double) : Nat := d.bits.toNat % 2^52
def isFinite (d : Double) : Bool := d.exponentField ≠ 2047

/-- The magnitude of a finite double in units of 2^-1074. -/
def units (d : Double) : Nat :=
  if d.exponentField = 0 then d.fraction else (2^52 + d.fraction) * 2^(d.exponentField - 1)

/-- `num / den` to the nearest integer, ties to even. -/
def roundHalfEven (num den : Nat) : Nat :=
  let quotient := num / den
  let rest := num % den
  if 2 * rest > den ∨ (2 * rest = den ∧ quotient % 2 = 1) then quotient + 1 else quotient

/-- The double nearest to `num / den`; too large a magnitude becomes an infinity. -/
def ofRatio (negative : Bool) (num den : Nat) : Double :=
  let scaled := num * 2^1074
  let shift := Nat.log2 (scaled / den) - 52
  -- a carry out of the significand moves into the exponent field by itself
  let magnitude := shift * 2^52 + roundHalfEven scaled (den * 2^shift)
  ⟨UInt64.ofNat ((if negative then 2^63 else 0) + min magnitude (2047 * 2^52))⟩

def ofInt (z : Int) : Double := ofRatio (z < 0) z.natAbs 1

/-- The quotient of two finite doubles, the divisor not zero. -/
def div (a b : Double) : Double := ofRatio (a.negative != b.negative) a.units b.units

def mul (a b : Double) : Double :=
  ofRatio (a.negative != b.negative) (a.units * b.units) (2^1074 * 2^1074)

/-- `std::ceil` of a value that is not negative, as an integer. -/
def ceil (d : Double) : Nat := (d.units + (2^1074 - 1)) / 2^1074

/-- `static_cast<std::int64_t>` on a value in range: truncation. -/
def toInt (d : Double) : Int :=
  let magnitude : Int := (d.units / 2^1074 : Nat)
  if d.negative then -magnitude else magnitude

/-- The decimal exponent of a positive `num / den`. -/
def decimalExponent (num den : Nat) : Int :=
  if den ≤ num then ((decimal (num / den)).length : Int) - 1
  else -(decimal ((den - 1) / num)).length

/-- `printf("%.*g")` with a positive precision, for a finite value. -/
def formatG (precision : Nat) (d : Double) : Bytes :=
  let sign := if d.negative then [45] else []
  if d.units = 0 then sign ++ ascii "0"
  else
    let scaleTo (places : Int) : Nat :=
      roundHalfEven (d.units * 10^places.toNat) (2^1074 * 10^(-places).toNat)
    let exponent := decimalExponent d.units (2^1074)
    let carried := scaleTo (precision - 1 - exponent) = 10^precision
    let exponent := if carried then exponent + 1 else exponent
    let digits := decimal (scaleTo (precision - 1 - exponent))
    let significant := digits.rdropWhile (· == 48)
    let point (before after : Bytes) : Bytes := if after = [] then before else before ++ 46 :: after
    if -4 ≤ exponent ∧ exponent < precision then
      if exponent < 0 then
        sign ++ point (ascii "0") (List.replicate (-exponent - 1).toNat 48 ++ significant)
      else
        let whole := exponent.toNat + 1
        sign ++ point (digits.take whole) ((digits.drop whole).rdropWhile (· == 48))
    else
      let written := decimal exponent.natAbs
      sign ++ point (significant.take 1) (significant.drop 1) ++ 101 ::
        (if exponent < 0 then 45 else 43) :: (if written.length < 2 then 48 :: written else written)

/-- `strtod` on a decimal literal without surrounding text. -/
def strtod (literal : Bytes) : Double :=
  let (negative,body) := match literal with
    | 45 :: rest => (true,rest)
    | other => (false,other)
  let whole := body.takeWhile isDigit
  let behind := body.dropWhile isDigit
  let (places,behind) := match behind with
    | 46 :: rest => (rest.takeWhile isDigit,rest.dropWhile isDigit)
    | other => ([],other)
  let exponent : Int := match behind with
    | 101 :: rest | 69 :: rest => (strtoll rest).1
    | _ => 0
  let exponent := exponent - places.length
  ofRatio negative (digitsValue (whole ++ places) * 10^exponent.toNat) (10^(-exponent).toNat)

/-- `==` on doubles: zeros of either sign are equal, NaN equals nothing. -/
def equals (a b : Double) : Bool :=
  let nan (d : Double) : Bool := !d.isFinite && d.fraction != 0
  !nan a && !nan b && (a.bits == b.bits || (a.isFinite && b.isFinite && a.units == 0 && b.units == 0))

end Double
end TestForge
