/-! Binary floating-point numbers as exact fractions.  `Parts` reads off the sign, the significand
and the exponent of a number; `nearest?` is the way back, the number that lies closest to a
fraction. -/

namespace Colloquy.Number

/-- A floating-point number: not a number, an infinity, or `± significand * 2 ^ exponent`. -/
inductive Parts where
  | notANumber
  | infinite (negative : Bool)
  | finite (negative : Bool) (significand : Nat) (exponent : Int)
  deriving DecidableEq, Repr

def parts (x : Float) : Parts :=
  let bits := x.toBits.toNat
  let negative := bits / Nat.pow 2 63 == 1
  let biased : Nat := bits / Nat.pow 2 52 % Nat.pow 2 11
  let fraction := bits % Nat.pow 2 52
  if biased == 2047 then
    if fraction == 0 then .infinite negative else .notANumber
  else if biased == 0 then .finite negative fraction (-1074)
  else .finite negative (fraction + Nat.pow 2 52) (biased - 1075)

def roundHalfEven (num den : Nat) : Nat :=
  let quotient := num / den
  let twice := 2 * (num % den)
  if den < twice || (twice == den && quotient % 2 == 1) then quotient + 1 else quotient

def scale (num den : Nat) (exponent : Int) : Nat × Nat :=
  if 0 ≤ exponent then (num * Nat.pow 2 exponent.toNat, den)
  else (num, den * Nat.pow 2 (-exponent).toNat)

/-- The exponent for which the significand of `num / den`, not zero, has 53 bits, but not below that
of the numbers nearest to zero. -/
def unitExponent (num den : Nat) : Int :=
  let guess : Int := (num.log2 : Int) - den.log2 - 52
  let (n, d) := scale num den (-guess)
  max (-1074) (if n < Nat.pow 2 52 * d then guess - 1 else guess)

def encode? (significand : Nat) (exponent : Int) : Option Nat :=
  if significand < Nat.pow 2 52 then some significand
  else
    let biased := (exponent + 1075).toNat
    if biased < 2047 then some (biased * Nat.pow 2 52 + (significand - Nat.pow 2 52)) else none

/-- The number closest to `num / den`, with the sign given; of two that are equally close the one
with the even significand.  There is none for a fraction beyond the largest number. -/
def nearest? (negative : Bool) (num den : Nat) : Option Float :=
  let sign := if negative then Nat.pow 2 63 else 0
  if num == 0 then some (Float.ofBits (UInt64.ofNat sign))
  else
    let exponent := unitExponent num den
    let (n, d) := scale num den (-exponent)
    let significand := roundHalfEven n d
    let bits? :=
      if significand == Nat.pow 2 53 then encode? (Nat.pow 2 52) (exponent + 1)
      else encode? significand exponent
    bits?.map fun bits => Float.ofBits (UInt64.ofNat (sign + bits))

def ofInt? (n : Int) : Option Float :=
  nearest? (n < 0) n.natAbs 1

def infinity (negative : Bool) : Float :=
  if negative then -(1.0 / 0.0) else 1.0 / 0.0

def ofDecimal (negative : Bool) (digits : Nat) (exponent : Int) : Float :=
  let size : Int := (Nat.toDigits 10 digits).length + exponent
  if digits == 0 || size < -400 then if negative then -0.0 else 0.0
  else if 400 < size then infinity negative
  else
    let number? :=
      if 0 ≤ exponent then nearest? negative (digits * Nat.pow 10 exponent.toNat) 1
      else nearest? negative digits (Nat.pow 10 (-exponent).toNat)
    number?.getD (infinity negative)

def ratio? (x : Float) : Option (Int × Nat) :=
  match parts x with
  | .finite negative significand exponent =>
    let (num, den) := scale significand 1 exponent
    some (if negative then -num else num, den)
  | _ => none

end Colloquy.Number
