import Colloquy.Number.Decimal

/-! Decimal notation with a given number of digits.  The digits are those of the exact value of a
floating-point number, given as a fraction, rounded to the nearest; a half goes to the even
neighbour. -/

namespace Colloquy.Number

structure Numeral where
  whole : List Char
  fraction : List Char
  exponent : Option Int := none

def roundedUnits (num den : Nat) (power : Int) : Nat :=
  if 0 ≤ power then roundHalfEven num (den * Nat.pow 10 power.toNat)
  else roundHalfEven (num * Nat.pow 10 (-power).toNat) den

def maxPlaces : Nat := 1100

def extended (places : Nat) (ds : List Char) : List Char :=
  ds ++ List.replicate (places - maxPlaces) '0'

def fixed (num den places : Nat) : Numeral :=
  let count := min places maxPlaces
  let ds := Nat.toDigits 10 (roundedUnits num den (-count))
  let ds := List.replicate (count + 1 - ds.length) '0' ++ ds
  let point := ds.length - count
  { whole := ds.take point, fraction := extended places (ds.drop point) }

def leadingDigits (num den places : Nat) : Nat × Int :=
  if num == 0 then (0, 0)
  else
    let power := leadingPower num den 400
    let digits := roundedUnits num den (power - places)
    if digits == Nat.pow 10 (places + 1) then (digits / 10, power + 1) else (digits, power)

def scientific (num den places : Nat) : Numeral :=
  let count := min places maxPlaces
  let (digits, power) := leadingDigits num den count
  let ds := Nat.toDigits 10 digits
  let ds := ds ++ List.replicate (count + 1 - ds.length) '0'
  { whole := ds.take 1, fraction := extended places (ds.drop 1), exponent := some power }

def general (num den count : Nat) : Numeral :=
  let count := max 1 count
  let (_, power) := leadingDigits num den (min (count - 1) maxPlaces)
  if -4 ≤ power && power < count then fixed num den (count - 1 - power).toNat
  else scientific num den (count - 1)

namespace Numeral

def trimmed (n : Numeral) : Numeral :=
  { n with fraction := (n.fraction.reverse.dropWhile (· == '0')).reverse }

def text (n : Numeral) (keepPoint : Bool) : String :=
  let point := if n.fraction.isEmpty && !keepPoint then "" else "."
  let power := match n.exponent with
    | none => ""
    | some power =>
      let size := toString power.natAbs
      "e" ++ (if power < 0 then "-" else "+") ++ (if size.length < 2 then "0" ++ size else size)
  String.ofList n.whole ++ point ++ String.ofList n.fraction ++ power

end Numeral

end Colloquy.Number
