import Colloquy.Number.Binary

/-! Decimal text of floating-point numbers.  `shortest` gives the fewest digits that read back as
the number, `display` writes them, and `roundPlaces` rounds a number to decimal places on its exact
value. -/

namespace Colloquy.Number

/-- Whether `digits * 10 ^ power` rounds to `significand * 2 ^ exponent`.  Every number between the
midpoints to the two neighbours does, and the midpoints themselves if the significand is even.  The
gap below a power of two is half the gap above it. -/
def roundsTo (significand : Nat) (exponent : Int) (digits : Nat) (power : Int) : Bool :=
  let narrow := significand == Nat.pow 2 52 && exponent != -1074
  let lowGap := if narrow then 1 else 2
  -- everything in quarters of the unit `2 ^ exponent`
  let (num, den) := scale (4 * digits) 1 (-exponent)
  let (num, den) :=
    if 0 ≤ power then (num * Nat.pow 10 power.toNat, den)
    else (num, den * Nat.pow 10 (-power).toNat)
  let low := (4 * significand - lowGap) * den
  let high := (4 * significand + 2) * den
  if significand % 2 == 0 then low ≤ num && num ≤ high else low < num && num < high

def leadingPower (num den : Nat) : Nat → Int
  | 0 => 0
  | fuel + 1 =>
    if den ≤ num then (Nat.toDigits 10 (num / den)).length - 1
    else leadingPower (num * 10) den fuel - 1

def shortestFrom (significand : Nat) (exponent power : Int) (num den : Nat) :
    Nat → Nat → Nat × Int
  | 0, _ => (num / den, 0)
  | fuel + 1, count =>
    let unit := power - count + 1
    let (n, d) :=
      if 0 ≤ unit then (num, den * Nat.pow 10 unit.toNat) else (num * Nat.pow 10 (-unit).toNat, den)
    let below := n / d
    let above := below + 1
    let low := roundsTo significand exponent below unit
    let high := roundsTo significand exponent above unit
    let twice := 2 * (n % d)
    if low && (!high || twice < d || (twice == d && below % 2 == 0)) then (below, unit)
    else if high then (above, unit)
    else shortestFrom significand exponent power num den fuel (count + 1)

def shortest (significand : Nat) (exponent : Int) : Nat × Int :=
  let (num, den) := scale significand 1 exponent
  shortestFrom significand exponent (leadingPower num den 400) num den 17 1

/-- `digits * 10 ^ power` in positional notation from `0.0001` to below `10 ^ 16`, and otherwise
with an exponent of a sign and at least two digits.  A positional integer keeps one zero behind the
point. -/
def writeDigits (digits : Nat) (power : Int) : String :=
  let ds := Nat.toDigits 10 digits
  let lead : Int := ds.length - 1 + power
  if -4 ≤ lead && lead < 16 then
    if 0 ≤ power then String.ofList (ds ++ List.replicate power.toNat '0') ++ ".0"
    else if 0 ≤ lead then
      String.ofList (ds.take (lead + 1).toNat) ++ "." ++ String.ofList (ds.drop (lead + 1).toNat)
    else "0." ++ String.ofList (List.replicate (-lead - 1).toNat '0' ++ ds)
  else
    let point := match ds with
      | [d] => String.ofList [d]
      | d :: rest => String.ofList (d :: '.' :: rest)
      | [] => ""
    let size := toString lead.natAbs
    point ++ "e" ++ (if lead < 0 then "-" else "+") ++
      (if size.length < 2 then "0" ++ size else size)

def dropZeros (digits : Nat) (power : Int) : Nat → Nat × Int
  | 0 => (digits, power)
  | fuel + 1 =>
    if digits % 10 == 0 && digits != 0 then dropZeros (digits / 10) (power + 1) fuel
    else (digits, power)

def display (x : Float) : String :=
  match parts x with
  | .notANumber => "nan"
  | .infinite negative => if negative then "-inf" else "inf"
  | .finite negative significand exponent =>
    let sign := if negative then "-" else ""
    if significand == 0 then sign ++ "0.0"
    else
      let (digits, power) := shortest significand exponent
      let (digits, power) := dropZeros digits power 20
      sign ++ writeDigits digits power

def roundPlaces (places : Nat) (x : Float) : Float :=
  match parts x with
  | .finite negative significand exponent =>
    let (num, den) := scale (significand * Nat.pow 10 places) 1 exponent
    (nearest? negative (roundHalfEven num den) (Nat.pow 10 places)).getD x
  | _ => x

end Colloquy.Number
