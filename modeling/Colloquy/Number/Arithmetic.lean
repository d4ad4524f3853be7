import Colloquy.Number.Binary

/-! Arithmetic on floating-point numbers beyond the four basic operations.  An operation that has no
result, or one that is too large, gives `none`. -/

namespace Colloquy.Number

def remainder (x y : Float) : Float :=
  match parts x, parts y with
  | .finite negative _ _, .finite .. =>
    match ratio? x, ratio? y with
    | some (a, d), some (b, e) =>
      let rest := (a * e).tmod (b * d)
      (nearest? negative rest.natAbs (d * e)).getD x
    | _, _ => x
  | .finite .., .infinite _ => x
  | _, _ => 0.0 / 0.0

def zeroLike (x : Float) : Float :=
  if Nat.pow 2 63 ≤ x.toBits.toNat then -0.0 else 0.0

def modulo? (x y : Float) : Option Float :=
  if y == 0.0 then none
  else
    let r := remainder x y
    if r == 0.0 then some (zeroLike y)
    else if (y < 0.0) != (r < 0.0) then some (r + y)
    else some r

def floorDiv? (x y : Float) : Option Float :=
  if y == 0.0 then none
  else
    let r := remainder x y
    let quotient := (x - r) / y
    let quotient := if r != 0.0 && (y < 0.0) != (r < 0.0) then quotient - 1.0 else quotient
    if quotient == 0.0 then some (zeroLike (x / y))
    else
      let below := quotient.floor
      some (if 0.5 < quotient - below then below + 1.0 else below)

def div? (x y : Float) : Option Float :=
  if y == 0.0 then none else some (x / y)

def divInts? (a b : Int) : Option Float :=
  if b == 0 then none else nearest? ((a < 0) != (b < 0)) a.natAbs b.natAbs

def hasComplexPower (x y : Float) : Bool :=
  x < 0.0 && x.isFinite && y.isFinite && y != y.floor

def pow? (x y : Float) : Option Float :=
  if x == 0.0 && y < 0.0 then none
  else
    let r := x.pow y
    if r.isInf && x.isFinite && y.isFinite then none else some r

def maxBits : Nat := 1000000000

def powInt? (a : Int) (n : Nat) : Option Int :=
  if n == 0 || a == 1 then some 1
  else if a == 0 then some 0
  else if a == -1 then some (if n % 2 == 0 then 1 else -1)
  else if maxBits < a.natAbs.log2 * n then none
  else some (Int.pow a n)

def bitwise (op : Nat → Nat → Nat) (a b : Int) : Int :=
  let width := max a.natAbs.log2 b.natAbs.log2 + 2
  let modulus := Nat.pow 2 width
  let bits := op (a.emod modulus).toNat (b.emod modulus).toNat
  if bits < modulus / 2 then bits else bits - modulus

def evaluate? (f : Float → Float) (x : Float) : Option Float :=
  let r := f x
  if (r.isNaN && !x.isNaN) || (r.isInf && x.isFinite) then none else some r

/-- The logarithm of a positive integer that is too large for a floating-point number: of the
fraction between a half and one that is closest to its leading bits, and of the power of two that
the fraction is taken times. -/
def logNat (log : Float → Float) (n : Nat) : Float :=
  let size := n.log2 + 1
  match nearest? false n (Nat.pow 2 size) with
  | some x =>
    if x < 1.0 then log x + log 2.0 * size.toFloat
    else log 0.5 + log 2.0 * (size + 1).toFloat
  | none => 0.0

end Colloquy.Number
