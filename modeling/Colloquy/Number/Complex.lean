import Colloquy.Number.Binary

/-! Complex numbers with floating-point parts.  An operation that has no result, or one that is too
large, gives `none`. -/

namespace Colloquy.Number

structure Complex where
  re : Float
  im : Float

namespace Complex

def ofReal (x : Float) : Complex :=
  ⟨x, 0.0⟩

def isNonzero (z : Complex) : Bool :=
  z.re != 0.0 || z.im != 0.0

def neg (z : Complex) : Complex :=
  ⟨-z.re, -z.im⟩

def add (z w : Complex) : Complex :=
  ⟨z.re + w.re, z.im + w.im⟩

def sub (z w : Complex) : Complex :=
  ⟨z.re - w.re, z.im - w.im⟩

def mul (z w : Complex) : Complex :=
  ⟨z.re * w.re - z.im * w.im, z.re * w.im + z.im * w.re⟩

def div? (z w : Complex) : Option Complex :=
  let re := w.re.abs
  let im := w.im.abs
  if re ≥ im then
    if re == 0.0 then none
    else
      let ratio := w.im / w.re
      let scale := w.re + w.im * ratio
      some ⟨(z.re + z.im * ratio) / scale, (z.im - z.re * ratio) / scale⟩
  else if im ≥ re then
    let ratio := w.re / w.im
    let scale := w.re * ratio + w.im
    some ⟨(z.re * ratio + z.im) / scale, (z.im * ratio - z.re) / scale⟩
  else some ⟨0.0 / 0.0, 0.0 / 0.0⟩

def powNat (z : Complex) (n : Nat) (result : Complex) : Nat → Complex
  | 0 => result
  | fuel + 1 =>
    if n == 0 then result
    else powNat (z.mul z) (n / 2) (if n % 2 == 1 then result.mul z else result) fuel

def size (z : Complex) : Float :=
  let a := z.re.abs
  let b := z.im.abs
  let (large, small) := if a < b then (b, a) else (a, b)
  if small == 0.0 then large
  else
    let ratio := small / large
    large * (1.0 + ratio * ratio).sqrt

def polarPow (z w : Complex) : Complex :=
  let size := z.size
  let angle := Float.atan2 z.im z.re
  let length := size.pow w.re
  let phase := angle * w.re
  let (length, phase) :=
    if w.im == 0.0 then (length, phase)
    else (length / (angle * w.im).exp, phase + w.im * size.log)
  ⟨length * phase.cos, length * phase.sin⟩

def pow? (z w : Complex) : Option Complex :=
  let result? :=
    if w.im == 0.0 && w.re == w.re.floor && w.re.abs ≤ 100.0 then
      let n := w.re.abs.toUInt64.toNat
      let product := powNat z n ⟨1.0, 0.0⟩ 8
      if 0.0 < w.re then some product else div? ⟨1.0, 0.0⟩ product
    else if !z.isNonzero then
      if w.im != 0.0 || w.re < 0.0 then none else some ⟨0.0, 0.0⟩
    else some (polarPow z w)
  result?.bind fun r => if r.re.isInf || r.im.isInf then none else some r

end Complex

end Colloquy.Number
