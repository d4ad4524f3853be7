import Colloquy.Formula.Placeholder
import Colloquy.Formula.Syntax
import Colloquy.Number.Arithmetic
import Colloquy.Value.Access

/-! The operators of formulas.  Integers have any size; a formula that mixes kinds of numbers goes
on with the wider kind.  An operator that its operands do not have gives `none`. -/

namespace Colloquy.Formula

def floatPow? (x y : Float) : Option Operand :=
  if Number.hasComplexPower x y then
    ((Number.Complex.ofReal x).pow? (Number.Complex.ofReal y)).map .complex
  else (Number.pow? x y).map .float

def maxShift : Nat := 1000000000

def intOp? (op : BinaryOp) (a b : Int) : Option Operand :=
  match op with
  | .add => some (.int (a + b))
  | .sub => some (.int (a - b))
  | .mul => some (.int (a * b))
  | .div => (Number.divInts? a b).map .float
  | .floorDiv => if b == 0 then none else some (.int (a.fdiv b))
  | .mod => if b == 0 then none else some (.int (a.fmod b))
  | .pow =>
    if 0 ≤ b then (Number.powInt? a b.toNat).map .int
    else do floatPow? (← Number.ofInt? a) (← Number.ofInt? b)
  | .bitOr => some (.int (Number.bitwise Nat.lor a b))
  | .bitXor => some (.int (Number.bitwise Nat.xor a b))
  | .bitAnd => some (.int (Number.bitwise Nat.land a b))
  | .shiftLeft =>
    if b < 0 then none
    else if a == 0 then some (.int 0)
    else if b ≤ maxShift then some (.int (a * Nat.pow 2 b.toNat))
    else none
  | .shiftRight =>
    if b < 0 then none
    else if a.natAbs.log2 < b then some (.int (if a < 0 then -1 else 0))
    else some (.int (a.fdiv (Nat.pow 2 b.toNat)))
  | .matMul => none

def floatOp? (op : BinaryOp) (x y : Float) : Option Operand :=
  match op with
  | .add => some (.float (x + y))
  | .sub => some (.float (x - y))
  | .mul => some (.float (x * y))
  | .div => (Number.div? x y).map .float
  | .floorDiv => (Number.floorDiv? x y).map .float
  | .mod => (Number.modulo? x y).map .float
  | .pow => floatPow? x y
  | _ => none

def complexOp? (op : BinaryOp) (z w : Number.Complex) : Option Operand :=
  match op with
  | .add => some (.complex (z.add w))
  | .sub => some (.complex (z.sub w))
  | .mul => some (.complex (z.mul w))
  | .div => (z.div? w).map .complex
  | .pow => (z.pow? w).map .complex
  | _ => none

def maxRepetition : Nat := 100000000

/-- How often a sequence of the given size is repeated.  Numbers that no machine can count are
refused, also for empty sequences. -/
def repetitions? (size : Nat) (count : Operand) : Option Nat :=
  count.asInt?.bind fun n =>
    if n < -Nat.pow 2 63 || Nat.pow 2 63 ≤ n then none
    else if size == 0 then some 0
    else if maxRepetition < size * n.toNat then none
    else some n.toNat

def repeated? (sequence count : Operand) : Option Operand :=
  match sequence with
  | .text s => (repetitions? s.length count).map fun n => .text (s.repeated n)
  | .bytes s => (repetitions? s.length count).map fun n => .bytes (Text.repeated s n)
  | .list xs => (repetitions? xs.length count).map fun n => .list (List.replicate n xs).flatten
  | .tuple xs => (repetitions? xs.length count).map fun n => .tuple (List.replicate n xs).flatten
  | _ => none

def setOp? (op : BinaryOp) (xs ys : List Operand) : Option Operand :=
  let without (xs ys : List Operand) := xs.filter fun x => !ys.any (·.same x)
  match op with
  | .bitOr => some (.set (xs ++ without ys xs))
  | .bitAnd => some (.set (xs.filter fun x => ys.any (·.same x)))
  | .sub => some (.set (without xs ys))
  | .bitXor => some (.set (without xs ys ++ without ys xs))
  | _ => none

def containerOp? (op : BinaryOp) (a b : Operand) : Option Operand :=
  match op, a, b with
  | .add, .text s, .text t => some (.text (s.append t))
  | .add, .bytes s, .bytes t => some (.bytes (s ++ t))
  | .add, .list xs, .list ys => some (.list (xs ++ ys))
  | .add, .tuple xs, .tuple ys => some (.tuple (xs ++ ys))
  | .mul, _, _ => repeated? a b <|> repeated? b a
  | .mod, .text s, _ => (fillText? s b).map .text
  | .bitOr, .table xs, .table ys =>
    some (.table (ys.foldl (fun entries (k, v) => Operand.addEntry k v entries) xs))
  | op, .set xs, .set ys => setOp? op xs ys
  | _, _, _ => none

def binaryOp? (op : BinaryOp) (a b : Operand) : Option Operand :=
  match a.asInt?, b.asInt? with
  | some m, some n => intOp? op m n
  | _, _ =>
    if a.worth?.isSome && b.worth?.isSome then do floatOp? op (← a.toFloat?) (← b.toFloat?)
    else
      let isNumber (a : Operand) := a.worth?.isSome || a matches .complex _
      if isNumber a && isNumber b then do complexOp? op (← a.toComplex?) (← b.toComplex?)
      else containerOp? op a b

def unaryOp? (op : UnaryOp) (a : Operand) : Option Operand :=
  match op, a with
  | .minus, .float x => some (.float (-x))
  | .plus, .float x => some (.float x)
  | .minus, .complex z => some (.complex z.neg)
  | .plus, .complex z => some (.complex z)
  | .minus, _ => a.asInt?.map fun n => .int (-n)
  | .plus, _ => a.asInt?.map .int
  | .invert, _ => a.asInt?.map fun n => .int (-n - 1)

def compared? (op : CompareOp) (a b : Operand) : Option Bool :=
  match op with
  | .eq => some (a.same b)
  | .ne => some (!a.same b)
  | .lt => a.compare? .less b
  | .le => a.compare? .atMost b
  | .gt => a.compare? .greater b
  | .ge => a.compare? .atLeast b
  | .inside => a.member? b
  | .outside => (a.member? b).map (!·)
  | .identical => some (a.identical b)
  | .distinct => some (!a.identical b)

/-! ### Parts of sequences -/

def clampBound (size low high : Int) (n : Int) : Int :=
  let n := if n < 0 then n + size else n
  max low (min high n)

def rangePositions? (size : Nat) (start stop step : Option Int) : Option (List Nat) :=
  let step := step.getD 1
  if step == 0 then none
  else if 0 < step then
    let first := (start.map (clampBound size 0 size)).getD 0
    let last := (stop.map (clampBound size 0 size)).getD size
    let count := ((last - first + step - 1).fdiv step).toNat
    some ((List.range count).map fun (i : Nat) => (first + i * step).toNat)
  else
    let first := (start.map (clampBound size (-1) (size - 1))).getD (size - 1)
    let last := (stop.map (clampBound size (-1) (size - 1))).getD (-1)
    let count := ((first - last - step - 1).fdiv (-step)).toNat
    some ((List.range count).map fun (i : Nat) => (first + i * step).toNat)

def boundOf? : Option Operand → Option (Option Int)
  | none | some .null => some none
  | some a => a.asInt?.map some

def sliceOf? (a : Operand) (start stop step : Option Operand) : Option Operand := do
  let pick {α : Type} (xs : List α) : Option (List α) := do
    let positions ← rangePositions? xs.length (← boundOf? start) (← boundOf? stop) (← boundOf? step)
    return positions.filterMap (xs[·]?)
  match a with
  | .text s => return .text (.ofNats (← pick s.toNats))
  | .bytes s => return .bytes (String.ofList (← pick s.toList))
  | .list xs => return .list (← pick xs)
  | .tuple xs => return .tuple (← pick xs)
  | _ => none

def itemOf? (a key : Operand) : Option Operand :=
  match a with
  | .table entries => Operand.entry? key entries
  | .list _ | .tuple _ | .text _ | .bytes _ => do
    let items ← a.elements?
    items[← Value.position? items.length (← key.asInt?)]?
  | _ => none

end Colloquy.Formula
