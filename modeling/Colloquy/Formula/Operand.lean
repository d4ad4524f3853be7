import Colloquy.Formula.Codes
import Colloquy.Number.Complex
import Colloquy.Value.Order

/-! What formulas can stand for: values as scripts have them, and besides these complex numbers,
functions and the clock.  Numbers are compared by what they are worth, whatever their kind. -/

namespace Colloquy.Formula

open Value (Comparison Worth)

inductive Builtin where
  | sqrt
  | ln
  | log10
  | sin
  | cos
  | tan
  | sinh
  | cosh
  | tanh
  | asin
  | acos
  | atan
  | sleep
  | now
  deriving DecidableEq, Repr

inductive Operand where
  | null
  | bool (b : Bool)
  | int (n : Int)
  | float (x : Float)
  | complex (z : Number.Complex)
  | text (s : Codes)
  | bytes (s : String)
  | ellipsis
  | list (items : List Operand)
  | tuple (items : List Operand)
  | set (items : List Operand)
  | table (entries : List (Operand × Operand))
  | function (f : Builtin)
  | clock
  deriving Inhabited

namespace Operand

def truthy : Operand → Bool
  | null => false
  | bool b => b
  | int n => n != 0
  | float x => x != 0.0
  | complex z => z.isNonzero
  | text s => !s.isEmpty
  | bytes s => !s.isEmpty
  | list items | tuple items | set items => !items.isEmpty
  | table entries => !entries.isEmpty
  | ellipsis | function _ | clock => true

def asInt? : Operand → Option Int
  | int n => some n
  | bool b => some (if b then 1 else 0)
  | _ => none

def worth? : Operand → Option Worth
  | float x => some (.approximate x)
  | a => a.asInt?.map .exact

def toFloat? : Operand → Option Float
  | float x => some x
  | a => a.asInt?.bind Number.ofInt?

def toComplex? : Operand → Option Number.Complex
  | complex z => some z
  | a => a.toFloat?.map Number.Complex.ofReal

def sameLeaf (a b : Operand) : Bool :=
  let sameReal (z : Number.Complex) (w : Operand) :=
    z.im == 0.0 && w.worth?.any fun w => (Worth.approximate z.re).compare? w == some .eq
  match a, b with
  | null, null | ellipsis, ellipsis | clock, clock => true
  | text s, text t => s == t
  | bytes s, bytes t => s == t
  | function f, function g => f == g
  | complex z, complex w => z.re == w.re && z.im == w.im
  | complex z, w | w, complex z => sameReal z w
  | _, _ =>
    match a.worth?, b.worth? with
    | some v, some w => v.compare? w == some .eq
    | _, _ => false

mutual

def same : Operand → Operand → Bool
  | list xs, b => match b with
    | list ys => sameItems xs ys
    | _ => false
  | tuple xs, b => match b with
    | tuple ys => sameItems xs ys
    | _ => false
  | set xs, b => match b with
    | set ys => xs.length == ys.length && itemsWithin xs ys
    | _ => false
  | table xs, b => match b with
    | table ys => xs.length == ys.length && entriesWithin xs ys
    | _ => false
  | a, b => sameLeaf a b

def sameItems : List Operand → List Operand → Bool
  | [], [] => true
  | x :: xs, y :: ys => same x y && sameItems xs ys
  | _, _ => false

def itemsWithin : List Operand → List Operand → Bool
  | [], _ => true
  | x :: xs, ys => ys.any (fun y => same x y) && itemsWithin xs ys

def entriesWithin : List (Operand × Operand) → List (Operand × Operand) → Bool
  | [], _ => true
  | (k, v) :: xs, ys => ys.any (fun (k', v') => same k k' && same v v') && entriesWithin xs ys

end

def identical : Operand → Operand → Bool
  | null, null | ellipsis, ellipsis | clock, clock => true
  | bool a, bool b => a == b
  | int a, int b => a == b
  | float x, float y => x == y
  | text s, text t => s == t
  | bytes s, bytes t => s == t
  | function f, function g => f == g
  | tuple [], tuple [] => true
  | _, _ => false

mutual

/-- Whether two operands are in the relation, if they have an order.  Real numbers compare with each
other, texts with texts, sequences of one kind by the first items in which they differ, and sets by
what they hold. -/
def compare? (relation : Comparison) : Operand → Operand → Option Bool
  | list xs, b => match b with
    | list ys => compareItems? relation xs ys
    | _ => none
  | tuple xs, b => match b with
    | tuple ys => compareItems? relation xs ys
    | _ => none
  | set xs, b => match b with
    | set ys =>
      let within := itemsWithin xs ys
      let around := itemsWithin ys xs
      match relation with
      | .less => some (within && !around)
      | .atMost => some within
      | .greater => some (around && !within)
      | .atLeast => some around
    | _ => none
  | text s, b => match b with
    | text t => some (relation.accepts (s.order t))
    | _ => none
  | bytes s, b => match b with
    | bytes t => some (relation.accepts (Text.order s t))
    | _ => none
  | a, b =>
    match a.worth?, b.worth? with
    | some v, some w => some (((v.compare? w).map relation.accepts).getD false)
    | _, _ => none

def compareItems? (relation : Comparison) : List Operand → List Operand → Option Bool
  | [], ys => some (relation.accepts (if ys.isEmpty then .eq else .lt))
  | _ :: _, [] => some (relation.accepts .gt)
  | x :: xs, y :: ys =>
    if same x y then compareItems? relation xs ys else compare? relation x y

end

def isKey : Operand → Bool
  | list _ | set _ | table _ => false
  | tuple items => areKeys items
  | _ => true
where
  areKeys : List Operand → Bool
    | [] => true
    | x :: xs => isKey x && areKeys xs

def addItem (items : List Operand) (x : Operand) : List Operand :=
  if items.any (·.same x) then items else items ++ [x]

def addEntry (key value : Operand) : List (Operand × Operand) → List (Operand × Operand)
  | [] => [(key, value)]
  | (k, v) :: rest =>
    if k.same key then (k, value) :: rest else (k, v) :: addEntry key value rest

def entry? (key : Operand) (entries : List (Operand × Operand)) : Option Operand :=
  if key.isKey then (entries.find? fun (k, _) => k.same key).map (·.2) else none

def member? (x : Operand) : Operand → Option Bool
  | text s => match x with
    | text t => some (s.contains t)
    | _ => none
  | bytes s => match x with
    | bytes t => some (Text.contains s t)
    | int n => if 0 ≤ n && n < 256 then some (s.toList.any (·.toNat == n.toNat)) else none
    | _ => none
  | list items | tuple items => some (items.any (·.same x))
  | set items => match x with
    | set _ => some false
    | _ => if x.isKey then some (items.any (·.same x)) else none
  | table entries => if x.isKey then some (entries.any (·.1.same x)) else none
  | _ => none

def elements? : Operand → Option (List Operand)
  | list items | tuple items | set items => some items
  | text s => some (s.parts.map text)
  | bytes s => some (s.toList.map fun c => int c.toNat)
  | table entries => some (entries.map (·.1))
  | _ => none

mutual

def toValue? : Operand → Option Value
  | null => some .null
  | bool b => some (.bool b)
  | int n => some (.int n)
  | float x => some (.float x)
  | text s => s.toString?.map .str
  | list items => (toValues? items).map .ofItems
  | tuple items => (toValues? items).map .tuple
  | set items => (toValues? items).map .set
  | table entries => (toEntries? entries).map .table
  | complex _ | bytes _ | ellipsis | function _ | clock => none

def toValues? : List Operand → Option (List Value)
  | [] => some []
  | a :: rest => do
    let v ← a.toValue?
    return v :: (← toValues? rest)

def toEntries? : List (Operand × Operand) → Option (List (Value × Value))
  | [] => some []
  | (k, v) :: rest => do
    let key ← k.toValue?
    let value ← v.toValue?
    return (key, value) :: (← toEntries? rest)

end

end Operand

end Colloquy.Formula
