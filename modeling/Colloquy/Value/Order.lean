import Colloquy.Fault
import Colloquy.Number.Binary
import Colloquy.Text.Surrogate
import Colloquy.Value.Basic

/-! Equality and order of values.  Numbers are compared by what they are worth, whatever their kind,
and truth and falsehood count as one and zero.  Tables are equal if they hold equal values under the
same keys, in any order. -/

namespace Colloquy.Value

inductive Worth where
  | exact (n : Int)
  | approximate (x : Float)

def worth? : Value → Option Worth
  | int n => some (.exact n)
  | bool b => some (.exact (if b then 1 else 0))
  | float x => some (.approximate x)
  | _ => none

def Worth.compare? : Worth → Worth → Option Ordering
  | .exact a, .exact b => some (Ord.compare a b)
  | .approximate x, .approximate y =>
    if x < y then some .lt else if x == y then some .eq else if y < x then some .gt else none
  | .exact a, .approximate y =>
    match Number.parts y, Number.ratio? y with
    | .infinite negative, _ => some (if negative then .gt else .lt)
    | _, some (num, den) => some (Ord.compare (a * den) num)
    | _, none => none
  | .approximate x, .exact b =>
    match Number.parts x, Number.ratio? x with
    | .infinite negative, _ => some (if negative then .lt else .gt)
    | _, some (num, den) => some (Ord.compare num (b * den))
    | _, none => none

def sameLeaf (v w : Value) : Bool :=
  match v, w with
  | null, null => true
  | str s, str t => s == t
  | _, _ =>
    match v.worth?, w.worth? with
    | some a, some b => a.compare? b == some .eq
    | _, _ => false

mutual

def same : Value → Value → Bool
  | list xs _, list ys _ => sameItems xs ys
  | tuple xs, tuple ys => sameItems xs ys
  | set xs, set ys => xs.length == ys.length && itemsWithin xs ys
  | table xs, table ys => xs.length == ys.length && entriesWithin xs ys
  | null, w => sameLeaf null w
  | bool b, w => sameLeaf (bool b) w
  | int n, w => sameLeaf (int n) w
  | float x, w => sameLeaf (float x) w
  | str s, w => sameLeaf (str s) w
  | _, _ => false

def sameItems : List Value → List Value → Bool
  | [], [] => true
  | x :: xs, y :: ys => same x y && sameItems xs ys
  | _, _ => false

def itemsWithin : List Value → List Value → Bool
  | [], _ => true
  | x :: xs, ys => ys.any (fun y => same x y) && itemsWithin xs ys

def entriesWithin : List (Value × Value) → List (Value × Value) → Bool
  | [], _ => true
  | (k, v) :: xs, ys => ys.any (fun (k', v') => same k k' && same v v') && entriesWithin xs ys

end

instance : BEq Value := ⟨same⟩

inductive Comparison where
  | less
  | atMost
  | greater
  | atLeast
  deriving DecidableEq, Repr

def Comparison.accepts : Comparison → Ordering → Bool
  | .less, o => o == .lt
  | .atMost, o => o != .gt
  | .greater, o => o == .gt
  | .atLeast, o => o != .lt

mutual

/-- Whether `v` and `w` are in the relation.  Numbers compare with numbers, texts with texts, and
sequences of one kind with each other by the first items in which they differ. -/
def compare (relation : Comparison) : Value → Value → Except Fault Bool
  | list xs _, list ys _ => compareItems relation xs ys
  | tuple xs, tuple ys => compareItems relation xs ys
  | str s, str t => .ok (relation.accepts (Text.order s t))
  | v, w =>
    match v.worth?, w.worth? with
    | some a, some b => .ok (((a.compare? b).map relation.accepts).getD false)
    | _, _ => .error .wrongKind

def compareItems (relation : Comparison) : List Value → List Value → Except Fault Bool
  | [], ys => .ok (relation.accepts (if ys.isEmpty then .eq else .lt))
  | _ :: _, [] => .ok (relation.accepts .gt)
  | x :: xs, y :: ys =>
    if same x y then compareItems relation xs ys else compare relation x y

end

def isKey : Value → Bool
  | null | bool _ | int _ | float _ | str _ => true
  | tuple items => areKeys items
  | _ => false
where
  areKeys : List Value → Bool
    | [] => true
    | x :: xs => isKey x && areKeys xs

end Colloquy.Value
