import Colloquy.Text.Integer
import Colloquy.Value.Order

/-! The integer that a value stands for. -/

namespace Colloquy.Value

def toInt : Value → Except Fault Int
  | int n => .ok n
  | bool b => .ok (if b then 1 else 0)
  | float x =>
    match Number.parts x, Number.ratio? x with
    | .infinite _, _ => .error .tooLarge
    | _, some (num, den) => .ok (num.tdiv den)
    | _, none => .error .badValue
  | str s =>
    match Text.readInt? s with
    | some n => .ok n
    | none => .error .badValue
  | _ => .error .wrongKind

end Colloquy.Value
