import Colloquy.Fault
import Colloquy.Number.Binary

/-! The time.  It is counted in milliseconds from a fixed moment on and told in seconds, as the
closest floating-point number; so times far off are told in coarser steps. -/

namespace Colloquy.Clock

def epoch : Nat := 1000000000

def seconds (elapsed : Nat) : Except Fault Float :=
  match Number.nearest? false (epoch + elapsed) 1000 with
  | some x => .ok x
  | none => .error .tooLarge

def wholeSeconds (elapsed : Nat) : Except Fault Int := do
  match Number.ratio? (← seconds elapsed) with
  | some (num, den) => return num.tdiv den
  | none => .error .tooLarge

def duration (seconds : Float) : Except Fault Nat :=
  match Number.parts (seconds * 1000.0), Number.ratio? (seconds * 1000.0) with
  | .infinite false, _ => .error .tooLarge
  | _, some (num, den) =>
    if seconds < 0.0 then .error .badValue else .ok (Number.roundHalfEven num.toNat den)
  | _, none => .error .badValue

def durationOf (seconds : Int) : Except Fault Nat :=
  if seconds < 0 then .error .badValue else .ok (seconds * 1000).toNat

end Colloquy.Clock
