import Colloquy.Text.Blank
import Colloquy.Text.Numeral

/-! Reading integers: a sign and decimal digits of any script, between which single underscores may
stand, with blanks around them.  Integers with too many digits are not read. -/

namespace Colloquy.Text

def readDigits? (n : Nat) : List Char → Option Nat
  | [] => some n
  | '_' :: c :: rest => (digitValue? c).bind fun d => readDigits? (n * 10 + d) rest
  | c :: rest => (digitValue? c).bind fun d => readDigits? (n * 10 + d) rest

def maxDigits : Nat := 4300

def readNatural? (cs : List Char) : Option Nat :=
  match cs with
  | c :: rest =>
    if maxDigits < cs.countP (· != '_') then none
    else (digitValue? c).bind fun d => readDigits? d rest
  | [] => none

def readInt? (s : String) : Option Int :=
  match (trim s).toList with
  | '-' :: rest => (readNatural? rest).map fun n => -n
  | '+' :: rest => (readNatural? rest).map fun n => n
  | cs => (readNatural? cs).map fun n => n

end Colloquy.Text
