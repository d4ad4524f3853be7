import Colloquy.Formula.Operand
import Colloquy.Number.Decimal
import Colloquy.Text.Integer
import Colloquy.Text.Quoted

/-! The text of operands.  `literal?` writes an operand as it stands inside another one, where texts
are quoted; `display?` writes a text as it is.  Integers with too many digits are not written. -/

namespace Colloquy.Formula

def partText (x : Float) : String :=
  let s := Number.display x
  if Text.endsWith s ".0" then String.ofList (s.toList.take (s.length - 2)) else s

def complexText (z : Number.Complex) : String :=
  if z.re.toBits == 0 then partText z.im ++ "j"
  else
    let im := partText z.im
    "(" ++ partText z.re ++ (if Text.startsWith im "-" then im else "+" ++ im) ++ "j)"

def quoteFor (codes : List Nat) : Char :=
  if codes.contains '\''.toNat && !codes.contains '"'.toNat then '"' else '\''

def Codes.quoted : Codes → String
  | .whole s => Text.quoted s
  | .broken codes =>
    let quote := quoteFor codes
    let escape (code : Nat) :=
      if Text.isSurrogate code then "\\u" ++ Text.hex 4 code
      else Text.escape quote (Char.ofNat code)
    quote.toString ++ String.join (codes.map escape) ++ quote.toString

def quotedBytes (s : String) : String :=
  let quote := quoteFor (s.toList.map Char.toNat)
  let escape (c : Char) :=
    if c.toNat < 0x7F then Text.escape quote c else "\\x" ++ Text.hex 2 c.toNat
  "b" ++ quote.toString ++ String.join (s.toList.map escape) ++ quote.toString

namespace Operand

mutual

def literal? : Operand → Option String
  | null => some "None"
  | bool b => some (if b then "True" else "False")
  | int n => if n.natAbs < Nat.pow 10 Text.maxDigits then some (toString n) else none
  | float x => some (Number.display x)
  | complex z => some (complexText z)
  | text s => some s.quoted
  | bytes s => some (quotedBytes s)
  | ellipsis => some "Ellipsis"
  | list items => (literals? items).map fun ss => "[" ++ Text.join ", " ss ++ "]"
  | tuple items =>
    (literals? items).map fun ss =>
      match ss with
      | [s] => "(" ++ s ++ ",)"
      | _ => "(" ++ Text.join ", " ss ++ ")"
  | set [] => some "set()"
  | set items => (literals? items).map fun ss => "\x7b" ++ Text.join ", " ss ++ "\x7d"
  | table entries =>
    (literalEntries? entries).map fun ss => "\x7b" ++ Text.join ", " ss ++ "\x7d"
  | function _ | clock => none

def literals? : List Operand → Option (List String)
  | [] => some []
  | a :: rest => do
    let s ← a.literal?
    return s :: (← literals? rest)

def literalEntries? : List (Operand × Operand) → Option (List String)
  | [] => some []
  | (k, v) :: rest => do
    let key ← k.literal?
    let value ← v.literal?
    return (key ++ ": " ++ value) :: (← literalEntries? rest)

end

def display? : Operand → Option Codes
  | text s => some s
  | a => a.literal?.map .whole

end Operand

end Colloquy.Formula
