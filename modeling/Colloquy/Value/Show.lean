import Colloquy.Number.Decimal
import Colloquy.Text.Quoted
import Colloquy.Value.Basic

/-! The text of a value.  `literal` writes it as it stands inside another value, where texts are
quoted; `display` writes a text as it is. -/

namespace Colloquy.Value

mutual

def literal : Value → String
  | null => "None"
  | bool b => if b then "True" else "False"
  | int n => toString n
  | float x => Number.display x
  | str s => Text.quoted s
  | list items _ => "[" ++ Text.join ", " (literals items) ++ "]"
  | tuple [x] => "(" ++ literal x ++ ",)"
  | tuple items => "(" ++ Text.join ", " (literals items) ++ ")"
  | table entries => "\x7b" ++ Text.join ", " (literalEntries entries) ++ "\x7d"
  | set [] => "set()"
  | set items => "\x7b" ++ Text.join ", " (literals items) ++ "\x7d"
  | record fields => "\x7b" ++ Text.join ", " (literalFields fields) ++ "\x7d"

def literals : List Value → List String
  | [] => []
  | x :: xs => literal x :: literals xs

def literalEntries : List (Value × Value) → List String
  | [] => []
  | (k, v) :: rest => (literal k ++ ": " ++ literal v) :: literalEntries rest

def literalFields : List (String × Value) → List String
  | [] => []
  | (name, v) :: rest => (Text.quoted name ++ ": " ++ literal v) :: literalFields rest

end

def display : Value → String
  | str s => s
  | v => literal v

end Colloquy.Value
