import Colloquy.Text.Surrogate
import Colloquy.Value.Show

/-! Writing values as JSON documents of basic characters only.  Names of members are texts, so a key
of another kind is written as its text. -/

namespace Colloquy.Json

def writeChar (c : Char) : String :=
  match c with
  | '"' => "\\\""
  | '\\' => "\\\\"
  | '\n' => "\\n"
  | '\r' => "\\r"
  | '\t' => "\\t"
  | _ =>
    if c.toNat == 8 then "\\b"
    else if c.toNat == 12 then "\\f"
    else if 0x20 ≤ c.toNat && c.toNat < 0x7F then c.toString
    else String.join ((Text.unitsOf c).map fun unit => "\\u" ++ Text.hex 4 unit)

def writeText (s : String) : String :=
  "\"" ++ String.join (s.toList.map writeChar) ++ "\""

def writeFloat (x : Float) : String :=
  match Number.parts x with
  | .notANumber => "NaN"
  | .infinite negative => if negative then "-Infinity" else "Infinity"
  | .finite .. => Number.display x

mutual

def write : Value → String
  | .null => "null"
  | .bool b => if b then "true" else "false"
  | .int n => toString n
  | .float x => writeFloat x
  | .str s => writeText s
  | .list items _ => "[" ++ Text.join ", " (writeItems items) ++ "]"
  | .tuple items => "[" ++ Text.join ", " (writeItems items) ++ "]"
  | .set items => "[" ++ Text.join ", " (writeItems items) ++ "]"
  | .table entries => "\x7b" ++ Text.join ", " (writeEntries entries) ++ "\x7d"
  | .record fields => "\x7b" ++ Text.join ", " (writeFields fields) ++ "\x7d"

def writeItems : List Value → List String
  | [] => []
  | x :: xs => write x :: writeItems xs

def writeEntries : List (Value × Value) → List String
  | [] => []
  | (k, v) :: rest => (writeText k.display ++ ": " ++ write v) :: writeEntries rest

def writeFields : List (String × Value) → List String
  | [] => []
  | (name, v) :: rest => (writeText name ++ ": " ++ write v) :: writeFields rest

end

end Colloquy.Json
