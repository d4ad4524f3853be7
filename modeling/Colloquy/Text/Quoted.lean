import Colloquy.Text.Printable
import Colloquy.Text.Search

/-! Texts between quotes.  The quotes are single, unless the text has a single quote and no double
one.  Backslashes, the chosen quote and what is not printable are escaped. -/

namespace Colloquy.Text

def hex (width n : Nat) : String :=
  let ds := Nat.toDigits 16 n
  String.ofList (List.replicate (width - ds.length) '0' ++ ds)

def numberEscape (c : Char) : String :=
  if c.toNat < 0x100 then "\\x" ++ hex 2 c.toNat
  else if c.toNat < 0x10000 then "\\u" ++ hex 4 c.toNat
  else "\\U" ++ hex 8 c.toNat

def escape (quote c : Char) : String :=
  if c == quote || c == '\\' then String.ofList ['\\', c]
  else if c == '\n' then "\\n"
  else if c == '\r' then "\\r"
  else if c == '\t' then "\\t"
  else if isPrintable c then c.toString
  else numberEscape c

def quoted (s : String) : String :=
  let quote := if s.toList.contains '\'' && !s.toList.contains '"' then '"' else '\''
  quote.toString ++ String.join (s.toList.map (escape quote)) ++ quote.toString

def plainAscii (s : String) : String :=
  String.join (s.toList.map fun c => if c.toNat < 0x80 then c.toString else numberEscape c)

end Colloquy.Text
