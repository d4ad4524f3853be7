import Colloquy.Formula.Codes
import Colloquy.Json.Reader
import Colloquy.Text.CharacterName
import Colloquy.Text.Identifier

/-! The words of a formula.  Inside brackets line ends count as blanks; outside of them they end the
formula, and a line that is indented after its end is a word of its own, which no formula has. -/

namespace Colloquy.Formula

open Json (hexDigit?)
open Text (maxDigits)

inductive Token where
  | int (n : Nat)
  | float (x : Float)
  | imaginary (x : Float)
  | text (s : Codes)
  | bytes (s : String)
  | template (raw : Bool) (body : List Char)
  | name (s : String)
  | mark (s : String)
  | lineEnd
  | indent
  | garbage
  deriving BEq

/-! ### Numbers -/

def digitRun? (isDigit : Char → Bool) : List Char → Option (List Char × List Char)
  | '_' :: c :: rest =>
    if isDigit c then (digitRun? isDigit rest).map fun (ds, after) => (c :: ds, after) else none
  | c :: rest =>
    if isDigit c then (digitRun? isDigit rest).map fun (ds, after) => (c :: ds, after)
    else if c == '_' then none
    else some ([], c :: rest)
  | [] => some ([], [])

def baseValue (base : Nat) (ds : List Char) : Nat :=
  ds.foldl (fun n d => n * base + (hexDigit? d).getD 0) 0

def numberFollowers : List String :=
  ["and", "else", "for", "if", "in", "is", "not", "or"]

def endsNumber (rest : List Char) : Bool :=
  !rest.head?.any (fun c => c.isAlphanum || c == '_' || 0x80 ≤ c.toNat) ||
    numberFollowers.any fun word => word.toList.isPrefixOf rest

def ended (token : Token) (rest : List Char) : Option (Token × List Char) :=
  if endsNumber rest then some (token, rest) else none

def baseNumber? (base : Nat) (cs : List Char) : Option (Token × List Char) := do
  let (ds, rest) ← digitRun? (fun c => (hexDigit? c).any (· < base)) cs
  if ds.isEmpty then none else ended (.int (baseValue base ds)) rest

def fraction? (cs : List Char) : Option (List Char × Bool × List Char) :=
  match cs with
  | '.' :: rest =>
    if rest.head?.any Char.isDigit then
      (digitRun? Char.isDigit rest).map fun (ds, after) => (ds, true, after)
    else some ([], true, rest)
  | _ => some ([], false, cs)

def exponent? (cs : List Char) : Option (Option Int × List Char) :=
  match cs with
  | mark :: rest =>
    if mark == 'e' || mark == 'E' then
      let (sign, digits) := match rest with
        | '-' :: more => (some true, more)
        | '+' :: more => (some false, more)
        | _ => (none, rest)
      if digits.head?.any Char.isDigit then do
        let (ds, after) ← digitRun? Char.isDigit digits
        let n : Int := baseValue 10 ds
        return (some (if sign == some true then -n else n), after)
      else if sign.isSome then none
      else some (none, cs)
    else some (none, cs)
  | [] => some (none, cs)

def decimal? (cs : List Char) : Option (Token × List Char) := do
  let (whole, rest) ←
    if cs.head? == some '.' then some ([], cs) else digitRun? Char.isDigit cs
  let (frac, pointed, rest) ← fraction? rest
  let (power, rest) ← exponent? rest
  let x := Number.ofDecimal false (baseValue 10 (whole ++ frac)) (power.getD 0 - frac.length)
  match rest with
  | 'j' :: rest | 'J' :: rest => ended (.imaginary x) rest
  | _ =>
    if pointed || power.isSome then ended (.float x) rest
    else if whole.head? == some '0' && whole.any (· != '0') then none
    else if maxDigits < whole.length then none
    else ended (.int (baseValue 10 whole)) rest

def number? (cs : List Char) : Option (Token × List Char) :=
  match cs with
  | '0' :: 'x' :: rest | '0' :: 'X' :: rest => baseNumber? 16 rest
  | '0' :: 'o' :: rest | '0' :: 'O' :: rest => baseNumber? 8 rest
  | '0' :: 'b' :: rest | '0' :: 'B' :: rest => baseNumber? 2 rest
  | _ => decimal? cs

/-! ### Texts -/

def hexCode? (count : Nat) (cs : List Char) : Option (Nat × List Char) :=
  let ds := cs.take count
  if ds.length == count && ds.all fun d => (hexDigit? d).isSome then
    some (baseValue 16 ds, cs.drop count)
  else none

def hexChar? (count : Nat) (cs : List Char) : Option (List Nat × List Char) := do
  let (code, rest) ← hexCode? count cs
  if code < 0x110000 then some ([code], rest) else none

def octalCode (cs : List Char) : Nat × Nat :=
  let ds := (cs.take 3).takeWhile fun d => '0' ≤ d && d ≤ '7'
  (baseValue 8 ds, ds.length)

def letterEscape? : Char → Option (List Nat)
  | '\n' => some []
  | '\\' => some ['\\'.toNat]
  | '\'' => some ['\''.toNat]
  | '"' => some ['"'.toNat]
  | 'a' => some [7]
  | 'b' => some [8]
  | 't' => some [9]
  | 'n' => some [10]
  | 'v' => some [11]
  | 'f' => some [12]
  | 'r' => some [13]
  | _ => none

def escape? (cs : List Char) : Option (List Nat × List Char) :=
  match cs with
  | 'x' :: rest => hexChar? 2 rest
  | 'u' :: rest => hexChar? 4 rest
  | 'U' :: rest => hexChar? 8 rest
  | 'N' :: '\x7b' :: rest =>
    let name := rest.takeWhile (· != '\x7d')
    match rest.drop name.length with
    | _ :: rest => (Text.characterNamed? (String.ofList name)).map fun c => ([c.toNat], rest)
    | [] => none
  | 'N' :: _ => none
  | c :: rest =>
    match letterEscape? c, octalCode cs with
    | some e, _ => some (e, rest)
    | none, (_, 0) => some (['\\'.toNat, c.toNat], rest)
    | none, (code, size) => some ([code], cs.drop size)
  | [] => some (['\\'.toNat], [])

def byteEscape? (cs : List Char) : Option (List Nat × List Char) :=
  match cs with
  | 'x' :: rest => hexChar? 2 rest
  | c :: rest =>
    match letterEscape? c, octalCode cs with
    | some e, _ => some (e, rest)
    | none, (_, 0) => some (['\\'.toNat, c.toNat], rest)
    | none, (code, size) => some ([code % 256], cs.drop size)
  | [] => none

def unescape? (escape : List Char → Option (List Nat × List Char)) :
    Nat → List Char → Option (List Nat)
  | 0, _ => none
  | _ + 1, [] => some []
  | fuel + 1, '\\' :: rest =>
    match escape rest with
    | some (e, rest) => (unescape? escape fuel rest).map (e ++ ·)
    | none => none
  | fuel + 1, c :: rest => (unescape? escape fuel rest).map (c.toNat :: ·)

def plainBody? (raw : Bool) (body : List Char) : Option Codes :=
  if raw then some (.whole (String.ofList body))
  else (unescape? escape? (body.length + 1) body).map Codes.ofNats

/-- What stands between the quotes of a text, and what follows the closing ones.  A backslash keeps
the character behind it from ending the text, and only a text between triple quotes has line ends of
its own. -/
def textBody? (close : List Char) : Nat → List Char → Option (List Char × List Char)
  | 0, _ => none
  | fuel + 1, cs =>
    if close.isPrefixOf cs then some ([], cs.drop close.length)
    else
      match cs with
      | '\\' :: c :: rest =>
        (textBody? close fuel rest).map fun (s, after) => ('\\' :: c :: s, after)
      | c :: rest =>
        if c == '\n' && close.length == 1 then none
        else (textBody? close fuel rest).map fun (s, after) => (c :: s, after)
      | [] => none

def textWord (lead : String) (body : List Char) : Option Token :=
  let has (c : Char) := lead.toList.any fun d => d.toLower == c
  let raw := has 'r'
  if has 'f' then some (.template raw body)
  else if has 'b' then
    if body.any (0x80 ≤ ·.toNat) then none
    else if raw then some (.bytes (String.ofList body))
    else
      (unescape? byteEscape? (body.length + 1) body).map fun codes =>
        .bytes (String.ofList (codes.map Char.ofNat))
  else (plainBody? raw body).map .text

def text? (lead : String) (cs : List Char) : Option (Token × List Char) :=
  match cs with
  | quote :: rest =>
    let triple := [quote, quote, quote]
    let (close, rest) := if triple.isPrefixOf cs then (triple, cs.drop 3) else ([quote], rest)
    match textBody? close (rest.length + 1) rest with
    | some (body, after) => (textWord lead body).map fun token => (token, after)
    | none => none
  | [] => none

def textLeads : List String :=
  ["r", "u", "b", "f", "br", "rb", "fr", "rf"]

/-! ### Words -/

def marks : List String :=
  ["**=", "//=", ">>=", "<<=", "...", "**", "//", "<<", ">>", "<=", ">=", "==", "!=", "->", "+=",
   "-=", "*=", "/=", "%=", "&=", "|=", "^=", "@=", "<>", ":=", "+", "-", "*", "/", "%", "@", "&",
   "|", "^", "~", "<", ">", "(", ")", "[", "]", "\x7b", "\x7d", ",", ":", ".", ";", "="]

def maxDepth : Nat := 200

def bracketsAfter? (brackets : List String) (m : String) : Option (List String) :=
  let closing (opening : String) :=
    match brackets with
    | b :: outer => if b == opening then some outer else none
    | [] => none
  match m with
  | "(" | "[" | "\x7b" => if brackets.length < maxDepth then some (m :: brackets) else none
  | ")" => closing "("
  | "]" => closing "["
  | "\x7d" => closing "\x7b"
  | _ => some brackets

/-- How far a line is indented, and the rest of the line.  A page break starts the count anew, and
a backslash at the end of a line joins the next one without changing what was counted before. -/
def indentation (joined : Option Nat) (column : Nat) : List Char → Nat × List Char
  | ' ' :: rest => indentation joined (column + 1) rest
  | '\t' :: rest => indentation joined ((column / 8 + 1) * 8) rest
  | '\x0c' :: rest => indentation joined 0 rest
  | '\\' :: '\n' :: c :: rest =>
    indentation (if joined.getD 0 == 0 then some column else joined) column (c :: rest)
  | cs => (if joined.getD 0 == 0 then column else joined.getD 0, cs)

def word? (cs : List Char) : Option (Token × List Char) :=
  match cs with
  | [] => none
  | c :: rest =>
    if c == '"' || c == '\'' then text? "" cs
    else if c.isDigit || (c == '.' && rest.head?.any Char.isDigit) then number? cs
    else if c.isAlpha || c == '_' || 0x80 ≤ c.toNat then
      let isPart (c : Char) := c.isAlphanum || c == '_' || 0x80 ≤ c.toNat
      let word := cs.takeWhile isPart
      let after := cs.dropWhile isPart
      let lead := String.ofList word
      let quoted := after.head?.any fun q => q == '"' || q == '\''
      if quoted && textLeads.contains lead.toLower then text? lead after
      else if Text.isNameStart c && word.all Text.isNamePart then some (.name lead, after)
      else none
    else (marks.find? fun m => m.toList.isPrefixOf cs).map fun m => (.mark m, cs.drop m.length)

/-- The words of a formula inside the given brackets, the innermost first.  At the start of a line
outside of brackets the indentation counts.  The words end with `garbage` at the first characters
that make none. -/
def scanFrom : Nat → Bool → List String → List Char → List Token
  | 0, _, _, _ => [.garbage]
  | fuel + 1, true, brackets, cs =>
    let (column, rest) := indentation none 0 cs
    match rest with
    | [] => []
    | '\n' :: rest => scanFrom fuel true brackets rest
    | '#' :: rest => scanFrom fuel true brackets ((rest.dropWhile (· != '\n')).drop 1)
    | _ => if column == 0 then scanFrom fuel false brackets rest else [.indent]
  | fuel + 1, false, brackets, cs =>
    match cs with
    | [] => if brackets.isEmpty then [] else [.garbage]
    | ' ' :: rest | '\t' :: rest | '\x0c' :: rest => scanFrom fuel false brackets rest
    | '#' :: rest => scanFrom fuel false brackets (rest.dropWhile (· != '\n'))
    | '\n' :: rest =>
      if brackets.isEmpty then .lineEnd :: scanFrom fuel true brackets rest
      else scanFrom fuel false brackets rest
    | '\\' :: '\n' :: c :: rest => scanFrom fuel false brackets (c :: rest)
    | cs =>
      match word? cs with
      | some (.mark m, rest) =>
        match bracketsAfter? brackets m with
        | some brackets => .mark m :: scanFrom fuel false brackets rest
        | none => [.garbage]
      | some (token, rest) => token :: scanFrom fuel false brackets rest
      | none => [.garbage]

def unifyLines : List Char → List Char
  | '\r' :: '\n' :: rest => '\n' :: unifyLines rest
  | '\r' :: rest => '\n' :: unifyLines rest
  | c :: rest => c :: unifyLines rest
  | [] => []

def scan (s : String) : List Token :=
  let cs := unifyLines (s.toList.dropWhile fun c => c == ' ' || c == '\t')
  scanFrom (2 * cs.length + 2) true [] cs

end Colloquy.Formula
