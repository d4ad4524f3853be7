import Colloquy.Text.Integer
import Colloquy.Value.Access

/-! Reading JSON documents, the form in which compiled scripts are kept.  Objects keep the order of
their members; of members with the same name the last one counts, in the place of the first.  The
three numbers without digits, `NaN` and the infinities, are read as well.  Documents that are nested
too deep are not read. -/

namespace Colloquy.Json

def isGap (c : Char) : Bool :=
  c == ' ' || c == '\t' || c == '\n' || c == '\r'

def skipGap (cs : List Char) : List Char :=
  cs.dropWhile isGap

def hexDigit? (c : Char) : Option Nat :=
  if c.isDigit then some (c.toNat - '0'.toNat)
  else if 'a' ≤ c && c ≤ 'f' then some (c.toNat - 'a'.toNat + 10)
  else if 'A' ≤ c && c ≤ 'F' then some (c.toNat - 'A'.toNat + 10)
  else none

def codeUnit? (a b c d : Char) : Option Nat := do
  return (((← hexDigit? a) * 16 + (← hexDigit? b)) * 16 + (← hexDigit? c)) * 16 + (← hexDigit? d)

def simpleEscape? : Char → Option Char
  | '"' => some '"'
  | '\\' => some '\\'
  | '/' => some '/'
  | 'b' => some (Char.ofNat 8)
  | 'f' => some (Char.ofNat 12)
  | 'n' => some '\n'
  | 'r' => some '\r'
  | 't' => some '\t'
  | _ => none

def units? (read : List Nat) : List Char → Option (List Nat × List Char)
  | '"' :: rest => some (read.reverse, rest)
  | '\\' :: 'u' :: a :: b :: c :: d :: rest =>
    match codeUnit? a b c d with
    | some unit => units? (unit :: read) rest
    | none => none
  | '\\' :: c :: rest =>
    match simpleEscape? c with
    | some e => units? (e.toNat :: read) rest
    | none => none
  | c :: rest => if c.toNat < 0x20 || c == '\\' then none else units? (c.toNat :: read) rest
  | [] => none

def joinUnits (read : List Char) : List Nat → List Char
  | [] => read.reverse
  | [unit] => (Text.unitChar unit :: read).reverse
  | high :: low :: rest =>
    if 0xD800 ≤ high && high < 0xDC00 && 0xDC00 ≤ low && low < 0xE000 then
      joinUnits (Char.ofNat (0x10000 + (high - 0xD800) * 0x400 + (low - 0xDC00)) :: read) rest
    else joinUnits (Text.unitChar high :: read) (low :: rest)

def text? (cs : List Char) : Option (String × List Char) :=
  (units? [] cs).map fun (units, after) => (String.ofList (joinUnits [] units), after)

def digitsValue (ds : List Char) : Nat :=
  ds.foldl (fun n d => n * 10 + (d.toNat - '0'.toNat)) 0

def fraction (cs : List Char) : List Char × List Char :=
  match cs with
  | '.' :: rest =>
    let ds := rest.takeWhile Char.isDigit
    if ds.isEmpty then ([], cs) else (ds, rest.dropWhile Char.isDigit)
  | _ => ([], cs)

def exponent? (cs : List Char) : Option (Int × List Char) :=
  match cs with
  | mark :: rest =>
    if mark == 'e' || mark == 'E' then
      let (negative, rest) := match rest with
        | '-' :: more => (true, more)
        | '+' :: more => (false, more)
        | _ => (false, rest)
      let ds := rest.takeWhile Char.isDigit
      if ds.isEmpty then none
      else
        let n : Int := digitsValue ds
        some (if negative then -n else n, rest.dropWhile Char.isDigit)
    else none
  | [] => none

abbrev Reading (α : Type) := Except Fault (α × List Char)

def number (negative : Bool) (cs : List Char) : Reading Value :=
  let whole := cs.takeWhile Char.isDigit
  let (whole, rest) := match whole with
    | '0' :: _ => (['0'], cs.drop 1)
    | _ => (whole, cs.dropWhile Char.isDigit)
  if whole.isEmpty then .error .malformedJson
  else
    let (frac, rest) := fraction rest
    match exponent? rest with
    | some (power, rest) =>
      .ok (.float (Number.ofDecimal negative (digitsValue (whole ++ frac)) (power - frac.length)),
        rest)
    | none =>
      if !frac.isEmpty then
        .ok (.float (Number.ofDecimal negative (digitsValue (whole ++ frac)) (-frac.length)), rest)
      else if Text.maxDigits < whole.length then .error .badValue
      else
        let n : Int := digitsValue whole
        .ok (.int (if negative then -n else n), rest)

def scalar (cs : List Char) : Reading Value :=
  let word (w : String) (v : Value) : Option (Value × List Char) :=
    if w.toList.isPrefixOf cs then some (v, cs.drop w.length) else none
  let known := word "null" .null <|> word "true" (.bool true) <|> word "false" (.bool false) <|>
    word "NaN" (.float (0.0 / 0.0)) <|> word "Infinity" (.float (Number.infinity false)) <|>
    word "-Infinity" (.float (Number.infinity true))
  match known, cs with
  | some reading, _ => .ok reading
  | none, '-' :: rest => number true rest
  | none, _ => number false cs

def maxDepth : Nat := 980

mutual

def value (depth : Nat) : Nat → List Char → Reading Value
  | 0, _ => .error .malformedJson
  | fuel + 1, cs =>
    match cs with
    | '"' :: rest =>
      match text? rest with
      | some (s, after) => .ok (.str s, after)
      | none => .error .malformedJson
    | '[' :: rest =>
      if maxDepth ≤ depth then .error .tooDeep
      else match skipGap rest with
        | ']' :: after => .ok (.ofItems [], after)
        | start => (items (depth + 1) fuel [] start).map fun (items, after) =>
            (.ofItems items, after)
    | '\x7b' :: rest =>
      if maxDepth ≤ depth then .error .tooDeep
      else match skipGap rest with
        | '\x7d' :: after => .ok (.table [], after)
        | start => (members (depth + 1) fuel [] start).map fun (entries, after) =>
            (.table entries, after)
    | _ => scalar cs

def items (depth : Nat) : Nat → List Value → List Char → Reading (List Value)
  | 0, _, _ => .error .malformedJson
  | fuel + 1, read, cs =>
    match value depth fuel cs with
    | .error fault => .error fault
    | .ok (v, rest) =>
      match skipGap rest with
      | ',' :: more => items depth fuel (v :: read) (skipGap more)
      | ']' :: after => .ok ((v :: read).reverse, after)
      | _ => .error .malformedJson

def members (depth : Nat) : Nat → Entries → List Char → Reading Entries
  | 0, _, _ => .error .malformedJson
  | fuel + 1, entries, cs =>
    match cs with
    | '"' :: rest =>
      match text? rest with
      | none => .error .malformedJson
      | some (name, rest) =>
        match skipGap rest with
        | ':' :: rest =>
          match value depth fuel (skipGap rest) with
          | .error fault => .error fault
          | .ok (v, rest) =>
            let entries := Entries.insert (.str name) v entries
            match skipGap rest with
            | ',' :: more => members depth fuel entries (skipGap more)
            | '\x7d' :: after => .ok (entries, after)
            | _ => .error .malformedJson
        | _ => .error .malformedJson
    | _ => .error .malformedJson

end

def read (s : String) : Except Fault Value := do
  let cs := s.toList
  let (v, rest) ← value 0 (2 * cs.length + 2) (skipGap cs)
  if (skipGap rest).isEmpty then return v else .error .malformedJson

end Colloquy.Json
