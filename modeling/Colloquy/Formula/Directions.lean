import Colloquy.Formula.Shown
import Colloquy.Formula.Syntax
import Colloquy.Number.Fixed

/-! Directions for writing a value into a text: in this order and each only if it is wanted a
character to fill up with and an alignment, a sign, marks, a width, a separator of groups, a
precision and a letter for the kind of text. -/

namespace Colloquy.Formula

inductive Alignment where
  | left
  | right
  | center
  | apart
  deriving DecidableEq, Repr

structure Directions where
  fill : Char := ' '
  alignment : Option Alignment := none
  sign : Option Char := none
  plainZero : Bool := false
  full : Bool := false
  width : Option Nat := none
  separator : Option Char := none
  precision : Option Nat := none
  kind : Option Char := none

/-! ### Reading directions -/

def alignmentOf? : Char → Option Alignment
  | '<' => some .left
  | '>' => some .right
  | '^' => some .center
  | '=' => some .apart
  | _ => none

def readAlignment (cs : List Char) : Option Char × Option Alignment × List Char :=
  match cs with
  | c :: d :: rest =>
    match alignmentOf? d, alignmentOf? c with
    | some alignment, _ => (some c, some alignment, rest)
    | none, some alignment => (none, some alignment, d :: rest)
    | none, none => (none, none, cs)
  | [c] =>
    match alignmentOf? c with
    | some alignment => (none, some alignment, [])
    | none => (none, none, cs)
  | [] => (none, none, cs)

def readMark (mark : Char) (cs : List Char) : Bool × List Char :=
  match cs with
  | c :: rest => if c == mark then (true, rest) else (false, cs)
  | [] => (false, [])

def maxDirected : Nat := Nat.pow 2 63 - 1

def readSize? (cs : List Char) : Option (Option Nat × List Char) :=
  let isDigit (c : Char) := (Text.digitValue? c).isSome
  let ds := cs.takeWhile isDigit
  if ds.isEmpty then some (none, cs)
  else
    let n := ds.foldl (fun n d => n * 10 + (Text.digitValue? d).getD 0) 0
    if n ≤ maxDirected then some (some n, cs.dropWhile isDigit) else none

def readDirections? (forNumber : Bool) (cs : List Char) : Option Directions := do
  let (fill, alignment, cs) := readAlignment cs
  let (sign, cs) := match cs with
    | c :: rest => if [' ', '+', '-'].contains c then (some c, rest) else (none, cs)
    | [] => (none, [])
  let (plainZero, cs) := readMark 'z' cs
  let (full, cs) := readMark '#' cs
  let (zeros, cs) := if fill.isNone then readMark '0' cs else (false, cs)
  let alignment := if zeros && forNumber then alignment <|> some .apart else alignment
  let (width, cs) ← readSize? cs
  let (separator, cs) := match cs with
    | c :: rest => if c == ',' || c == '_' then (some c, rest) else (none, cs)
    | [] => (none, [])
  let (precision, cs) ← match cs with
    | '.' :: rest => do
      let (precision, rest) ← readSize? rest
      if precision.isSome then some (precision, rest) else none
    | _ => some (none, cs)
  let kind ← match cs with
    | [] => some none
    | [c] => some (some c)
    | _ => none
  let fill := if zeros then '0' else fill.getD ' '
  return { fill, alignment, sign, plainZero, full, width, separator, precision, kind }

/-! ### Following them -/

namespace Directions

def aligned? (d : Directions) (usual : Alignment) (head : String) (body : Codes) :
    Option Codes := do
  let head := Codes.whole head
  let missing := d.width.getD 0 - (head.length + body.length)
  let all ← Codes.filled? d.fill missing
  match d.alignment.getD usual with
  | .left => return (head.append body).append all
  | .right => return (all.append head).append body
  | .apart => return (head.append all).append body
  | .center =>
    let before ← Codes.filled? d.fill (missing / 2)
    let behind ← Codes.filled? d.fill (missing - missing / 2)
    return (before.append (head.append body)).append behind

def grouped (size : Nat) (separator : Char) (ds : List Char) : List Char :=
  let lead := ds.length % size
  let rec groups (fuel : Nat) (ds : List Char) : List Char :=
    match fuel, ds with
    | fuel + 1, _ :: _ => separator :: ds.take size ++ groups fuel (ds.drop size)
    | _, _ => []
  if lead == 0 then (groups ds.length ds).drop 1
  else ds.take lead ++ groups ds.length (ds.drop lead)

def signOf (d : Directions) (negative : Bool) : String :=
  if negative then "-"
  else
    match d.sign with
    | some '+' => "+"
    | some ' ' => " "
    | _ => ""

def number? (d : Directions) (groupSize : Nat) (head : String) (digits : List Char)
    (tail : String) : Option Codes :=
  match d.separator with
  | none => d.aligned? .right head (.whole (String.ofList digits ++ tail))
  | some separator =>
    let digits :=
      if d.fill == '0' && d.alignment == some .apart && !digits.isEmpty then
        let room := d.width.getD 0 - (head.length + tail.length)
        -- the fewest digits that take the room together with their separators
        let count := room - (room - 1) / (groupSize + 1)
        List.replicate (min Codes.maxLength count - digits.length) '0' ++ digits
      else digits
    d.aligned? .right head (.whole (String.ofList (grouped groupSize separator digits) ++ tail))

def text? (d : Directions) (s : Codes) : Option Codes :=
  let fits := d.kind.all (· == 's') && d.sign.isNone && !d.plainZero && !d.full &&
    d.separator.isNone && d.alignment != some .apart
  if fits then
    d.aligned? .left "" ((d.precision.map fun n => s.take n).getD s)
  else none

def base? (d : Directions) (base : Nat) (mark : String) (n : Int) : Option Codes :=
  let upper := mark.toList.any Char.isUpper
  let ds := (Nat.toDigits base n.natAbs).map fun c => if upper then c.toUpper else c
  if base == 10 && Text.maxDigits < ds.length then none
  else if base != 10 && d.separator == some ',' then none
  else
    d.number? (if base == 10 then 3 else 4) (d.signOf (n < 0) ++ if d.full then mark else "") ds ""

def char? (d : Directions) (n : Int) : Option Codes :=
  if d.sign.isSome || d.full || d.separator.isSome then none
  else (Codes.ofCode? n).bind (d.aligned? .right "")

def int? (d : Directions) (n : Int) : Option Codes :=
  if d.precision.isSome || d.plainZero then none
  else
    match d.kind with
    | none | some 'd' => d.base? 10 "" n
    | some 'n' => if d.separator.isSome then none else d.base? 10 "" n
    | some 'b' => d.base? 2 "0b" n
    | some 'o' => d.base? 8 "0o" n
    | some 'x' => d.base? 16 "0x" n
    | some 'X' => d.base? 16 "0X" n
    | some 'c' => d.char? n
    | _ => none

def numeral (d : Directions) (num den : Nat) : Number.Numeral :=
  let digits := d.precision.getD 6
  match d.kind.map Char.toLower with
  | some 'f' | some '%' => Number.fixed num den digits
  | some 'e' => Number.scientific num den digits
  | _ =>
    let numeral := Number.general num den digits
    if d.full then numeral else numeral.trimmed

/-- The number without a kind: the fewest digits that read back as it or, with a precision, as many
digits, of which one stands behind the point. -/
def plainNumeral (d : Directions) (x : Float) (num den : Nat) : String :=
  match d.precision with
  | none =>
    let s := Number.display x.abs
    if d.full && !Text.contains s "." then Text.replace "e" ".e" s else s
  | some count =>
    let count := max 1 count
    let (_, power) := Number.leadingDigits num den (min (count - 1) Number.maxPlaces)
    let numeral :=
      if -4 ≤ power && power < count - 1 then Number.fixed num den (count - 1 - power).toNat
      else Number.scientific num den (count - 1)
    let numeral := if d.full then numeral else numeral.trimmed
    let numeral :=
      if numeral.exponent.isNone && numeral.fraction.isEmpty then { numeral with fraction := ['0'] }
      else numeral
    numeral.text d.full

def plainPart (d : Directions) (x : Float) (num den : Nat) : String :=
  match d.precision with
  | none =>
    let s := partText x.abs
    if !d.full || Text.contains s "." then s
    else if Text.contains s "e" then Text.replace "e" ".e" s
    else s ++ "."
  | some _ => (d.numeral num den).text d.full

def signed? (d : Directions) (x : Float) (plain : Nat → Nat → String) (tail : String) :
    Option Codes :=
  let (negative, text) := match Number.parts x with
    | .notANumber => (false, "nan")
    | .infinite negative => (negative, "inf")
    | .finite negative significand exponent =>
      let (num, den) := Number.scale significand 1 exponent
      let text := if d.kind.isNone then plain num den else (d.numeral num den).text d.full
      let isZero := !text.toList.any fun c => '1' ≤ c && c ≤ '9'
      (negative && !(d.plainZero && isZero), text)
  let text := if d.kind.any Char.isUpper then text.toUpper else text
  let digits := text.toList.takeWhile Char.isDigit
  let rest := String.ofList (text.toList.dropWhile Char.isDigit)
  d.number? 3 (d.signOf negative) digits (rest ++ tail)

def isFractional (d : Directions) : Bool :=
  d.kind.all ['e', 'E', 'f', 'F', 'g', 'G', 'n', '%'].contains &&
    !(d.kind == some 'n' && d.separator.isSome)

def float? (d : Directions) (x : Float) : Option Codes :=
  if !d.isFractional then none
  else if d.kind == some '%' then d.signed? (x * 100.0) (fun _ _ => "") "%"
  else d.signed? x (d.plainNumeral x) ""

def complex? (d : Directions) (z : Number.Complex) : Option Codes := do
  if !d.isFractional || d.kind == some '%' || d.fill == '0' || d.alignment == some .apart then none
  let bare := { d with alignment := some .left, width := none }
  let imaginary (d : Directions) := d.signed? z.im (d.plainPart z.im) "j"
  if d.kind.isNone && z.re.toBits == 0 then d.aligned? .right "" (← imaginary bare)
  else
    let re ← bare.signed? z.re (bare.plainPart z.re) ""
    let both := re.append (← imaginary { bare with sign := some '+' })
    let body := if d.kind.isSome then both else ((Codes.whole "(").append both).append (.whole ")")
    d.aligned? .right "" body

end Directions

def isFloatKind (kind : Option Char) : Bool :=
  kind.any ['e', 'E', 'f', 'F', 'g', 'G', '%'].contains

def directed? (a : Operand) (directions : String) : Option Codes :=
  if directions.isEmpty then a.display?
  else
    match a with
    | .text s => (readDirections? false directions.toList).bind (·.text? s)
    | .float x => (readDirections? true directions.toList).bind (·.float? x)
    | .complex z => (readDirections? true directions.toList).bind (·.complex? z)
    | _ => do
      let n ← a.asInt?
      let d ← readDirections? true directions.toList
      if isFloatKind d.kind then d.float? (← Number.ofInt? n) else d.int? n

def written? (conversion : Conversion) (a : Operand) (directions : String) : Option Codes :=
  let ofText (s : Codes) := directed? (.text s) directions
  match conversion with
  | .none => directed? a directions
  | .display => a.display?.bind ofText
  | .literal => a.literal?.bind fun s => ofText (.whole s)
  | .plainAscii => a.literal?.bind fun s => ofText (.whole (Text.plainAscii s))

end Colloquy.Formula
