import Colloquy.Formula.Shown
import Colloquy.Number.Fixed

/-! Texts with placeholders.  A placeholder is a percent sign, then in this order and each only if
it is wanted a key in parentheses, flags, a width and a precision, and at last a letter for the kind
of text that takes its place.  Placeholders take the arguments in order, or by key from a table.
Two percent signs stand for one. -/

namespace Colloquy.Formula

inductive Measure where
  | given (n : Nat)
  | asked

structure Placeholder where
  key : Option Codes
  flags : List Char
  width : Option Measure
  precision : Option Measure
  kind : Char

inductive Piece where
  | plain (s : Codes)
  | placeholder (p : Placeholder)

/-! ### Reading placeholders -/

def readKey? (depth : Nat) (read : List Nat) : List Nat → Option (Codes × List Nat)
  | [] => none
  | code :: rest =>
    if code == '('.toNat then readKey? (depth + 1) (code :: read) rest
    else if code == ')'.toNat then
      match depth with
      | 0 => some (.ofNats read.reverse, rest)
      | depth + 1 => readKey? depth (code :: read) rest
    else readKey? depth (code :: read) rest

def readMeasure (cs : List Char) : Option Measure × List Char :=
  match cs with
  | '*' :: rest => (some .asked, rest)
  | _ =>
    let ds := cs.takeWhile Char.isDigit
    if ds.isEmpty then (none, cs)
    else
      let n := ds.foldl (fun n d => n * 10 + (d.toNat - '0'.toNat)) 0
      (some (.given n), cs.dropWhile Char.isDigit)

def readPlaceholder? (key : Option Codes) (cs : List Char) : Option (Placeholder × List Char) :=
  let isFlag (c : Char) := ['-', '+', ' ', '#', '0'].contains c
  let flags := cs.takeWhile isFlag
  let (width, cs) := readMeasure (cs.dropWhile isFlag)
  let (precision, cs) := match cs with
    | '.' :: rest =>
      let (precision, rest) := readMeasure rest
      (some (precision.getD (.given 0)), rest)
    | _ => (none, cs)
  let cs := match cs with
    | 'h' :: rest | 'l' :: rest | 'L' :: rest => rest
    | _ => cs
  match cs with
  | kind :: rest => some ({ key, flags, width, precision, kind }, rest)
  | [] => none

def pieces? : Nat → List Nat → Option (List Piece)
  | 0, _ => none
  | fuel + 1, codes => do
    let isPlain (code : Nat) := code != '%'.toNat
    let plain := Piece.plain (.ofNats (codes.takeWhile isPlain))
    match codes.dropWhile isPlain with
    | [] => return [plain]
    | _ :: rest =>
      if rest.head? == some '%'.toNat then
        return plain :: .plain (.whole "%") :: (← pieces? fuel (rest.drop 1))
      let (key, rest) ←
        if rest.head? == some '('.toNat then
          (readKey? 0 [] (rest.drop 1)).map fun (key, rest) => (some key, rest)
        else some (none, rest)
      let (p, after) ← readPlaceholder? key (rest.map Char.ofNat)
      let more ← pieces? fuel (rest.drop (rest.length - after.length))
      return plain :: .placeholder p :: more

/-! ### Filling them -/

/-- What takes the place of a placeholder, before it is brought to its width: a part that stays in
front, and the rest.  Numbers can have zeros between the two. -/
structure Filling where
  head : String
  body : Codes
  isNumber : Bool

def maxWidth : Nat := 2147483647

namespace Placeholder

def sign (p : Placeholder) (negative : Bool) : String :=
  if negative then "-"
  else if p.flags.contains '+' then "+"
  else if p.flags.contains ' ' then " "
  else ""

def ofText (precision : Option Nat) (s : Codes) : Filling :=
  { head := "", body := (precision.map fun n => s.take n).getD s, isNumber := false }

def ofChar? (a : Operand) : Option Filling :=
  match a with
  | .text s => if s.length == 1 then some ⟨"", s, false⟩ else none
  | _ => a.asInt?.bind fun n => (Codes.ofCode? n).map fun s => ⟨"", s, false⟩

def ofInt? (p : Placeholder) (precision : Option Nat) (base : Nat) (mark : String) (n : Int) :
    Option Filling := do
  let upper := mark.toList.any Char.isUpper
  let ds := (Nat.toDigits base n.natAbs).map fun c => if upper then c.toUpper else c
  if base == 10 && Text.maxDigits < ds.length then none
  let zeros ← Codes.filled? '0' (precision.getD 0 - ds.length)
  let head := p.sign (n < 0) ++ if p.flags.contains '#' then mark else ""
  return { head, body := zeros.append (.whole (String.ofList ds)), isNumber := true }

def ofFloat (p : Placeholder) (precision : Option Nat) (x : Float) : Filling :=
  let digits := precision.getD 6
  let full := p.flags.contains '#'
  let cased (s : String) : Codes := .whole (if p.kind.isUpper then s.toUpper else s)
  match Number.parts x with
  | .notANumber => ⟨p.sign false, cased "nan", true⟩
  | .infinite negative => ⟨p.sign negative, cased "inf", true⟩
  | .finite negative significand exponent =>
    let (num, den) := Number.scale significand 1 exponent
    let numeral := match p.kind.toLower with
      | 'f' => Number.fixed num den digits
      | 'e' => Number.scientific num den digits
      | _ =>
        let numeral := Number.general num den digits
        if full then numeral else numeral.trimmed
    ⟨p.sign negative, cased (numeral.text full), true⟩

def whole? (a : Operand) : Option Int :=
  match a with
  | .float x => (Number.ratio? x).map fun (num, den) => num.tdiv den
  | _ => a.asInt?

def filling? (p : Placeholder) (precision : Option Nat) (a : Operand) : Option Filling :=
  match p.kind with
  | 's' => a.display?.map (ofText precision)
  | 'r' => a.literal?.map fun s => ofText precision (.whole s)
  | 'a' => a.literal?.map fun s => ofText precision (.whole (Text.plainAscii s))
  | 'c' => ofChar? a
  | 'd' | 'i' | 'u' => (whole? a).bind (p.ofInt? precision 10 "")
  | 'o' => a.asInt?.bind (p.ofInt? precision 8 "0o")
  | 'x' => a.asInt?.bind (p.ofInt? precision 16 "0x")
  | 'X' => a.asInt?.bind (p.ofInt? precision 16 "0X")
  | 'e' | 'f' | 'g' | 'E' | 'F' | 'G' => a.toFloat?.map (p.ofFloat precision)
  | _ => none

def padded? (p : Placeholder) (left : Bool) (width : Nat) (f : Filling) : Option Codes := do
  let zeros := !left && f.isNumber && p.flags.contains '0'
  let head := Codes.whole f.head
  let fill ← Codes.filled? (if zeros then '0' else ' ') (width - (head.length + f.body.length))
  if left then return (head.append f.body).append fill
  else if zeros then return (head.append fill).append f.body
  else return (fill.append head).append f.body

end Placeholder

abbrev Fill := StateT (List Operand) Option

def nextArgument : Fill Operand := do
  match ← get with
  | a :: rest => do set rest; return a
  | [] => failure

def measured : Measure → Fill Int
  | .given n => if n ≤ maxWidth then return n else failure
  | .asked => do
    let n ← liftM (← nextArgument).asInt?
    if n.natAbs ≤ maxWidth then return n else failure

def measured? (m : Option Measure) : Fill (Option Int) :=
  match m with
  | some m => do return some (← measured m)
  | none => return none

/-- The text that takes the place of a placeholder.  A key replaces the arguments that are left by
the value under it.  A negative width puts the text to the left. -/
def filled (table : Operand) (p : Placeholder) : Fill Codes := do
  match p.key, table with
  | none, _ => pure ()
  | some key, .table entries => set [← liftM (Operand.entry? (.text key) entries)]
  | some _, _ => failure
  let width := (← measured? p.width).getD 0
  let precision := (← measured? p.precision).map Int.toNat
  let f ← liftM (p.filling? precision (← nextArgument))
  liftM (p.padded? (p.flags.contains '-' || width < 0) width.natAbs f)

def filledPieces (table : Operand) : List Piece → Fill Codes
  | [] => return .whole ""
  | .plain s :: rest => do return s.append (← filledPieces table rest)
  | .placeholder p :: rest => do
    let s ← filled table p
    return s.append (← filledPieces table rest)

def mayBeUnused : Operand → Bool
  | .list _ | .table _ | .bytes _ => true
  | _ => false

def fillText? (s : Codes) (argument : Operand) : Option Codes := do
  let pieces ← pieces? (s.length + 1) s.toNats
  let arguments := match argument with
    | .tuple items => items
    | a => [a]
  let (text, left) ← (filledPieces argument pieces).run arguments
  if left.isEmpty || mayBeUnused argument then return text else none

end Colloquy.Formula
