import Colloquy.Text.Search
import Colloquy.Text.Surrogate

/-! The texts of formulas.  A formula can write half of a surrogate pair by its number, which is no
character, so its texts are sequences of numbers.  Those without such a half are kept as texts. -/

namespace Colloquy.Formula

inductive Codes where
  | whole (s : String)
  /-- The numbers of a text in which some number is half of a surrogate pair. -/
  | broken (codes : List Nat)
  deriving DecidableEq, Repr, Inhabited

namespace Codes

def ofNats (codes : List Nat) : Codes :=
  if codes.any Text.isSurrogate then broken codes
  else whole (String.ofList (codes.map Char.ofNat))

def ofCode? (n : Int) : Option Codes :=
  if 0 ≤ n && n < 0x110000 then some (ofNats [n.toNat]) else none

def toNats : Codes → List Nat
  | whole s => s.toList.map Char.toNat
  | broken codes => codes

def toString? : Codes → Option String
  | whole s => some s
  | broken _ => none

def length : Codes → Nat
  | whole s => s.length
  | broken codes => codes.length

def isEmpty (s : Codes) : Bool :=
  s.length == 0

def take (n : Nat) (s : Codes) : Codes :=
  if s.length ≤ n then s else ofNats (s.toNats.take n)

def append (s t : Codes) : Codes :=
  match s, t with
  | whole s, whole t => whole (s ++ t)
  | s, t => ofNats (s.toNats ++ t.toNats)

def repeated (s : Codes) (n : Nat) : Codes :=
  match s with
  | whole s => whole (Text.repeated s n)
  | broken codes => ofNats (List.replicate n codes).flatten

def maxLength : Nat := 1000000000

def filled? (c : Char) (n : Nat) : Option Codes :=
  if n ≤ maxLength then some (whole (Text.repeated c.toString n)) else none

def parts (s : Codes) : List Codes :=
  s.toNats.map fun code => ofNats [code]

def orderNats : List Nat → List Nat → Ordering
  | [], [] => .eq
  | [], _ :: _ => .lt
  | _ :: _, [] => .gt
  | a :: s, b :: t => if a < b then .lt else if b < a then .gt else orderNats s t

def order (s t : Codes) : Ordering :=
  match s, t with
  | whole s, whole t => Text.order s t
  | s, t => orderNats s.toNats t.toNats

def occurs (part : List Nat) : List Nat → Bool
  | [] => part.isEmpty
  | a :: rest => part.isPrefixOf (a :: rest) || occurs part rest

def contains (s part : Codes) : Bool :=
  match s, part with
  | whole s, whole part => Text.contains s part
  | s, part => occurs part.toNats s.toNats

end Codes

end Colloquy.Formula
