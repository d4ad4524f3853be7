/-! Characters as code units.  A character beyond the first plane is written as two units, a
surrogate pair; half of a pair is no character. -/

namespace Colloquy.Text

def isSurrogate (unit : Nat) : Bool :=
  0xD800 ≤ unit && unit < 0xE000

def unitChar (unit : Nat) : Char :=
  Char.ofNat (if isSurrogate unit then 0xFFFD else unit)

def unitsOf (c : Char) : List Nat :=
  if c.toNat < 0x10000 then [c.toNat]
  else
    let offset := c.toNat - 0x10000
    [0xD800 + offset / 0x400, 0xDC00 + offset % 0x400]

def orderChars : List Char → List Char → Ordering
  | [], [] => .eq
  | [], _ :: _ => .lt
  | _ :: _, [] => .gt
  | a :: s, b :: t =>
    if a.toNat < b.toNat then .lt
    else if b.toNat < a.toNat then .gt
    else orderChars s t

def order (s t : String) : Ordering :=
  orderChars s.toList t.toList

end Colloquy.Text
