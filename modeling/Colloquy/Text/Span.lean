/-! Runs of consecutive code points, for the tables of character classes. -/

namespace Colloquy.Text

structure Span where
  first : Nat
  last : Nat
  deriving DecidableEq, Repr

/-- The spans of a table that lists in turn how many code points are left out, from `next` on, and how
many follow that belong to it. -/
def Span.ofRuns (next : Nat) : List Nat → List Span
  | gap :: size :: rest => ⟨next + gap, next + gap + size - 1⟩ :: ofRuns (next + gap + size) rest
  | _ => []

def Span.covers (table : List Span) (c : Char) : Bool :=
  table.any fun span => span.first ≤ c.toNat && c.toNat ≤ span.last

end Colloquy.Text
