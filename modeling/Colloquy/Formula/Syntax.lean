import Colloquy.Formula.Codes

/-! The structure of formulas. -/

namespace Colloquy.Formula

inductive UnaryOp where
  | plus
  | minus
  | invert
  deriving DecidableEq, Repr

inductive BinaryOp where
  | add
  | sub
  | mul
  | div
  | floorDiv
  | mod
  | pow
  | bitOr
  | bitXor
  | bitAnd
  | shiftLeft
  | shiftRight
  | matMul
  deriving DecidableEq, Repr

inductive CompareOp where
  | eq
  | ne
  | lt
  | le
  | gt
  | ge
  | inside
  | outside
  | identical
  | distinct
  deriving DecidableEq, Repr

inductive Conversion where
  | none
  | display
  | literal
  /-- Like `literal`, with everything beyond the first 128 characters written by number. -/
  | plainAscii
  deriving DecidableEq, Repr

inductive Form where
  | lambda
  | comprehension
  | suspension
  deriving DecidableEq, Repr

inductive Expr where
  | int (n : Nat)
  | float (x : Float)
  | imaginary (x : Float)
  | text (s : Codes)
  | bytes (s : String)
  | null
  | bool (b : Bool)
  | ellipsis
  | name (s : String)
  | list (items : List Expr)
  | tuple (items : List Expr)
  | set (items : List Expr)
  /-- A table; a key that is `spread` stands for all entries of the table beside it. -/
  | table (entries : List (Expr × Expr))
  | unary (op : UnaryOp) (e : Expr)
  | binary (op : BinaryOp) (a b : Expr)
  | compare (first : Expr) (rest : List (CompareOp × Expr))
  /-- The first operand that does not hold, or the last one. -/
  | both (operands : List Expr)
  /-- The first operand that holds, or the last one. -/
  | either (operands : List Expr)
  | negate (e : Expr)
  | choose (condition yes no : Expr)
  | call (f : Expr) (args : List Expr)
  | member (e : Expr) (name : String)
  | subscript (e index : Expr)
  | slice (start stop step : Expr)
  | absent
  | spread
  | star (e : Expr)
  | doubleStar (e : Expr)
  | named (name : String) (e : Expr)
  | bind (name : String) (e : Expr)
  | template (parts : List Expr)
  /-- The place of a value in a text, with the parts of the directions for writing it. -/
  | slot (e : Expr) (conversion : Conversion) (directions : List Expr)
  | form (kind : Form) (parts : List Expr)
  deriving Inhabited

mutual

def Expr.depth : Expr → Nat
  | .list items | .tuple items | .set items | .both items | .either items => depthOf items + 1
  | .table entries => depthOfEntries entries + 1
  | .unary _ e | .negate e | .member e _ | .star e | .doubleStar e | .named _ e | .bind _ e =>
    e.depth + 1
  | .binary _ a b | .subscript a b => max a.depth b.depth + 1
  | .compare first rest => max first.depth (depthOfOperands rest) + 1
  | .choose a b c | .slice a b c => max a.depth (max b.depth c.depth) + 1
  | .call f args => max f.depth (depthOf args) + 1
  | .template parts | .form _ parts => depthOf parts + 1
  | .slot e _ directions => max e.depth (depthOf directions) + 1
  | _ => 1

def depthOf : List Expr → Nat
  | [] => 0
  | e :: rest => max e.depth (depthOf rest)

def depthOfEntries : List (Expr × Expr) → Nat
  | [] => 0
  | (k, v) :: rest => max (max k.depth v.depth) (depthOfEntries rest)

def depthOfOperands : List (CompareOp × Expr) → Nat
  | [] => 0
  | (_, e) :: rest => max e.depth (depthOfOperands rest)

end

end Colloquy.Formula
