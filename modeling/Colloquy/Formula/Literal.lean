import Colloquy.Formula.Arithmetic
import Colloquy.Formula.Grammar

/-! Values written out in full: formulas without names and operators but for signs of numbers and
the sum of a real and an imaginary number.  The one call among them is that of `set` without
arguments, the only way to write an empty set. -/

namespace Colloquy.Formula

def numberLiteral : Expr → Except Fault Operand
  | .int n => .ok (.int n)
  | .float x => .ok (.float x)
  | .imaginary x => .ok (.complex ⟨0.0, x⟩)
  | _ => .error .badValue

def signedLiteral : Expr → Except Fault Operand
  | .unary op e => do
    let a ← numberLiteral e
    match op, unaryOp? op a with
    | .plus, some a | .minus, some a => return a
    | _, _ => .error .badValue
  | e => numberLiteral e

def complexLiteral (op : BinaryOp) (a b : Expr) : Except Fault Operand := do
  let x ← signedLiteral a
  let y ← numberLiteral b
  match op, x, y with
  | .add, .complex _, _ | .sub, .complex _, _ => .error .badValue
  | .add, _, .complex _ | .sub, _, .complex _ =>
    match binaryOp? op x y with
    | some z => return z
    | none => .error .tooLarge
  | _, _, _ => .error .badValue

def addLiteral (items : List Operand) (x : Operand) : Except Fault (List Operand) :=
  if x.isKey then .ok (Operand.addItem items x) else .error .wrongKind

mutual

def literal : Expr → Except Fault Operand
  | .text s => .ok (.text s)
  | .bytes s => .ok (.bytes s)
  | .null => .ok .null
  | .bool b => .ok (.bool b)
  | .ellipsis => .ok .ellipsis
  | .list items => do return .list (← literalItems items)
  | .tuple items => do return .tuple (← literalItems items)
  | .set items => do return .set (← literalSet [] items)
  | .table entries => do return .table (← literalEntries [] entries)
  | .binary op a b => complexLiteral op a b
  | .call (.name "set") [] => .ok (.set [])
  | e => signedLiteral e

def literalItems : List Expr → Except Fault (List Operand)
  | [] => .ok []
  | e :: rest => do
    let v ← literal e
    return v :: (← literalItems rest)

def literalSet (items : List Operand) : List Expr → Except Fault (List Operand)
  | [] => .ok items
  | e :: rest => do literalSet (← addLiteral items (← literal e)) rest

def literalEntries (entries : List (Operand × Operand)) :
    List (Expr × Expr) → Except Fault (List (Operand × Operand))
  | [] => .ok entries
  | (k, v) :: rest => do
    let key ← literal k
    let value ← literal v
    if key.isKey then literalEntries (Operand.addEntry key value entries) rest
    else .error .wrongKind

end

def readLiteral (s : String) : Except Fault Value := do
  match (← literal (← parse s)).toValue? with
  | some v => return v
  | none => .error .badValue

end Colloquy.Formula
