import Colloquy.Clock
import Colloquy.Formula.Arithmetic
import Colloquy.Formula.Directions
import Colloquy.Formula.Grammar

/-! The values of formulas.  A formula can let time pass, also if it fails later on. -/

namespace Colloquy.Formula

structure Surroundings where
  clock : Nat
  names : List (String × Operand)

abbrev Eval := EStateM Unit Surroundings

def need {α : Type} : Option α → Eval α
  | some a => pure a
  | none => throw ()

def nameValue? : String → Option Operand
  | "sqrt" => some (.function .sqrt)
  | "ln" => some (.function .ln)
  | "log" => some (.function .log10)
  | "sin" => some (.function .sin)
  | "cos" => some (.function .cos)
  | "tan" => some (.function .tan)
  | "sinh" => some (.function .sinh)
  | "cosh" => some (.function .cosh)
  | "tanh" => some (.function .tanh)
  | "asin" => some (.function .asin)
  | "acos" => some (.function .acos)
  | "atan" => some (.function .atan)
  | "sleep" => some (.function .sleep)
  | "time" => some .clock
  | "e" => some (.float 2.718281828459045)
  | "pi" => some (.float 3.141592653589793)
  | _ => none

def milliseconds? (a : Operand) : Option Nat :=
  match a with
  | .float x => (Clock.duration x).toOption
  | _ => a.asInt?.bind fun n => (Clock.durationOf n).toOption

def logOf? (f : Float → Float) (a : Operand) : Option Float :=
  match a.asInt? with
  | some n =>
    if n ≤ 0 then none
    else
      match Number.ofInt? n with
      | some x => Number.evaluate? f x
      | none => some (Number.logNat f n.toNat)
  | none => do
    let x ← a.toFloat?
    if x ≤ 0.0 then none else Number.evaluate? f x

def Builtin.real? : Builtin → Option (Float → Float)
  | sqrt => some Float.sqrt
  | sin => some Float.sin
  | cos => some Float.cos
  | tan => some Float.tan
  | sinh => some Float.sinh
  | cosh => some Float.cosh
  | tanh => some Float.tanh
  | asin => some Float.asin
  | acos => some Float.acos
  | atan => some Float.atan
  | ln | log10 | sleep | now => none

def callBuiltin (f : Builtin) (args : List Operand) : Eval Operand :=
  match f, args with
  | .ln, [a] => do return .float (← need (logOf? Float.log a))
  | .ln, [a, base] => do
    let x ← need (logOf? Float.log a)
    let y ← need (logOf? Float.log base)
    return .float (← need (Number.div? x y))
  | .log10, [a] => do return .float (← need (logOf? Float.log10 a))
  | .sleep, [a] => do
    let n ← need (milliseconds? a)
    modify fun s => { s with clock := s.clock + n }
    return .null
  | .now, [] => do return .float (← need (Clock.seconds (← get).clock).toOption)
  | f, [a] => do
    let f ← need f.real?
    let x ← need a.toFloat?
    return .float (← need (Number.evaluate? f x))
  | _, _ => throw ()

def mergeEntries (entries : List (Operand × Operand)) : Operand → Eval (List (Operand × Operand))
  | .table more => return more.foldl (fun entries (k, v) => Operand.addEntry k v entries) entries
  | _ => throw ()

mutual

def eval : Expr → Eval Operand
  | .int n => return .int n
  | .float x => return .float x
  | .imaginary x => return .complex ⟨0.0, x⟩
  | .text s => return .text s
  | .bytes s => return .bytes s
  | .null => return .null
  | .bool b => return .bool b
  | .ellipsis => return .ellipsis
  | .name s => do
    match (← get).names.lookup s with
    | some a => return a
    | none => need (nameValue? s)
  | .list items => do return .list (← evalItems items)
  | .tuple items => do return .tuple (← evalItems items)
  | .set items => do
    let items ← evalItems items
    if items.all (·.isKey) then return .set (items.foldl Operand.addItem []) else throw ()
  | .table entries => do return .table (← evalEntries [] entries)
  | .unary op e => do need (unaryOp? op (← eval e))
  | .binary op a b => do
    let x ← eval a
    let y ← eval b
    need (binaryOp? op x y)
  | .compare first rest => do
    let x ← eval first
    evalChain x rest
  | .both operands => evalUntil false operands
  | .either operands => evalUntil true operands
  | .negate e => do return .bool (!(← eval e).truthy)
  | .choose condition yes no => do if (← eval condition).truthy then eval yes else eval no
  | .call f args => do
    let f ← eval f
    let args ← evalItems args
    match f with
    | .function f => callBuiltin f args
    | _ => throw ()
  | .member e name => do
    match ← eval e, name with
    | .clock, "sleep" => return .function .sleep
    | .clock, "time" => return .function .now
    | _, _ => throw ()
  | .subscript e (.slice start stop step) => do
    let a ← eval e
    let start ← evalBound start
    let stop ← evalBound stop
    need (sliceOf? a start stop (← evalBound step))
  | .subscript e index => do
    let a ← eval e
    need (itemOf? a (← eval index))
  | .bind name e => do
    let a ← eval e
    modify fun s => { s with names := (name, a) :: s.names }
    return a
  | .template parts => do return .text (← evalParts parts)
  | .slot e conversion directions => do
    let a ← eval e
    let directions ← evalParts directions
    return .text (← need (written? conversion a (← need directions.toString?)))
  | .slice .. | .absent | .spread | .star _ | .doubleStar _ | .named .. | .form .. => throw ()

def evalParts : List Expr → Eval Codes
  | [] => return .whole ""
  | e :: rest => do
    match ← eval e with
    | .text s => return s.append (← evalParts rest)
    | _ => throw ()

/-- The values of items or arguments.  No function takes an argument by its name, but the arguments
are evaluated before that shows. -/
def evalItems : List Expr → Eval (List Operand)
  | [] => return []
  | .star e :: rest => do
    let items ← need (← eval e).elements?
    return items ++ (← evalItems rest)
  | .named _ e :: rest => do
    let _ ← eval e
    let _ ← evalItems rest
    throw ()
  | .doubleStar e :: rest => do
    let named ← mergeEntries [] (← eval e)
    let args ← evalItems rest
    if named.isEmpty then return args else throw ()
  | e :: rest => do
    let a ← eval e
    return a :: (← evalItems rest)

def evalEntries (entries : List (Operand × Operand)) :
    List (Expr × Expr) → Eval (List (Operand × Operand))
  | [] => return entries
  | (.spread, e) :: rest => do
    let more ← eval e
    evalEntries (← mergeEntries entries more) rest
  | (k, v) :: rest => do
    let key ← eval k
    let value ← eval v
    if key.isKey then evalEntries (Operand.addEntry key value entries) rest
    else
      -- the formulas that follow are still evaluated
      let _ ← evalEntries entries rest
      throw ()

def evalBound : Expr → Eval (Option Operand)
  | .absent => return none
  | e => do return some (← eval e)

def evalUntil (holds : Bool) : List Expr → Eval Operand
  | [] => throw ()
  | [e] => eval e
  | e :: rest => do
    let a ← eval e
    if a.truthy == holds then return a else evalUntil holds rest

def evalChain (a : Operand) : List (CompareOp × Expr) → Eval Operand
  | [] => return .bool true
  | (op, e) :: rest => do
    let b ← eval e
    if ← need (compared? op a b) then evalChain b rest else return .bool false

end

def evaluate (s : String) (clock : Nat) : Option Operand × Nat :=
  match parse s with
  | .error _ => (none, clock)
  | .ok e =>
    match eval e ⟨clock, []⟩ with
    | .ok a after => (some a, after.clock)
    | .error _ after => (none, after.clock)

/-- The text of a result: integers in full, unless they have too many digits, and other numbers
rounded to three places. -/
def resultText? : Operand → Option String
  | .float x => some (Number.display (Number.roundPlaces 3 x))
  | a =>
    a.asInt?.bind fun n => if Nat.pow 10 Text.maxDigits ≤ n.natAbs then none else some (toString n)

end Colloquy.Formula
