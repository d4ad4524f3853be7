import Colloquy.Ranking
import Colloquy.Value.Access

/-! How alike two sequences are.  The measure counts the items in matching blocks: the longest
common block, and then the longest ones to its left and to its right.  Items that make up more than
a hundredth of a long second sequence are too common to start a block. -/

namespace Colloquy.Similarity

/-- The items of `b` that are too common to start a block: only in sequences of at least 200 items,
those that occur in more than one of a hundred places, and one more. -/
def isCommon {α : Type} [BEq α] (b : List α) (x : α) : Bool :=
  200 ≤ b.length && b.length / 100 + 1 < b.count x

/-- A common block: its start in the first sequence, its start in the second, and its length. -/
structure Block where
  first : Nat
  second : Nat
  size : Nat
  deriving DecidableEq, Repr, Inhabited

/-- The lengths of the common runs that end with item `x` of the first sequence and with each item
of the second, given those that end with the item before `x`; `left` is the one for the item before.
-/
def runsFrom {α : Type} [BEq α] (skip : α → Bool) (x : α) : Nat → List α → List Nat → List Nat
  | left, y :: ys, n :: ns => (if x == y && !skip y then left + 1 else 0) :: runsFrom skip x n ys ns
  | _, _, _ => []

def better (i : Nat) (offset : Nat) (best : Block) (runs : List Nat) : Block :=
  runs.zipIdx.foldl (fun best (n, j) =>
    if best.size < n then ⟨i + 1 - n, offset + j + 1 - n, n⟩ else best) best

def longestFrom {α : Type} [BEq α] (skip : α → Bool) (b : List α) (offset : Nat) :
    Nat → Block → List Nat → List α → Block
  | _, best, _, [] => best
  | i, best, runs, x :: rest =>
    let runs := runsFrom skip x 0 b runs
    longestFrom skip b offset (i + 1) (better i offset best runs) runs rest

def common {α : Type} [BEq α] : List α → List α → Nat
  | x :: xs, y :: ys => if x == y then common xs ys + 1 else 0
  | _, _ => 0

def extend {α : Type} [BEq α] (a b : List α) (block : Block) : Block :=
  let before := common (a.take block.first).reverse (b.take block.second).reverse
  let after := common (a.drop (block.first + block.size)) (b.drop (block.second + block.size))
  ⟨block.first - before, block.second - before, before + block.size + after⟩

def longest {α : Type} [BEq α] (skip : α → Bool) (a b : List α) : Block :=
  extend a b (longestFrom skip b 0 0 ⟨0, 0, 0⟩ (List.replicate b.length 0) a)

/-- The number of items in the matching blocks of two sequences, found with at most `fuel` blocks on
the way to any of them. -/
def matchesFrom {α : Type} [BEq α] (skip : α → Bool) : Nat → List α → List α → Nat
  | 0, _, _ => 0
  | fuel + 1, a, b =>
    let block := longest skip a b
    if block.size == 0 then 0
    else
      matchesFrom skip fuel (a.take block.first) (b.take block.second) + block.size +
        matchesFrom skip fuel (a.drop (block.first + block.size))
          (b.drop (block.second + block.size))

def matching {α : Type} [BEq α] (a b : List α) : Nat :=
  matchesFrom (isCommon b) (a.length + 1) a b

def ratio {α : Type} [BEq α] (a b : List α) : Float :=
  if a.length + b.length == 0 then 1.0
  else (2 * matching a b).toFloat / (a.length + b.length).toFloat

def ratioBound (a b : Nat) : Float :=
  if a + b == 0 then 1.0 else (2 * min a b).toFloat / (a + b).toFloat

def shared {α : Type} [BEq α] : List α → List α → Nat
  | [], _ => 0
  | x :: xs, b => if b.contains x then shared xs (b.erase x) + 1 else shared xs b

def itemBound {α : Type} [BEq α] (a b : List α) : Float :=
  if a.length + b.length == 0 then 1.0
  else (2 * shared a b).toFloat / (a.length + b.length).toFloat

def cutoff : Float := 0.4

def positions (choice : Value) (size : Nat) : Except Fault (List Value) := do
  let items ← (List.range size).mapM fun (i : Nat) => choice.item (.int i)
  if items.all (·.isKey) then return items else .error .wrongKind

/-- The likeness of a choice to a word, if it is close enough.  It is only measured if its bounds
are high enough. -/
def score? (word : String) (choice : Value) : Except Fault (Option Float) := do
  let size ← choice.size
  if ratioBound size word.length < cutoff then return none
  let elements ← choice.elements
  if elements.any (!·.isKey) then .error .wrongKind
  if itemBound elements (Value.characters word) < cutoff then return none
  let r := ratio (← positions choice size) (Value.characters word)
  return if cutoff ≤ r then some r else none

def closest? (word : String) (choices : List Value) : Except Fault (Option Value) := do
  let scored ← choices.filterMapM fun choice => do
    return (← score? word choice).map fun score => ({ score, choice } : Scored)
  return (← Ranking.best scored).head?.map (·.choice)

end Colloquy.Similarity
