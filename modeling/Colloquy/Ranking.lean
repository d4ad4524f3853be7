import Colloquy.Value.Order

/-! Ranking scored choices.  A higher score is better, and of choices with equal scores the greater
one; some choices cannot be compared, and ranking fails if two of them have to be.  So it matters
which choices are compared: up to three are sorted, by insertion, and of more than three the best
three are kept on the way, with the worst of the three in front. -/

namespace Colloquy

/-- A choice with its score, and its turn among those that were kept, which falls. -/
structure Scored where
  score : Float
  choice : Value
  turn : Int := 0

namespace Scored

def isWorse (a b : Scored) : Except Fault Bool :=
  if a.score == b.score then
    if a.choice.same b.choice then .ok false else Value.compare .less a.choice b.choice
  else .ok (a.score < b.score)

def precedes (a b : Scored) : Except Fault Bool :=
  if a.score == b.score && a.choice.same b.choice then .ok (a.turn < b.turn) else a.isWorse b

end Scored

namespace Ranking

/-! ### Sorting -/

/-- The longest falling run at the start of `rest`, where `before` is the element before it, put in
front of `run`, and what follows it. -/
def fallingRun {α : Type} (less : α → α → Except Fault Bool) (before : α) (run : List α) :
    List α → Except Fault (List α × List α)
  | [] => .ok (run, [])
  | x :: rest => do
    if ← less x before then fallingRun less x (x :: run) rest else return (run, x :: rest)

def risingRun {α : Type} (less : α → α → Except Fault Bool) (before : α) (run : List α) :
    List α → Except Fault (List α × List α)
  | [] => .ok (run.reverse, [])
  | x :: rest => do
    if ← less x before then return (run.reverse, x :: rest) else risingRun less x (x :: run) rest

def firstRun {α : Type} (less : α → α → Except Fault Bool) :
    List α → Except Fault (List α × List α)
  | [] => .ok ([], [])
  | [x] => .ok ([x], [])
  | x :: y :: rest => do
    if ← less y x then fallingRun less y [y, x] rest else risingRun less y [y, x] rest

/-- The position in a sorted sequence behind which there are only greater elements than `x`, looked
for between two positions by halving. -/
def position {α : Type} (less : α → α → Except Fault Bool) (x : α) (sorted : List α) :
    Nat → Nat → Nat → Except Fault Nat
  | 0, low, _ => .ok low
  | fuel + 1, low, high =>
    let middle := low + (high - low) / 2
    match sorted[middle]? with
    | none => .ok low
    | some y => do
      if high ≤ low then return low
      else if ← less x y then position less x sorted fuel low middle
      else position less x sorted fuel (middle + 1) high

def insertAll {α : Type} (less : α → α → Except Fault Bool) (sorted : List α) :
    List α → Except Fault (List α)
  | [] => .ok sorted
  | x :: rest => do
    let i ← position less x sorted (sorted.length + 1) 0 sorted.length
    insertAll less (sorted.take i ++ x :: sorted.drop i) rest

def sorted {α : Type} (less : α → α → Except Fault Bool) (xs : List α) :
    Except Fault (List α) := do
  let (run, rest) ← firstRun less xs
  insertAll less run rest

def sortedDown {α : Type} (less : α → α → Except Fault Bool) (xs : List α) :
    Except Fault (List α) := do
  return (← sorted less xs.reverse).reverse

/-! ### The best three -/

structure Three where
  first : Scored
  second : Scored
  third : Scored

def Three.sift (t : Three) : Except Fault Three := do
  if ← t.second.precedes t.third then
    if ← t.first.precedes t.second then return t
    else return { t with first := t.second, second := t.first }
  else if ← t.first.precedes t.third then return t
  else return { t with first := t.third, third := t.first }

def bestThree (kept : Three) (turn : Int) : List Scored → Except Fault Three
  | [] => .ok kept
  | x :: rest => do
    if ← kept.first.isWorse x then
      bestThree (← { kept with first := { x with turn } }.sift) (turn - 1) rest
    else bestThree kept turn rest

def best (choices : List Scored) : Except Fault (List Scored) := do
  match choices with
  | a :: b :: c :: d :: rest =>
    let kept ← Three.sift
      { first := a, second := { b with turn := -1 }, third := { c with turn := -2 } }
    let kept ← bestThree kept (-3) (d :: rest)
    sortedDown Scored.precedes [kept.first, kept.second, kept.third]
  | _ => sortedDown Scored.isWorse choices

end Ranking

end Colloquy
