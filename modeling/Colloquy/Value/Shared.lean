import Colloquy.Value.Basic

/-! Lists that stand in several places.  A list is changed in place, so that a change to it shows
wherever it stands; lists that are one and the same have the same number. -/

namespace Colloquy.Value

mutual

/-- The value with a number for each list that has none, counted from `next`, and the number that
comes next. -/
def numbered (next : Nat) : Value → Value × Nat
  | list items number =>
    let (items, next) := numberedItems next items
    match number with
    | some n => (list items (some n), next)
    | none => (list items (some next), next + 1)
  | tuple items =>
    let (items, next) := numberedItems next items
    (tuple items, next)
  | table entries =>
    let (entries, next) := numberedEntries next entries
    (table entries, next)
  | v => (v, next)

def numberedItems (next : Nat) : List Value → List Value × Nat
  | [] => ([], next)
  | x :: xs =>
    let (x, next) := numbered next x
    let (xs, next) := numberedItems next xs
    (x :: xs, next)

def numberedEntries (next : Nat) : List (Value × Value) → List (Value × Value) × Nat
  | [] => ([], next)
  | (k, v) :: rest =>
    let (v, next) := numbered next v
    let (rest, next) := numberedEntries next rest
    ((k, v) :: rest, next)

end

mutual

/-- The value as a thing of its own, which changes made elsewhere do not reach. -/
def copied : Value → Value
  | list items _ => list (copiedItems items) none
  | tuple items => tuple (copiedItems items)
  | table entries => table (copiedEntries entries)
  | v => v

def copiedItems : List Value → List Value
  | [] => []
  | x :: xs => copied x :: copiedItems xs

def copiedEntries : List (Value × Value) → List (Value × Value)
  | [] => []
  | (k, v) :: rest => (k, copied v) :: copiedEntries rest

end

structure Change where
  number : Nat
  items : List Value

mutual

def changed (change : Change) : Value → Value
  | list items number =>
    if number == some change.number then list change.items number
    else list (changedItems change items) number
  | tuple items => tuple (changedItems change items)
  | table entries => table (changedEntries change entries)
  | v => v

def changedItems (change : Change) : List Value → List Value
  | [] => []
  | x :: xs => changed change x :: changedItems change xs

def changedEntries (change : Change) : List (Value × Value) → List (Value × Value)
  | [] => []
  | (k, v) :: rest => (k, changed change v) :: changedEntries change rest

end

end Colloquy.Value
