import Colloquy.Function
import Colloquy.Value.Integer

/-! Conditions: whether the branch of an `if` is taken.  A condition comes from the compiler as two
operands and a comparator, or else it is read off the text of the line. -/

namespace Colloquy.Condition

def textComparators : List String :=
  ["IN", "CONTAINS", "STARTSWITH", "ENDSWITH"]

def orderComparators : List String :=
  ["==", "!=", ">", "<", ">=", "<="]

def tightCommas (s : String) : String :=
  Text.replace ", " "," s

def anyOption (test : Value → Except Fault Bool) : List Value → Except Fault Bool
  | [] => .ok false
  | option :: rest => do if ← test option then return true else anyOption test rest

/-- The outcome of a test of options: it has to succeed, and a negated test never does. -/
def settled (comparator : String) (found : Bool) : Bool :=
  found && !Text.startsWith comparator "!"

def containsWord (s option : String) : Bool :=
  Text.contains (" " ++ s ++ " ") (" " ++ option ++ " ")

/-! ### Conditions from the compiler -/

def operand (v : Value) : Except Fault Value :=
  match v with
  | .str _ =>
    let s := Text.trim (cleanQuotes v).display
    if Text.isNumeric s then do return .int (← (Value.str s).toInt) else .ok (.str s)
  | _ => .ok v

def optionsOf (v : Value) : Value :=
  match v with
  | .str s =>
    if Text.contains s "," then
      .ofItems ((Text.split "," (Text.lower (tightCommas s))).map .str)
    else .ofItems [.str (Text.lower s)]
  | _ => v

def compareText (comparator : Value) (left right : Value) : Except Fault Bool := do
  let options := optionsOf right
  if comparator.same "IN" then
    if !(← Value.member (.str left.display) options) then return false
  else if comparator.same "!IN" then
    if ← Value.member (.str left.display) options then return false
  let name ← comparator.text
  if Text.endsWith name "CONTAINS" then
    let found ← anyOption (fun option => .ok (containsWord left.display option.display))
      (← options.elements)
    return settled name found
  else if Text.endsWith name "STARTSWITH" then
    let found ← anyOption (fun option => do
      let s ← left.text
      return Text.startsWith s (← option.needle)) (← options.elements)
    return settled name found
  else if Text.endsWith name "ENDSWITH" then
    let found ← anyOption (fun option => do
      let s ← left.text
      return Text.endsWith s (← option.needle)) (← options.elements)
    return settled name found
  else return true

/-- Whether a comparator is satisfied.  Without a comparator the condition does not hold, and an
unknown one is always satisfied. -/
def compare (comparator left right : Value) : Except Fault Bool := do
  if !comparator.truthy then return false
  else if comparator.same "==" then return left.same right
  else if comparator.same "!=" then return !left.same right
  else if comparator.same ">" then return !(← left.compare .atMost right)
  else if comparator.same "<" then return !(← left.compare .atLeast right)
  else if comparator.same ">=" then return !(← left.compare .less right)
  else if comparator.same "<=" then return !(← left.compare .greater right)
  else if ← anyOption (fun name => Value.member name comparator) (textComparators.map .str) then
    compareText comparator left right
  else return true

def ofData (data : Value) : Except Fault Bool := do
  let comparator ← data.get "comparator"
  if comparator.same "BOOL" then return (← data.get "variable").truthy
  else
    let left ← data.get "left"
    let right ← data.get "right"
    let left ← operand left
    let right ← operand right
    compare comparator left right

/-! ### Conditions from the text of a line -/

def wordsOf (text : Value) : List String :=
  (Text.words (Text.replace "\"" "" (Text.replace ":" "" text.display))).drop 1

def comparatorIn (words : List String) : Option String :=
  (textComparators ++ orderComparators).findSome? fun name =>
    if words.contains name then some name
    else if words.contains ("!" ++ name) then some ("!" ++ name)
    else none

def sides? (comparator : Option String) (expression : String) : Option (String × String) :=
  let parts := match comparator with
    | some name => Text.split name expression
    | none => Text.words expression
  match parts with
  | [left, right] => some (left, right)
  | _ => none

def sideOptions (s : String) : List String :=
  Text.split "," (Text.lower (Text.trim (tightCommas s)))

def asNumbers (left right : String) : Value × Value :=
  if Text.isNumeric left then
    match Text.readInt? left, Text.readInt? right with
    | some m, some n => (.int m, .int n)
    | _, _ => (.str left, .str right)
  else (.str left, .str right)

def inOrder (relation : Value.Comparison) (sides : Value × Value) : Bool :=
  match Value.compare relation sides.1 sides.2 with
  | .ok b => b
  | .error _ => false

def compareSides (name left right : String) : Bool :=
  let lefts := sideOptions left
  let rights := sideOptions right
  let first := lefts.headD ""
  let l := Text.trim first
  let r := Text.trim (rights.headD "")
  let sides := asNumbers l r
  if name == "==" then l == r
  else if name == "!=" then l != r
  else if name == ">" then !inOrder .atMost sides
  else if name == "<" then !inOrder .atLeast sides
  else if name == ">=" then !inOrder .less sides
  else if name == "<=" then !inOrder .greater sides
  else if name == "IN" then rights.contains l
  else if name == "!IN" then !rights.contains l
  else if Text.endsWith name "CONTAINS" then settled name (rights.any (containsWord first))
  else if Text.endsWith name "STARTSWITH" then settled name (rights.any (Text.startsWith first))
  else if Text.endsWith name "ENDSWITH" then settled name (rights.any (Text.endsWith first))
  else true

def falseWords : List String :=
  ["0", "false", "none", "null", "", "no"]

/-- Whether a condition in the text of a line holds.  An expression that cannot be taken apart into
two sides counts as holding. -/
def ofText (text : Value) : Bool :=
  match wordsOf text with
  | [] => false
  | [word] => !falseWords.contains (Text.lower word)
  | words =>
    let comparator := comparatorIn words
    match sides? comparator (Text.trim (Text.join " " words)) with
    | none => true
    | some (left, right) =>
      match comparator with
      | none => false
      | some name => compareSides name left right

end Colloquy.Condition
