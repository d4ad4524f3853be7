import Colloquy.Substitution

/-! Response patterns.  An entry holds quoted texts: the first is the pattern that an input is
matched with, and the others are responses, which take turns.  In a pattern, a name in braces or a
`*` captures what stands at its place and a name in brackets stands for any of the texts of a
variable. -/

namespace Colloquy.Pattern

inductive Search where
  | whole (text : String)
  | pieces (parts : List String)
  deriving DecidableEq, Repr

inductive Segment where
  | gap
  | synonym (name : String)
  | capture (name : String)
  | literal (text : String)
  deriving DecidableEq, Repr

def between (start stop s : String) : String :=
  (Text.split stop (((Text.split start s)[1]?).getD "")).headD ""

def Segment.of (piece : String) : Segment :=
  if piece.isEmpty then .gap
  else if Text.contains piece "[" then .synonym (Text.trim (between "[" "]" piece))
  else if Text.contains piece "\x7b" then .capture (between "\x7b" "\x7d" piece)
  else .literal piece

def numbered : Nat → List String → List String
  | _, [] => []
  | i, word :: rest =>
    if word == "*" then Substitution.braced (Substitution.wildcardName i) :: numbered (i + 1) rest
    else word :: numbered i rest

def numberWildcards (pattern : String) : String :=
  let words := Text.words pattern
  if words.contains "*" then Text.join " " (numbered 1 words) else pattern

/-! ### Reading a pattern -/

def capturePieces (part : String) : List String :=
  match Text.split "\x7d" part with
  | [rest] => [rest]
  | [name, rest] => [Substitution.braced name, rest]
  | _ => []

def synonymPieces (part : String) : Except Fault (List String) :=
  match Text.split "]" part with
  | [rest] => .ok [rest]
  | [name, rest] => .ok ["[" ++ name ++ "]", rest]
  | _ => .error .badValue

def cutSynonym (piece : String) : Except Fault (List String) :=
  match Text.cut? "[" piece with
  | none => .ok (if piece.isEmpty then [] else [piece])
  | some (before, rest) =>
    match Text.cut? "]" rest with
    | none => .error .badValue
    | some (name, rest) =>
      let before := Text.trim before
      .ok ((if before.isEmpty then [] else [before]) ++ ["[" ++ name ++ "]"] ++
        (if rest.isEmpty then [] else [Text.trim rest]))

/-- Takes out the first empty piece at every position from `position` on that holds an empty one. -/
def dropEmpty : Nat → Nat → List String → List String
  | 0, _, pieces => pieces
  | fuel + 1, position, pieces =>
    match pieces[position]? with
    | none => pieces
    | some piece =>
      dropEmpty fuel (position + 1) (if piece.isEmpty then pieces.erase "" else pieces)

def search (pattern : String) : Except Fault Search := do
  let captures := Text.contains pattern "\x7b"
  let synonyms := Text.contains pattern "["
  let pieces ←
    if captures then
      let pieces := (Text.split "\x7b" pattern).flatMap capturePieces
      if synonyms then pieces.flatMapM cutSynonym else pure pieces
    else if synonyms then (Text.split "[" (Text.trim pattern)).flatMapM synonymPieces
    else return .whole (Text.trim pattern)
  return .pieces (dropEmpty pieces.length 0 pieces)

/-! ### Matching -/

def anyOccurs (input : String) : List Value → Except Fault Bool
  | [] => .ok false
  | option :: rest => do
    if Text.contains input (Text.trim (Text.lower (← option.text))) then return true
    else anyOccurs input rest

def synonymsOccur (bindings : Value) (input : String) : Nat → String → Except Fault Bool
  | 0, _ => .ok true
  | fuel + 1, pattern =>
    match Text.cut? "[" pattern with
    | none => .ok true
    | some (_, rest) =>
      match Text.cut? "]" rest with
      | none => .error .badValue
      | some (name, rest) => do
        if ← anyOccurs input (← (← bindings.item name).elements) then
          synonymsOccur bindings input fuel rest
        else return false

def occurs (input : String) : Search → Bool
  | .whole text => Text.contains input text
  | .pieces parts => parts.all fun part =>
    part.isEmpty || ["\x7b", "[", "*"].any (Text.contains part) ||
      Text.contains input (Text.lower part)

def perspectives : List (String × String) :=
  [("am", "are"), ("your", "my"), ("my", "your"), ("me", "you"), ("i", "you"), ("you", "i"),
   ("myself", "yourself"), ("yourself", "myself")]

def turned (s : String) : String :=
  perspectives.foldl (fun s (old, new) => Text.trim (Text.replace old new s))
    (" " ++ Text.trim s ++ " ")

def turnedEnd (s : String) : String :=
  perspectives.foldl (fun s (old, new) => Text.replace old new s) (" " ++ s ++ " ")

def prepend (name value : String) : Edit Unit := do
  match ← (← Edit.read).bindings.get name with
  | .list (first :: rest) number =>
    Edit.writeVariable name (← Edit.changeList number (.str value :: first :: rest))
  | old =>
    let values := if old.truthy then [.str value, old] else [.str value]
    Edit.writeVariable name (.ofItems values)

/-- Takes from the front of the input the first of the texts that a name in brackets stands for, and
keeps which one it was.  What is left of the input, if there was one. -/
def takeSynonym (name piece input : String) : List Value → Edit (Option String)
  | [] => return none
  | option :: rest => do
    let option := Text.trim (← option.text)
    let start := Text.trim (Text.replace ("[" ++ name ++ "]") option piece)
    if Text.startsWith (Text.trim input) start then
      Edit.writeVariable (.str ("_" ++ name ++ "_")) (.ofItems [.str option])
      if start.isEmpty then throw .badValue
      match Text.cut? start input with
      | some (_, left) => return some left
      | none => throw .outOfRange
    else takeSynonym name piece input rest

/-- Goes along the input piece by piece and keeps what is captured, where `pending` is the variable
that what comes next is kept in.  Whether the input has the texts of the names in brackets at their
places. -/
def capture (pieces : List String) : List String → String → Option String → Edit Bool
  | [], _, _ => return true
  | piece :: rest, input, pending =>
    match Segment.of piece with
    | .gap =>
      match pending with
      | none => capture pieces rest input pending
      | some name => do
        let input := turnedEnd input
        prepend name (Text.trim input)
        capture pieces rest input pending
    | .synonym name => do
      match ← takeSynonym name piece input (← (← Edit.readVariable name).elements) with
      | some input => capture pieces rest input pending
      | none => return false
    | .capture name => do
      if pieces.idxOf piece == pieces.length - 1 then prepend name (Text.trim input)
      capture pieces rest input (if name.isEmpty then none else some name)
    | .literal text => do
      let cut? := Text.cut? text input
      match pending with
      | some name => prepend name (turned ((cut?.map (·.1)).getD input))
      | none => pure ()
      match cut? with
      | some (_, input) => capture pieces rest input none
      | none => throw .outOfRange

/-- Keeps what a pattern captures of an input that it occurs in.  What fails on the way counts as
captured. -/
def captured (input : String) : Search → Edit Bool
  | .whole _ => return true
  | .pieces parts => rescue (capture parts parts (Text.trim input) none) fun _ => return true

/-! ### Entries -/

def texts (entry : String) : List String :=
  (Text.split "\"" entry).filter (!·.isEmpty)

def nextResponse (entry : String) (responses : List String) : Edit String := do
  let count ← (← Edit.read).counters.get entry (.int 0)
  let turn ← if ← count.compare .atLeast (.int responses.length) then pure (.int 0) else pure count
  let response ← (Value.ofItems (responses.map .str)).item turn
  let counters ← (← Edit.read).counters.put entry (← turn.addInt 1)
  Edit.update fun c => { c with counters }
  response.text

def startCounting (entry : String) : Edit Unit := do
  let counters := (← Edit.read).counters
  if !Entries.has (← counters.entries) entry then
    let counters ← counters.put entry (.int 0)
    Edit.update fun c => { c with counters }

def respond (input entry : String) : Edit (Option String) := do
  startCounting entry
  match texts entry with
  | [] => throw .missingOperation
  | pattern :: responses =>
    let pattern := numberWildcards pattern
    let search ← search pattern
    let synonyms ← synonymsOccur (← Edit.read).bindings input pattern.length pattern
    if occurs input search && synonyms then
      let response ← nextResponse entry responses
      let response := Text.join " " (numbered 1 (Text.words response))
      return if ← captured input search then some response else none
    else return none

def entryAt? (entries : Value) (position : Nat) : Edit (Option Value) := do
  let items ← match entries with
    | .list items number => Edit.itemsNow number items
    | _ => entries.elements
  return items[position]?

/-- The response of the first entry that has one, from a position of the list on.  What an entry
captures can be put into the list that is gone through, and moves the entries in it. -/
def firstResponse (input : String) (entries : Value) : Nat → Nat → Edit (Option String)
  | 0, _ => return none
  | fuel + 1, position => do
    match ← entryAt? entries position with
    | none => return none
    | some entry =>
      let entry := Text.replace "\" \"" "\"\"" (Text.trim (← entry.text))
      if entry.isEmpty then firstResponse input entries fuel (position + 1)
      else
        match ← respond input entry with
        | some response => return some response
        | none => firstResponse input entries fuel (position + 1)

def extraEntries : Nat := 1000

end Colloquy.Pattern
