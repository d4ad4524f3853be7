import Colloquy.Function

/-! Putting values into a line.  A line between quotes refers to variables and functions in braces;
in any other line, a word that names a variable or a function is a reference as well.  References
are replaced one after the other, from left to right. -/

namespace Colloquy.Substitution

open Session

def braced (word : String) : String :=
  "\x7b" ++ word ++ "\x7d"

def wildcardName (i : Nat) : String :=
  "_wildcard_" ++ toString i

/-- The line between quotes, with the first wildcard of each word replaced by a reference to the
variable of its number. -/
def withWildcards (line : String) : String :=
  let number (state : String × Nat) (word : String) : String × Nat :=
    let (line, i) := state
    if Text.contains word "*" then
      (Text.replaceFirst word (Text.replaceFirst "*" (braced (wildcardName i)) word) line, i + 1)
    else (line, i)
  "\"" ++ ((Text.words line).foldl number (line, 1)).1 ++ "\""

def isQuoted (line : String) : Bool :=
  (Text.startsWith line "\"" && Text.endsWith line "\"") ||
    (Text.startsWith line "'" && Text.endsWith line "'")

def isName (bindings : Value) (functions : List Function) (word : String) : Except Fault Bool := do
  let names ← bindings.entries
  let head := (Text.split "(" word).headD ""
  return Entries.has names word || functions.any (·.name == head)

/-- The words of a line that is not quoted, of which those that are names are put between braces.  A
word that opens a parenthesis goes on to where it is closed.  In front of an assignment names stay
as they are. -/
def openTokens (bindings : Value) (functions : List Function) :
    Nat → String → Except Fault (List String)
  | 0, rest => .ok [rest]
  | fuel + 1, rest =>
    match Text.cut? " " rest with
    | none => do
      let named ← isName bindings functions rest
      return [if named && !Text.startsWith rest "\x7b" then braced rest else rest]
    | some (word, rest) => do
      let (word, rest) ←
        if Text.contains word "(" && !Text.contains word ")" then
          match Text.cut? ")" rest with
          | some (more, rest) => pure (word ++ more ++ ")", rest)
          | none => .error .badValue
        else pure (word, rest)
      let named ← isName bindings functions word
      let assigns := Text.contains rest "=" && !Text.contains rest "=="
      let word := if named && !Text.startsWith word "\x7b" && !assigns then braced word else word
      return word :: (← openTokens bindings functions fuel rest)

def quotedTokens : Nat → String → Except Fault (List String)
  | 0, rest => .ok [rest]
  | fuel + 1, rest =>
    match Text.cut? "\x7b" rest with
    | none => .ok [rest]
    | some (before, rest) =>
      match Text.cut? "\x7d" rest with
      | none => .error .badValue
      | some (key, rest) => do return before :: braced key :: (← quotedTokens fuel rest)

def tokens (bindings : Value) (functions : List Function) (line : String) :
    Except Fault (List String × String) := do
  if !isQuoted line then return (← openTokens bindings functions (line.length + 1) line, " ")
  else if Text.contains line "\x7b" && Text.contains line "\x7d" then
    return (← quotedTokens (line.length + 1) line, "")
  else return ([line], "")

def pendingValue (name : String) : List Value → Except Fault (Option Value)
  | [] => .ok none
  | script :: rest => do
    let bindings ← script.get "variables" .emptyTable
    if Entries.has (← bindings.entries) name then
      return some (← (← script.item "variables").item name)
    else pendingValue name rest

/-- The value of a variable: in the running script, in a script that has ended if the name has a
dot, or else in a calling script.  A variable that is found nowhere counts as an empty text. -/
def rawValue (user : Value) (c : Conversation) (name : String) : Run Value := do
  let own := (Entries.find? name (← c.bindings.entries)).getD .null
  if own.truthy then return own
  else if Text.contains name "." then (← managerAt user).lookupScope name
  else return (← pendingValue name (← c.pending.elements)).getD (.ofItems [.str ""])

def indexed (bindings raw : Value) (name index : String) : Except Fault Value := do
  if index == "*" then return .str (← Function.listed (← raw.elements))
  else
    let _ ← raw.size
    (← bindings.get name (.ofItems [.str ""])).item (.int 0)

def reportUndeclared (user : Value) (line : String) : Run Unit := do
  let c ← current user
  let number ← (← c.lines.item c.index).item "line_number"
  dialog "error_at_line" (.object [("error", "undeclared variable"), ("line", number),
    ("detail", line), ("script", c.filename)])

def newest (user : Value) (c : Conversation) (line name : String) (raw : Value) : Run Value := do
  match raw with
  | .list [] _ =>
    if !(← Value.member name c.bindings) then reportUndeclared user line
    throw .outOfRange
  | .list (.list items number :: _) _ => return .list items number
  | .list .. => return raw
  | v => return .ofItems [v]

def wordOf (bindings : Value) (name : String) (value : Value) : Run String := do
  let bare (v : Value) := Text.trimOf "\"" (Text.trim v.display)
  match value with
  | .list items _ =>
    let whole ←
      if 1 < items.length then do
        pure (← (← datum "cc_data" .emptyTable).get "return_list" (.bool false)).truthy
      else pure false
    if whole then do
      let parts ← (← bindings.get name).elements
      return Text.join "," (← parts.mapM (liftM ·.needle))
    else return bare (← Value.itemAt items 0)
  | v => return bare v

def tidy (word : String) : String :=
  Text.replace "\", \"" ", " (Text.trimEndOf "\"" (Text.trimStartOf "\"" word))

def variableWord (user : Value) (c : Conversation) (line reference : String) : Run String := do
  if Text.contains reference "[" && Text.contains reference "]" then
    let raw ← rawValue user c ((Text.split "[" reference).headD "")
    let (name, indices) := (Text.cut? "[" reference).getD (reference, "")
    let value ← indexed c.bindings raw name ((Text.splitOnce "]" indices).headD "")
    return tidy (← wordOf c.bindings name value)
  else
    let raw ← rawValue user c reference
    let value ← newest user c line reference raw
    return tidy (← wordOf c.bindings reference value)

def callWord (user : Value) (functions : List Function) (reference : String) : Run String := do
  match Text.cut? "(" reference with
  | none => throw .badValue
  | some (name, arguments) =>
    match functions.find? (·.name == name) with
    | some f => return (← f.call (.str (Text.trimEndOf ")" arguments)) user).display
    | none => throw .missingEntry

def replaceToken (token word : String) : List String → List String
  | [] => []
  | t :: rest => if t == token then word :: rest else t :: replaceToken token word rest

/-- Replaces the references among the pieces from a position on, where `line` is the line as far as
it has been put together. -/
def replaceFrom (user : Value) (c : Conversation) (functions : List Function) (gap : String) :
    Nat → Nat → List String → String → Run String
  | 0, _, _, line => return line
  | left + 1, position, pieces, line => do
    let token := (pieces[position]?).getD ""
    let pieces ←
      if Text.startsWith token "\x7b" && Text.endsWith token "\x7d" then do
        let reference := Text.trimEndOf "\x7d" (Text.trimStartOf "\x7b" token)
        let word ←
          if functions.any fun f => Text.contains reference f.name then
            callWord user functions reference
          else variableWord user c line reference
        pure (replaceToken token word pieces)
      else pure pieces
    replaceFrom user c functions gap left (position + 1) pieces (Text.join gap pieces)

def substitute (user line : Value) (wildcards : Bool) : Run String := do
  let current? ← currentAt user
  let line := Text.trim (← line.text)
  let line := if wildcards then withWildcards line else line
  let c ← present current?
  let _ ← c.bindings.size
  let functions ← Function.known
  let (pieces, gap) ← tokens c.bindings functions line
  replaceFrom user c functions gap pieces.length 0 pieces line

end Colloquy.Substitution
