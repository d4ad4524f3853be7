import Colloquy.Value.Order

/-! Reading and changing parts of values: entries of tables, items of sequences, characters of
texts.  Positions count from zero, and negative ones from the end. -/

namespace Colloquy

abbrev Entries := List (Value × Value)

namespace Entries

def find? (key : Value) : Entries → Option Value
  | [] => none
  | (k, v) :: rest => if k.same key then some v else find? key rest

def has (entries : Entries) (key : Value) : Bool :=
  (find? key entries).isSome

def insert (key value : Value) : Entries → Entries
  | [] => [(key, value)]
  | (k, v) :: rest => if k.same key then (k, value) :: rest else (k, v) :: insert key value rest

def erase (key : Value) (entries : Entries) : Entries :=
  entries.filter fun (k, _) => !k.same key

def merge (entries others : Entries) : Entries :=
  others.foldl (fun table (k, v) => insert k v table) entries

def keys (entries : Entries) : List Value :=
  entries.map (·.1)

end Entries

namespace Value

def position? (size : Nat) (index : Int) : Option Nat :=
  if 0 ≤ index then
    if index < size then some index.toNat else none
  else if 0 ≤ index + size then some (index + size).toNat
  else none

def itemAt (items : List Value) (index : Int) : Except Fault Value :=
  match (position? items.length index).bind (items[·]?) with
  | some item => .ok item
  | none => .error .outOfRange

def characters (s : String) : List Value :=
  s.toList.map fun c => str c.toString

/-- The field `name` of a conversation.  The fields that make up its identity have an underscore in
front of their names and are read without it. -/
def field? (name : String) (fields : List (String × Value)) : Option Value :=
  let under (n : String) := (fields.find? (·.1 == n)).map (·.2)
  under name <|> under ("_" ++ name)

def item (container key : Value) : Except Fault Value :=
  match container with
  | table entries =>
    if key.isKey then
      match Entries.find? key entries with
      | some value => .ok value
      | none => .error .missingEntry
    else .error .wrongKind
  | list items _ | tuple items =>
    match key.asInt? with
    | some index => itemAt items index
    | none => .error .wrongKind
  | str s =>
    match key.asInt? with
    | some index => itemAt (characters s) index
    | none => .error .wrongKind
  | record fields =>
    match key with
    | str name =>
      match field? name fields with
      | some value => .ok value
      | none => .error .missingOperation
    | _ => .error .wrongKind
  | _ => .error .wrongKind

/-- The value under `key` in a table, or `default` if there is none.  A conversation cannot be asked
once it has a field of the name `get`. -/
def get (container key : Value) (default : Value := null) : Except Fault Value :=
  match container with
  | table entries =>
    if key.isKey then .ok ((Entries.find? key entries).getD default) else .error .wrongKind
  | record fields =>
    if fields.any (·.1 == "get") then .error .wrongKind
    else
      match key with
      | str name => .ok ((field? name fields).getD default)
      | _ => .error .wrongKind
  | _ => .error .missingOperation

def entries : Value → Except Fault Entries
  | table entries => .ok entries
  | record fields => .ok (fields.map fun (name, value) => (str name, value))
  | _ => .error .missingOperation

def text : Value → Except Fault String
  | str s => .ok s
  | _ => .error .missingOperation

def size : Value → Except Fault Nat
  | list items _ | tuple items | set items => .ok items.length
  | str s => .ok s.length
  | table entries => .ok entries.length
  | record fields => .ok fields.length
  | _ => .error .wrongKind

def elements : Value → Except Fault (List Value)
  | list items _ | tuple items | set items => .ok items
  | str s => .ok (characters s)
  | table entries => .ok (Entries.keys entries)
  | _ => .error .wrongKind

def needle : Value → Except Fault String
  | str s => .ok s
  | _ => .error .wrongKind

def put (container key value : Value) : Except Fault Value :=
  match container with
  | table entries =>
    if key.isKey then .ok (table (Entries.insert key value entries)) else .error .wrongKind
  | list items number =>
    match key.asInt? with
    | some index =>
      match position? items.length index with
      | some i => .ok (list (items.set i value) number)
      | none => .error .outOfRange
    | none => .error .wrongKind
  | _ => .error .wrongKind

def addInt (v : Value) (n : Int) : Except Fault Value :=
  match v with
  | float x =>
    match Number.ofInt? n with
    | some y => .ok (float (x + y))
    | none => .error .badValue
  | _ =>
    match v.asInt? with
    | some m => .ok (int (m + n))
    | none => .error .wrongKind

end Value

end Colloquy
