import Colloquy.Conversation
import Colloquy.Value.Show

/-! The conversations of one user: a stack whose top is the script that runs, and below it the
scripts that called it.  The scope keeps the variables of the scripts that have ended, under the
name of the script, a dot and the name of the variable. -/

namespace Colloquy

/-- An entry of the stack.  Only conversations are pushed; anything else came in another way. -/
inductive Entry where
  | conversation (c : Conversation)
  | foreign (v : Value)

structure Manager where
  user : Value
  stack : List Entry := []
  scope : Entries := []

namespace Manager

def depth (m : Manager) : Nat :=
  m.stack.length

def push (m : Manager) (c : Conversation) : Manager :=
  { m with stack := .conversation c :: m.stack }

/-- Takes the top off the stack.  An entry that is no conversation is taken off as well, but that is
a fault. -/
def pop (m : Manager) : Except Fault (Option Conversation) × Manager :=
  match m.stack with
  | [] => (.ok none, m)
  | .conversation c :: rest => (.ok (some c), { m with stack := rest })
  | .foreign _ :: rest => (.error .foreignEntry, { m with stack := rest })

def current? (m : Manager) : Except Fault (Option Conversation) :=
  match m.stack with
  | [] => .ok none
  | .conversation c :: _ => .ok (some c)
  | .foreign _ :: _ => .error .wrongKind

def setTop (m : Manager) (c : Conversation) : Manager :=
  { m with stack := .conversation c :: m.stack.tail }

def changed (change : Value.Change) (m : Manager) : Manager :=
  { m with
    stack := m.stack.map fun
      | .conversation c => .conversation (c.changed change)
      | .foreign v => .foreign v
    scope := Value.changedEntries change m.scope }

def scopeName (filename name : Value) : String :=
  filename.display ++ "." ++ name.display

def publish (m : Manager) (c : Conversation) : Except Fault Manager := do
  c.callable "get"
  let bindings ← c.bindings.entries
  let published := bindings.map fun (name, value) => (Value.str (scopeName c.filename name), value)
  return { m with scope := Entries.merge m.scope published }

def lookupScope (m : Manager) (name : Value) : Except Fault Value :=
  (Value.table m.scope).get name

def lookupIn (filename name : String) : List Entry → Except Fault Value
  | [] => .ok .null
  | .conversation c :: rest =>
    if c.filename.same filename then do
      c.callable "get"
      c.bindings.get name
    else lookupIn filename name rest
  | .foreign v :: rest => do
    if (← v.item "script_filename").same filename then (← v.get "variables").get name
    else lookupIn filename name rest

/-- The value of the variable `name` of the script `script`, given as `script.name`, looked up from
the bottom of the stack. -/
def lookup (m : Manager) (path : Value) : Except Fault Value := do
  match Text.split "." (← path.text) with
  | [script, name] => lookupIn script name m.stack.reverse
  | _ => return .null

end Manager

end Colloquy
