import Colloquy.Clock
import Colloquy.Manager

/-! A manager with the conversations that were made for it.  A conversation is referred to by its
number, on the stack or off it, so a change to it shows wherever it stands. -/

namespace Colloquy

inductive Slot where
  | numbered (n : Nat)
  | foreign (v : Value)

structure Workbench where
  user : Value
  conversations : List Conversation := []
  stack : List Slot := []
  scope : Entries := []
  clock : Nat := 0

namespace Workbench

inductive Request where
  | create (scriptMeta filename : Value)
  | sleep (seconds : Value)
  | read (conversation : Nat) (key : Value)
  | readD (conversation : Nat) (key default : Value)
  | assign (conversation : Nat) (key value : Value)
  | has (conversation : Nat) (key : Value)
  | size (conversation : Nat)
  | literal (conversation : Nat)
  | keys (conversation : Nat)
  | values (conversation : Nat)
  | items (conversation : Nat)
  | contents (conversation : Nat)
  | reset (conversation : Nat)
  | identity (conversation : Nat)
  | push (conversation : Nat)
  | pushValue (value : Value)
  | force (value : Value)
  | pop
  | current
  | publish (conversation : Nat)
  | lookup (path : Value)
  | lookupScope (name : Value)

def conversation (w : Workbench) (n : Nat) : Except Fault Conversation :=
  match w.conversations[n]? with
  | some c => .ok c
  | none => .error .outOfRange

def entry (w : Workbench) : Slot → Entry
  | .numbered n =>
    match w.conversations[n]? with
    | some c => .conversation c
    | none => .foreign .null
  | .foreign v => .foreign v

def manager (w : Workbench) : Manager :=
  { user := w.user, stack := w.stack.map w.entry, scope := w.scope }

def replace (w : Workbench) (n : Nat) (c : Conversation) : Workbench :=
  { w with conversations := w.conversations.set n c }

def create (w : Workbench) (scriptMeta filename : Value) : Except Fault Workbench := do
  let c := Conversation.start scriptMeta filename (← Clock.wholeSeconds w.clock)
  return { w with conversations := w.conversations ++ [c] }

def answer : Option Conversation → Value
  | some c => c.snapshot
  | none => .null

def ask (w : Workbench) (n : Nat) (question : Conversation → Except Fault Value) :
    Except Fault Value × Workbench :=
  (w.conversation n >>= question, w)

def settle (w : Workbench) (result : Except Fault Workbench) : Except Fault Value × Workbench :=
  match result with
  | .ok w' => (.ok .null, w')
  | .error fault => (.error fault, w)

def duration (seconds : Value) : Except Fault Nat :=
  match seconds with
  | .float x => Clock.duration x
  | _ =>
    match seconds.asInt? with
    | some n => Clock.durationOf n
    | none => .error .wrongKind

def run (w : Workbench) : Request → Except Fault Value × Workbench
  | .create scriptMeta filename =>
    match w.create scriptMeta filename with
    | .ok w' => (.ok (.int w.conversations.length), w')
    | .error fault => (.error fault, w)
  | .sleep seconds => w.settle do return { w with clock := w.clock + (← duration seconds) }
  | .read n key => w.ask n (·.read key)
  | .readD n key default => w.ask n fun c => do c.callable "get"; c.readD key default
  | .assign n key value => w.settle do return w.replace n (← (← w.conversation n).assign key value)
  | .has n key => w.ask n fun c => do return .bool (← c.has key)
  | .size n => w.ask n fun c => .ok (.int c.fields.length)
  | .literal n => w.ask n fun c => .ok (.str c.snapshot.literal)
  | .keys n => w.ask n fun c => do
    c.callable "keys"
    return .ofItems (c.fields.map fun (name, _) => .str name)
  | .values n => w.ask n fun c => do c.callable "values"; return .ofItems (c.fields.map (·.2))
  | .items n => w.ask n fun c => do
    c.callable "items"
    return .ofItems (c.fields.map fun (name, value) => .tuple [.str name, value])
  | .contents n => w.ask n fun c => do c.callable "to_json"; return .object c.fields
  | .reset n => w.settle do
    let c ← w.conversation n
    c.callable "reset_values"
    return w.replace n c.reset
  | .identity n => w.ask n fun c => .ok (.ofItems [c.scriptMeta, c.filename, .int c.startTime])
  | .push n => w.settle do
    let _ ← w.conversation n
    return { w with stack := .numbered n :: w.stack }
  | .pushValue _ => (.error .wrongKind, w)
  | .force v => (.ok .null, { w with stack := .foreign v :: w.stack })
  | .pop => (w.manager.pop.1.map answer, { w with stack := w.stack.tail })
  | .current => (w.manager.current?.map answer, w)
  | .publish n => w.settle do
    return { w with scope := (← w.manager.publish (← w.conversation n)).scope }
  | .lookup path => (w.manager.lookup path, w)
  | .lookupScope name => (w.manager.lookupScope name, w)

end Workbench

end Colloquy
