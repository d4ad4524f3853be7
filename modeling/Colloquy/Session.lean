import Colloquy.Clock
import Colloquy.Files
import Colloquy.Host
import Colloquy.Manager
import Colloquy.Value.Member

/-! The state of the program and the computations on it.  A computation that fails keeps the changes
that it made before, so the state comes with the result in either case. -/

namespace Colloquy

structure Session where
  host : Host := {}
  root : String := ""
  files : Files := {}
  clock : Nat := 0
  events : List Event := []
  active : List (Value × Manager) := []
  awaiting : List Value := []
  message : Option Message := none
  reads : Nat := 0
  initialized : Bool := false
  lists : Nat := 0

abbrev Run := EStateM Fault Session

/-- A conversation that is being worked on, and the lists that were changed by that, the last one
first. -/
structure Draft where
  conversation : Conversation
  changes : List Value.Change := []

abbrev Edit := EStateM Fault Draft

instance {σ : Type} : MonadLift (Except Fault) (EStateM Fault σ) where
  monadLift
    | .ok a => pure a
    | .error fault => throw fault

/-- Runs `body`, and `handler` if it fails; the step limit is not handled. -/
def rescue {σ α : Type} (body : EStateM Fault σ α) (handler : Fault → EStateM Fault σ α) :
    EStateM Fault σ α := fun s =>
  match body s with
  | .ok a s => .ok a s
  | .error .stepLimit s => .error .stepLimit s
  | .error fault s => handler fault s

namespace Session

def scriptFolder : Place := ["script_txt"]

def audioFolder : Place := ["script_audio"]

def transcriptFolder : Place := ["script_transcript"]

def start (host : Host) (root : String) (files : Files) : Session :=
  let (host, lists) := host.numbered
  { host, root, files, lists }

def path (s : Session) (place : Place) : String :=
  Text.join "/" (s.root :: place)

def tell (event : Event) : Run Unit :=
  modify fun s => { s with events := event :: s.events }

def send (m : Message) : Run Unit :=
  tell (.emit m.kind (.table m.data) (.table m.context))

def dialog (name : String) (data : Value) : Run Unit :=
  tell (.dialog name data false .null)

def sleep (milliseconds : Nat) : Run Unit :=
  modify fun s => { s with clock := s.clock + milliseconds }

def seconds : Run Float := do
  Clock.seconds (← get).clock

def resolve (path : String) : Run Files.Target := do
  let s ← get
  s.files.resolve s.root ["cwd"] path

def isFileAt (path : String) : Run Bool := do
  let s ← get
  match s.files.resolve s.root ["cwd"] path with
  | .ok (.inside place) => return s.files.isFile place
  | _ => return false

/-! ### The message -/

def theMessage : Run Message := do
  match (← get).message with
  | some m => return m
  | none => throw .missingOperation

def datum (name : String) (default : Value := .null) : Run Value := do
  return (Entries.find? name (← theMessage).data).getD default

def setDatum (name : String) (value : Value) : Run Unit := do
  let m ← theMessage
  modify fun s => { s with message := some { m with data := Entries.insert name value m.data } }

def lineData : Run Value :=
  datum "parser_data"

def handling {α : Type} (message : Option Message) (body : Run α) : Run α := fun s =>
  match body { s with message } with
  | .ok a s' => .ok a { s' with message := s.message }
  | .error fault s' => .error fault { s' with message := s.message }

/-! ### The conversations of a user -/

def managerIn (active : List (Value × Manager)) (user : Value) : Option Manager :=
  (active.find? fun (u, _) => u.same user).map (·.2)

def withManager (user : Value) (m : Manager) : List (Value × Manager) → List (Value × Manager)
  | [] => [(user, m)]
  | (u, n) :: rest => if u.same user then (u, m) :: rest else (u, n) :: withManager user m rest

def manager? (user : Value) : Run (Option Manager) := do
  if user.isKey then return managerIn (← get).active user else throw .wrongKind

def managerAt (user : Value) : Run Manager := do
  match ← manager? user with
  | some m => return m
  | none => throw .missingEntry

def managerOf (user : Value) : Run Manager := do
  match ← manager? user with
  | some m => return m
  | none => throw .missingOperation

def setManager (user : Value) (m : Manager) : Run Unit :=
  modify fun s => { s with active := withManager user m s.active }

def dropManager (user : Value) : Run Unit := do
  if (← get).active.isEmpty then throw .missingEntry
  let _ ← managerAt user
  modify fun s => { s with active := s.active.filter fun (u, _) => !u.same user }

def top (m : Manager) : Run (Option Conversation) :=
  liftM m.current?

def present (c? : Option Conversation) : Run Conversation :=
  match c? with
  | some c => pure c
  | none => throw .wrongKind

def currentAt (user : Value) : Run (Option Conversation) := do
  top (← managerAt user)

def currentOf (user : Value) : Run (Option Conversation) := do
  top (← managerOf user)

def current (user : Value) : Run Conversation := do
  present (← currentAt user)

def withChanges (changes : List Value.Change) (s : Session) : Session :=
  changes.foldr (fun change s =>
    { s with
      active := s.active.map fun (user, m) => (user, m.changed change)
      host := s.host.changed change }) s

/-- Keeps a conversation on top of the stack of a user, after some lists were changed.  The lists of
its variables can stand in other places from now on. -/
def keep (user : Value) (draft : Draft) : Run Unit := do
  modify (withChanges draft.changes)
  let s ← get
  let (bindings, lists) := draft.conversation.bindings.numbered s.lists
  set { s with lists }
  setManager user ((← managerAt user).setTop { draft.conversation with bindings })

/-- Works on the running conversation of a user; also a failing edit keeps what it changed. -/
def edit {α : Type} (user : Value) (body : Edit α) : Run α := do
  let c ← current user
  match body { conversation := c } with
  | .ok a draft => do
    keep user draft
    return a
  | .error fault draft => do
    keep user draft
    throw fault

/-- Works on a conversation that was left.  Only changes of lists remain of that. -/
def editLeft {α : Type} (c : Conversation) (body : Edit α) : Run α := do
  match body { conversation := c } with
  | .ok a draft => do
    modify (withChanges draft.changes)
    return a
  | .error fault draft => do
    modify (withChanges draft.changes)
    throw fault

/-- Works on a conversation that ran with the given number of scripts on the stack, whether it was
left since then or not. -/
def editSince {α : Type} (user : Value) (depth : Nat) (c : Conversation) (body : Edit α) :
    Run α := do
  match ← manager? user with
  | some m => if m.depth == depth then edit user body else editLeft c body
  | none => editLeft c body

def begin (user scriptMeta filename : Value) : Run Unit := do
  let m := (← manager? user).getD { user }
  let startTime ← Clock.wholeSeconds (← get).clock
  setManager user (m.push (Conversation.start scriptMeta filename startTime))

/-! ### Waiting users -/

def isAwaiting (user : Value) : Run Bool := do
  return (← get).awaiting.any (·.same user)

def dropFirst (user : Value) : List Value → List Value
  | [] => []
  | u :: rest => if u.same user then rest else u :: dropFirst user rest

def await (user : Value) : Run Unit :=
  modify fun s => { s with awaiting := s.awaiting ++ [user] }

def stopAwaiting (user : Value) : Run Unit :=
  modify fun s => { s with awaiting := dropFirst user s.awaiting }

end Session

namespace Edit

def read : Edit Conversation := do
  return (← get).conversation

def update (f : Conversation → Conversation) : Edit Unit :=
  modify fun draft => { draft with conversation := f draft.conversation }

def step (n : Int) : Edit Unit := do
  let index ← (← read).index.addInt n
  update fun c => { c with index }

def goTo (index : Value) : Edit Unit :=
  update fun c => { c with index }

def here (name : String) : Edit Value := do
  let c ← read
  (← c.lines.item c.index).item name

def readVariable (name : Value) : Edit Value := do
  (← read).bindings.item name

def writeVariable (name value : Value) : Edit Unit := do
  let bindings ← (← read).bindings.put name value
  update fun c => { c with bindings }

/-- A list with other items.  If it has a number, it has them wherever it stands. -/
def changeList (number : Option Nat) (items : List Value) : Edit Value := do
  match number with
  | none => pure ()
  | some n =>
    let change : Value.Change := { number := n, items }
    modify fun draft =>
      { conversation := draft.conversation.changed change, changes := change :: draft.changes }
  return .list items number

def itemsNow (number : Option Nat) (items : List Value) : Edit (List Value) := do
  match (← get).changes.find? fun change => number == some change.number with
  | some change => return change.items
  | none => return items

end Edit

end Colloquy
