import Colloquy.Formula.Eval
import Colloquy.Formula.Literal
import Colloquy.Function

/-! The commands that give variables values: `set`, `variable` and formulas. -/

namespace Colloquy.Command

open Session

def argument (s : String) : String :=
  let between (start stop : String) : String :=
    match Text.split start s with
    | _ :: rest :: _ => (Text.split stop rest).headD ""
    | _ => s
  if Text.contains s "\x7b" then between "\x7b" "\x7d"
  else if Text.contains s "(" then between "(" ")"
  else s

def callQuietly (f : Function) (key : String) (user : Value) : Run Value :=
  handling none (f.call (.str key) user)

/-! ### Set -/

def assignment (data text : Value) : Except Fault (String × String) := do
  if data.truthy then
    let name ← (← data.get "variable").text
    let value ← (← data.get "value").text
    return (Text.trim name, Text.trim value)
  else
    match Text.cut? "=" (← text.text) with
    | none => .error .badValue
    | some (name, value) =>
      return (Text.trimEndOf "\x7d" (Text.trimStartOf "\x7b" (Text.trim name)), Text.trim value)

def valuesOf (s : String) : List String :=
  if Text.contains s "," && !(Text.startsWith s "\"" || Text.startsWith s "'") then
    Text.split "," (Text.replace ", " "," s)
  else [s]

def assignedValue (user : Value) (s : String) : Run Value := do
  match (← Function.known).find? fun f => Text.contains s f.name with
  | none => return .ofItems ((valuesOf s).map .str)
  | some f =>
    match ← callQuietly f (argument s) user with
    | .str result => return .ofItems [.str ((Text.split "," result).headD "")]
    | result => return result

/-- The old values that stay behind a new one.  Old values that are all empty are dropped. -/
def keptValues : Value → List Value
  | .list items _ => if items.any (·.truthy) then items else []
  | old => if old.truthy then [old] else []

def pushValue (new : Value) (old : List Value) : Edit Value :=
  if old.isEmpty then return new
  else
    match new with
    | .list items number => Edit.changeList number (items ++ old)
    | _ => throw .missingOperation

def setVariable (user text : Value) : Run Unit := do
  let current? ← currentAt user
  let data ← lineData
  let (name, value) ← assignment data text
  let c ← present current?
  let old ← c.bindings.get name
  let new ← assignedValue user value
  edit user do
    let pushed ← pushValue new (keptValues old)
    Edit.writeVariable name pushed
    let _ ← pushed.item (.int 0)
    Edit.step 1

/-! ### Variable -/

def declaration (data text : Value) : Except Fault (Value × Value) := do
  let (name, value) ←
    if data.truthy then do pure (← data.get "variable_name", ← data.get "variable_value")
    else pure (.null, .null)
  if value.truthy then return (name, value)
  let assigns ←
    if ← Value.member "=" text then do
      pure (!Text.contains ((Text.split "=" (← text.text)).headD "") "\x7b")
    else pure false
  let parts ←
    if assigns then do pure (Text.cut? "=" (← text.text))
    else if ← Value.member ":" text then do pure (Text.cut? ":" (← text.text))
    else pure none
  match parts with
  | some (name, value) => return (.str name, .str value)
  | none => return (name, value)

def declaredValue (user : Value) (s : String) : Run Value := do
  match (← Function.known).find? fun f => Text.startsWith s f.name with
  | none => return .str s
  | some f =>
    match ← callQuietly f (argument s) user with
    | .str result =>
      match Text.split "," result with
      | _ :: second :: _ => return .str second
      | _ => return .ofItems [.str result]
    | result => return result

def tableOf : List Value → Except Fault Entries
  | [] => .ok []
  | item :: rest => do
    let (key, value) ←
      match Text.split ": " (← item.text) with
      | key :: value :: _ => pure (key, value)
      | _ => .error .outOfRange
    return Entries.merge [(.str key, .str value)] (← tableOf rest)

def anyColon (items : List Value) : Except Fault Bool := do
  let marked ← items.filterM fun item => Value.member ":" item
  return marked.any (·.truthy)

def addedValues (value : Value) : Except Fault (List Value) := do
  match value with
  | .list items _ => if ← anyColon items then return [.table (← tableOf items)] else return items
  | .table _ => return [value]
  | _ =>
    let s ← value.text
    if Text.startsWith s "\x7b" && Text.endsWith s "\x7d" then return [← Formula.readLiteral s]
    else if Text.contains s "," then
      return (Text.split "," (Text.trim (Text.replace ", " "," s))).map .str
    else return [.str (Text.trim s)]

def addValues (name value : Value) : Edit Unit := do
  if !(← Edit.readVariable name).truthy then Edit.writeVariable name (.ofItems [])
  match ← Edit.readVariable name, value with
  | .list items number, _ => do
    let more ← addedValues value
    Edit.writeVariable name (← Edit.changeList number (items ++ more))
  | _, .list items _ => do
    let _ ← anyColon items
    throw .missingOperation
  | _, _ => throw .missingOperation

def variableLine (user text : Value) : Run Unit := do
  let _ ← currentAt user
  let data ← lineData
  let (name, value) ← declaration data text
  if name.truthy then
    let name := Value.str (Text.trim (← name.text))
    let value ← if value.truthy then do pure (Text.trim (← value.text)) else pure ""
    let value ← declaredValue user value
    edit user (addValues name value)
  edit user (Edit.step 1)

/-! ### Formulas -/

def formulaParts (text : String) : Option String × String :=
  match Text.cut? "=" text with
  | some (name, formula) =>
    let name := Text.trim name
    (if name.isEmpty then none else some name, Text.trim formula)
  | none => (none, text)

def formulaOf (text : Value) : Except Fault (Option String × Option String) := do
  match text with
  | .str s =>
    let (name, formula) := formulaParts s
    return (name, some formula)
  | _ => if ← Value.member "=" text then .error .missingOperation else return (none, none)

/-- Evaluates a formula and assigns its result.  Time that passes in it has passed also if it
fails. -/
def runFormula (user : Value) (name formula : Option String) : Run Unit := do
  let some formula := formula | throw .wrongKind
  let result ← fun (s : Session) =>
    match Formula.evaluate formula s.clock with
    | (some result, clock) => EStateM.Result.ok result { s with clock }
    | (none, clock) => .error .badValue { s with clock }
  match name with
  | none => return ()
  | some name =>
    match Formula.resultText? result with
    | some text => edit user (Edit.writeVariable name (.str text))
    | none => throw .badValue

def compute (user text : Value) : Run Unit := do
  let current? ← currentAt user
  if !text.same "Python:" then
    let (name, formula) ← formulaOf text
    rescue (runFormula user name formula) fun _ => do
      let c ← present current?
      dialog "error_at_line" (.object [("error", "python execution"), ("line", c.index),
        ("script", .str (Text.replace "_" " " (← c.filename.needle))), ("detail", text)])
  edit user (Edit.step 1)

end Colloquy.Command
