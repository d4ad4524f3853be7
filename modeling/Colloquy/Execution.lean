import Colloquy.Keyword

/-! Running a script line by line, until it ends or waits for the user.  A line that fails is
reported and ends its script; the line that is run next then is one of the calling script. -/

namespace Colloquy.Execution

open Session

/-! ### Reports -/

structure Report where
  line : Value := "unknown"
  script : Value := "unknown"
  detail : Value := .null

def nextLine (c : Conversation) : Except Fault Value := do
  if ← c.index.compare .atLeast (.int (← c.lines.size)) then .error .outOfRange
  else c.lines.item c.index

def Report.of (c : Conversation) : Report :=
  let report : Except Fault Report := do
    let line ← nextLine c
    c.callable "get"
    return { line := ← line.get "line_number", script := c.filename, detail := ← line.get "text" }
  match report with
  | .ok report => report
  | .error _ => {}

def reportFor (s : Session) (user : Value) : Report :=
  match managerIn s.active user with
  | none => {}
  | some m =>
    match m.current? with
    | .ok (some c) => Report.of c
    | _ => {}

def tellError (error : String) (report : Report) : Run Unit :=
  dialog "error_at_line" (.object [("error", .str error), ("line", report.line),
    ("script", report.script), ("detail", report.detail)])

/-! ### Leaving a case -/

inductive Outdent where
  /-- The line belongs to another option of the case whose line has this indent. -/
  | otherOption (indent : Value)
  | inside
  deriving Inhabited

/-- What the indent of a line means for cases with the given indents, the innermost first. -/
def outdent (indent : Value) : List Value → Except Fault Outdent
  | [] => .ok .inside
  | parent :: outer => do
    let option ← parent.addInt 1
    if indent.same option then return .otherOption parent
    else if ← indent.compare .greater option then return .inside
    else outdent indent outer

def leaveCase (user indent : Value) : Run Unit := do
  let atEnd ← edit user do Command.seekOutdent indent (← Command.linesLeft (← Edit.read))
  if atEnd then exitScript user

/-! ### The text and the data of a line -/

/-- The text of an `if` with the comparator that stands in it as a word in capitals, and with all
values of a variable behind it. -/
def spellOut (text : String) : Except Fault String := do
  let words := Text.words (Text.lower text)
  let candidates := Condition.textComparators.flatMap fun name => [name, "!" ++ name]
  match candidates.find? fun name => words.contains (Text.lower name) with
  | none => return text
  | some name =>
    let gap := " " ++ name ++ " "
    let text := Text.replace (Text.lower gap) gap text
    match Text.cut? gap text with
    | none => .error .badValue
    | some (left, right) =>
      if left.isEmpty || right.isEmpty || Text.contains right "[" then return text
      else return left ++ gap ++ Text.replace "\x7d" "[*]\x7d" right

def commandText (k : Keyword) (user text : Value) : Run Value := do
  if !k.substitutes then return text
  let text ← if k == .branch then do pure (Value.str (← spellOut (← text.text))) else pure text
  return .str (← Substitution.substitute user text false)

def fillData (user : Value) : Entries → Run Unit
  | [] => return ()
  | (key, .str s) :: rest => do
    if Text.contains s "\x7b" && Text.contains s "\x7d" then
      let filled ← Substitution.substitute user s false
      setDatum "parser_data" (← (← lineData).put key (.str filled))
    fillData user rest
  | _ :: rest => fillData user rest

/-- Hands the data of a line on with the message.  A reference that cannot be replaced stays, and so
do those behind it. -/
def passData (k : Keyword) (user line : Value) : Run Unit := do
  setDatum "parser_data" (← line.get "data")
  let fill : Run Unit := do
    let data ← lineData
    if data.truthy && k != .declare then fillData user (← data.entries)
  rescue fill fun _ => return ()

/-! ### Lines -/

def runCommand (k : Keyword) (user line text : Value) : Run Bool := do
  let text ← commandText k user text
  passData k user line
  k.perform user text
  return (← manager? user).isSome

def functionArgument (text : Value) : Except Fault (Option String) := do
  let both (start stop : String) : Except Fault Bool := do
    if ← Value.member start text then Value.member stop text else return false
  if ← both "\x7b" "\x7d" then return some (Pattern.between "\x7b" "\x7d" text.display)
  else if ← both "(" ")" then return some (Pattern.between "(" ")" text.display)
  else return none

def runFunction (f : Function) (c : Conversation) (user line text : Value) : Run Unit := do
  match ← functionArgument text with
  | none =>
    tellError "variable" { line := ← line.item "line_number", detail := ← line.item "text",
                           script := .str (Text.replace "_" " " (← c.filename.text)) }
  | some key =>
    let name := (Text.split "," key).headD ""
    edit user do
      if !(← Value.member name (← Edit.read).bindings) then
        Edit.writeVariable name (.ofItems [])
    let depth := (← managerAt user).depth
    let _ ← f.call (.str key) user
    editSince user depth c (Edit.step 1)

def runLine (c : Conversation) (user line command text : Value) : Run Bool := do
  match ← Keyword.known? command with
  | some k => runCommand k user line text
  | none =>
    match (← Function.known).find? fun f => command.same f.name with
    | some f =>
      runFunction f c user line text
      return false
    | none =>
      edit user (Edit.step 1)
      return true

def runNext (c : Conversation) (user : Value) : Run Bool := do
  let line ← c.lines.item c.index
  let indent ← line.item "indent"
  edit user (Edit.update fun c => { c with lastIndent := indent })
  let command ← line.item "command"
  let text ← line.item "text"
  let place ←
    if ← indent.compare .less c.lastIndent then do
      outdent indent (← (← line.item "parent_case_indents").elements).reverse
    else pure .inside
  match place with
  | .otherOption parent =>
    leaveCase user parent
    return true
  | .inside => runLine c user line command text

/-- Runs one line of the user's script, unless the script waits for the user.  Whether the script
goes on. -/
def advance (user : Value) : Run Bool := do
  let current? ← currentOf user
  if ← isAwaiting user then return false
  match current? with
  | none => return false
  | some c =>
    if !c.lines.truthy then return false
    else if ← c.index.compare .atLeast (.int (← c.lines.size)) then
      tellError "end of file" { line := c.index, script := c.filename, detail := "" }
      exitScript user
      return false
    else runNext c user

def lineLimit : Nat := 300

/-- Runs lines of the user's script, at most as many as given, until the script ends or waits for
the user.  A line that fails is reported and ends its script. -/
def proceed : Nat → Value → Run Unit
  | 0, _ => throw .stepLimit
  | budget + 1, user => do
    let _ ← theMessage
    let report := reportFor (← get) user
    let lines : Run Unit := do
      if ← advance user then proceed budget user
    rescue lines fun _ => do
      tellError "unknown" report
      exitScript user

def resume (user : Value) : Run Unit :=
  proceed lineLimit user

end Colloquy.Execution
