import Colloquy.Condition

/-! The commands that decide which line comes next: `loop`, `goto`, `case`, `if` and `else`. -/

namespace Colloquy.Command

open Session

/-! ### Loops -/

def lineIndex (number : Value) : List Value → Except Fault Nat
  | [] => .ok 0
  | line :: rest => do
    if (← line.item "line_number").same number then return 0
    else return (← lineIndex number rest) + 1

def loopDone (loop bindings : Value) : Except Fault Bool := do
  let name := Text.replace "\x7d" "" (Text.replace "\x7b" "" (← loop.get "end_variable").display)
  let final := Text.replace "'" "" (Text.replace "\"" "" (← loop.get "end_value").display)
  if (← bindings.get name).truthy && !final.isEmpty then
    return (← (← bindings.item name).item (.int 0)).same final
  else return false

def endLoop (name : String) : Edit Unit := do
  let c ← Edit.read
  let loop ← c.loops.item name
  let start ← loop.item "start"
  if ← loopDone loop c.bindings then Edit.step 1
  else Edit.goTo (.int (← lineIndex start (← c.lines.elements)))

def loop (user text : Value) : Run Unit := do
  let _ ← currentOf user
  let _ ← lineData
  let ends ← if ← Value.member "END" text then pure true else Value.member "UNTIL" text
  if ends then
    match Text.split " " text.display with
    | _ :: name :: _ => edit user (endLoop name)
    | _ => throw .outOfRange
  else edit user (Edit.step 1)

/-! ### Jumps -/

/-- The line number that a jump goes to: that of a tag, or the destination itself.  A number needs
no conversation. -/
def destination (c? : Option Conversation) (data text : Value) : Run Value := do
  let given ← if data.truthy then data.get "destination" else pure .null
  if given.truthy then (← present c?).tags.get given given
  else if Text.isNumeric text.display then return .int (← text.toInt)
  else
    let tags := (← present c?).tags
    if ← Value.member text tags then return .int (← (← tags.item text).toInt) else return .null

/-- Goes to the first line of a number, as if the line before it had the same indent.  Without such
a line the conversation stays where it is. -/
def jump (number : Value) (position : Nat) : List Value → Edit Unit
  | [] => return ()
  | line :: rest => do
    if (Value.int (← (← line.item "line_number").toInt)).same number then
      Edit.goTo (.int position)
      let indent ← line.item "indent"
      Edit.update fun c => { c with lastIndent := indent }
    else jump number (position + 1) rest

def goto (user text : Value) : Run Unit := do
  let current? ← currentAt user
  let data ← lineData
  let number ← destination current? data text
  let c ← present current?
  if number.truthy then edit user do jump number 0 (← c.lines.elements)
  else
    let line ← c.lines.item c.index
    dialog "error_at_line" (.object [("error", "missing tag"),
      ("line", ← line.item "line_number"), ("script", c.filename), ("detail", ← line.item "text")])
    edit user (Edit.step 1)

/-! ### Cases -/

inductive CaseStep where
  /-- The case is over without a match: ask again. -/
  | again
  | enter
  | pass
  deriving DecidableEq, Repr

def alternatives (text : Value) : List String :=
  Text.split " or " (Text.trimOf "\"" (Text.trimEndOf "\n" (Text.lower text.display)))

def caseStep (indent value line : Value) : Except Fault CaseStep := do
  let at' ← line.item "indent"
  if ← at'.compare .atMost indent then return .again
  else if ← at'.compare .greater (← indent.addInt 1) then return .pass
  else
    let options := alternatives (← line.item "text")
    return if options.any fun option => value.same option then .enter else .pass

/-- The index at which a case goes on, if it moves: behind the option that matches from the position
on, or one line back. -/
def caseTarget (lines indent value index : Value) : Nat → Int → Option Value
  | 0, _ => none
  | fuel + 1, position =>
    match (lines.item (.int position) >>= caseStep indent value) with
    | .ok .again => (index.addInt (-1)).toOption
    | .ok .enter => some (.int (position + 1))
    | .ok .pass => caseTarget lines indent value index fuel (position + 1)
    | .error _ => none

def chooseCase (value : Value) : Edit Unit := do
  let c ← Edit.read
  let indent ← Edit.here "indent"
  let next ← c.index.addInt 1
  if next.truthy && value.truthy then
    match next.asInt? with
    | none => return ()
    | some position =>
      let size ← c.lines.size
      let fuel := (size + 1 - position).toNat
      match caseTarget c.lines indent value c.index fuel position with
      | some index => Edit.goTo index
      | none => return ()

def caseValue (text : Value) : Except Fault Value := do
  if ← Value.member " " text then
    match Text.split " " text.display with
    | _ :: word :: _ => return .str (Text.trim (Text.replace ":" "" word))
    | _ => .error .outOfRange
  else return .str (Text.trim text.display)

def case (user text : Value) : Run Unit := do
  let current? ← currentAt user
  let data ← lineData
  if data.truthy then
    let value ← data.get "variable"
    edit user (chooseCase value)
  else
    match caseValue text with
    | .ok value => edit user (chooseCase value)
    | .error _ =>
      edit user (Edit.step (-1))
      let c ← present current?
      exitScript user
      let _ ← (← c.lines.item (← c.index.addInt (-1))).item "indent"

/-! ### Branches -/

/-- Goes on to the `else` of an indent, or to the first line that is not indented deeper. -/
def seekElse (indent : Value) : Nat → Edit Unit
  | 0 => return ()
  | fuel + 1 => do
    let c ← Edit.read
    if ← c.index.compare .atMost (.int (← c.lines.size)) then
      let line ← c.lines.item c.index
      let command ← line.item "command"
      let isElse ←
        if command.same "else" then do pure ((← line.item "indent").same indent) else pure false
      if isElse then Edit.step 1
      else
        let outside ← (← line.item "indent").compare .atMost indent
        if outside && command.truthy then return ()
        else
          Edit.step 1
          seekElse indent fuel

def linesLeft (c : Conversation) : Except Fault Nat := do
  let size ← c.lines.size
  return ((size : Int) + 2 - c.index.asInt?.getD 0).toNat

def enterIf (holds : Bool) : Edit Unit := do
  let indent ← Edit.here "indent"
  Edit.step 1
  if !holds then seekElse indent (← linesLeft (← Edit.read))

def branch (user text : Value) : Run Unit := do
  let data ← lineData
  let holds ← if data.truthy then liftM (Condition.ofData data) else pure (Condition.ofText text)
  edit user (enterIf holds)

/-- Goes on to the first line that is not indented deeper.  Whether the last line of the script was
reached instead. -/
def seekOutdent (indent : Value) : Nat → Edit Bool
  | 0 => return false
  | fuel + 1 => do
    if ← (← Edit.here "indent").compare .greater indent then
      let c ← Edit.read
      if c.index.same (.int ((← c.lines.size) - 1)) then return true
      else
        Edit.step 1
        seekOutdent indent fuel
    else return false

def passElse : Edit Bool := do
  let indent ← Edit.here "indent"
  Edit.step 1
  seekOutdent indent (← linesLeft (← Edit.read))

def otherwise (user : Value) : Run Unit := do
  if ← edit user passElse then exitScript user

end Colloquy.Command
