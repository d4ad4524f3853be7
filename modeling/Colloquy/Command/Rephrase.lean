import Colloquy.Command.Assign
import Colloquy.Pattern

/-! The commands that rephrase the text of a variable: word by word, or by a response to the pattern
that it matches. -/

namespace Colloquy.Command

open Session

/-- The two names that a line gives: the variable to rephrase and the list to do it by.  A line
without brackets is noted as a bad one of the conversation. -/
def rephraseNames (c? : Option Conversation) (text : Value) : Run (String × String) := do
  let bracketed ← if ← Value.member "\x7b" text then pure true else Value.member "(" text
  if !bracketed then let _ ← present c?
  match Text.split "," (argument (← text.text)) with
  | [name, list] => return (name, list)
  | _ => throw .badValue

def replacement (pair : Value) : Except Fault (String × String) := do
  let quoted ← Value.member "\" \"" pair
  let pair := Text.trim (Text.lower (← pair.text))
  match Text.cut? (if quoted then "\" \"" else " ") pair with
  | some parts => return parts
  | none => .error .badValue

def replaceWords (s : String) : List Value → Except Fault String
  | [] => .ok s
  | pair :: rest => do
    if pair.truthy then
      let (old, new) ← replacement pair
      replaceWords (if (Text.words s).contains old then Text.replace old new s else s) rest
    else replaceWords s rest

def replaceValues (user text : Value) : Run Unit := do
  let current? ← currentAt user
  let (name, list) ← rephraseNames current? text
  edit user do
    let first ← (← Edit.readVariable (.str (Text.trim name))).item (.int 0)
    let input := " " ++ Text.lower (← first.text) ++ " "
    let pairs ← (← Edit.readVariable (.str (Text.trim list))).elements
    let output ← replaceWords input pairs
    Edit.writeVariable name (.str (Text.trim output))
    Edit.step 1

def answerPattern (user text : Value) : Run Unit := do
  let current? ← currentAt user
  let (name, list) ← rephraseNames current? text
  let response? ← edit user do
    let input ← (← Edit.readVariable (.str (Text.trim name))).needle
    let entries ← Edit.readVariable (.str (Text.trim list))
    let fuel := (← entries.size) + Pattern.extraEntries
    Pattern.firstResponse (" " ++ input ++ " ") entries fuel 0
  match response? with
  | none => throw .missingOperation
  | some response =>
    let depth := (← managerAt user).depth
    let c ← current user
    let output ← Substitution.substitute user response true
    editSince user depth c do
      Pattern.prepend name (Text.trim output)
      Edit.step 1

end Colloquy.Command
