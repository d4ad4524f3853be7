import Colloquy.Function

/-! The commands that ask others to do something: to execute a text as if the user had said it, and
to send an email. -/

namespace Colloquy.Command

open Session

/-! ### Execute -/

def answeredRequest (m : Message) : Except Fault Value := do
  ((Entries.find? "cc_data" m.context).getD .emptyTable).get "request"

def noteAnswer (user : Value) (m : Message) (c : Conversation) : Run Unit := do
  let answer := (Entries.find? "cc_data" m.context).getD .emptyTable
  if c.filename.truthy then
    if (← answer.get "signal_to_check").truthy then
      let request ← answer.item "request"
      c.callable "get"
      if request.same c.lastRequest && !(← isAwaiting user) then
        edit user (Edit.update fun c => { c with lastRequest := "" })

def hearAnswer (message : Option Message) : Run Unit := do
  let user := Message.userOf message
  let hear : Run Unit := do
    match ← manager? user with
    | none => return ()
    | some m =>
      let c? ← top m
      match message with
      | none => throw .missingOperation
      | some message =>
        if (← answeredRequest message).truthy then noteAnswer user message (← present c?)
  rescue hear fun
    | .wrongKind => return ()
    | fault => throw fault

def emitRequest (request : Message) (text : String) : Run Unit := do
  send request
  match Entries.find? text (← get).host.replies with
  | none => return ()
  | some reply =>
    let answer := Value.object [("request", reply), ("signal_to_check", "sig")]
    let context := Entries.insert "cc_data" answer request.context
    hearAnswer (some { kind := "speak", context })

def answerPause : Nat := 200

def answerTime : Float := 10.0

/-- How often an answer is looked for at most.  A quarter of it does while the clock tells
milliseconds; late times are told in steps of some seconds, of which one may have to be awaited. -/
def answerPolls : Nat := 200

def waitForAnswer (user : Value) (text : String) (deadline : Float) : Nat → Run Unit
  | 0 => return ()
  | polls + 1 => do
    if (← seconds) < deadline then
      if (← current user).lastRequest.same text then
        sleep answerPause
        waitForAnswer user text deadline polls

def execute (user text : Value) : Run Unit := do
  let current? ← currentOf user
  let data ← lineData
  let text ← if data.truthy then data.get "command" else pure text
  if text.same "Execute:" then edit user (Edit.step 1)
  else
    let text := Text.trimOf "\"" (← text.text)
    let c ← present current?
    let request ← Function.compose "execute" text c.speaker
    edit user (Edit.update fun c => { c with lastRequest := text })
    emitRequest request text
    edit user (Edit.step 1)
    waitForAnswer user text ((← seconds) + answerTime) answerPolls

/-! ### Email -/

def startsQuoted (s : String) : Bool :=
  Text.startsWith s "\"" || Text.startsWith s "'"

def unquoted (s : String) : String :=
  Text.trimOf "'" (Text.trimOf "\"" s)

def newestValue (bindings : Value) (name default : String) : Except Fault String := do
  let values ← bindings.get (.str (Text.trim name)) (.ofItems [.str default])
  return Text.trimOf "\"" (← (← values.item (.int 0)).text)

def emailParts (c? : Option Conversation) (text : Value) : Run (Value × Value) := do
  match Text.split "," (← text.text) with
  | [subject, body] =>
    let bindings := (← present c?).bindings
    let subject' ← if startsQuoted subject then pure (unquoted subject)
      else liftM (newestValue bindings subject subject)
    let body' ← if startsQuoted body then pure (unquoted body)
      else do
        let value ← newestValue bindings body "Body variable was not defined."
        pure (Text.replace "\\n" "\n" value)
    return (.str subject', .str body')
  | _ => throw .badValue

def email (user text : Value) : Run Unit := do
  let current? ← currentAt user
  let address ← (← (← get).host.preferences.item "user").get "email"
  let data ← lineData
  let (subject, body) ←
    if data.truthy then do pure (← data.get "subject", ← data.get "body")
    else emailParts current? text
  if address.truthy then tell (.email subject body address .null)
  else tell (.dialog "no_email" .null true .null)
  edit user (Edit.step 1)

end Colloquy.Command
