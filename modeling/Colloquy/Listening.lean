import Colloquy.Execution

/-! What the user says to a running script, and what happens if the user says nothing. -/

namespace Colloquy.Listening

open Session

def confirm : Run Unit := do
  let m ← theMessage
  send (m.reply "skill.converse.response"
    [("skill_id", "custom-conversation.neon"), ("result", .bool true)] [])

/-! ### Leaving a loop -/

def loopEnd? (c : Conversation) : List Value → Except Fault (Option Value)
  | [] => .ok none
  | name :: rest => do
    let loop ← c.loops.item name
    let start ← loop.item "start"
    let stop ← loop.item "end"
    let inside ←
      if ← start.compare .less c.index then c.index.compare .less stop else pure false
    if inside then return some stop else loopEnd? c rest

def lineAfter? (number : Value) (position : Nat) : List Value → Except Fault (Option (Nat × Value))
  | [] => .ok none
  | line :: rest => do
    if (← line.item "line_number").same number then
      return some (position + 1, ← line.item "indent")
    else lineAfter? number (position + 1) rest

def loopExit? (c : Conversation) : Except Fault (Option (Nat × Value)) := do
  match ← loopEnd? c (← c.loops.elements) with
  | some number => lineAfter? number 0 (← c.lines.elements)
  | none => return none

def leaveScript (user : Value) : Run Unit := do
  if (← get).initialized then exitScript user else throw .missingEntry

/-- Goes on behind the loop that the user's script is in.  Outside of all loops, and also if that
fails, the script is left. -/
def leaveLoop (user : Value) (c : Conversation) : Run Unit := do
  let leave : Run Unit := do
    if ← isAwaiting user then stopAwaiting user
    match ← loopExit? c with
    | some (index, indent) =>
      edit user (Edit.update fun c => { c with index := .int index, lastIndent := indent })
      confirm
      Execution.resume user
    | none => leaveScript user
  rescue leave fun _ => leaveScript user

/-! ### Answers -/

def firstOption? (words : String) : List Value → Except Fault (Option String)
  | [] => .ok none
  | option :: rest => do
    let option ← option.needle
    if Text.contains words option then return some option else firstOption? words rest

/-- The answer that the user gives by some words: one of the options, if the script has any, or the
words themselves.  An empty answer is none. -/
def answer? (c : Conversation) (words : String) : Except Fault (Option String) := do
  let answer ←
    if ← Value.member "," c.awaited then
      match Text.cut? "," (← c.awaited.text) with
      | some (_, list) => do firstOption? words (← (← c.bindings.item list).elements)
      | none => pure none
    else pure (some words)
  return answer.filter (!·.isEmpty)

def keepAnswer (answer : String) : Edit Unit := do
  let name := (← Edit.read).awaited
  match ← Edit.readVariable name with
  | .list items number =>
    Edit.writeVariable name (← Edit.changeList number (.str answer :: items))
  | old =>
    let values := if old.truthy then [.str answer, name] else [.str answer]
    Edit.writeVariable name (.ofItems values)

def recordingName (file : String) : String :=
  if Text.endsWith file ".flac" then Text.trimEndOf ".flac" file else file

def keepRecording (file : String) : Edit Unit := do
  let c ← Edit.read
  let name := c.awaited
  let old ← c.recordings.get name
  let first := Value.str (Text.trim file)
  let files := match old with
    | .list items _ => if file.isEmpty then [first] else first :: items
    | _ => if old.truthy && !file.isEmpty then [first, name] else [first]
  let recordings ← c.recordings.put name (.ofItems files)
  Edit.update fun c => { c with recordings }

def takeAnswer (user : Value) (m : Message) (answer : String) : Run Unit := do
  edit user (keepAnswer (Text.trim answer))
  let file := (Entries.find? "audio_file" m.context).getD .null
  if file.truthy then
    let name := recordingName (← file.text)
    edit user (keepRecording name)
  confirm
  sleep 1000
  Execution.resume user

def spoken (utterance : Value) : Except Fault String := do
  let s := Text.trim utterance.display
  if Text.startsWith s "neon " then return Text.replaceFirst "neon " "" s else utterance.text

def hear (user : Value) (m : Message) (c : Conversation) : Run Bool := do
  let words ← spoken (← (← datum "utterances").item (.int 0))
  if Text.trim words == "exit" then
    leaveLoop user c
    return true
  else if ← isAwaiting user then
    stopAwaiting user
    match ← answer? c words with
    | some answer =>
      takeAnswer user m answer
      return true
    | none =>
      await user
      return false
  else return true

def respond : Run Bool := do
  let m ← theMessage
  match ← manager? m.user with
  | none => return false
  | some manager =>
    let c ← present (← top manager)
    if c.filename.truthy then hear m.user m c else return false

/-! ### Time -/

def delayLimit : Int := 86400 * 1000000000

/-- The microseconds of a fraction of a second, where a half goes to the even neighbour of all
microseconds, of which `before` come before the fraction. -/
def microseconds (before : Int) (fraction : Float) : Int :=
  match Number.ratio? (fraction * 1000000.0) with
  | none => 0
  | some (num, den) =>
    let whole := num.tdiv den
    let rest := num - whole * den
    let isOdd := (before + whole) % 2 != 0
    if (den : Int) < 2 * rest || (2 * rest == den && isOdd) then whole + 1 else whole

def delaySeconds (delay : Value) : Except Fault Int := do
  let whole ← delay.toInt
  let parts := match delay with
    | .float x => microseconds (whole * 1000000) (x - x.floor)
    | _ => 0
  let seconds := (whole * 1000000 + parts) / 1000000
  if delayLimit ≤ seconds then .error .tooLarge else .ok seconds

def restartTimeout (user : Value) : Run Unit := do
  let c ← current user
  if ← c.timeout.compare .greater (.int 0) then
    let seconds ← delaySeconds c.timeout
    let m ← theMessage
    tell (.cancel (timeoutEvent user))
    tell (.schedule (timeoutEvent user) (.int seconds) (.table (Entries.merge m.data m.context)))

/-- Lets the user's script have the words of a message, unless they ask to stop or come from a
script. Whether they were of use to it. -/
def converse : Run Bool := do
  let m ← theMessage
  let utterances ← datum "utterances"
  if m.context.isEmpty || !utterances.truthy then return false
  if (Text.words (← utterances.item (.int 0)).display).contains "stop" then return false
  let origin := (Entries.find? "cc_data" m.context).getD .emptyTable
  if (← origin.get "execute_from_script").truthy then return false
  match ← manager? m.user with
  | none => return false
  | some manager =>
    match ← top manager with
    | none => throw .missingOperation
    | some c =>
      c.callable "get"
      if !c.filename.truthy then return false
      let consumed ← respond
      if consumed then restartTimeout m.user
      return consumed

def timeOut : Run Unit := do
  let user := Message.userOf (← get).message
  let c ← current user
  if c.filename.truthy then
    if c.timeoutAction.truthy then
      if ← isAwaiting user then stopAwaiting user
      Command.goto user c.timeoutAction
    else
      tell (.dialog "TimeoutExit" (.object [("duration", c.timeout)]) true c.speaker)
      exitScript user

end Colloquy.Listening
