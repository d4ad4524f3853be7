import Colloquy.Execution

/-! Starting a script at the user's request. -/

namespace Colloquy.Launch

open Session

def headerCommands : List String :=
  ["script", "description", "author", "timeout", "claps", "synonym"]

def tableOfPairs (table : Entries) : List Value → Except Fault Entries
  | [] => .ok table
  | pair :: rest => do
    match ← pair.elements with
    | [key, value] =>
      if key.isKey then tableOfPairs (Entries.insert key value table) rest
      else .error .wrongKind
    | _ => .error .badValue

def tagNames (tags : Value) : Except Fault (List Value) := do
  match tags with
  | .table entries => return Entries.keys entries
  | _ => return Entries.keys (← tableOfPairs [] (← tags.elements))

def tagIn (place : String) : List Value → Except Fault (Option Value)
  | [] => .ok none
  | tag :: rest => do
    if Text.contains place (← tag.needle) then return some tag else tagIn place rest

def startIndex (tags utterance : Value) (name : String) : Except Fault Value := do
  let utterance ← utterance.text
  if name.isEmpty then .error .badValue
  match Text.split name utterance with
  | _ :: request :: _ =>
    match Text.cut? " at " request with
    | none => return .null
    | some (_, place) =>
      match ← tagIn (Text.replace " " "_" place) (← tagNames tags) with
      | some tag => tags.item tag
      | none => return .null
  | _ => return .null

def skipHeader : Nat → Edit Unit
  | 0 => return ()
  | fuel + 1 => do
    let c ← Edit.read
    if ← c.index.compare .atMost (.int (← c.lines.size)) then
      let command ← (← c.lines.item c.index).item "command"
      if headerCommands.any fun name => command.same name then
        Edit.step 1
        skipHeader fuel

def enter (start : Value) : Edit Unit := do
  if start.truthy then Edit.goTo start
  else skipHeader (← Command.linesLeft (← Edit.read))

def beginScript (user : Value) (filename : String) (script? : Option Value) : Run Unit := do
  let scriptMeta := match script?.map Library.metaOf with
    | some (.ok v) => v
    | _ => .null
  begin user scriptMeta filename
  let c ← current user
  addTranscript (.str ("RUNNING SCRIPT " ++ filename ++ "\n")) filename (.int c.startTime)
  edit user do
    match script? with
    | some script => rescue (Command.fill script) fun _ => Edit.update (·.reset)
    | none => Edit.update (·.reset)
    Edit.update fun c => { c with lastIndent := .int 0 }

def start : Run Unit := do
  let user := (← theMessage).user
  let name ← (← datum "file_to_run").text
  let filename := Text.replace "-" "_" (Text.replace " " "_" (Text.trimEnd name))
  let files ← (← get).files.makeFolder transcriptFolder
  modify fun s => { s with files }
  let file := Value.str (filename ++ Library.compiledExtension)
  if !(← Library.hasScript filename) then
    dialog "NotFound" (.object [("file_to_open", .str (Text.replace "_" " " filename))])
  else if ← Library.isCompiled file then
    let script? ← rescue (do return some (← Library.load file)) fun _ => return none
    beginScript user filename script?
    let utterance ← datum "utterance"
    edit user do
      let start ← startIndex (← Edit.read).tags utterance name
      enter start
    Execution.resume user
  else
    dialog "ProblemInFile" (.object [("file_name", .str (Text.replace "_" " " filename))])
    dropManager user

def startForChat : Run Unit := do
  let started ← rescue (do start; return true) fun _ => return false
  send ((← theMessage).reply "neon.friendly_chat.response" []
    [("friendly_chat_executed", .bool started)])

def answerQuery : Run Unit := do
  let name ← Library.requestedName
  let found ← Library.hasScript name
  send ((← theMessage).reply "neon.script_exists.response"
    [("script_name", name), ("script_exists", .bool found)] [])

end Colloquy.Launch
