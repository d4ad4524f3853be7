import Colloquy.Catalogue
import Colloquy.Launch
import Colloquy.Listening
import Colloquy.Maintenance

/-! What can be asked of the program, and the answers. -/

namespace Colloquy

open Session

structure Scene where
  scriptMeta : Value := .null
  filename : Value := "demo"
  bindings : Value := .emptyTable
  lines : Value := .ofItems []
  loops : Value := .emptyTable
  tags : Value := .emptyTable
  speaker : Value := .emptyTable
  index : Value := .int 1

inductive Request where
  | stage (user : Value) (scene : Scene)
  | assign (user : Value) (fields : Entries)
  | await (users : List Value)
  | command (name user text : Value)
  | function (name key user : Value)
  | substitute (user line : Value) (wildcards : Bool)
  | resume (user : Value)
  | hasScript (name : Value)
  | checkFile (filename : Value) (compiled : Bool)
  | changeLanguage (language : Value)
  | addTranscript (text filename startTime : Value)
  | requirements
  | updateSettings
  | setUp
  | stop
  | updateScripts
  | update
  | tellAvailable
  | setDefault
  | emailScript
  | start
  | startForChat
  | answerQuery
  | requestedName
  | timeOut
  | hearAnswer
  | converse
  | respond
  | tellUpload
  | tree

namespace Request

def runStage (user : Value) (scene : Scene) : Run Unit := do
  begin user scene.scriptMeta scene.filename
  edit user (Edit.update fun c =>
    { c with bindings := scene.bindings, lines := scene.lines, loops := scene.loops,
             tags := scene.tags, speaker := scene.speaker, index := scene.index })

def assignFields : Entries → Edit Unit
  | [] => return ()
  | (name, value) :: rest => do
    let c ← (← Edit.read).assign name value
    Edit.update fun _ => c
    assignFields rest

def runAssign (user : Value) (fields : Entries) : Run Unit := do
  let _ ← currentAt user
  if !fields.isEmpty then edit user (assignFields fields)

def runCommand (name user text : Value) : Run Unit := do
  match ← Keyword.known? name with
  | some k => k.perform user text
  | none => throw .missingEntry

def runFunction (name key user : Value) : Run Value := do
  if !name.isKey then throw .wrongKind
  match (← Function.known).find? fun f => name.same f.name with
  | some f => f.call key user
  | none => throw .missingEntry

def listTree (files : Files) : List String :=
  let paths := files.files.map (fun (place, _) => Text.join "/" place) ++
    files.folders.map fun place => Text.join "/" place ++ "/"
  paths.mergeSort (· ≤ ·)

def silently (body : Run Unit) : Run Value := do
  body
  return .null

def serve : Request → Run Value
  | stage user scene => silently (runStage user scene)
  | assign user fields => silently (runAssign user fields)
  | await users => silently (modify fun s => { s with awaiting := users })
  | command name user text => silently (runCommand name user text)
  | function name key user => runFunction name key user
  | substitute user line wildcards => do
    return .str (← Substitution.substitute user line wildcards)
  | resume user => silently (Execution.resume user)
  | hasScript name => do return .bool (← Library.hasScript name)
  | checkFile filename compiled => do return .bool (← Library.check filename compiled)
  | changeLanguage language => silently (Maintenance.changeLanguage language)
  | addTranscript text filename startTime =>
    silently (Colloquy.addTranscript text filename startTime)
  | requirements => return Maintenance.requirements
  | updateSettings => do return .ofItems [← Maintenance.autoUpdate, ← Maintenance.allowUpdate]
  | setUp => silently Maintenance.setUp
  | stop => return .null
  | updateScripts => do return .bool (← Maintenance.updateScripts)
  | update => silently Maintenance.update
  | tellAvailable => silently Catalogue.tellAvailable
  | setDefault => silently Catalogue.setDefault
  | emailScript => silently Catalogue.email
  | start => silently Launch.start
  | startForChat => silently Launch.startForChat
  | answerQuery => silently Launch.answerQuery
  | requestedName => Library.requestedName
  | timeOut => silently Listening.timeOut
  | hearAnswer => do silently (Command.hearAnswer (← get).message)
  | converse => do return .bool (← Listening.converse)
  | respond => do return .bool (← Listening.respond)
  | tellUpload => silently Catalogue.tellUpload
  | tree => do return .ofItems ((listTree (← get).files).map .str)

/-- Runs a request that comes with a message, or without one, on a session whose record of events
starts anew. -/
def run (r : Request) (message : Option Message) (s : Session) : Except Fault Value × Session :=
  match r.serve { s with message, events := [] } with
  | .ok v s => (.ok v, s)
  | .error fault s => (.error fault, s)

end Request

end Colloquy
