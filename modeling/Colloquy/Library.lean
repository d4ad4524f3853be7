import Colloquy.Json.Reader
import Colloquy.Session

/-! The scripts on disk.  A script is kept compiled, as a list of ten parts, or as a text that was
not compiled yet. -/

namespace Colloquy.Library

open Session

def compiledExtension : String := ".ncs"

def textExtension : String := ".nct"

def scriptPath (name : String) : Run String := do
  return joinPath ((← get).path scriptFolder) name

def hasScript (name : Value) : Run Bool := do
  let stem := (← get).path scriptFolder ++ "/" ++ (← name.needle)
  if ← isFileAt (stem ++ compiledExtension) then return true
  else isFileAt (stem ++ textExtension)

def load (filename : Value) : Run Value := do
  modify fun s => { s with reads := s.reads + 1 }
  let s ← get
  if s.host.failingRead == some (s.reads : Int) then throw .storageFailure
  let path ← scriptPath (← filename.needle)
  match s.files.resolve s.root [] path >>= s.files.readTarget with
  | .ok text => Json.read text
  | .error .isDirectory => throw .isDirectory
  | .error _ => return .emptyTable

def metaOf (script : Value) : Except Fault Value :=
  script.item (.int 9)

def isCompiled (filename : Value) : Run Bool :=
  let version : Run Value := do (← metaOf (← load filename)).get "cversion"
  rescue (do return (← version).truthy) fun _ => return false

/-- Whether the lines are those of a script: its title comes first, apart from remarks and blank
lines. -/
def hasTitle : List String → Bool
  | [] => false
  | line :: rest =>
    if Text.startsWith line "Script: " then true
    else
      let line := Text.trim line
      if line.isEmpty || Text.startsWith line "#" then hasTitle rest else false

def isScriptText (filename : Value) : Run Bool := do
  let target ← resolve (← scriptPath (← filename.needle))
  return hasTitle (Files.lines (← (← get).files.readTarget target))

def check (filename : Value) (compiled : Bool) : Run Bool :=
  if compiled then isCompiled filename else isScriptText filename

def fileNames : Run (List String) := do
  let files := (← get).files
  return (← files.list scriptFolder).filter fun name => files.isFile (scriptFolder ++ [name])

def longest? : List String → Option String
  | [] => none
  | s :: rest =>
    match longest? rest with
    | some t => some (if s.length < t.length then t else s)
    | none => some s

def nameIn (utterance : Value) : Run (Option String) := do
  let names := (← (← get).files.list scriptFolder).map stem
  return longest? (← names.filterM fun name => liftM (Value.member (.str name) utterance))

def requestedName : Run Value := do
  let utterance ← datum "utterance"
  return ((← nameIn utterance).map Value.str).getD .null

end Colloquy.Library
