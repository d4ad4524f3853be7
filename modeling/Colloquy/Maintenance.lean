import Colloquy.Text.Case
import Colloquy.Transcript

/-! Setting the program up and keeping its scripts up to date. -/

namespace Colloquy.Maintenance

open Session

def requirements : Value :=
  .object [("network_before_load", true), ("internet_before_load", true),
    ("gui_before_load", false), ("requires_internet", true), ("requires_network", true),
    ("requires_gui", false), ("no_internet_fallback", true), ("no_network_fallback", true),
    ("no_gui_fallback", true)]

def setting (name : String) : Run Value := do
  let host := (← get).host
  if host.complete.truthy then host.settings.get name else return .bool false

def autoUpdate : Run Value :=
  setting "auto_update"

def allowUpdate : Run Value :=
  setting "allow_update"

/-! ### The repository of scripts -/

def backupFolder : Place := ["script_txt_bak"]

def defaultRemote : String := "https://github.com/neongeckocom/neon-scripts"

def repository (arguments : List Value) : Run Unit := do
  tell (.repository arguments)
  let s ← get
  if s.host.refuses s.events then throw .hostFailure

def moveFolder (source target : Place) : Run Unit := do
  let files := (← get).files
  let target := if files.isFolder target then target ++ source.getLast?.toList else target
  if files.isFolder target || files.isFile target then throw .storageFailure
  let files ← files.makeFolder target.dropLast
  modify fun s => { s with files := files.rename source target }

def openRepository : Run Value := do
  let s ← get
  let files ← s.files.makeFolder scriptFolder
  set { s with files }
  repository ["open", .str (s.path scriptFolder)]
  match s.host.remotes with
  | some urls => return urls
  | none => throw .notRepository

def fetchRepository : Run Value := do
  moveFolder scriptFolder backupFolder
  repository ["clone", .str defaultRemote, .str ((← get).path scriptFolder)]
  modify fun s => { s with files := s.files.addFolder scriptFolder }
  return .ofItems [.str defaultRemote]

def pull (branch : Value) : Run Unit := do
  repository ["pull", branch]
  if !(← get).host.canPull then throw .storageFailure

def correctRemotes (remote branch : Value) : List Value → Run Unit
  | [] => return ()
  | url :: rest => do
    if !url.same remote then
      repository ["delete_remote", "origin"]
      repository ["create_remote", "origin", remote]
      repository ["reset", "--hard"]
      pull branch
      repository ["reset", "--hard", .str ("origin/" ++ branch.display)]
    correctRemotes remote branch rest

def fetchScripts : Run Unit := do
  let settings := (← get).host.settings
  let remote ← settings.item "scripts_repo"
  let branch ← settings.item "scripts_branch"
  let urls ← rescue openRepository fun
    | .notRepository => fetchRepository
    | fault => throw fault
  correctRemotes remote branch (← urls.elements)
  pull branch
  if (← get).files.isFolder backupFolder then
    moveFolder backupFolder (scriptFolder ++ ["backup", "old"])
  tell (.saveSettings (.object [("last_updated", .str nowText)]) true)

def updateScripts : Run Bool :=
  rescue (do fetchScripts; return true) fun _ => return false

def update : Run Unit := do
  if (← allowUpdate).truthy then
    dialog "update_started" .null
    let updated ← updateScripts
    sleep 1000
    dialog (if updated then "update_success" else "update_failed") .null
  else dialog "update_disallowed" .null

/-! ### Setting up -/

def heardKinds : List String :=
  ["neon.script_upload", "neon.script_exists", "neon.run_alert_script", "neon.friendly_chat",
   "speak"]

def setUp : Run Unit := do
  tell .makeActive
  modify fun s => { s with initialized := true }
  tell (.unlisten "speak")
  heardKinds.forM fun kind => tell (.listen kind)
  if (← autoUpdate).truthy then
    let _ ← updateScripts

def changeLanguage (language : Value) : Run Unit := do
  sleep 500
  let language := Text.lower (← language.text)
  let context := (← theMessage).context
  let about (name : String) (default : Value) := (Entries.find? name context).getD default
  let plain := Text.replace "female" "" (Text.replace "male" "" language)
  send { kind := "recognizer_loop:utterance"
         data := [("utterances", .ofItems [.str ("speak to me in " ++ language ++ " only silent")]),
           ("first_language", .ofItems [.str plain]), ("silent", .bool true),
           ("flac_filename", about "flac_filename" ""),
           ("nick_profiles", about "nick_profiles" .emptyTable)] }
  sleep 500

end Colloquy.Maintenance
