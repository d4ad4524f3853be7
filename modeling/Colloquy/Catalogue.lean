import Colloquy.Library
import Colloquy.Text.Base64

/-! What the user can ask about the scripts on disk: which there are, to have one run at the start,
and to have one sent. -/

namespace Colloquy.Catalogue

open Session

def tellMissing (name : String) : Run Unit :=
  dialog "NotFound" (.object [("file_to_open", .str (Text.replace "_" " " name))])

def listing (names : List String) : String :=
  Text.join ", " names.dropLast ++ ", and " ++ (names.getLast?).getD ""

def tellAvailable : Run Unit := do
  let files := (← Library.fileNames).filter fun name =>
    Text.endsWith name Library.compiledExtension
  let available := files.map fun name => Text.replace "_" " " (stem name)
  if !available.isEmpty then
    dialog "available_script" (.object [("available", .str (listing available))])
    let _ ← theMessage

def nameAfter (word utterance : String) : String :=
  Text.replace " " "_" (Text.trim (Text.join " " (Text.split word utterance).tail))

def setDefault : Run Unit := do
  let m ← theMessage
  let name := nameAfter "to" (← (← datum "utterance").text)
  if ((← Library.fileNames).map stem).contains name then
    if m.fromMobile.truthy then
      tell (.dialog "startup_script" (.object [("script_name", .str name)]) true .null)
  else tellMissing name

def sendScript (name : String) (address : Value) : Run Unit := do
  let file := name ++ ".txt"
  let content ← (← get).files.contents (← resolve (← Library.scriptPath file))
  tell (.email (.str ("Neon Script: " ++ Text.replace "_" " " name))
    (.str ("\nAttached is your requested Neon Script: " ++ name ++ "\n\n-Neon")) address
    (.object [(file, .str (Text.Base64.encode content))]))
  dialog "email_sent" (.object [("script", .str name), ("email", address)])

def email : Run Unit := do
  let m ← theMessage
  if m.isAddressed.truthy then
    let utterance ← (← datum "utterance").text
    let word ← (← datum "script").needle
    let name := Text.trimEndOf "_" (Text.replace word "" (nameAfter "my" utterance))
    if ((← Library.fileNames).map stem).contains name then
      let address ← (← (← get).host.preferences.item "user").item "email"
      if address.truthy then sendScript name address else dialog "no_email" .null
    else tellMissing name

def tellUpload : Run Unit := do
  let name ← datum "script_name"
  let status ← datum "script_status"
  let failed (reason : String) : Run Unit :=
    dialog "upload_failed" (.object [("name", name), ("reason", .str reason)])
  if status.same "exists" then failed "the filename already exists"
  else if status.same "created" || status.same "updated" then
    dialog "upload_success" (.object [("name", name), ("state", status)])
  else if status.same "no title" then failed "no script title was found"

end Colloquy.Catalogue
