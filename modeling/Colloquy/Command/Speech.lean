import Colloquy.Function
import Colloquy.Transcript

/-! The commands that speak: `speak`, `name speak`, `reconvey` and, for the voice, `language`. -/

namespace Colloquy.Command

open Session

def say (text voice : Value) : Run Unit := do
  tell (.speak text voice)
  if !(← get).host.canSpeak then throw .hostFailure

def noteUser (c : Conversation) (user : Value) (heard : Value) : Run Unit := do
  noteSaid c user.display (← heard.item (.int 0))

/-! ### Speaking -/

def voiceFor (base data name : Value) : Except Fault Value := do
  let voice ← base.put "name" name
  let voice ← voice.put "gender" (← data.get "gender" (← base.get "gender"))
  voice.put "language" (← data.get "language" (← base.get "language"))

def preferredLanguage : Run Value := do
  (← (← get).host.preferences.item "speech").item "tts_language"

def voiceOfParts (base : Value) (speaker : String) : Run Value := do
  let gender ← base.get "gender"
  let language ← base.get "language"
  let pick (voice : Value × Value × String) (part : String) : Value × Value × String :=
    let (gender, language, name) := voice
    let part := Text.trim part
    if part == "male" || part == "female" then (.str part, language, name)
    else if part.length == 5 && part.toList[2]? == some '-' then (gender, .str part, name)
    else (gender, language, part)
  let (gender, language, name) := (Text.split "," speaker).foldl pick (gender, language, speaker)
  let language ← if language.truthy then pure language else preferredLanguage
  return .object [("name", name), ("gender", gender), ("language", language),
    ("override_user", .bool true)]

def speechOfData (base data text : Value) : Except Fault (Value × Value × Value) := do
  let speaker := cleanQuotes (← data.get "name")
  let phrase ← data.get "phrase" text
  let isQuoted ← if ← Value.member "\"" phrase then pure true else Value.member "'" phrase
  let phrase := if isQuoted then cleanQuotes phrase else phrase
  return (speaker, phrase, ← voiceFor base data speaker)

def speechOfText (base text : Value) : Run (Value × Value × Value) := do
  match Text.cut? ":" (← text.text) with
  | none => throw .badValue
  | some (speaker, phrase) =>
    let voice ← if Text.contains speaker "," then voiceOfParts base speaker else pure base
    return (.str speaker, .str phrase, voice)

def nameSpeak (user text : Value) : Run Unit := do
  let current? ← currentOf user
  if text.same "Name speak:" then edit user (Edit.step 1)
  else
    let c ← present current?
    let data ← lineData
    let (speaker, phrase, voice) ←
      if data.truthy then liftM (speechOfData c.speaker data text) else speechOfText c.speaker text
    let phrase := Value.str (Text.trimOf "\"" (Text.trim phrase.display))
    edit user (Edit.update fun c => { c with lastRequest := phrase })
    say phrase voice
    let heard ← datum "utterances"
    if heard.truthy then noteUser c user heard
    noteSaid c speaker.display phrase
    edit user (Edit.step 1)

def speakAloud (user : Value) (c : Conversation) (phrase : Value) : Run Unit := do
  edit user do
    Edit.step 1
    Edit.update fun c => { c with lastRequest := phrase }
  say phrase c.speaker
  let heard ← datum "utterances"
  if heard.truthy then
    let _ ← (← lineData).entries
    noteUser c user heard
  noteSaid c "Neon" phrase

def speak (user text : Value) : Run Unit := do
  let current? ← currentAt user
  let data ← lineData
  let foreign ← if data.truthy then do pure (!(← data.get "name").same "Neon") else pure false
  if foreign then nameSpeak user text
  else
    let phrase ← if data.truthy then data.get "phrase" else pure text
    let phrase := cleanQuotes phrase
    if !phrase.truthy || Text.endsWith (Text.lower phrase.display) "speak:" then
      edit user (Edit.step 1)
    else speakAloud user (← present current?) phrase

/-! ### Reconveying -/

def recordingFolder (c : Conversation) : Except Fault String := do
  let title ← (← c.scriptMeta.get "title" c.filename).text
  return Text.replace " " "_" (Text.lower (Text.trimOf "\"" title))

def isFile (path : Value) : Run Bool := do
  match path with
  | .str path => isFileAt path
  | .int n => if n < -2147483648 || 2147483647 < n then throw .tooLarge else return false
  | .bool _ => return false
  | _ => throw .wrongKind

def expandHome (s : Session) (path : String) : String :=
  if path == "~" || Text.startsWith path "~/" then
    s.path ["home"] ++ String.ofList (path.toList.drop 1)
  else path

/-- The recording of a name in a folder: the file of that name, or else the first one of that name
with an extension. -/
def findRecording (folder path : String) : Run String := do
  let s ← get
  let whole := joinPath (joinPath (s.path audioFolder) folder) path
  if ← isFile (.str whole) then return whole
  match s.files.resolve s.root ["cwd"] (joinPath (s.path audioFolder) folder) with
  | .ok (.inside place) =>
    if !s.files.isFolder place then return whole
    let wanted := Text.trim (baseName whole)
    match (s.files.listing place).find? fun file => Text.trim (stem file) == wanted with
    | some file => return joinPath (joinPath (s.path audioFolder) folder) file
    | none => return whole
  | _ => return whole

def recordingOf (c? : Option Conversation) (source audio : Value) : Run Value := do
  let path ← audio.text
  if Text.startsWith path "http" then return .str path
  let path := expandHome (← get) path
  let path ←
    if ← isFile (.str path) then pure path
    else findRecording (← recordingFolder (← present c?)) path
  if ← isFile (.str path) then return .str path
  (← (← present c?).recordings.get source (.ofItems [.str ""])).item (.int 0)

structure Reconveyed where
  name : Value
  text : Value
  audio : Value

/-- What is reconveyed, as the compiler found out.  The conversation is only asked for what is not
quoted. -/
def reconveyedOfData (c? : Option Conversation) (data text : Value) : Run Reconveyed := do
  let source ← data.get "reconvey_text"
  let name := cleanQuotes (← data.get "name" "Neon")
  let isQuoted ← if ← Value.member "\"" source then pure true else Value.member "'" source
  let text ←
    if isQuoted then pure (cleanQuotes source)
    else (← (← present c?).bindings.get source (.ofItems [text])).item (.int 0)
  let file ← data.get "reconvey_file"
  if file.truthy then
    let audio ←
      if isQuoted then pure (cleanQuotes file)
      else (← (← present c?).bindings.get file (.ofItems [text])).item (.int 0)
    return { name, text, audio := ← recordingOf c? source audio }
  else return { name, text, audio := .null }

/-- What is reconveyed of a variable.  A value without a recording is spoken at once. -/
def reconveyedOfVariable (c : Conversation) (source : Value) : Run Reconveyed := do
  if (← c.recordings.get source).truthy then
    let text ← (← c.bindings.item source).item (.int 0)
    let audio ← (← c.recordings.item source).item (.int 0)
    return { name := "Neon", text, audio }
  else
    let text ← (← c.bindings.item source).item (.int 0)
    rescue (say text .null) fun _ => return ()
    return { name := "Neon", text, audio := .null }

def playingTime (busyPolls : Int) : Nat :=
  200 * busyPolls.toNat

def reconvey (user text : Value) : Run Unit := do
  let data ← lineData
  let current? ← currentAt user
  let r ← if data.truthy then reconveyedOfData current? data text
    else reconveyedOfVariable (← present current?) text
  let m ← theMessage
  if ((Entries.find? "klat_data" m.context).getD .null).truthy then
    if r.audio.truthy then
      tell (.recording r.text r.audio (.object [("name", r.name), ("language", .null),
        ("gender", .null), ("voice", .null)]))
    else
      edit user do
        let speaker ← (← Edit.read).speaker.put "name" r.name
        Edit.update fun c => { c with speaker }
      say r.text (← current user).speaker
  else if !m.fromMobile.truthy then
    if ← isFile r.audio then
      tell .waitForSilence
      tell (.play r.audio)
      sleep (playingTime (← get).host.busyPolls)
    else say r.text .null
  edit user (Edit.step 1)

/-! ### The voice -/

def preferredGender : Run Value :=
  let asked : Run Value := do
    (← (← get).host.preferences.item "speech").get "tts_gender" "female"
  rescue asked fun _ => return "female"

def languageOfData (user data : Value) : Run Unit := do
  let speech : Run Value := do (← get).host.preferences.item "speech"
  let language ← data.get "language" (← (← speech).item "tts_language")
  let gender ← data.get "gender" (← (← speech).get "tts_gender")
  edit user (Edit.update fun c => { c with speaker := .object [("name", "Neon"),
    ("language", language), ("gender", gender), ("override_user", .bool true)] })

def genderIn (words : List String) : Run (Value × List String) := do
  if words.contains "male" then return ("male", words.erase "male")
  else if words.contains "female" then return ("female", words.erase "female")
  else return (← preferredGender, words)

def languageOfText (user content : Value) : Run Unit := do
  let (gender, words) ← genderIn (Text.words (Text.replace "\"" "" content.display))
  let some word := words.head? | throw .outOfRange
  let word := Text.trimEndOf "," (Text.trimOf "'" (Text.trimOf "\"" (Text.lower word)))
  let language ←
    if word.isEmpty then (← get).host.preferences.item "speech" else pure (.str word)
  edit user do
    Edit.update fun c => { c with speaker := if c.speaker.truthy then c.speaker else .emptyTable }
    let speaker ← (← Edit.read).speaker.put "language" language
    Edit.update fun c => { c with speaker }
    let speaker ← speaker.put "gender" gender
    Edit.update fun c => { c with speaker }

def language (user content : Value) : Run Unit := do
  let _ ← currentAt user
  let data ← lineData
  let given ←
    if data.truthy then do
      let l ← data.get "language"
      let g ← data.get "gender"
      pure (l.truthy || g.truthy)
    else pure false
  if given then languageOfData user data else languageOfText user content
  edit user (Edit.step 1)

end Colloquy.Command
