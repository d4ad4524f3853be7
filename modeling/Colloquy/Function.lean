import Colloquy.Exit
import Colloquy.Similarity
import Colloquy.Text.Blank
import Colloquy.Text.Case

/-! The functions that a script can call for a value: to let the user choose, to wait for the user's
words, to fetch a table, to offer random items, to find the closest item, to look up a preference
and to ask another skill. -/

namespace Colloquy

open Session

def cleanQuotes : Value → Value
  | .null => .null
  | v => .str (Text.trimOf "'" (Text.trimOf "\"" (Text.trim v.display)))

inductive Function where
  | selectOne
  | voiceInput
  | tableScrape
  | random
  | closest
  | profile
  | skill
  deriving DecidableEq, Repr

namespace Function

def all : List Function :=
  [selectOne, voiceInput, tableScrape, random, closest, profile, skill]

def name : Function → String
  | selectOne => "select_one"
  | voiceInput => "voice_input"
  | tableScrape => "table_scrape"
  | random => "random"
  | closest => "closest"
  | profile => "profile"
  | skill => "skill"

def ofName? (name : String) : Option Function :=
  all.find? (·.name == name)

def known : Run (List Function) := do
  return if (← get).initialized then all else []

def compose (kind : String) (text voice : Value) : Run Message := do
  let context := match (← get).message with
    | some m => m.context
    | none => []
  return { kind, context, data := [("text", text), ("speaker", voice)] }

def listed (items : List Value) : Except Fault String := do
  return Text.join ", " (← items.mapM Value.needle)

/-- `"one of the following: a, b, or c"` for the items of a variable. -/
def choices (bindings key : Value) : Except Fault String := do
  let options ← bindings.item (.str (Text.replace selectOne.name "" (← key.text)))
  let last ← options.item (.int (-1))
  let others := (← options.elements).dropLast
  return "one of the following: " ++ (← listed others) ++ ", or " ++ last.display

def runSelectOne (key user : Value) : Run Value := do
  let offer : Run Value := do
    let key := Value.str (← key.text)
    return .str (← choices (← current user).bindings key)
  rescue offer fun _ => return .str ""

def runVoiceInput (key user : Value) : Run Value := do
  await user
  let name ←
    if ← Value.member "," key then do pure (Value.str ((Text.splitOnce "," (← key.text)).headD ""))
    else pure key
  edit user (Edit.update fun c => { c with awaited := name })
  return .null

def fetch (address : Value) : Run Value := do
  if !address.isKey then throw .wrongKind
  match Entries.find? address (← get).host.pages with
  | some table => return table
  | none => throw .badValue

/-- The table that a web page holds.  A page that cannot be fetched ends the script. -/
def runTableScrape (key user : Value) : Run Value := do
  let _ ← (← current user).bindings.entries
  let address ← if key.isList then key.item (.int 0) else pure key
  rescue (fetch address) fun _ => do
    exitScript user
    return .null

def sample (chance : Chance) (count : Nat) (items : List Value) : Except Fault (List Value) :=
  if items.length < count then .error .badValue else .ok ((chance.shuffle items).take count)

/-- `"a, b, or c"`. -/
def ofThree (items : List Value) : Except Fault Value := do
  let a ← Value.itemAt items 0
  let b ← Value.itemAt items 1
  let c ← Value.itemAt items 2
  return .str (a.display ++ ", " ++ b.display ++ ", or " ++ c.display)

/-- `"a or b"`. -/
def ofTwo (items : Value) : Except Fault Value := do
  return .str ((← items.item (.int 0)).display ++ " or " ++ (← items.item (.int 1)).display)

def ofSample (chance : Chance) (items : List Value) (few : Value) : Except Fault Value :=
  match sample chance 3 items with
  | .ok three => ofThree three
  | .error .badValue => ofTwo few
  | .error fault => .error fault

def shortKeys : Nat → List Value → Except Fault (List Value)
  | 0, _ | _, [] => .ok []
  | count + 1, key :: rest => do
    let short ←
      if key.truthy then do pure (decide ((Text.split " " (← key.text)).length ≤ 3))
      else pure false
    if short then return key :: (← shortKeys count rest) else shortKeys (count + 1) rest

def offer (chance : Chance) (value : Value) : Except Fault Value := do
  let first ← value.item (.int 0)
  match first with
  | .str _ => ofSample chance (← value.elements) first
  | .list items _ => ofSample chance items first
  | .table table =>
    let keys := Entries.keys table
    let short ← shortKeys 3 (chance.shuffle keys)
    if !short.isEmpty then ofThree short
    else ofSample chance keys (.ofItems keys)
  | _ => return .null

def runRandom (key user : Value) : Run Value := do
  let pick : Run Value := do
    let value ← (← current user).bindings.item key
    offer (← get).host.chance value
  rescue pick fun _ => return .str ""

def closestOption (bindings : Value) (name options : String) : Except Fault Value := do
  let value ← bindings.item options
  let first ← value.item (.int 0)
  let word := (← (← bindings.item name).item (.int 0)).display ++ " "
  match first with
  | .table table =>
    match ← Similarity.closest? word (Entries.keys table) with
    | some key => return (Entries.find? key table).getD .null
    | none => return "none"
  | _ =>
    match ← Similarity.closest? word (← value.elements) with
    | some option => return option
    | none => return "none"

def runClosest (key user : Value) : Run Value := do
  let key := Text.replace closest.name "" (← key.text)
  let current? ← currentAt user
  match Text.split "," key with
  | [name, options] =>
    let search : Run Value := do closestOption (← present current?).bindings name options
    rescue search fun _ => return "none"
  | _ => throw .badValue

def section? : String → Option String
  | "speech" => some "speech"
  | "user" => some "user"
  | "brands" => some "brands"
  | "location" => some "location"
  | "unit" => some "units"
  | _ => none

/-- The preference at `section.name`.  Anything that is not of this form ends the script. -/
def runProfile (key user : Value) : Run Value := do
  if ← Value.member "." key then
    match Text.split "." (← key.text) with
    | [part, name] =>
      match section? (Text.trim (Text.lower part)) with
      | some part => (← (← get).host.preferences.item part).get name
      | none => return .null
    | _ => throw .badValue
  else
    exitScript user
    return .null

def runSkill (key user : Value) : Run Value := do
  let current? ← currentAt user
  match Text.cut? "," (← key.text) with
  | none => throw .badValue
  | some (intent, name) =>
    let c ← present current?
    let found ← c.bindings.get intent (.ofItems [cleanQuotes intent])
    let request ← compose "skill_data" (← found.item (.int 0)) c.speaker
    tell (.ask request.kind (.table request.data) "skills:execute.response" 60)
    let text := (Entries.find? "text" request.data).getD .null
    if !text.isKey then throw .wrongKind
    match Entries.find? text (← get).host.skillAnswers with
    | none | some .null => throw .missingOperation
    | some answer =>
      (← (← answer.get "meta" .emptyTable).get "data" .emptyTable).get (.str (Text.trim name))

def call (f : Function) (key user : Value) : Run Value :=
  match f with
  | selectOne => runSelectOne key user
  | voiceInput => runVoiceInput key user
  | tableScrape => runTableScrape key user
  | random => runRandom key user
  | closest => runClosest key user
  | profile => runProfile key user
  | skill => runSkill key user

end Function

end Colloquy
