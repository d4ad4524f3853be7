import Colloquy.Text.Search
import Colloquy.Value.Access
import Colloquy.Value.Shared

/-! A conversation: the run of one script with one user.  What identifies it (the script's metadata
and file name and the time it started) is fixed when it is made; the other fields are assigned by
name while the script runs. -/

namespace Colloquy

structure Conversation where
  scriptMeta : Value
  filename : Value
  startTime : Int
  /-- Seconds to wait for the user, or `-1` to wait for ever. -/
  timeout : Value := .int (-1)
  timeoutAction : Value := .str ""
  bindings : Value := .tuple [.emptyTable]
  speaker : Value := .tuple [.emptyTable]
  loops : Value := .emptyTable
  lines : Value := .ofItems []
  tags : Value := .emptyTable
  lineText : Value := .str ""
  userLanguage : Value := .null
  lastVariable : Value := .null
  synonymCommand : Value := .null
  synonyms : Value := .ofItems []
  index : Value := .int 1
  lastIndent : Value := .int 0
  awaited : Value := .str ""
  lastRequest : Value := .str ""
  counters : Value := .emptyTable
  recordings : Value := .emptyTable
  pending : Value := .ofItems []
  extras : List (String × Value) := []

namespace Conversation

def start (scriptMeta filename : Value) (startTime : Int) : Conversation :=
  { filename, startTime, scriptMeta := if scriptMeta.isTable then scriptMeta else .emptyTable }

def reset (c : Conversation) : Conversation :=
  { scriptMeta := c.scriptMeta, filename := c.filename, startTime := c.startTime,
    extras := c.extras }

def ownFields (c : Conversation) : List (String × Value) :=
  [("timeout", c.timeout), ("timeout_action", c.timeoutAction), ("variables", c.bindings),
   ("speaker_data", c.speaker), ("loops_dict", c.loops), ("formatted_script", c.lines),
   ("goto_tags", c.tags), ("line", c.lineText), ("user_language", c.userLanguage),
   ("last_variable", c.lastVariable), ("synonym_command", c.synonymCommand),
   ("synonyms", c.synonyms), ("current_index", c.index), ("last_indent", c.lastIndent),
   ("variable_to_fill", c.awaited), ("last_request", c.lastRequest),
   ("sub_string_counters", c.counters), ("audio_responses", c.recordings),
   ("pending_scripts", c.pending)]

def fields (c : Conversation) : List (String × Value) :=
  [("_script_meta", c.scriptMeta), ("_script_filename", c.filename),
   ("_script_start_time", .int c.startTime)] ++ c.ownFields ++ c.extras

def identityNames : List String :=
  ["script_meta", "script_filename", "script_start_time"]

def operationNames : List String :=
  ["keys", "values", "items", "get", "to_json", "reset_values"]

def reservedNames : List String :=
  ["__class__", "__contains__", "__delattr__", "__dict__", "__dir__", "__doc__", "__eq__",
   "__format__", "__ge__", "__getattribute__", "__getitem__", "__getstate__", "__gt__", "__hash__",
   "__init__", "__init_subclass__", "__le__", "__len__", "__lt__", "__module__", "__ne__",
   "__new__", "__reduce__", "__reduce_ex__", "__repr__", "__setattr__", "__setitem__",
   "__sizeof__", "__str__", "__subclasshook__", "__weakref__"]

def field? (c : Conversation) (name : String) : Option Value :=
  Value.field? name c.fields

/-- What some of the names that every object has stand for: the table of its fields, and nothing. -/
def reserved? (c : Conversation) : String → Option Value
  | "__dict__" => some (.object c.fields)
  | "__doc__" | "__weakref__" => some .null
  | _ => none

def withExtra (name : String) (value : Value) : List (String × Value) → List (String × Value)
  | [] => [(name, value)]
  | (n, v) :: rest => if n == name then (n, value) :: rest else (n, v) :: withExtra name value rest

def setField (c : Conversation) (name : String) (value : Value) : Conversation :=
  match name with
  | "timeout" => { c with timeout := value }
  | "timeout_action" => { c with timeoutAction := value }
  | "variables" => { c with bindings := value }
  | "speaker_data" => { c with speaker := value }
  | "loops_dict" => { c with loops := value }
  | "formatted_script" => { c with lines := value }
  | "goto_tags" => { c with tags := value }
  | "line" => { c with lineText := value }
  | "user_language" => { c with userLanguage := value }
  | "last_variable" => { c with lastVariable := value }
  | "synonym_command" => { c with synonymCommand := value }
  | "synonyms" => { c with synonyms := value }
  | "current_index" => { c with index := value }
  | "last_indent" => { c with lastIndent := value }
  | "variable_to_fill" => { c with awaited := value }
  | "last_request" => { c with lastRequest := value }
  | "sub_string_counters" => { c with counters := value }
  | "audio_responses" => { c with recordings := value }
  | "pending_scripts" => { c with pending := value }
  | _ => { c with extras := withExtra name value c.extras }

/-- Assigns a field by name.  Names that start with an underscore are protected, and the identity
has no assignment. -/
def assign (c : Conversation) (key value : Value) : Except Fault Conversation := do
  let name ← key.text
  if Text.startsWith name "_" then .error .protectedField
  else if identityNames.contains name then .error .missingOperation
  else .ok (c.setField name value)

def read (c : Conversation) (key : Value) : Except Fault Value :=
  match key with
  | .str name =>
    match c.field? name <|> c.reserved? name with
    | some value => .ok value
    | none => .error .missingOperation
  | _ => .error .wrongKind

def readD (c : Conversation) (key default : Value) : Except Fault Value :=
  match key with
  | .str name => .ok ((c.field? name <|> c.reserved? name).getD default)
  | _ => .error .wrongKind

def has (c : Conversation) (key : Value) : Except Fault Bool :=
  match key with
  | .str name =>
    .ok ((c.field? name).isSome || operationNames.contains name || reservedNames.contains name)
  | _ => .error .wrongKind

/-- An operation cannot be called once a field has taken its name. -/
def callable (c : Conversation) (operation : String) : Except Fault Unit :=
  if c.extras.any (·.1 == operation) then .error .wrongKind else .ok ()

def changed (change : Value.Change) (c : Conversation) : Conversation :=
  { c with bindings := c.bindings.changed change, speaker := c.speaker.changed change }

def snapshot (c : Conversation) : Value :=
  .record c.fields

end Conversation

end Colloquy
