import Colloquy.Files
import Colloquy.Text.Blank
import Colloquy.Text.Case
import Colloquy.Value.Access

/-! The description under which the program is packaged: its version, what it requires and the
resources that belong to it. -/

namespace Colloquy.Package

def skillName : String := "skill-custom_conversation"

def packageName : String := Text.replace "-" "_" skillName

def lowerSources (requirement : String) : String :=
  let part (p : String) := if Text.startsWith (Text.trim p) "git+http" then Text.lower p else p
  if Text.contains requirement "@" then Text.join "@" ((Text.split "@" requirement).map part)
  else requirement

def authorize (token requirement : String) : String :=
  let lowered := lowerSources requirement
  if !token.isEmpty && Text.contains lowered "github.com" then
    Text.replace "github.com" (token ++ "@github.com") lowered
  else requirement

def requirementLines (text : String) : List String :=
  ((Files.lines text).map Text.trim).filter fun line => !line.isEmpty && !Text.startsWith line "#"

def requirements (token text : String) : List String :=
  (requirementLines text).map (authorize token)

def requirementsIn (files : Files) (root token : String) (name : Value) :
    Except Fault (List String) := do
  let path := joinPath root (← name.needle)
  return requirements token (← files.readTarget (← files.resolve root [] path))

def resourceFolders : List String := ["locale", "ui", "vocab", "dialog", "regex"]

def resources (files : Files) : List String :=
  let holdsFile (folder : Place) := files.files.any fun (p, _) => p.dropLast == folder
  "skill.json" :: resourceFolders.flatMap fun name =>
    ((files.walk [name]).filter holdsFile).map fun folder => Text.join "/" folder ++ "/*"

def quotedIn (line : String) : Except Fault String :=
  let quote := if Text.contains line "\"" then "\"" else "'"
  match Text.split quote line with
  | _ :: value :: _ => .ok value
  | _ => .error .outOfRange

def versionInLines : List String → Except Fault (Option String)
  | [] => .ok none
  | line :: rest => do
    if Text.startsWith line "__version__" then
      let version ← quotedIn line
      return some ((← versionInLines rest).getD version)
    else versionInLines rest

def versionIn (text : String) : Except Fault (Option String) :=
  versionInLines (Files.lines text)

def describe (files : Files) (root token : String) : Except Fault Value := do
  let readme ← files.read ["README.md"]
  let version? ← versionIn (← files.read ["version.py"])
  let some version := version? | .error .unknownName
  let required ← requirementsIn files root token (.str "requirements.txt")
  let texts (ss : List String) : Value := .ofItems (ss.map .str)
  return .object [
    ("name", .str ("neon-" ++ skillName)),
    ("version", .str version),
    ("url", .str ("https://github.com/NeonGeckoCom/" ++ skillName)),
    ("license", .str "BSD-3-Clause"),
    ("install_requires", texts required),
    ("author", .str "Neongecko"),
    ("author_email", .str "developers@neon.ai"),
    ("long_description", .str readme),
    ("long_description_content_type", .str "text/markdown"),
    ("package_dir", .object [(packageName, .str "")]),
    ("packages", texts [packageName]),
    ("package_data", .object [(packageName, texts (resources files))]),
    ("include_package_data", .bool true),
    ("entry_points", .object [("ovos.plugin.skill",
      .str (skillName ++ ".neongeckocom=" ++ packageName ++ ":CustomConversations"))])]

end Colloquy.Package
