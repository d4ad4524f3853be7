import Colloquy.Fault
import Colloquy.Text.Search

/-! The files and folders that the program can reach.  A place is given by the names on the way from
the root folder down to it. -/

namespace Colloquy

abbrev Place := List String

/-- Files with their text, and folders.  The root folder always exists. -/
structure Files where
  files : List (Place × String) := []
  folders : List Place := []

namespace Files

def isFile (fs : Files) (place : Place) : Bool :=
  fs.files.any (·.1 == place)

def isFolder (fs : Files) (place : Place) : Bool :=
  place.isEmpty || fs.folders.contains place

def raw? (fs : Files) (place : Place) : Option String :=
  (fs.files.find? (·.1 == place)).map (·.2)

def unifyLines : List Char → List Char
  | '\r' :: '\n' :: rest => '\n' :: unifyLines rest
  | '\r' :: rest => '\n' :: unifyLines rest
  | c :: rest => c :: unifyLines rest
  | [] => []

def linesFrom (line : List Char) : List Char → List (List Char)
  | [] => if line.isEmpty then [] else [line.reverse]
  | c :: rest =>
    if c == '\n' then (c :: line).reverse :: linesFrom [] rest else linesFrom (c :: line) rest

def lines (text : String) : List String :=
  (linesFrom [] text.toList).map String.ofList

def contentsAt (fs : Files) (place : Place) : Except Fault String :=
  match fs.raw? place with
  | some text => .ok text
  | none => .error (if fs.isFolder place then .isDirectory else .missingFile)

def read (fs : Files) (place : Place) : Except Fault String := do
  return String.ofList (unifyLines (← fs.contentsAt place).toList)

def within (outer place : Place) : Bool :=
  outer.isPrefixOf place && outer.length < place.length

def ways (place : Place) : List Place :=
  (List.range place.length).map fun n => place.take (n + 1)

def addFolder (fs : Files) (place : Place) : Files :=
  { fs with folders := fs.folders ++ (ways place).filter (!fs.folders.contains ·) }

def addFile (fs : Files) (place : Place) (text : String) : Files :=
  let fs := fs.addFolder place.dropLast
  { fs with files := fs.files.filter (·.1 != place) ++ [(place, text)] }

def makeFolder (fs : Files) (place : Place) : Except Fault Files :=
  if fs.isFile place then .error .fileExists
  else if (ways place).any fs.isFile then .error .notDirectory
  else .ok (fs.addFolder place)

def append (fs : Files) (place : Place) (text : String) : Except Fault Files :=
  if fs.isFolder place then .error .isDirectory
  else if !fs.isFolder place.dropLast then .error .missingFile
  else
    match fs.raw? place with
    | some old =>
      .ok { fs with files := fs.files.map fun (p, t) =>
        if p == place then (p, old ++ text) else (p, t) }
    | none => .ok { fs with files := fs.files ++ [(place, text)] }

def listing (fs : Files) (place : Place) : List String :=
  let inside := (fs.files.map (·.1) ++ fs.folders).filter fun p =>
    within place p && p.length == place.length + 1
  (inside.filterMap (·.getLast?)).mergeSort (· ≤ ·)

def list (fs : Files) (place : Place) : Except Fault (List String) :=
  if fs.isFolder place then .ok (fs.listing place)
  else .error (if fs.isFile place then .notDirectory else .missingFile)

def relocate (old new place : Place) : Place :=
  if old.isPrefixOf place then new ++ place.drop old.length else place

def rename (fs : Files) (old new : Place) : Files :=
  { files := fs.files.map fun (p, t) => (relocate old new p, t)
    folders := fs.folders.map (relocate old new) }

/-- Whether a place comes before another one, or is the same: a folder before what it holds, and
what it holds in the order of the names. -/
def precedes : Place → Place → Bool
  | [], _ => true
  | _ :: _, [] => false
  | a :: p, b :: q => if a == b then precedes p q else a < b

def walk (fs : Files) (place : Place) : List Place :=
  (fs.folders.filter place.isPrefixOf).mergeSort precedes

inductive Target where
  | inside (place : Place)
  | above
  deriving DecidableEq, Repr

def maxNameSize : Nat := 255

def maxPathSize : Nat := 4095

def isHere (name : String) : Bool :=
  name == "" || name == "."

def followAbove : List String → Except Fault Target
  | [] => .ok .above
  | name :: rest =>
    if isHere name || name == ".." then followAbove rest
    else if maxNameSize < name.utf8ByteSize then .error .storageFailure
    else .error .missingFile

def follow (fs : Files) (place : Place) : List String → Except Fault Target
  | [] => .ok (.inside place)
  | name :: rest =>
    if fs.isFile place then .error .notDirectory
    else if !fs.isFolder place then .error .missingFile
    else if isHere name then fs.follow place rest
    else if name == ".." then
      if place.isEmpty then followAbove rest else fs.follow place.dropLast rest
    else if maxNameSize < name.utf8ByteSize then .error .storageFailure
    else fs.follow (place ++ [name]) rest

/-- Where a path leads.  Paths that start with `root` are followed from there, other absolute paths
outside of it, and relative ones from `start`. -/
def resolve (fs : Files) (root : String) (start : Place) (path : String) : Except Fault Target :=
  if path.toList.contains (Char.ofNat 0) then .error .badValue
  else if path.isEmpty then .error .missingFile
  else if maxPathSize < path.utf8ByteSize then .error .storageFailure
  else if path == root then .ok (.inside [])
  else if Text.startsWith path (root ++ "/") then
    fs.follow [] (Text.split "/" (String.ofList (path.toList.drop (root.length + 1))))
  else if Text.startsWith path "/" then followAbove (Text.split "/" path)
  else fs.follow start (Text.split "/" path)

def contents (fs : Files) : Target → Except Fault String
  | .inside place => fs.contentsAt place
  | .above => .error .isDirectory

def readTarget (fs : Files) : Target → Except Fault String
  | .inside place => fs.read place
  | .above => .error .isDirectory

def appendTarget (fs : Files) (text : String) : Target → Except Fault Files
  | .inside place => fs.append place text
  | .above => .error .isDirectory

end Files

def joinPath (folder name : String) : String :=
  if Text.startsWith name "/" then name
  else if folder.isEmpty || Text.endsWith folder "/" then folder ++ name
  else folder ++ "/" ++ name

def baseName (path : String) : String :=
  ((Text.split "/" path).getLast?).getD ""

def stem (name : String) : String :=
  let base := baseName name
  let folder := String.ofList (name.toList.take (name.length - base.length))
  let dots := base.toList.takeWhile (· == '.')
  let rest := base.toList.drop dots.length
  match (Text.split "." (String.ofList rest)).reverse with
  | _ :: first :: more => folder ++ String.ofList dots ++ Text.join "." (first :: more).reverse
  | _ => name

end Colloquy
