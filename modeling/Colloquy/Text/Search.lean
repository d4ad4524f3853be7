/-! Finding a text in another, cutting a text at it, putting another in its place, and repeating a
text.  Occurrences are counted from the left and do not overlap. -/

namespace Colloquy.Text

def cutChars? (sep : List Char) : List Char → Option (List Char × List Char)
  | [] => if sep.isEmpty then some ([], []) else none
  | c :: rest =>
    if sep.isPrefixOf (c :: rest) then some ([], (c :: rest).drop sep.length)
    else (cutChars? sep rest).map fun (before, after) => (c :: before, after)

/-- The pieces of the text that remains, of which `skip` characters belong to the separator just
met and `piece` holds in reverse the piece being read. -/
def splitFrom (sep : List Char) : Nat → List Char → List Char → List (List Char)
  | _, piece, [] => [piece.reverse]
  | skip + 1, piece, _ :: rest => splitFrom sep skip piece rest
  | 0, piece, c :: rest =>
    if sep.isPrefixOf (c :: rest) then piece.reverse :: splitFrom sep (sep.length - 1) [] rest
    else splitFrom sep 0 (c :: piece) rest

def cut? (sep s : String) : Option (String × String) :=
  (cutChars? sep.toList s.toList).map fun (before, after) =>
    (String.ofList before, String.ofList after)

def split (sep s : String) : List String :=
  (splitFrom sep.toList 0 [] s.toList).map String.ofList

def contains (s part : String) : Bool :=
  (cutChars? part.toList s.toList).isSome

def startsWith (s part : String) : Bool :=
  part.toList.isPrefixOf s.toList

def endsWith (s part : String) : Bool :=
  part.toList.isSuffixOf s.toList

def join (sep : String) (parts : List String) : String :=
  String.intercalate sep parts

/-- `s` with every occurrence of `old` replaced by `new`.  The empty text occurs before every
character and at the end. -/
def replace (old new s : String) : String :=
  if old.isEmpty then new ++ String.join (s.toList.map fun c => c.toString ++ new)
  else join new (split old s)

def replaceFirst (old new s : String) : String :=
  match cut? old s with
  | some (before, after) => before ++ new ++ after
  | none => s

def repeated (s : String) (n : Nat) : String :=
  if n = 0 then ""
  else
    let pairs := repeated (s ++ s) (n / 2)
    if n % 2 == 0 then pairs else pairs ++ s
termination_by n

def splitOnce (sep s : String) : List String :=
  match cut? sep s with
  | some (before, after) => [before, after]
  | none => [s]

end Colloquy.Text
