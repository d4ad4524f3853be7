/-! Blanks: trimming the ends of a text and cutting it into words. -/

namespace Colloquy.Text

def isBlank (c : Char) : Bool :=
  let n := c.toNat
  (9 ≤ n && n ≤ 13) || (28 ≤ n && n ≤ 32) || n == 0x85 || n == 0xA0 || n == 0x1680 ||
    (0x2000 ≤ n && n ≤ 0x200A) || n == 0x2028 || n == 0x2029 || n == 0x202F || n == 0x205F ||
    n == 0x3000

def dropStart (p : Char → Bool) (cs : List Char) : List Char :=
  cs.dropWhile p

def dropEnd (p : Char → Bool) (cs : List Char) : List Char :=
  (cs.reverse.dropWhile p).reverse

def trim (s : String) : String :=
  String.ofList (dropEnd isBlank (dropStart isBlank s.toList))

def trimEnd (s : String) : String :=
  String.ofList (dropEnd isBlank s.toList)

def trimStartOf (set s : String) : String :=
  String.ofList (dropStart (set.toList.contains ·) s.toList)

def trimEndOf (set s : String) : String :=
  String.ofList (dropEnd (set.toList.contains ·) s.toList)

def trimOf (set s : String) : String :=
  trimEndOf set (trimStartOf set s)

def wordsFrom (word : List Char) : List Char → List (List Char)
  | [] => if word.isEmpty then [] else [word.reverse]
  | c :: rest =>
    if isBlank c then
      if word.isEmpty then wordsFrom [] rest else word.reverse :: wordsFrom [] rest
    else wordsFrom (c :: word) rest

def words (s : String) : List String :=
  (wordsFrom [] s.toList).map String.ofList

end Colloquy.Text
