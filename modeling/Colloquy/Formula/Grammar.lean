import Colloquy.Formula.Syntax
import Colloquy.Formula.Token

/-! How the structure of a formula is read off its words.  Every word is looked at once, but for one
or two words of look-ahead. -/

namespace Colloquy.Formula

def keywords : List String :=
  ["False", "None", "True", "and", "as", "assert", "async", "await", "break", "class", "continue",
   "def", "del", "elif", "else", "except", "finally", "for", "from", "global", "if", "import", "in",
   "is", "lambda", "nonlocal", "not", "or", "pass", "raise", "return", "try", "while", "with",
   "yield"]

def nameOf? (word : String) : Option String :=
  if keywords.contains word then none else some (Text.plainName word)

def levels : List (List (String × BinaryOp)) :=
  [[("|", .bitOr)], [("^", .bitXor)], [("&", .bitAnd)],
   [("<<", .shiftLeft), (">>", .shiftRight)], [("+", .add), ("-", .sub)],
   [("*", .mul), ("/", .div), ("//", .floorDiv), ("%", .mod), ("@", .matMul)]]

abbrev Reading (α : Type) := Option (α × List Token)

def compareOp? (ts : List Token) : Reading CompareOp :=
  match ts with
  | .mark "==" :: rest => some (.eq, rest)
  | .mark "!=" :: rest => some (.ne, rest)
  | .mark "<" :: rest => some (.lt, rest)
  | .mark "<=" :: rest => some (.le, rest)
  | .mark ">" :: rest => some (.gt, rest)
  | .mark ">=" :: rest => some (.ge, rest)
  | .name "in" :: rest => some (.inside, rest)
  | .name "not" :: .name "in" :: rest => some (.outside, rest)
  | .name "is" :: .name "not" :: rest => some (.distinct, rest)
  | .name "is" :: rest => some (.identical, rest)
  | _ => none

def startsClause : List Token → Bool
  | .name "for" :: _ | .name "async" :: .name "for" :: _ => true
  | _ => false

def startsBinding : List Token → Bool
  | .name _ :: .mark ":=" :: _ => true
  | _ => false

mutual

def isTarget : Expr → Bool
  | .name _ | .member _ _ | .subscript _ _ => true
  | .tuple items | .list items => areTargets items
  | _ => false

def areTargets : List Expr → Bool
  | [] => true
  | .star e :: rest => isTarget e && areTargets rest
  | e :: rest => isTarget e && areTargets rest

end

/-! ### Texts with formulas in them -/

def templatePlain? (raw nested : Bool) : Nat → List Char → Option (List Char × Bool × List Char)
  | 0, _ => none
  | fuel + 1, cs =>
    let go (taken : List Char) (rest : List Char) :=
      (templatePlain? raw nested fuel rest).map fun (s, doubled, after) =>
        (taken ++ s, doubled, after)
    match cs with
    | [] => some ([], false, [])
    | '\\' :: 'N' :: '\x7b' :: rest =>
      if raw then go ['\\'] ('N' :: '\x7b' :: rest)
      else
        let name := rest.takeWhile (· != '\x7d')
        let after := rest.dropWhile (· != '\x7d')
        go (['\\', 'N', '\x7b'] ++ name ++ after.take 1) (after.drop 1)
    | '\\' :: c :: rest =>
      if raw || c == '\x7b' || c == '\x7d' then go ['\\'] (c :: rest) else go ['\\', c] rest
    | c :: rest =>
      if c == '\x7b' || c == '\x7d' then
        if nested then some ([], false, cs)
        else if rest.head? == some c then some ([c], true, rest.drop 1)
        else if c == '\x7d' then none
        else some ([], false, cs)
      else go [c] rest

/-- What stands in front of the mark that ends a formula in a text, and that mark with what follows
it.  `quote` is the quote of the text being read, with whether it is tripled, and `brackets` are
those that are open. -/
def templateSpan? :
    Nat → Option (Char × Bool) → List Char → List Char → Option (List Char × List Char)
  | 0, _, _, _ => none
  | _ + 1, _, _, [] => none
  | fuel + 1, quote, brackets, c :: rest =>
    let go (taken : List Char) (quote : Option (Char × Bool)) (brackets : List Char)
        (rest : List Char) :=
      (templateSpan? fuel quote brackets rest).map fun (s, after) => (taken ++ s, after)
    let tripled := [c, c].isPrefixOf rest
    if c == '\\' then none
    else
      match quote with
      | some (q, triple) =>
        if c != q then go [c] quote brackets rest
        else if !triple then go [c] none brackets rest
        else if tripled then go [c, c, c] none brackets (rest.drop 2)
        else go [c] quote brackets rest
      | none =>
        if c == '\'' || c == '"' then
          if tripled then go [c, c, c] (some (c, true)) brackets (rest.drop 2)
          else go [c] (some (c, false)) brackets rest
        else if c == '(' || c == '[' || c == '\x7b' then
          if brackets.length < maxDepth then go [c] none (c :: brackets) rest else none
        else if c == '#' then none
        else if brackets.isEmpty && ['!', ':', '\x7d', '=', '<', '>'].contains c then
          if rest.head? == some '=' && c != ':' && c != '\x7d' then
            go [c, '='] none brackets (rest.drop 1)
          else if c == '<' || c == '>' then go [c] none brackets rest
          else some ([], c :: rest)
        else
          match c, brackets with
          | ')', '(' :: outer | ']', '[' :: outer | '\x7d', '\x7b' :: outer =>
            go [c] none outer rest
          | ')', _ | ']', _ | '\x7d', _ => none
          | _, _ => go [c] none brackets rest

def shownSign (cs : List Char) : List Char × List Char :=
  let isBlank (c : Char) := c == ' ' || (9 ≤ c.toNat && c.toNat ≤ 13)
  match cs with
  | '=' :: rest => ('=' :: rest.takeWhile isBlank, rest.dropWhile isBlank)
  | _ => ([], cs)

def conversionOf? : Char → Option Conversion
  | 's' => some .display
  | 'r' => some .literal
  | 'a' => some .plainAscii
  | _ => none

def readConversion? (cs : List Char) : Option (Conversion × List Char) :=
  match cs with
  | '!' :: c :: rest =>
    let ends := rest.head?.any fun d => d == '\x7d' || d == ':'
    if ends then (conversionOf? c).map fun conversion => (conversion, rest) else none
  | '!' :: [] => none
  | _ => some (.none, cs)

def textPart (s : Codes) : List Expr :=
  if s.isEmpty then [] else [.text s]

inductive TextRun where
  | empty
  | text (s : Codes)
  | bytes (s : String)
  | template (parts : List Expr)

namespace TextRun

def addText? (s : Codes) : TextRun → Option TextRun
  | empty => some (text s)
  | text t => some (text (t.append s))
  | bytes _ => none
  | template parts => some (template (parts ++ textPart s))

def addBytes? (s : String) : TextRun → Option TextRun
  | empty => some (bytes s)
  | bytes t => some (bytes (t ++ s))
  | _ => none

def addParts (more : List Expr) : TextRun → TextRun
  | template parts => template (parts ++ more)
  | text s => template (textPart s ++ more)
  | _ => template more

def expr? : TextRun → Option Expr
  | empty => none
  | text s => some (.text s)
  | bytes s => some (.bytes s)
  | template parts => some (.template parts)

end TextRun

inductive ArgumentStage where
  | start
  | names
  | entries
  deriving DecidableEq

inductive ParameterStage where
  | start
  | plain (slashed : Bool)
  | defaulted (slashed : Bool)
  | bareStar
  | starred
  deriving DecidableEq

namespace ParameterStage

def isPositional : ParameterStage → Bool
  | start | plain _ | defaulted _ => true
  | _ => false

def afterSlash? : ParameterStage → Option ParameterStage
  | plain false => some (plain true)
  | defaulted false => some (defaulted true)
  | _ => none

def afterPlain? : ParameterStage → Option ParameterStage
  | start => some (plain false)
  | plain slashed => some (plain slashed)
  | defaulted _ => none
  | bareStar | starred => some starred

def afterDefault : ParameterStage → ParameterStage
  | start => defaulted false
  | plain slashed | defaulted slashed => defaulted slashed
  | bareStar | starred => starred

end ParameterStage

/-! ### Formulas -/

mutual

def expression? : Nat → List Token → Reading Expr
  | 0, _ => none
  | fuel + 1, ts =>
    match ts with
    | .name "lambda" :: rest =>
      match parameters? fuel .start [] rest with
      | some (defaults, .mark ":" :: rest) =>
        (expression? fuel rest).map fun (body, rest) => (.form .lambda (body :: defaults), rest)
      | _ => none
    | _ =>
      match disjunction? fuel ts with
      | some (yes, .name "if" :: rest) =>
        match disjunction? fuel rest with
        | some (condition, .name "else" :: rest) =>
          (expression? fuel rest).map fun (no, rest) => (.choose condition yes no, rest)
        | _ => none
      | reading => reading

def named? : Nat → List Token → Reading Expr
  | 0, _ => none
  | fuel + 1, ts =>
    match ts with
    | .name n :: .mark ":=" :: rest =>
      match nameOf? n with
      | some n => (expression? fuel rest).map fun (e, rest) => (.bind n e, rest)
      | none => none
    | _ =>
      match expression? fuel ts with
      | some (_, .mark ":=" :: _) => none
      | reading => reading

def item? : Nat → List Token → Reading Expr
  | 0, _ => none
  | fuel + 1, ts =>
    match ts with
    | .mark "*" :: rest => (operation? fuel levels rest).map fun (e, rest) => (.star e, rest)
    | _ => named? fuel ts

def disjunction? : Nat → List Token → Reading Expr
  | 0, _ => none
  | fuel + 1, ts =>
    match conjunction? fuel ts with
    | some (first, .name "or" :: rest) =>
      (disjuncts? fuel [first] rest).map fun (operands, rest) => (.either operands, rest)
    | reading => reading

def disjuncts? : Nat → List Expr → List Token → Reading (List Expr)
  | 0, _, _ => none
  | fuel + 1, read, ts =>
    match conjunction? fuel ts with
    | some (e, .name "or" :: rest) => disjuncts? fuel (e :: read) rest
    | some (e, rest) => some ((e :: read).reverse, rest)
    | none => none

def conjunction? : Nat → List Token → Reading Expr
  | 0, _ => none
  | fuel + 1, ts =>
    match negation? fuel ts with
    | some (first, .name "and" :: rest) =>
      (conjuncts? fuel [first] rest).map fun (operands, rest) => (.both operands, rest)
    | reading => reading

def conjuncts? : Nat → List Expr → List Token → Reading (List Expr)
  | 0, _, _ => none
  | fuel + 1, read, ts =>
    match negation? fuel ts with
    | some (e, .name "and" :: rest) => conjuncts? fuel (e :: read) rest
    | some (e, rest) => some ((e :: read).reverse, rest)
    | none => none

def negation? : Nat → List Token → Reading Expr
  | 0, _ => none
  | fuel + 1, ts =>
    match ts with
    | .name "not" :: rest => (negation? fuel rest).map fun (e, rest) => (.negate e, rest)
    | _ =>
      match operation? fuel levels ts with
      | some (first, rest) =>
        match comparisons? fuel [] rest with
        | some ([], rest) => some (first, rest)
        | some (more, rest) => some (.compare first more, rest)
        | none => none
      | none => none

def comparisons? : Nat → List (CompareOp × Expr) → List Token → Reading (List (CompareOp × Expr))
  | 0, _, _ => none
  | fuel + 1, read, ts =>
    match compareOp? ts with
    | none => some (read.reverse, ts)
    | some (op, rest) =>
      match operation? fuel levels rest with
      | some (e, rest) => comparisons? fuel ((op, e) :: read) rest
      | none => none

def operation? : Nat → List (List (String × BinaryOp)) → List Token → Reading Expr
  | 0, _, _ => none
  | fuel + 1, [], ts => signed? fuel ts
  | fuel + 1, ops :: tighter, ts =>
    match operation? fuel tighter ts with
    | some (first, rest) => operands? fuel ops tighter first rest
    | none => none

def operands? : Nat → List (String × BinaryOp) → List (List (String × BinaryOp)) → Expr →
    List Token → Reading Expr
  | 0, _, _, _, _ => none
  | fuel + 1, ops, tighter, first, ts =>
    match ts with
    | .mark m :: rest =>
      match ops.find? (·.1 == m) with
      | some (_, op) =>
        match operation? fuel tighter rest with
        | some (e, rest) => operands? fuel ops tighter (.binary op first e) rest
        | none => none
      | none => some (first, ts)
    | _ => some (first, ts)

def signed? : Nat → List Token → Reading Expr
  | 0, _ => none
  | fuel + 1, ts =>
    match ts with
    | .mark "+" :: rest => (signed? fuel rest).map fun (e, rest) => (.unary .plus e, rest)
    | .mark "-" :: rest => (signed? fuel rest).map fun (e, rest) => (.unary .minus e, rest)
    | .mark "~" :: rest => (signed? fuel rest).map fun (e, rest) => (.unary .invert e, rest)
    | .name "await" :: rest =>
      match primary? fuel rest with
      | some (e, rest) => power? fuel (.form .suspension [e]) rest
      | none => none
    | _ =>
      match primary? fuel ts with
      | some (e, rest) => power? fuel e rest
      | none => none

def power? : Nat → Expr → List Token → Reading Expr
  | 0, _, _ => none
  | fuel + 1, e, ts =>
    match ts with
    | .mark "**" :: rest => (signed? fuel rest).map fun (p, rest) => (.binary .pow e p, rest)
    | _ => some (e, ts)

def primary? : Nat → List Token → Reading Expr
  | 0, _ => none
  | fuel + 1, ts =>
    match atom? fuel ts with
    | some (e, rest) => trailers? fuel e rest
    | none => none

def trailers? : Nat → Expr → List Token → Reading Expr
  | 0, _, _ => none
  | fuel + 1, e, ts =>
    match ts with
    | .mark "(" :: rest =>
      match arguments? fuel .start [] rest with
      | some (args, rest) => trailers? fuel (.call e args) rest
      | none => none
    | .mark "[" :: rest =>
      match indices? fuel [] rest with
      | some (index, rest) => trailers? fuel (.subscript e index) rest
      | none => none
    | .mark "." :: .name n :: rest =>
      match nameOf? n with
      | some n => trailers? fuel (.member e n) rest
      | none => none
    | _ => some (e, ts)

def arguments? : Nat → ArgumentStage → List Expr → List Token → Reading (List Expr)
  | 0, _, _, _ => none
  | fuel + 1, stage, read, ts =>
    match ts with
    | .mark ")" :: rest => some (read.reverse, rest)
    | .mark "**" :: rest =>
      match expression? fuel rest with
      | some (e, rest) => moreArguments? fuel .entries (.doubleStar e :: read) rest
      | none => none
    | .mark "*" :: rest =>
      if stage == .entries then none
      else
        match expression? fuel rest with
        | some (e, rest) => moreArguments? fuel stage (.star e :: read) rest
        | none => none
    | .name n :: .mark "=" :: rest =>
      match nameOf? n, expression? fuel rest with
      | some n, some (e, rest) =>
        let stage := if stage == .start then .names else stage
        moreArguments? fuel stage (.named n e :: read) rest
      | _, _ => none
    | _ =>
      if stage != .start then none
      else
        match named? fuel ts with
        | some (e, rest) =>
          if startsClause rest then
            if read.isEmpty then
              match clauses? fuel [e] rest with
              | some (parts, .mark ")" :: rest) => some ([.form .comprehension parts], rest)
              | _ => none
            else none
          else moreArguments? fuel stage (e :: read) rest
        | none => none

def moreArguments? : Nat → ArgumentStage → List Expr → List Token → Reading (List Expr)
  | 0, _, _, _ => none
  | fuel + 1, stage, read, ts =>
    match ts with
    | .mark "," :: rest => arguments? fuel stage read rest
    | .mark ")" :: rest => some (read.reverse, rest)
    | _ => none

def indices? : Nat → List Expr → List Token → Reading Expr
  | 0, _, _ => none
  | fuel + 1, read, ts =>
    match ts with
    | .mark "]" :: rest => if read.isEmpty then none else some (.tuple read.reverse, rest)
    | _ =>
      match index? fuel ts with
      | some (.star e, .mark "]" :: rest) => some (.tuple (.star e :: read).reverse, rest)
      | some (e, .mark "]" :: rest) =>
        some (if read.isEmpty then e else .tuple (e :: read).reverse, rest)
      | some (e, .mark "," :: rest) => indices? fuel (e :: read) rest
      | _ => none

def index? : Nat → List Token → Reading Expr
  | 0, _ => none
  | fuel + 1, ts =>
    match ts with
    | .mark "*" :: rest => (expression? fuel rest).map fun (e, rest) => (.star e, rest)
    | .mark ":" :: _ => range? fuel .absent ts
    | _ =>
      match named? fuel ts with
      | some (e, .mark ":" :: rest) =>
        if startsBinding ts then none else range? fuel e (.mark ":" :: rest)
      | reading => reading

def range? : Nat → Expr → List Token → Reading Expr
  | 0, _, _ => none
  | fuel + 1, start, ts =>
    match bound? fuel ts with
    | some (stop, .mark ":" :: rest) =>
      (bound? fuel (.mark ":" :: rest)).map fun (step, rest) => (.slice start stop step, rest)
    | some (stop, rest) => some (.slice start stop .absent, rest)
    | none => none

def bound? : Nat → List Token → Reading Expr
  | 0, _ => none
  | fuel + 1, ts =>
    match ts with
    | .mark ":" :: rest =>
      match rest with
      | .mark ":" :: _ | .mark "," :: _ | .mark "]" :: _ => some (.absent, rest)
      | _ => expression? fuel rest
    | _ => none

def items? : Nat → String → List Expr → List Token → Reading (List Expr)
  | 0, _, _, _ => none
  | fuel + 1, close, read, ts =>
    if ts.head? == some (.mark close) then some (read.reverse, ts.drop 1)
    else
      match item? fuel ts with
      | some (e, .mark "," :: rest) => items? fuel close (e :: read) rest
      | some (e, .mark m :: rest) => if m == close then some ((e :: read).reverse, rest) else none
      | _ => none

def entries? : Nat → List (Expr × Expr) → List Token → Reading (List (Expr × Expr))
  | 0, _, _ => none
  | fuel + 1, read, ts =>
    match ts with
    | .mark "\x7d" :: rest => some (read.reverse, rest)
    | .mark "**" :: rest =>
      match operation? fuel levels rest with
      | some (e, rest) => moreEntries? fuel ((.spread, e) :: read) rest
      | none => none
    | _ =>
      match expression? fuel ts with
      | some (k, .mark ":" :: rest) =>
        match expression? fuel rest with
        | some (v, rest) => moreEntries? fuel ((k, v) :: read) rest
        | none => none
      | _ => none

def moreEntries? : Nat → List (Expr × Expr) → List Token → Reading (List (Expr × Expr))
  | 0, _, _ => none
  | fuel + 1, read, ts =>
    match ts with
    | .mark "," :: rest => entries? fuel read rest
    | .mark "\x7d" :: rest => some (read.reverse, rest)
    | _ => none

def braces? : Nat → List Token → Reading Expr
  | 0, _ => none
  | fuel + 1, ts =>
    match ts with
    | .mark "\x7d" :: _ | .mark "**" :: _ =>
      (entries? fuel [] ts).map fun (entries, rest) => (.table entries, rest)
    | _ =>
      match item? fuel ts with
      | some (e, .mark "\x7d" :: rest) => some (.set [e], rest)
      | some (e, .mark "," :: rest) =>
        (items? fuel "\x7d" [e] rest).map fun (items, rest) => (.set items, rest)
      | some (.star _, _) => none
      | some (k, .mark ":" :: rest) =>
        if startsBinding ts then none
        else
          match expression? fuel rest with
          | some (v, rest) =>
            if startsClause rest then
              match clauses? fuel [k, v] rest with
              | some (parts, .mark "\x7d" :: rest) => some (.form .comprehension parts, rest)
              | _ => none
            else
              (moreEntries? fuel [(k, v)] rest).map fun (entries, rest) => (.table entries, rest)
          | none => none
      | some (e, rest) =>
        match clauses? fuel [e] rest with
        | some (parts, .mark "\x7d" :: rest) => some (.form .comprehension parts, rest)
        | _ => none
      | none => none

def parentheses? : Nat → List Token → Reading Expr
  | 0, _ => none
  | fuel + 1, ts =>
    match ts with
    | .mark ")" :: rest => some (.tuple [], rest)
    | .name "yield" :: .name "from" :: rest =>
      match expression? fuel rest with
      | some (e, .mark ")" :: rest) => some (.form .suspension [e], rest)
      | _ => none
    | .name "yield" :: .mark ")" :: rest => some (.form .suspension [], rest)
    | .name "yield" :: rest =>
      (handedOut? fuel [] rest).map fun (parts, rest) => (.form .suspension parts, rest)
    | _ =>
      match item? fuel ts with
      | some (e, .mark "," :: rest) =>
        (items? fuel ")" [e] rest).map fun (items, rest) => (.tuple items, rest)
      | some (.star _, _) => none
      | some (e, .mark ")" :: rest) => some (e, rest)
      | some (e, rest) =>
        match clauses? fuel [e] rest with
        | some (parts, .mark ")" :: rest) => some (.form .comprehension parts, rest)
        | _ => none
      | none => none

def handedOut? : Nat → List Expr → List Token → Reading (List Expr)
  | 0, _, _ => none
  | fuel + 1, read, ts =>
    let reading := match ts with
      | .mark "*" :: rest => operation? fuel levels rest
      | _ => expression? fuel ts
    match reading with
    | some (e, .mark "," :: .mark ")" :: rest) | some (e, .mark ")" :: rest) =>
      some ((e :: read).reverse, rest)
    | some (e, .mark "," :: rest) => handedOut? fuel (e :: read) rest
    | _ => none

def brackets? : Nat → List Token → Reading Expr
  | 0, _ => none
  | fuel + 1, ts =>
    match ts with
    | .mark "]" :: rest => some (.list [], rest)
    | _ =>
      match item? fuel ts with
      | some (e, .mark "," :: rest) =>
        (items? fuel "]" [e] rest).map fun (items, rest) => (.list items, rest)
      | some (e, .mark "]" :: rest) => some (.list [e], rest)
      | some (.star _, _) => none
      | some (e, rest) =>
        match clauses? fuel [e] rest with
        | some (parts, .mark "]" :: rest) => some (.form .comprehension parts, rest)
        | _ => none
      | none => none

def clauses? : Nat → List Expr → List Token → Reading (List Expr)
  | 0, _, _ => none
  | fuel + 1, parts, ts =>
    let afterFor := match ts with
      | .name "for" :: rest | .name "async" :: .name "for" :: rest => some rest
      | _ => none
    match afterFor.bind (targets? fuel []) with
    | some (targets, rest) =>
      match disjunction? fuel rest with
      | some (source, rest) =>
        match conditions? fuel [] rest with
        | some (conditions, rest) =>
          let parts := parts ++ targets ++ source :: conditions
          if startsClause rest then clauses? fuel parts rest else some (parts, rest)
        | none => none
      | none => none
    | none => none

def targets? : Nat → List Expr → List Token → Reading (List Expr)
  | 0, _, _ => none
  | fuel + 1, read, ts =>
    let plain := match ts with
      | .mark "*" :: rest => rest
      | _ => ts
    match primary? fuel plain with
    | some (e, rest) =>
      if isTarget e then
        match rest with
        | .name "in" :: rest | .mark "," :: .name "in" :: rest => some ((e :: read).reverse, rest)
        | .mark "," :: rest => targets? fuel (e :: read) rest
        | _ => none
      else none
    | none => none

def conditions? : Nat → List Expr → List Token → Reading (List Expr)
  | 0, _, _ => none
  | fuel + 1, read, ts =>
    match ts with
    | .name "if" :: rest =>
      match disjunction? fuel rest with
      | some (e, rest) => conditions? fuel (e :: read) rest
      | none => none
    | _ => some (read.reverse, ts)

def parameters? : Nat → ParameterStage → List Expr → List Token → Reading (List Expr)
  | 0, _, _, _ => none
  | fuel + 1, stage, read, ts =>
    match ts with
    | .mark ":" :: _ => if stage == .bareStar then none else some (read.reverse, ts)
    | .mark "/" :: rest =>
      match stage.afterSlash? with
      | some stage => moreParameters? fuel stage read rest
      | none => none
    | .mark "*" :: .mark "," :: rest =>
      if stage.isPositional then parameters? fuel .bareStar read rest else none
    | .mark "*" :: .name n :: rest =>
      if stage.isPositional && (nameOf? n).isSome then moreParameters? fuel .starred read rest
      else none
    | .mark "**" :: .name n :: rest =>
      if stage == .bareStar || (nameOf? n).isNone then none
      else
        match rest with
        | .mark "," :: .mark ":" :: rest | .mark ":" :: rest =>
          some (read.reverse, .mark ":" :: rest)
        | _ => none
    | .name n :: .mark "=" :: rest =>
      if (nameOf? n).isNone then none
      else
        match expression? fuel rest with
        | some (e, rest) => moreParameters? fuel stage.afterDefault (e :: read) rest
        | none => none
    | .name n :: rest =>
      match nameOf? n, stage.afterPlain? with
      | some _, some stage => moreParameters? fuel stage read rest
      | _, _ => none
    | _ => none

def moreParameters? : Nat → ParameterStage → List Expr → List Token → Reading (List Expr)
  | 0, _, _, _ => none
  | fuel + 1, stage, read, ts =>
    match ts with
    | .mark "," :: rest => parameters? fuel stage read rest
    | .mark ":" :: _ => some (read.reverse, ts)
    | _ => none

def texts? : Nat → TextRun → List Token → Reading Expr
  | 0, _, _ => none
  | fuel + 1, run, ts =>
    match ts with
    | .text s :: rest =>
      match run.addText? s with
      | some run => texts? fuel run rest
      | none => none
    | .bytes s :: rest =>
      match run.addBytes? s with
      | some run => texts? fuel run rest
      | none => none
    | .template raw body :: rest =>
      match run.addText? (.whole ""), template? fuel raw false body with
      | some run, some (parts, []) => texts? fuel (run.addParts parts) rest
      | _, _ => none
    | _ => run.expr?.map fun e => (e, ts)

def template? : Nat → Bool → Bool → List Char → Option (List Expr × List Char)
  | 0, _, _, _ => none
  | fuel + 1, raw, nested, cs =>
    match templatePlain? raw nested (cs.length + 1) cs with
    | none => none
    | some (plain, doubled, rest) =>
      match plainBody? raw plain with
      | none => none
      | some plain =>
        let parts := textPart plain
        if doubled then
          (template? fuel raw nested rest).map fun (more, rest) => (parts ++ more, rest)
        else
          match rest with
          | '\x7b' :: rest =>
            match slot? fuel raw nested rest with
            | some (slot, rest) =>
              (template? fuel raw nested rest).map fun (more, rest) =>
                (parts ++ slot ++ more, rest)
            | none => none
          | _ => some (parts, rest)

def slot? : Nat → Bool → Bool → List Char → Option (List Expr × List Char)
  | 0, _, _, _ => none
  | fuel + 1, raw, nested, cs =>
    match templateSpan? (cs.length + 1) none [] cs with
    | none => none
    | some (inner, rest) =>
      let blank := inner.all fun c => c == ' ' || c == '\t' || c == '\n' || c == '\x0c'
      if blank then none
      else
        match expression? fuel (scan (String.ofList ('(' :: inner ++ [')']))) with
        | some (e, []) =>
          let (sign, rest) := shownSign rest
          let shown :=
            if sign.isEmpty then [] else textPart (.whole (String.ofList (inner ++ sign)))
          match readConversion? rest with
          | some (conversion, ':' :: rest) =>
            -- directions hold formulas of their own, but those hold no further ones
            if nested then
              match templatePlain? raw true (rest.length + 1) rest with
              | some (plain, _, '\x7d' :: rest) =>
                (plainBody? raw plain).map fun plain =>
                  (shown ++ [.slot e conversion (textPart plain)], rest)
              | _ => none
            else
              match template? fuel raw true rest with
              | some (parts, '\x7d' :: rest) => some (shown ++ [.slot e conversion parts], rest)
              | _ => none
          | some (conversion, '\x7d' :: rest) =>
            let conversion :=
              if conversion == .none && !sign.isEmpty then .literal else conversion
            some (shown ++ [.slot e conversion []], rest)
          | _ => none
        | _ => none

def atom? : Nat → List Token → Reading Expr
  | 0, _ => none
  | fuel + 1, ts =>
    match ts with
    | .int n :: rest => some (.int n, rest)
    | .float x :: rest => some (.float x, rest)
    | .imaginary x :: rest => some (.imaginary x, rest)
    | .text _ :: _ | .bytes _ :: _ | .template _ _ :: _ => texts? fuel .empty ts
    | .mark "..." :: rest => some (.ellipsis, rest)
    | .name "None" :: rest => some (.null, rest)
    | .name "True" :: rest => some (.bool true, rest)
    | .name "False" :: rest => some (.bool false, rest)
    | .name n :: rest => (nameOf? n).map fun n => (.name n, rest)
    | .mark "(" :: rest => parentheses? fuel rest
    | .mark "[" :: rest => brackets? fuel rest
    | .mark "\x7b" :: rest => braces? fuel rest
    | _ => none

end

def formulas? : Nat → List Expr → List Token → Reading Expr
  | 0, _, _ => none
  | fuel + 1, read, ts =>
    match expression? fuel ts with
    | some (e, .mark "," :: rest) =>
      match rest with
      | [] | .lineEnd :: _ => some (.tuple (e :: read).reverse, rest)
      | _ => formulas? fuel (e :: read) rest
    | some (e, rest) => some (if read.isEmpty then e else .tuple (e :: read).reverse, rest)
    | none => none

def maxNesting : Nat := 2955

def parse (s : String) : Except Fault Expr :=
  if s.toList.contains '\x00' then .error .badValue
  else
    match scan s with
    | .indent :: _ => .error .badIndent
    | ts =>
      match formulas? (40 * (s.length + 1)) [] ts with
      | some (e, rest) =>
        match rest.dropWhile (· == .lineEnd) with
        | [] => if maxNesting < e.depth then .error .tooDeep else .ok e
        | .indent :: _ => .error .badIndent
        | _ => .error .malformedFormula
      | none => .error .malformedFormula

end Colloquy.Formula
