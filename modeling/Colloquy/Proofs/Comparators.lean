import Colloquy.Proofs.Turns

/-! Comparators and their negations.  What an `if` finds depends on its comparator and its operands
only, and the comparators of equality, order and membership have negations that hold exactly if they
do not hold.  The negated tests for words, beginnings and ends never hold at all. -/

namespace Colloquy

open Value Text List

variable {v : Value} {neg op : String}

/-! ### Branches -/

/-- A conversation at a branch: lines that are indented deeper are behind it, and then a line that
is not and has a command. -/
def Conversation.AtBranch (c : Conversation) : Prop :=
  ∃ (lines : List Value) (names : Entries) (i indent : Nat) (line : Value), c.At lines names i ∧
    lines[i]? = some line ∧ line.item "indent" = .ok (.int indent) ∧
    ∃ (inner rest : List Value) (stop : Value) (command : String) (outer : Nat),
      lines.drop (i + 1) = inner ++ stop :: rest ∧ (∀ line ∈ inner, line.Deeper indent) ∧
      stop.item "command" = .ok (.str command) ∧ command ≠ "" ∧
      stop.item "indent" = .ok (.int outer) ∧ outer ≤ indent

structure Session.AtBranch (user : Value) (m : Message) (s : Session) : Prop where
  message : s.message = some m
  key : user.isKey = true
  running : ∃ manager c rest, managerIn s.active user = some manager ∧
    manager.stack = .conversation c :: rest ∧ c.AtBranch

namespace Command

variable {m : Message} {text : Value}

/-- The condition of a branch is decided, and the branch is entered or passed over. -/
structure Takes (m : Message) (text : Value) (b : Bool) : Prop where
  enters : ∀ user s, s.message = some m → branch user text s = Session.edit user (enterIf b) s
  ends : ∀ user s, Session.AtBranch user m s → ∃ t, branch user text s = .ok () t

/-- The condition of a branch is not decided, and nothing is changed. -/
def Fails (m : Message) (text : Value) : Prop :=
  ∃ fault, ∀ user s, s.message = some m → branch user text s = .error fault s

theorem Takes.of_verdict {b : Bool} (hb : Condition.verdict m.lineData text = .ok b) :
    Takes m text b := by
  refine ⟨fun user s hm => branch_of_verdict hm hb user, fun user s h => ?_⟩
  obtain ⟨manager, c, below, hm, hstack, lines, names, i, indent, line, hat, hline, hindent, inner,
    rest, stop, command, outer, hdrop, hinner, hcommand, hname, houter, hle⟩ := h.running
  have henter : ∃ d, enterIf b { conversation := c } = .ok () d := by
    cases b with
    | true => exact ⟨_, enterIf_true hat hline hindent⟩
    | false => exact ⟨_, enterIf_false hat hline hindent hdrop hinner hcommand houter hle hname⟩
  obtain ⟨d, hd⟩ := henter
  refine ⟨Session.kept user manager d s, ?_⟩
  rw [branch_of_verdict h.message hb, Session.edit_eq h.key hm hstack, hd]

theorem Fails.of_verdict {fault : Fault} (h : Condition.verdict m.lineData text = .error fault) :
    Fails m text := by
  refine ⟨fault, fun user s hm => ?_⟩
  rw [branch_apply, bind_of_error (by rw [holds_eq hm, h]; rfl)]

end Command

/-! ### Order -/

namespace Value

inductive Scalar : Value → Prop
  | int (n : Int) : Scalar (.int n)
  | str (s : String) : Scalar (.str s)

/-- The relation that holds exactly if the given one does not. -/
def Comparison.negated : Comparison → Comparison
  | less => atLeast
  | atMost => greater
  | greater => atMost
  | atLeast => less

theorem Comparison.accepts_negated (relation : Comparison) (o : Ordering) :
    relation.negated.accepts o = !relation.accepts o := by
  cases relation <;> cases o <;> rfl

theorem compare_negated {w : Value} (hv : v.Scalar) (hw : w.Scalar ∨ w.isList = true)
    (relation : Comparison) : v.compare relation.negated w = (v.compare relation w).map (!·) := by
  rcases hw with hw | hlist
  · cases hv with
    | int m =>
      cases hw with
      | int n =>
        simp [Value.compare, worth?, Worth.compare?, Except.map, Comparison.accepts_negated]
      | str t => rfl
    | str s =>
      cases hw with
      | int n => rfl
      | str t => simp [Value.compare, Except.map, Comparison.accepts_negated]
  · cases w with
    | list items number => cases hv <;> rfl
    | null | bool _ | int _ | float _ | str _ | tuple _ | table _ | set _ | record _ => cases hlist

end Value

namespace Condition

/-! ### Operands -/

/-- The comparators of texts with lists, each with its negation. -/
def textNegations : List (String × String) :=
  [("IN", "!IN"), ("CONTAINS", "!CONTAINS"), ("STARTSWITH", "!STARTSWITH"),
    ("ENDSWITH", "!ENDSWITH")]

/-- All comparators, each with the one that is meant as its negation. -/
def negations : List (String × String) :=
  ("==", "!=") :: (">", "<=") :: ("<", ">=") :: textNegations

def oneSided : List String :=
  ["CONTAINS", "STARTSWITH", "ENDSWITH"]

/-- What a comparator is applied to: two operands from the compiler, of which the second can be a
list, or the two sides of an expression, if it has exactly two. -/
inductive Operands where
  | given (left : String) (right : Value) (kind : right.isStr = true ∨ right.isList = true)
  | read (sides : Option (String × String))

def Operands.outcome (op : String) : Operands → Except Fault Bool
  | given left right _ => do compare (.str op) (← operand (.str left)) (← operand right)
  | read (some (left, right)) => .ok (compareSides op left right)
  | read none => .ok true

/-- A condition that applies a comparator to operands. -/
inductive Compares (op : String) : Operands → (data text : Value) → Prop
  | data {data text right : Value} {left : String} (htruthy : data.truthy = true)
      (hcomparator : data.get "comparator" = .ok (.str op))
      (hleft : data.get "left" = .ok (.str left)) (hright : data.get "right" = .ok right)
      (kind : right.isStr = true ∨ right.isList = true) :
      Compares op (.given left right kind) data text
  | text {data text : Value} (hfalsy : data.truthy = false) (hwords : 2 ≤ (wordsOf text).length)
      (hcomparator : comparatorIn (wordsOf text) = some op) :
      Compares op (.read (sides? (some op) (Text.trim (Text.join " " (wordsOf text))))) data text

theorem exists_two_words {words : List String} (h : 2 ≤ words.length) :
    ∃ first second more, words = first :: second :: more := by
  cases words with
  | nil => cases h
  | cons first rest =>
    cases rest with
    | nil => simp at h
    | cons second more => exact ⟨first, second, more, rfl⟩

theorem Compares.verdict_eq {operands : Operands} {data text : Value}
    (h : Compares op operands data text) (hop : op ≠ "BOOL") :
    verdict data text = operands.outcome op := by
  cases h with
  | data htruthy hcomparator hleft hright _ =>
    have hne : (str op).same (.str "BOOL") = false := by simpa [str_same] using hop
    simp [verdict, htruthy, ofData, hcomparator, hleft, hright, hne, bind, Except.bind,
      Operands.outcome]
  | text hfalsy hwords hcomparator =>
    rw [verdict, if_neg (by simp [hfalsy])]
    delta ofText
    obtain ⟨first, second, more, hlist⟩ := exists_two_words hwords
    rw [hlist] at hcomparator ⊢
    simp only [hcomparator]
    cases sides? (some op) (trim (join " " (first :: second :: more))) with
    | none => rfl
    | some sides => rfl

theorem operand_scalar {s : String} (h : operand (.str s) = .ok v) : v.Scalar := by
  simp only [operand] at h
  split at h
  · obtain ⟨n, -, hn⟩ := except_bind_ok_iff.1 h
    cases hn
    exact .int n
  · cases h
    exact .str _

theorem operand_kind {right : Value} (hkind : right.isStr = true ∨ right.isList = true)
    (h : operand right = .ok v) : v.Scalar ∨ v.isList = true := by
  cases right with
  | str s => exact .inl (operand_scalar h)
  | list items number =>
    cases h
    exact .inr rfl
  | null | bool _ | int _ | float _ | tuple _ | table _ | set _ | record _ =>
    rcases hkind with hstr | hlist
    · cases hstr
    · cases hlist

/-! ### Negations -/

/-- What the negation of a comparator finds where the comparator finds `found`. -/
def opposed (op : String) (found : Bool) : Bool :=
  if oneSided.contains op then false else !found

/-- The comparators of order, each with the relation that it denies. -/
def denied : List (String × Value.Comparison) :=
  [(">", .atMost), ("<", .atLeast), (">=", .less), ("<=", .greater)]

theorem compare_denied {relation : Value.Comparison} (h : (op, relation) ∈ denied)
    (left right : Value) :
    compare (.str op) left right = (left.compare relation right).map (!·) := by
  simp only [denied, mem_cons, Prod.mk.injEq, not_mem_nil, or_false] at h
  rcases h with ⟨rfl, rfl⟩ | ⟨rfl, rfl⟩ | ⟨rfl, rfl⟩ | ⟨rfl, rfl⟩ <;>
    simp only [compare, truthy, str_same] <;>
    (cases left.compare _ right <;> rfl)

def textTest (op : String) (left right : Value) : Except Fault Bool :=
  if op = "IN" then Value.member (.str left.display) (optionsOf right)
  else do
    let options ← (optionsOf right).elements
    if op = "CONTAINS" then
      anyOption (fun option => .ok (containsWord left.display option.display)) options
    else if op = "STARTSWITH" then
      anyOption (fun option => do return Text.startsWith (← left.text) (← option.needle)) options
    else anyOption (fun option => do return Text.endsWith (← left.text) (← option.needle)) options

theorem endsWith_textNegations : ∀ pair ∈ textNegations, ∀ name ∈ oneSided,
    endsWith pair.1 name = (pair.1 == name) ∧
      endsWith pair.2 name = (pair.1 == name) := by
  decide

theorem startsWith_textNegations : ∀ pair ∈ textNegations,
    startsWith pair.1 "!" = false ∧ startsWith pair.2 "!" = true := by
  decide

theorem anyOption_ok {test : Value → Except Fault Bool} {p : String → Bool}
    (htest : ∀ s, test (.str s) = .ok (p s)) (options : List String) :
    anyOption test (options.map .str) = .ok (options.any p) := by
  induction options with
  | nil => rfl
  | cons option rest ih =>
    simp only [map_cons, anyOption, htest, ih, any_cons, bind, Except.bind]
    cases p option <;> rfl

theorem compare_text (hpair : (op, neg) ∈ textNegations) (left right : Value) :
    compare (.str op) left right = compareText (.str op) left right ∧
      compare (.str neg) left right = compareText (.str neg) left right := by
  have htext {name : String} (hne : name ∉ "" :: orderComparators)
      (hpart : textComparators.any (contains name ·) = true) :
      compare (.str name) left right = compareText (.str name) left right := by
    simp only [orderComparators, mem_cons, not_or] at hne
    have hany : anyOption (fun part => member part (.str name)) (textComparators.map .str) =
        .ok true := by
      rw [← hpart]
      exact anyOption_ok (fun _ => rfl) _
    simp [compare, str_same, truthy, hne, hany, bind, Except.bind]
  simp only [textNegations, mem_cons, Prod.mk.injEq, not_mem_nil, or_false] at hpair
  rcases hpair with ⟨rfl, rfl⟩ | ⟨rfl, rfl⟩ | ⟨rfl, rfl⟩ | ⟨rfl, rfl⟩ <;>
    exact ⟨htext (by decide) (by decide), htext (by decide) (by decide)⟩

theorem anyOption_settled (test : Value → Except Fault Bool) (options : Except Fault (List Value))
    (name : String) :
    (do return settled name (← anyOption test (← options))) =
      (options >>= anyOption test).map (settled name) := by
  cases options with
  | error fault => rfl
  | ok items =>
    cases h : anyOption test items <;>
      simp [bind, Except.bind, h, Except.map, pure, Except.pure]

theorem compareText_of_ne {name : String} (hin : name ≠ "IN") (hnot : name ≠ "!IN")
    (left right : Value) :
    compareText (.str name) left right =
      if endsWith name "CONTAINS" then (textTest "CONTAINS" left right).map (settled name)
      else if endsWith name "STARTSWITH" then
        (textTest "STARTSWITH" left right).map (settled name)
      else if endsWith name "ENDSWITH" then (textTest "ENDSWITH" left right).map (settled name)
      else .ok true := by
  have hin' : (str name).same (.str "IN") = false := by simpa [str_same] using hin
  have hnot' : (str name).same (.str "!IN") = false := by simpa [str_same] using hnot
  simp only [compareText, hin', hnot', Bool.false_eq_true, if_false]
  change (if endsWith name "CONTAINS" then _ else _) = _
  split
  · exact anyOption_settled _ _ _
  · split
    · exact anyOption_settled _ _ _
    · split
      · exact anyOption_settled _ _ _
      · rfl

theorem compareText_in (left right : Value) :
    compareText (.str "IN") left right = textTest "IN" left right ∧
      compareText (.str "!IN") left right = (textTest "IN" left right).map (!·) := by
  have hcontains := endsWith_textNegations ("IN", "!IN") (by decide) "CONTAINS" (by decide)
  have hbegins := endsWith_textNegations ("IN", "!IN") (by decide) "STARTSWITH" (by decide)
  have hends := endsWith_textNegations ("IN", "!IN") (by decide) "ENDSWITH" (by decide)
  have htest : textTest "IN" left right = member (.str left.display) (optionsOf right) := by
    simp [textTest]
  rw [htest]
  cases hfound : member (.str left.display) (optionsOf right) with
  | error fault =>
    simp [compareText, str_same, hfound, bind, Except.bind, Except.map]
  | ok found =>
    cases found <;>
      simp [compareText, str_same, hfound, text, hcontains, hbegins, hends, bind,
        Except.bind, Except.map, pure, Except.pure]

theorem compareText_eq (hpair : (op, neg) ∈ textNegations) (left right : Value) :
    compareText (.str op) left right = textTest op left right ∧
      compareText (.str neg) left right = (textTest op left right).map (opposed op) := by
  have hsettled : settled op = id ∧ settled neg = fun _ => false := by
    obtain ⟨hop, hneg⟩ := startsWith_textNegations _ hpair
    constructor <;> funext found <;> simp [settled, hop, hneg]
  have hmap (x : Except Fault Bool) : x.map id = x := by cases x <;> rfl
  have hcontains := endsWith_textNegations _ hpair "CONTAINS" (by decide)
  have hbegins := endsWith_textNegations _ hpair "STARTSWITH" (by decide)
  have hends := endsWith_textNegations _ hpair "ENDSWITH" (by decide)
  simp only [textNegations, mem_cons, Prod.mk.injEq, not_mem_nil, or_false] at hpair
  rcases hpair with ⟨rfl, rfl⟩ | ⟨rfl, rfl⟩ | ⟨rfl, rfl⟩ | ⟨rfl, rfl⟩
  · exact compareText_in left right
  · rw [compareText_of_ne (by decide) (by decide), compareText_of_ne (by decide) (by decide),
      hcontains.1, hcontains.2, hsettled.1, hsettled.2]
    exact ⟨hmap _, rfl⟩
  · rw [compareText_of_ne (by decide) (by decide), compareText_of_ne (by decide) (by decide),
      hcontains.1, hcontains.2, hbegins.1, hbegins.2, hsettled.1, hsettled.2]
    exact ⟨hmap _, rfl⟩
  · rw [compareText_of_ne (by decide) (by decide), compareText_of_ne (by decide) (by decide),
      hcontains.1, hcontains.2, hbegins.1, hbegins.2, hends.1, hends.2, hsettled.1, hsettled.2]
    exact ⟨hmap _, rfl⟩

theorem compareText_negation (hpair : (op, neg) ∈ textNegations) (left right : Value) :
    compareText (.str neg) left right = (compareText (.str op) left right).map (opposed op) := by
  rw [(compareText_eq hpair left right).1, (compareText_eq hpair left right).2]

theorem compare_negation (hpair : (op, neg) ∈ negations) {left right : Value} (hleft : left.Scalar)
    (hright : right.Scalar ∨ right.isList = true) :
    compare (.str neg) left right = (compare (.str op) left right).map (opposed op) := by
  have horder (relation : Value.Comparison) {op neg : String} (h : (op, relation) ∈ denied)
      (h' : (neg, relation.negated) ∈ denied) (hop : oneSided.contains op = false) :
      compare (.str neg) left right = (compare (.str op) left right).map (opposed op) := by
    rw [compare_denied h, compare_denied h', compare_negated hleft hright relation]
    cases left.compare relation right with
    | error fault => rfl
    | ok b => simp only [Except.map, opposed, hop, Bool.false_eq_true, if_false]
  simp only [negations, mem_cons, Prod.mk.injEq] at hpair
  rcases hpair with ⟨rfl, rfl⟩ | ⟨rfl, rfl⟩ | ⟨rfl, rfl⟩ | htext
  · simp [compare, str_same, truthy, Except.map, opposed, oneSided, pure, Except.pure]
  · exact horder .atMost (by decide) (by decide) rfl
  · exact horder .atLeast (by decide) (by decide) rfl
  · rw [(compare_text htext left right).1, (compare_text htext left right).2,
      compareText_negation htext]

theorem inOrder_negated (relation : Value.Comparison) (left right : String) :
    inOrder relation.negated (asNumbers left right) = !inOrder relation (asNumbers left right) := by
  simp only [asNumbers]
  split
  · split
    · simp [inOrder, Value.compare, worth?, Worth.compare?,
        Value.Comparison.accepts_negated]
    · simp [inOrder, Value.compare, Value.Comparison.accepts_negated]
  · simp [inOrder, Value.compare, Value.Comparison.accepts_negated]

theorem compareSides_negation (hpair : (op, neg) ∈ negations) (left right : String) :
    compareSides neg left right = opposed op (compareSides op left right) := by
  have hgreater (l r : String) := inOrder_negated .atMost l r
  have hless (l r : String) := inOrder_negated .atLeast l r
  simp only [Value.Comparison.negated] at hgreater hless
  simp only [negations, mem_cons, Prod.mk.injEq] at hpair
  rcases hpair with ⟨rfl, rfl⟩ | ⟨rfl, rfl⟩ | ⟨rfl, rfl⟩ | htext
  · simp [compareSides, bne, opposed, oneSided]
  · simp [compareSides, hgreater, opposed, oneSided]
  · simp [compareSides, hless, opposed, oneSided]
  · have hstarts := startsWith_textNegations _ htext
    have hcontains := endsWith_textNegations _ htext "CONTAINS" (by decide)
    have hbegins := endsWith_textNegations _ htext "STARTSWITH" (by decide)
    have hends := endsWith_textNegations _ htext "ENDSWITH" (by decide)
    simp only [textNegations, mem_cons, Prod.mk.injEq, not_mem_nil, or_false] at htext
    rcases htext with ⟨rfl, rfl⟩ | ⟨rfl, rfl⟩ | ⟨rfl, rfl⟩ | ⟨rfl, rfl⟩ <;>
      simp [compareSides, opposed, oneSided, settled, hstarts, hcontains, hbegins, hends]

theorem Operands.outcome_negation (hpair : (op, neg) ∈ negations) {operands : Operands}
    (hread : operands ≠ .read none) :
    operands.outcome neg = (operands.outcome op).map (opposed op) := by
  cases operands with
  | given left right kind =>
    simp only [outcome]
    cases hleft : operand (.str left) with
    | error fault => rfl
    | ok l =>
      cases hright : operand right with
      | error fault => rfl
      | ok r => exact compare_negation hpair (operand_scalar hleft) (operand_kind kind hright)
  | read sides? =>
    cases sides? with
    | none => exact absurd rfl hread
    | some sides => exact congrArg Except.ok (compareSides_negation hpair sides.1 sides.2)

/-- An `if` with a comparator and one with what is meant as its negation, about the same operands.
Where both are decided, exactly one branch is taken, unless the operands could not be read, or the
comparator tests for words, beginnings or ends and does not hold itself. -/
theorem verdict_negation_iff {op neg : String} (hpair : (op, neg) ∈ negations)
    {operands : Operands} {m m' : Message} {text text' : Value} {b b' : Bool}
    (h : Compares op operands m.lineData text) (h' : Compares neg operands m'.lineData text')
    (hb : verdict m.lineData text = .ok b) (hb' : verdict m'.lineData text' = .ok b') :
    Command.Takes m text b ∧ Command.Takes m' text' b' ∧
      (b' = !b ↔ operands ≠ .read none ∧ (op ∉ oneSided ∨ b = true)) := by
  have hbool : ∀ pair ∈ negations, pair.1 ≠ "BOOL" ∧ pair.2 ≠ "BOOL" := by decide
  refine ⟨.of_verdict hb, .of_verdict hb', ?_⟩
  rw [h.verdict_eq (hbool _ hpair).1] at hb
  rw [h'.verdict_eq (hbool _ hpair).2] at hb'
  by_cases hread : operands = .read none
  · subst hread
    cases hb
    cases hb'
    simp
  · rw [Operands.outcome_negation hpair hread, hb] at hb'
    cases hb'
    by_cases hop : op ∈ oneSided
    · cases b <;> simp [opposed, hop, hread]
    · simp [opposed, hop, hread]

/-- A word is among others, or it is not. -/
theorem verdict_negation_colours : Command.Takes {} "if red IN red, blue" true ∧
    Command.Takes {} "if red !IN red, blue" false ∧ false = !true := by
  have hpair : ("IN", "!IN") ∈ negations := by decide
  have hreads (op text : String) (hwords : 2 ≤ (wordsOf (.str text)).length)
      (hcomparator : comparatorIn (wordsOf (.str text)) = some op)
      (hsides : sides? (some op) (Text.trim (Text.join " " (wordsOf (.str text)))) =
        some ("red ", " red, blue")) :
      Compares op (.read (some ("red ", " red, blue"))) ({} : Message).lineData (.str text) := by
    rw [← hsides]
    exact .text rfl hwords hcomparator
  obtain ⟨htaken, hpassed, hiff⟩ := verdict_negation_iff hpair
    (hreads "IN" "if red IN red, blue" (by decide) (by decide)
      (by decide))
    (hreads "!IN" "if red !IN red, blue" (by decide) (by decide)
      (by decide))
    (congrArg Except.ok (show ofText "if red IN red, blue" = true by decide +kernel))
    (congrArg Except.ok (show ofText "if red !IN red, blue" = false by decide +kernel))
  exact ⟨htaken, hpassed, hiff.2 ⟨nofun, .inl (by decide)⟩⟩

/-- Neither a test for words or beginnings nor its negation holds, and a comparator that also occurs
inside of an operand makes both hold. -/
theorem verdict_negation_fails :
    (∀ op ∈ ["CONTAINS", "!CONTAINS"], (ofData (.object [("left", "red"), ("comparator", .str op),
      ("right", "blue")])).toOption = some false) ∧
    (∀ text ∈ ["if red STARTSWITH blue", "if red !STARTSWITH blue"], ofText (.str text) = false) ∧
    ∀ text ∈ ["if BEGIN IN x", "if BEGIN !IN x"], ofText (.str text) = true := by
  decide +kernel

end Condition

end Colloquy
