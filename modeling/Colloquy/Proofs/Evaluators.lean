import Colloquy.Proofs.Expressions

/-! The two evaluators of conditions.  A condition comes as data from the compiler or as the text of
its line.  On words in lower case and decimal numbers, the text is always decided.  The data are
decided in the same way, but they fail where numbers and words are mixed or a number is too long,
and they take every word for true. -/

namespace Colloquy

open Value Text List

/-! ### Decimal numbers -/

namespace Text

variable {c : Char} {cs : List Char} {n : Nat}

theorem isDigit_iff : c.isDigit = true ↔ 48 ≤ c.toNat ∧ c.toNat ≤ 57 := by
  simp only [Char.isDigit, Bool.and_eq_true, decide_eq_true_eq, ge_iff_le, UInt32.le_iff_toNat_le]
  rfl

theorem digitValue?_of_isDigit (h : c.isDigit = true) : digitValue? c = some (c.toNat - 48) := by
  rw [isDigit_iff] at h
  have hzero : (decide (0x30 ≤ c.toNat) && decide (c.toNat < 0x30 + 10)) = true := by
    simp only [Bool.and_eq_true, decide_eq_true_eq]
    omega
  have hzeros : zeros = 0x30 :: zeros.tail := rfl
  rw [digitValue?, hzeros, find?_cons, hzero]
  rfl

theorem readDigits?_of_digits (h : ∀ c ∈ cs, c.isDigit = true) :
    readDigits? n cs = some (Nat.ofDigitChars 10 cs n) := by
  induction cs generalizing n with
  | nil => rfl
  | cons c cs ih =>
    have hc := h c mem_cons_self
    have hne : c ≠ '_' := by
      rintro rfl
      cases hc
    rw [readDigits?, digitValue?_of_isDigit hc, Option.bind_some,
      ih (forall_mem_cons.1 h).2, Nat.ofDigitChars_cons, Nat.mul_comm]
    · rfl
    · exact fun _ _ heq _ => hne heq

theorem toList_numeral (n : Nat) : (toString n).toList = Nat.toDigits 10 n := by
  rw [Nat.toString_eq_repr, Nat.toList_repr]

theorem isDigit_of_mem_numeral (h : c ∈ (toString n).toList) : c.isDigit = true := by
  rw [toList_numeral] at h
  exact Nat.isDigit_of_mem_toDigits (by decide) (by decide) h

theorem numeral_ne_empty (n : Nat) : toString n ≠ "" := by
  rw [Ne, ← String.toList_eq_nil_iff, toList_numeral]
  exact Nat.toDigits_ne_nil

theorem numeral_inj {m n : Nat} (h : toString m = toString n) : m = n := by
  have hdigits : Nat.toDigits 10 m = Nat.toDigits 10 n := by
    rw [← toList_numeral, ← toList_numeral, h]
  have hread := congrArg (Nat.ofDigitChars 10 · 0) hdigits
  simpa [Nat.ofDigitChars_toDigits] using hread

theorem of_digit {p : Char → Bool}
    (hp : (range 10).all (fun k => p (Char.ofNat (48 + k))) = true) (h : c.isDigit = true) :
    p c = true := by
  obtain ⟨hfirst, hlast⟩ := isDigit_iff.1 h
  exact of_span 48 10 hp hfirst (by omega)

theorem isNumeric_numeral (n : Nat) : isNumeric (toString n) = true := by
  have hne : (toString n).isEmpty = false := String.isEmpty_eq_false_iff.2 (numeral_ne_empty n)
  rw [isNumeric, hne]
  exact all_eq_true.2 fun c hc =>
    of_digit (by decide) (isDigit_of_mem_numeral hc)

theorem solid_numeral (n : Nat) : Solid (toString n) := by
  refine .of_chars fun c hc => ?_
  simpa using of_digit (p := fun c => !isBlank c) (by decide)
    (isDigit_of_mem_numeral hc)

theorem readInt?_numeral (n : Nat) :
    readInt? (toString n) = if maxDigits < (toString n).length then none else some (n : Int) := by
  have hdigits : ∀ c ∈ (toString n).toList, c.isDigit = true :=
    fun c hc => isDigit_of_mem_numeral hc
  have hread : Nat.ofDigitChars 10 (toString n).toList 0 = n := by
    rw [toList_numeral, Nat.ofDigitChars_toDigits (by decide) (by decide)]
  rw [readInt?, (solid_numeral n).trim_eq]
  cases hchars : (toString n).toList with
  | nil => exact absurd (String.toList_eq_nil_iff.1 hchars) (numeral_ne_empty n)
  | cons c cs =>
    have hlength : (toString n).length = (c :: cs).countP (· != '_') := by
      rw [← String.length_toList, ← hchars, eq_comm, countP_eq_length]
      exact fun c hc => of_digit (p := (· != '_')) (by decide) (hdigits c hc)
    rw [hchars] at hdigits hread
    have hc := hdigits c mem_cons_self
    have hrest : readDigits? (c.toNat - 48) cs = some n := by
      rw [readDigits?_of_digits (forall_mem_cons.1 hdigits).2, ← hread,
        Nat.ofDigitChars_cons, Nat.mul_zero, Nat.zero_add]
      rfl
    split
    · rename_i heq
      cases heq
      cases hc
    · rename_i heq
      cases heq
      cases hc
    · rw [readNatural?, digitValue?_of_isDigit hc, Option.bind_some, hrest, hlength]
      split <;> rfl

end Text

namespace Condition

/-! ### Operands -/

/-- An operand: a word in lower case, or a natural number in decimal. -/
inductive Operand : String → Prop
  | word {w : String} (plain : Plain w) (letters : Text.isNumeric w = false) : Operand w
  | numeral (n : Nat) : Operand (toString n)

theorem Operand.plain {a : String} (h : Operand a) : Plain a := by
  cases h with
  | word plain _ => exact plain
  | numeral n =>
    exact ⟨numeral_ne_empty n, fun c hc =>
      of_digit (by decide) (isDigit_of_mem_numeral hc)⟩

theorem Operand.of_letters {w : String} (hne : w ≠ "")
    (hletters : w.toList.all Char.isLower = true) : Operand w := by
  have hchars : ∀ c ∈ w.toList, (isPlain c && !isNumeral c) = true := by
    intro c hc
    obtain ⟨hfirst, hlast⟩ : 97 ≤ c.toNat ∧ c.toNat ≤ 122 := by
      have hlower : (decide (c.val ≥ 'a'.val) && decide (c.val ≤ 'z'.val)) = true :=
        all_eq_true.1 hletters c hc
      simp only [Bool.and_eq_true, decide_eq_true_eq, ge_iff_le, UInt32.le_iff_toNat_le] at hlower
      exact hlower
    exact of_span 97 26 (p := fun c => isPlain c && !isNumeral c)
      (by decide +kernel) hfirst (by omega)
  refine .word ⟨hne, fun c hc => (Bool.and_eq_true_iff.1 (hchars c hc)).1⟩ ?_
  cases hlist : w.toList with
  | nil => exact absurd (String.toList_eq_nil_iff.1 hlist) hne
  | cons c cs =>
    have hc := (Bool.and_eq_true_iff.1 (hchars c (by simp [hlist]))).2
    rw [Bool.not_eq_true'] at hc
    simp [isNumeric, hlist, hc]

theorem cleanQuotes_of_plain {w : String} (hw : Plain w) : cleanQuotes (.str w) = .str w := by
  have htrim {quote : String} {c : Char} (hquote : quote.toList = [c]) (hc : c ∉ w.toList) :
      trimOf quote w = w := by
    have hdrop {cs : List Char} (hcs : c ∉ cs) : cs.dropWhile (quote.toList.contains ·) = cs := by
      cases cs with
      | nil => rfl
      | cons x xs =>
        rw [hquote, dropWhile_cons_of_neg]
        intro hx
        obtain rfl : x = c := by simpa using hx
        exact hcs mem_cons_self
    rw [trimOf, trimStartOf, dropStart, hdrop hc, String.ofList_toList,
      trimEndOf, dropEnd, hdrop (by simpa using hc), reverse_reverse,
      String.ofList_toList]
  change str (trimOf "'" (trimOf "\"" (trim w))) = _
  rw [(Solid.of_chars hw.solid).trim_eq, htrim rfl (hw.not_mem (by decide)),
    htrim rfl (hw.not_mem (by decide))]

def isTooLong (a : String) : Bool :=
  Text.isNumeric a && decide (Text.maxDigits < a.length)

theorem isTooLong_numeral (n : Nat) :
    isTooLong (toString n) = decide (maxDigits < (toString n).length) := by
  rw [isTooLong, isNumeric_numeral, Bool.true_and]

/-- What an operand from the compiler stands for. -/
inductive Reading : String → Except Fault Value → Prop
  | word {w : String} (plain : Plain w) (letters : Text.isNumeric w = false) :
      Reading w (.ok (.str w))
  | number {n : Nat} (fits : isTooLong (toString n) = false) : Reading (toString n) (.ok (.int n))
  | tooLong {n : Nat} (long : isTooLong (toString n) = true) :
      Reading (toString n) (.error .badValue)

theorem Operand.reading {a : String} (h : Operand a) : Reading a (operand (.str a)) := by
  have hclean := cleanQuotes_of_plain h.plain
  have htrim : trim a = a := (Solid.of_chars h.plain.solid).trim_eq
  simp only [operand, hclean, display, htrim]
  cases h with
  | word plain letters =>
    rw [if_neg (by simp [letters])]
    exact .word plain letters
  | numeral n =>
    rw [if_pos (isNumeric_numeral n)]
    by_cases hlong : maxDigits < (toString n).length
    · simp only [toInt, readInt?_numeral, if_pos hlong]
      exact .tooLong ((isTooLong_numeral n).trans (decide_eq_true hlong))
    · simp only [toInt, readInt?_numeral, if_neg hlong]
      exact .number ((isTooLong_numeral n).trans (decide_eq_false hlong))

/-! ### Agreement -/

/-- The comparators that take their operands for texts or fail. -/
def textual : List String :=
  textNegations.flatMap fun (op, neg) => [op, neg]

def ordering : List String :=
  denied.map (·.1)

def affixes : List String :=
  ["STARTSWITH", "!STARTSWITH", "ENDSWITH", "!ENDSWITH"]

/-- Whether a comparator does not apply to a number or a word: it compares the one with the other,
or it takes a number for a text or a list. -/
def mixes (op a b : String) : Bool :=
  (ordering.contains op && Text.isNumeric a != Text.isNumeric b) ||
    (textual.contains op && Text.isNumeric b) || (affixes.contains op && Text.isNumeric a)

def clashes (op a b : String) : Bool :=
  isTooLong a || isTooLong b || mixes op a b

/-- What is found about data, where `b` is found about a text: the same, unless there is a clash. -/
inductive Agrees (b : Bool) : (clash : Bool) → Except Fault Bool → Prop
  | same : Agrees b false (.ok b)
  | fails (fault : Fault) : Agrees b true (.error fault)

theorem Agrees.map {b clash : Bool} {found : Except Fault Bool} (h : Agrees b clash found)
    (f : Bool → Bool) : Agrees (f b) clash (found.map f) := by
  cases h with
  | same => exact .same
  | fails fault => exact .fails fault

section

variable {op neg a b : String} {x y : Except Fault Value} {v w : Value}

theorem Agrees.of_values {found : Bool} (ha : Reading a x) (hb : Reading b y)
    (hvalues : ∀ v w, x = .ok v → y = .ok w → Agrees found (mixes op a b) (compare (.str op) v w)) :
    Agrees found (clashes op a b) (do compare (.str op) (← x) (← y)) := by
  have hword {w : String} (letters : isNumeric w = false) : isTooLong w = false := by
    rw [isTooLong, letters, Bool.false_and]
  have hok {v : Value} (ha : Reading a (.ok v)) : isTooLong a = false := by
    cases ha with
    | word _ letters => exact hword letters
    | number fits => exact fits
  cases x with
  | error fault =>
    cases ha with
    | tooLong long =>
      rw [clashes, long]
      exact .fails _
  | ok v =>
    rw [clashes, hok ha, Bool.false_or]
    cases hb with
    | tooLong long =>
      rw [long]
      exact .fails _
    | word _ letters =>
      rw [hword letters]
      exact hvalues v _ rfl rfl
    | number fits =>
      rw [fits]
      exact hvalues v _ rfl rfl

theorem compare_equal (ha : Reading a (.ok v)) (hb : Reading b (.ok w)) :
    compare "==" v w = .ok (a == b) := by
  have hne {w : String} {n : Nat} (letters : isNumeric w = false) : w ≠ toString n := by
    rintro rfl
    rw [isNumeric_numeral] at letters
    cases letters
  have hequal : compare "==" v w = .ok (v.same w) := by
    simp [compare, str_same, Value.truthy, pure, Except.pure]
  rw [hequal]
  refine congrArg _ ?_
  cases ha with
  | word _ letters =>
    cases hb with
    | word => exact str_same
    | number =>
      rw [beq_eq_false_iff_ne.2 (hne letters)]
      simp [same, sameLeaf, Value.worth?]
  | number =>
    cases hb with
    | word _ letters =>
      rw [beq_eq_false_iff_ne.2 (hne letters).symm]
      exact Bool.eq_false_iff.2 fun hsame => by cases same_str hsame
    | number =>
      rw [same_int, Bool.eq_iff_iff, beq_iff_eq, beq_iff_eq, Int.ofNat_inj]
      exact ⟨congrArg toString, numeral_inj⟩

theorem asNumbers_of_readings (ha : Reading a (.ok v)) (hb : Reading b (.ok w))
    (hkinds : isNumeric a = isNumeric b) : asNumbers a b = (v, w) := by
  have hread {n : Nat} (fits : isTooLong (toString n) = false) :
      readInt? (toString n) = some (n : Int) := by
    rw [isTooLong_numeral, decide_eq_false_iff_not] at fits
    rw [readInt?_numeral, if_neg fits]
  cases ha with
  | word _ letters =>
    rw [asNumbers, if_neg (by simp [letters])]
    cases hb with
    | word => rfl
    | number =>
      rw [letters, isNumeric_numeral] at hkinds
      cases hkinds
  | number fits =>
    rw [asNumbers, if_pos (isNumeric_numeral _), hread fits]
    cases hb with
    | word _ letters =>
      rw [letters, isNumeric_numeral] at hkinds
      cases hkinds
    | number fits' => rw [hread fits']

theorem compare_order {relation : Comparison} (hop : (op, relation) ∈ denied)
    (ha : Reading a (.ok v)) (hb : Reading b (.ok w)) :
    Agrees (!inOrder relation (asNumbers a b)) (isNumeric a != isNumeric b)
      (compare (.str op) v w) := by
  rw [compare_denied hop]
  have hsame {v w : Value} (ha : Reading a (.ok v)) (hb : Reading b (.ok w))
      (hkinds : isNumeric a = isNumeric b)
      (hcompare : v.compare relation w = .ok (inOrder relation (v, w))) :
      Agrees (!inOrder relation (asNumbers a b)) (isNumeric a != isNumeric b)
        ((v.compare relation w).map (!·)) := by
    rw [asNumbers_of_readings ha hb hkinds, hcompare, hkinds, bne_self_eq_false]
    exact .same
  cases ha with
  | word plain letters =>
    cases hb with
    | word plain' letters' =>
      exact hsame (.word plain letters) (.word plain' letters') (letters.trans letters'.symm)
        (by simp [inOrder, Value.compare])
    | number =>
      rw [letters, isNumeric_numeral]
      exact .fails _
  | number fits =>
    cases hb with
    | word _ letters =>
      rw [letters, isNumeric_numeral]
      exact .fails _
    | number fits' =>
      exact hsame (.number fits) (.number fits')
        ((isNumeric_numeral _).trans (isNumeric_numeral _).symm)
        (by simp [inOrder, Value.compare, Value.worth?, Value.Worth.compare?])

theorem sideOptions_of_plain (ha : Plain a) (hb : Plain b) :
    sideOptions (a ++ " ") = [a] ∧ sideOptions (" " ++ b) = [b] ∧
      trim a = a ∧ trim b = b := by
  have hright : sideOptions (" " ++ join ", " [b]) = [b] :=
    sideOptions_right (by simp) (by simpa using hb)
  rw [join_singleton] at hright
  exact ⟨sideOptions_left ha, hright, (Solid.of_chars ha.solid).trim_eq,
    (Solid.of_chars hb.solid).trim_eq⟩

theorem optionsOf_of_plain (hb : Plain b) : optionsOf (.str b) = .ofItems ([b].map .str) := by
  have hcomma : ¬ contains b "," = true :=
    Bool.eq_false_iff.1 (contains_eq_false "," rfl hb.comma)
  rw [optionsOf, if_neg hcomma, lower_of_small hb.small]
  rfl

theorem textTest_of_plain (hpair : (op, neg) ∈ textNegations) (ha : Plain a) (hb : Plain b) :
    textTest op (.str a) (.str b) = .ok (compareSides op (a ++ " ") (" " ++ b)) := by
  obtain ⟨hleft, hright, htrim, -⟩ := sideOptions_of_plain ha hb
  have hsettled : settled op = id := by
    funext found
    simp [settled, (startsWith_textNegations _ hpair).1]
  have hcontains := (endsWith_textNegations _ hpair "CONTAINS" (by decide)).1
  have hbegins := (endsWith_textNegations _ hpair "STARTSWITH" (by decide)).1
  have hends := (endsWith_textNegations _ hpair "ENDSWITH" (by decide)).1
  have hany {test : Value → Except Fault Bool} {p : String → Bool}
      (htest : ∀ s, test (.str s) = .ok (p s)) :
      ((ofItems ([b].map .str)).elements >>= anyOption test) = .ok ([b].any p) :=
    anyOption_ok htest [b]
  simp only [textTest, optionsOf_of_plain hb, compareSides, hleft, hright, htrim, hsettled,
    hcontains, hbegins, hends, headD_cons]
  simp only [textNegations, mem_cons, Prod.mk.injEq, not_mem_nil, or_false] at hpair
  rcases hpair with ⟨rfl, rfl⟩ | ⟨rfl, rfl⟩ | ⟨rfl, rfl⟩ | ⟨rfl, rfl⟩
  · refine congrArg Except.ok ?_
    simp only [map_cons, map_nil, any_cons, any_nil, Bool.or_false,
      str_same, display, contains_cons, contains_nil]
    exact BEq.comm
  · exact hany fun _ => rfl
  · exact hany fun _ => rfl
  · exact hany fun _ => rfl

theorem textTest_display (hop : op ∈ ["IN", "CONTAINS"]) (v w : Value) :
    textTest op v w = textTest op (.str v.display) w := by
  simp only [mem_cons, not_mem_nil, or_false] at hop
  rcases hop with rfl | rfl <;> simp [textTest, display]

theorem textTest_affixes (hop : op ∈ ["STARTSWITH", "ENDSWITH"]) (hb : Plain b) (n : Int) :
    textTest op (.int n) (.str b) = .error .missingOperation := by
  simp only [mem_cons, not_mem_nil, or_false] at hop
  rcases hop with rfl | rfl <;>
    simp [textTest, optionsOf_of_plain hb, ofItems, elements, anyOption, bind,
      Except.bind, text]

theorem compare_options (hpair : (op, neg) ∈ textNegations) (ha : Reading a (.ok v))
    (hb : Reading b (.ok w)) :
    Agrees (compareSides op (a ++ " ") (" " ++ b))
      (isNumeric b || affixes.contains op && isNumeric a) (compare (.str op) v w) := by
  rw [(compare_text hpair v w).1, (compareText_eq hpair v w).1]
  cases hb with
  | number =>
    rw [isNumeric_numeral, Bool.true_or]
    have hfails : textTest op v (.int ‹Nat›) = .error .wrongKind := by
      rw [textTest]
      split <;> rfl
    rw [hfails]
    exact .fails _
  | word plain letters =>
    rw [letters, Bool.false_or]
    cases ha with
    | word plain' letters' =>
      rw [letters', Bool.and_false, textTest_of_plain hpair plain' plain]
      exact .same
    | number =>
      have hnumber := textTest_of_plain hpair (Operand.numeral ‹Nat›).plain plain
      rw [isNumeric_numeral, Bool.and_true]
      simp only [textNegations, mem_cons, Prod.mk.injEq, not_mem_nil, or_false] at hpair
      rcases hpair with ⟨rfl, rfl⟩ | ⟨rfl, rfl⟩ | ⟨rfl, rfl⟩ | ⟨rfl, rfl⟩
      · rw [textTest_display (by decide)]
        exact hnumber ▸ .same
      · rw [textTest_display (by decide)]
        exact hnumber ▸ .same
      · rw [textTest_affixes (by decide) plain]
        exact .fails _
      · rw [textTest_affixes (by decide) plain]
        exact .fails _

theorem outcome_agrees_of_pair (hpair : (op, neg) ∈ negations) (ha : Operand a) (hb : Operand b) :
    Agrees (compareSides op (a ++ " ") (" " ++ b)) (clashes op a b)
      ((Operands.given a b (.inl rfl)).outcome op) := by
  obtain ⟨hleft, hright, htrim, htrim'⟩ := sideOptions_of_plain ha.plain hb.plain
  refine .of_values ha.reading hb.reading fun v w hv hw => ?_
  have hva : Reading a (.ok v) := hv ▸ ha.reading
  have hwb : Reading b (.ok w) := hw ▸ hb.reading
  simp only [negations, mem_cons, Prod.mk.injEq] at hpair
  rcases hpair with ⟨rfl, rfl⟩ | ⟨rfl, rfl⟩ | ⟨rfl, rfl⟩ | htext
  · rw [compare_equal hva hwb]
    simp only [compareSides, hleft, hright, htrim, htrim', headD_cons]
    exact .same
  · have hdenied : (">", Comparison.atMost) ∈ denied := by decide
    have horder := compare_order hdenied hva hwb
    simpa [mixes, ordering, denied, textual, textNegations, affixes, compareSides, hleft, hright,
      htrim, htrim'] using horder
  · have hdenied : ("<", Comparison.atLeast) ∈ denied := by decide
    have horder := compare_order hdenied hva hwb
    simpa [mixes, ordering, denied, textual, textNegations, affixes, compareSides, hleft, hright,
      htrim, htrim'] using horder
  · have hmixes : mixes op a b = (isNumeric b || affixes.contains op && isNumeric a) := by
      have hnames : ∀ pair ∈ textNegations, ordering.contains pair.1 = false ∧
          textual.contains pair.1 = true := by decide
      rw [mixes, (hnames _ htext).1, (hnames _ htext).2, Bool.false_and, Bool.false_or,
        Bool.true_and]
    rw [hmixes]
    exact compare_options htext hva hwb

/-- A comparator finds the same about two operands from the compiler as about the two sides of a
text, unless they clash. -/
theorem outcome_agrees (hop : op ∈ comparators) (ha : Operand a) (hb : Operand b) :
    Agrees (compareSides op (a ++ " ") (" " ++ b)) (clashes op a b)
      ((Operands.given a b (.inl rfl)).outcome op) := by
  obtain ⟨⟨pos, neg⟩, hpair, hmem⟩ := mem_flatMap.1 hop
  have hpos := outcome_agrees_of_pair hpair ha hb
  simp only [mem_cons, not_mem_nil, or_false] at hmem
  rcases hmem with rfl | rfl
  · exact hpos
  · have hclashes : clashes op a b = clashes pos a b := by
      have hnames : ∀ pair ∈ negations, ordering.contains pair.2 = ordering.contains pair.1 ∧
          textual.contains pair.2 = textual.contains pair.1 ∧
          affixes.contains pair.2 = affixes.contains pair.1 := by decide
      obtain ⟨hordering, htextual, haffixes⟩ := hnames _ hpair
      simp only [clashes, mixes, hordering, htextual, haffixes]
    have hneg : (Operands.given a b (.inl rfl)).outcome op =
        ((Operands.given a b (.inl rfl)).outcome pos).map (opposed pos) :=
      Operands.outcome_negation hpair (by simp)
    rw [compareSides_negation hpair, hclashes, hneg]
    exact hpos.map _

end

/-! ### Branches -/

/-- Data that ask whether a text is true. -/
structure Flags (a : String) (data : Value) : Prop where
  truthy : data.truthy = true
  comparator : data.get "comparator" = .ok "BOOL"
  subject : data.get "variable" = .ok (.str a)

theorem Flags.verdict_eq {a : String} {data : Value} (h : Flags a data) (text : Value) :
    verdict data text = .ok (!a.isEmpty) := by
  rw [verdict, if_pos h.truthy]
  simp [ofData, h.comparator, h.subject, bind, Except.bind, pure, Except.pure, str_same,
    Value.truthy]

theorem verdict_word {a : String} (ha : Plain a) {data : Value} (hfalsy : data.truthy = false) :
    verdict data (.str (join " " ["if", a])) = .ok (!falseWords.contains a) := by
  have hwords : wordsOf (.str (join " " ["if", a])) = [a] :=
    wordsOf_join (by simpa using ⟨ha.term.toIsWord, ha.not_mem (by decide), ha.not_mem (by decide)⟩)
  rw [verdict, if_neg (by simp [hfalsy])]
  delta ofText
  rw [hwords]
  simp only [lower_of_small ha.small]

/-- Operands that are words in lower case or decimal numbers, in the data of a branch and in its
text.  The text is always decided.  The data are decided in the same way, unless the comparator
clashes with the operands: then the branch fails.  A single operand in the data always counts as
true, but in a text there are words for falsehood. -/
theorem evaluators_agree {op a b : String} (hop : op ∈ comparators) (ha : Operand a)
    (hb : Operand b) {m flag bare : Message} {text : Value}
    (hdata : Compares op (.given a b (.inl rfl)) m.lineData text)
    (hflag : Flags a flag.lineData) (hbare : bare.lineData.truthy = false) :
    (∃ taken, Command.Takes bare (.str (Text.join " " ["if", a, op, b])) taken ∧
        (clashes op a b = false → Command.Takes m text taken) ∧
        (clashes op a b = true → Command.Fails m text)) ∧
      Command.Takes bare (.str (Text.join " " ["if", a])) (!falseWords.contains a) ∧
      Command.Takes flag text true := by
  have hnames : ∀ op ∈ comparators, op ≠ "BOOL" := by decide
  have hread : Compares op (.read (some (a ++ " ", " " ++ b))) bare.lineData
      (.str (Text.join " " ["if", a, op, b])) := by
    have hleft : ∀ w ∈ [a], Term w := by simpa using ha.plain.term
    have hright : ∀ w ∈ [b], Term w := by simpa using hb.plain.term
    have hterms := Compares.of_terms hop hbare hleft hright (by simp) (by simp)
    rwa [Text.join_singleton, Text.join_singleton] at hterms
  have hagrees := outcome_agrees hop ha hb
  rw [← hdata.verdict_eq (hnames op hop)] at hagrees
  refine ⟨⟨compareSides op (a ++ " ") (" " ++ b), .of_verdict (hread.verdict_eq (hnames op hop)),
    fun hclash => ?_, fun hclash => ?_⟩, .of_verdict (verdict_word ha.plain hbare), ?_⟩
  · rw [hclash] at hagrees
    generalize hfound : verdict m.lineData text = found at hagrees
    cases hagrees
    exact .of_verdict hfound
  · rw [hclash] at hagrees
    generalize hfound : verdict m.lineData text = found at hagrees
    cases hagrees with
    | fails fault => exact .of_verdict hfound
  · have hverdict := hflag.verdict_eq text
    rw [String.isEmpty_eq_false_iff.2 ha.plain.nonempty] at hverdict
    exact .of_verdict hverdict

/-- A word and a number are different, and a word that is not one for falsehood is true. -/
theorem evaluators_agree_apart :
    let asked : Message := { data := [("parser_data", .object [("left", "red"),
      ("comparator", "!="), ("right", "10")])] }
    let flag : Message := { data := [("parser_data", .object [("comparator", "BOOL"),
      ("variable", "red")])] }
    clashes "!=" "red" "10" = false ∧
      (∃ taken, Command.Takes {} "if red != 10" taken ∧ Command.Takes asked "if red != 10" taken) ∧
      Command.Takes {} "if red" true ∧ Command.Takes flag "if red != 10" true := by
  intro asked flag
  have hclash : clashes "!=" "red" "10" = false := by decide
  have hasked : Compares "!=" (.given "red" "10" (.inl rfl)) asked.lineData "if red != 10" := by
    constructor <;> simp [asked, Message.lineData, Entries.find?, Value.get, Value.object,
      Value.isKey, Value.str_same, Value.truthy]
  have hvalue : Flags "red" flag.lineData := by
    constructor <;> simp [flag, Message.lineData, Entries.find?, Value.get, Value.object,
      Value.isKey, Value.str_same, Value.truthy]
  have hred : Operand "red" := .of_letters (by decide) (by decide)
  have hnone : ({} : Message).lineData.truthy = false := rfl
  obtain ⟨⟨taken, hread, hgiven, -⟩, hbare, hflag⟩ :=
    evaluators_agree (by decide) hred (.numeral 10) hasked hvalue hnone
  exact ⟨hclash, ⟨taken, hread, hgiven hclash⟩, hbare, hflag⟩

/-- The text of a condition counts the word for falsehood as false and compares a number with a
word, and the data do not. -/
theorem evaluators_differ :
    (ofText "if false" = false ∧
      (ofData (.object [("comparator", "BOOL"), ("variable", "false")])).toOption = some true) ∧
    (ofText "if 5 > red" = false ∧
      (ofData (.object [("left", "5"), ("comparator", ">"), ("right", "red")])).toOption =
        none) := by
  decide +kernel

end Condition

end Colloquy
