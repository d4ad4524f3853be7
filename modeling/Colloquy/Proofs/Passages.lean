import Colloquy.Proofs.History
import Colloquy.Proofs.Templates

/-! Lines without references.  A line that is not quoted is cut into words and put together again.
This gives the line back, unless a word opens a parenthesis and does not close it: such a word goes
on to where the parenthesis is closed, and the blank that stood behind the word comes to stand behind
the parenthesis.  If the parenthesis is not closed, the line cannot be cut at all. -/

namespace Colloquy

open Text Colloquy.Function List

variable {pieces : List String} {text : String}

/-! ### Cutting at blanks -/

namespace Text

variable {c : Char} {s sep word : String} {cs piece : List Char}

theorem not_mem_of_mem_split (hsep : sep.toList = [c]) (h : word ∈ split sep s) :
    c ∉ word.toList := by
  have hne : sep ≠ "" := fun hempty => by simp [hempty] at hsep
  induction s using cut_induction hne with
  | whole s hcut =>
    rw [split_of_cut?_none hcut, mem_singleton] at h
    rw [cut?_eq_none_iff, ← Bool.not_eq_true, contains_iff_mem hsep] at hcut
    rwa [h]
  | cut s a b hcut ih =>
    rw [split_of_cut? hne hcut] at h
    rcases mem_cons.1 h with rfl | hrest
    · exact not_mem_of_cut? hsep hcut
    · exact ih hrest

theorem exists_join_append (sep : String) (before : List String) :
    ∃ front, ∀ rest, rest ≠ [] → join sep (before ++ rest) = front ++ join sep rest := by
  induction before with
  | nil => exact ⟨"", fun rest _ => by rw [nil_append, String.empty_append]⟩
  | cons word more ih =>
    obtain ⟨front, hfront⟩ := ih
    refine ⟨word ++ sep ++ front, fun rest hrest => ?_⟩
    rw [cons_append, join_cons _ _ (by simp [hrest]), hfront rest hrest]
    simp only [String.append_assoc]

theorem length_add_le_join (before : List String) {rest : List String} (h : rest ≠ []) :
    before.length + (join " " rest).length ≤ (join " " (before ++ rest)).length := by
  induction before with
  | nil => simp
  | cons word more ih =>
    have hblank : " ".length = 1 := rfl
    rw [cons_append, join_cons _ _ (by simp [h]), length_cons]
    simp only [String.length_append]
    omega

theorem headD_split_append (hsep : sep.toList = [c]) (hmem : c ∈ s.toList) (rest : String) :
    (split sep (s ++ rest)).headD "" = (split sep s).headD "" := by
  obtain ⟨⟨a, b⟩, hcut⟩ : ∃ parts, cut? sep s = some parts := by
    rw [← Option.isSome_iff_exists, cut?, Option.isSome_map]
    exact (contains_iff_mem hsep).2 hmem
  have ha := not_mem_of_cut? hsep hcut
  obtain rfl := eq_of_cut? hcut
  rw [String.append_assoc, split_append sep hsep ha, split_append sep hsep ha]
  rfl

end Text

/-! ### Words and parentheses -/

namespace Substitution

/-- A word that opens a parenthesis also closes one. -/
def Closed (word : String) : Prop :=
  '(' ∈ word.toList → ')' ∈ word.toList

instance (word : String) : Decidable (Closed word) :=
  inferInstanceAs (Decidable (_ → _))

/-- A line that is quoted, or whose words but the last one close the parentheses that they open. -/
def Closes (line : String) : Prop :=
  isQuoted line = true ∨ ∀ word ∈ (Text.split " " line).dropLast, Closed word

/-- The first word of a line that goes on to where its parenthesis is closed. -/
structure Breaks (line : String) (before : List String) (word : String) (after : List String) :
    Prop where
  unquoted : isQuoted line = false
  words : Text.split " " line = before ++ word :: after
  behind : after ≠ []
  before : ∀ word ∈ before, Closed word
  opens : ¬ Closed word

/-- A line without references: it opens no brace, and no word of it names a variable, or a function
in front of its arguments. -/
structure Unreferring (bindings : Entries) (line : String) : Prop where
  brace : '\x7b' ∉ line.toList
  names : ∀ word ∈ Text.split " " line, bindings.has word = false ∧
    ∀ f ∈ Function.all, f.name ≠ (Text.split "(" word).headD ""

variable {bindings : Entries} {line word more rest : String} {before after words : List String}
  {functions : List Function} {fuel : Nat}

theorem closes_or_breaks (line : String) :
    Closes line ∨ ∃ before word after, Breaks line before word after := by
  cases hquoted : isQuoted line with
  | true => exact .inl (.inl hquoted)
  | false =>
    by_cases hall : ∀ word ∈ (split " " line).dropLast, Closed word
    · exact .inl (.inr hall)
    · right
      have hsome : ((split " " line).dropLast.find? fun word =>
          !decide (Closed word)).isSome = true := by simpa using hall
      obtain ⟨word, hfind⟩ := Option.isSome_iff_exists.1 hsome
      obtain ⟨hopens, before, after, hwords, hbefore⟩ := find?_eq_some_iff_append.1 hfind
      refine ⟨before, word, after ++ [(split " " line).getLast (split_ne_nil " " line)],
        hquoted, ?_, by simp, by simpa using hbefore, by simpa using hopens⟩
      have hlast := dropLast_concat_getLast (split_ne_nil " " line)
      rw [hwords, append_assoc, cons_append] at hlast
      exact hlast.symm

theorem ne_nil_of_cons {named? : Except Fault Bool} {word : Bool → String}
    {rest? : Except Fault (List String)}
    (h : (do let named ← named? let rest ← rest? return word named :: rest) = .ok pieces) :
    pieces ≠ [] := by
  obtain ⟨named, -, hrest⟩ := except_bind_ok_iff.1 h
  obtain ⟨rest, -, hpieces⟩ := except_bind_ok_iff.1 hrest
  cases hpieces
  exact cons_ne_nil _ _

theorem openTokens_ne_nil {bindings : Value}
    (h : openTokens bindings functions fuel line = .ok pieces) : pieces ≠ [] := by
  cases fuel with
  | zero =>
    cases h
    exact cons_ne_nil _ _
  | succ fuel =>
    rw [openTokens] at h
    split at h
    · obtain ⟨named, -, hlast⟩ := except_bind_ok_iff.1 h
      cases hlast
      exact cons_ne_nil _ _
    · simp only [pure_bind] at h
      split at h
      · split at h
        · exact ne_nil_of_cons h
        · cases h
      · exact ne_nil_of_cons h

theorem Unreferring.stays (h : Unreferring bindings line) (hword : word ∈ split " " line)
    (hclosed : Closed word) : Stays bindings word where
  blank := not_mem_of_mem_split rfl hword
  reference := isReference_eq_false fun hmem => h.brace (mem_of_mem_split (by decide) hword hmem)
  undeclared := (h.names word hword).1
  function := (h.names word hword).2
  parenthesis hopens :=
    (contains_iff_mem rfl).2 (hclosed ((contains_iff_mem rfl).1 hopens))

theorem openTokens_closed (h : Unreferring bindings line)
    (hclosed : ∀ word ∈ (split " " line).dropLast, Closed word) (hfuel : line.length < fuel) :
    openTokens (.table bindings) functions fuel line = .ok (split " " line) := by
  obtain ⟨before, last, hwords⟩ : ∃ before last, split " " line = before ++ [last] :=
    ⟨_, _, (dropLast_concat_getLast (split_ne_nil " " line)).symm⟩
  have hline := join_split " " (by decide) line
  rw [hwords] at hline hclosed
  have hstays : ∀ word ∈ before, Stays bindings word := fun word hmem =>
    h.stays (by rw [hwords]; exact mem_append_left _ hmem) (hclosed word (by simpa using hmem))
  have hlast : last ∈ split " " line := by rw [hwords]; simp
  have hlength := length_le_join (before ++ [last])
  rw [hline, length_append, length_singleton] at hlength
  obtain ⟨left, rfl⟩ : ∃ left, fuel = left + 1 + before.length :=
    ⟨fuel - 1 - before.length, by omega⟩
  rw [hwords, ← hline, openTokens_append _ hstays (cons_ne_nil _ _), join_singleton,
    openTokens_last left (not_mem_of_mem_split rfl hlast)
      (isName_of_unnamed (h.names last hlast).1 (h.names last hlast).2)]
  rfl

namespace Breaks

variable (hbreaks : Breaks line before word after)

include hbreaks

theorem line_eq : line = join " " (before ++ word :: after) := by
  rw [← hbreaks.words]
  exact (join_split " " (by decide) line).symm

theorem cut_eq (hcut : cut? ")" (join " " after) = some (more, rest)) :
    ∃ front, (∀ others, others ≠ [] →
        join " " (before ++ others) = front ++ join " " others) ∧
      line = front ++ (word ++ " " ++ (more ++ ")" ++ rest)) := by
  obtain ⟨front, hfront⟩ := exists_join_append " " before
  refine ⟨front, hfront, ?_⟩
  rw [hbreaks.line_eq, hfront _ (cons_ne_nil _ _), join_cons _ _ hbreaks.behind,
    eq_of_cut? hcut]

theorem opens_mem : '(' ∈ word.toList ∧ ')' ∉ word.toList :=
  Classical.not_imp.1 hbreaks.opens

theorem openTokens_before (h : Unreferring bindings line) (fuel : Nat) :
    openTokens (.table bindings) functions (fuel + before.length) line =
      (openTokens (.table bindings) functions fuel (join " " (word :: after))).map
        (before ++ ·) := by
  have hstays : ∀ word ∈ before, Stays bindings word := fun word hmem =>
    h.stays (by rw [hbreaks.words]; exact mem_append_left _ hmem) (hbreaks.before word hmem)
  rw [hbreaks.line_eq, openTokens_append _ hstays (cons_ne_nil _ _)]

theorem cut?_word :
    cut? " " (join " " (word :: after)) = some (word, join " " after) := by
  have hmem : word ∈ split " " line := by rw [hbreaks.words]; simp
  rw [join_cons _ _ hbreaks.behind,
    cut?_append " " rfl (not_mem_of_mem_split rfl hmem)]

theorem opens_eq : (contains word "(" && !contains word ")") = true := by
  rw [(contains_iff_mem rfl).2 hbreaks.opens_mem.1,
    contains_eq_false ")" rfl hbreaks.opens_mem.2]
  rfl

theorem openTokens_unclosed (h : Unreferring bindings line)
    (hcloses : ')' ∉ (join " " after).toList) (hfuel : line.length < fuel) :
    openTokens (.table bindings) functions fuel line = .error .badValue := by
  have hlength := length_add_le_join before (cons_ne_nil word after)
  rw [← hbreaks.line_eq] at hlength
  obtain ⟨left, rfl⟩ : ∃ left, fuel = left + 1 + before.length :=
    ⟨fuel - 1 - before.length, by omega⟩
  have hcut : cut? ")" (join " " after) = none := cut?_eq_none ")" rfl hcloses
  rw [hbreaks.openTokens_before h, openTokens, hbreaks.cut?_word]
  simp only [hbreaks.opens_eq, if_true, hcut]
  rfl

/-- A word that opens a parenthesis is put together with all up to where that is closed, and what is
behind that is cut on its own. -/
theorem openTokens_gathered (functions : List Function) (h : Unreferring bindings line)
    (hcut : cut? ")" (join " " after) = some (more, rest))
    (hundeclared : bindings.has (word ++ more ++ ")") = false) (hfuel : line.length < fuel) :
    ∃ left, rest.length < left ∧ openTokens (.table bindings) functions fuel line =
      (openTokens (.table bindings) functions left rest).map
        (before ++ (word ++ more ++ ")") :: ·) := by
  have hlength := length_add_le_join before (cons_ne_nil word after)
  rw [← hbreaks.line_eq, join_cons _ _ hbreaks.behind,
    eq_of_cut? hcut] at hlength
  simp only [String.length_append, show " ".length = 1 from rfl] at hlength
  obtain ⟨left, rfl⟩ : ∃ left, fuel = left + 1 + before.length :=
    ⟨fuel - 1 - before.length, by omega⟩
  have hmem : word ∈ split " " line := by rw [hbreaks.words]; simp
  have hname : isName (.table bindings) functions (word ++ more ++ ")") = .ok false := by
    refine isName_of_unnamed hundeclared ?_
    rw [String.append_assoc, headD_split_append rfl hbreaks.opens_mem.1]
    exact (h.names word hmem).2
  refine ⟨left, by omega, ?_⟩
  rw [hbreaks.openTokens_before h, openTokens, hbreaks.cut?_word]
  simp only [hbreaks.opens_eq, if_true, hcut, pure, Except.pure, bind, Except.bind, hname,
    Bool.false_and, Bool.false_eq_true, if_false]
  cases openTokens (.table bindings) functions left rest <;> rfl

theorem ne_of_gathered (hcut : cut? ")" (join " " after) = some (more, rest))
    {others : List String} (hothers : others ≠ []) :
    join " " (before ++ (word ++ more ++ ")") :: others) ≠ line := by
  intro heq
  obtain ⟨front, hfront, hline⟩ := hbreaks.cut_eq hcut
  have hmore := not_mem_of_cut? (c := ')') rfl hcut
  have hends : more ++ ")" ++ (" " ++ join " " others) = " " ++ more ++ ")" ++ rest := by
    rw [hline, hfront _ (cons_ne_nil _ _), join_cons _ _ hothers] at heq
    simpa only [String.append_assoc, String.append_right_inj] using heq
  -- The parenthesis is closed one character earlier than in the line.
  have hcuts := congrArg (cut? ")") hends
  rw [cut?_append ")" rfl hmore,
    cut?_append (c := ')') ")" rfl (by simpa [String.toList_append] using hmore)] at hcuts
  have hlength := congrArg String.length (congrArg Prod.fst (Option.some.inj hcuts))
  simp only [String.length_append, show " ".length = 1 from rfl] at hlength
  omega

theorem not_mem_gathered (hcut : cut? ")" (join " " after) = some (more, rest))
    (hbrace : '\x7b' ∉ line.toList) : '\x7b' ∉ (word ++ more ++ ")").toList := by
  obtain ⟨front, -, hline⟩ := hbreaks.cut_eq hcut
  simp only [hline, String.toList_append, mem_append, not_or] at hbrace ⊢
  exact ⟨⟨hbrace.2.1.1, hbrace.2.2.1.1⟩, by decide⟩

theorem not_mem_before (hbrace : '\x7b' ∉ line.toList) :
    ∀ piece ∈ before, '\x7b' ∉ piece.toList := by
  intro piece hmem hpiece
  have hword : piece ∈ split " " line := by
    rw [hbreaks.words]
    exact mem_append_left _ hmem
  exact hbrace (mem_of_mem_split (by decide) hword hpiece)

end Breaks

/-! ### Replacing behind the first pieces -/

section

variable {user : Value} {c : Conversation} {gap result : String} {front others : List String}
  {s t : Session} {left position : Nat}

theorem length_replaceToken (token word : String) (pieces : List String) :
    (replaceToken token word pieces).length = pieces.length := by
  induction pieces with
  | nil => rfl
  | cons piece rest ih =>
    rw [replaceToken]
    split
    · rfl
    · rw [length_cons, length_cons, ih]

theorem replaceFrom_step (hfront : ∀ piece ∈ front, '\x7b' ∉ piece.toList)
    (h : replaceFrom user c functions gap (left + 1) position (front ++ others) line s =
      .ok result t) :
    ∃ others' s', others'.length = others.length ∧
      replaceFrom user c functions gap left (position + 1) (front ++ others')
        (join gap (front ++ others')) s' = .ok result t := by
  simp only [replaceFrom, pure_bind] at h
  split at h
  · rename_i hreference
    have hkeeps (word : String) := @replaceToken_front word front others
      ((front ++ others)[position]?.getD "") fun hmem => by
        rw [isReference_eq_false (hfront _ hmem)] at hreference
        cases hreference
    split at h <;>
    · obtain ⟨word, s', -, hrest⟩ := bind_ok_iff.1 h
      rw [hkeeps] at hrest
      exact ⟨_, s', length_replaceToken _ _ _, hrest⟩
  · exact ⟨others, s, rfl, h⟩

theorem replaceFrom_front (hfront : ∀ piece ∈ front, '\x7b' ∉ piece.toList)
    (h : replaceFrom user c functions gap (left + 1) position (front ++ others) line s =
      .ok result t) :
    ∃ others', others'.length = others.length ∧ result = join gap (front ++ others') := by
  induction left generalizing position others line s with
  | zero =>
    obtain ⟨others', s', hlength, hrest⟩ := replaceFrom_step hfront h
    cases hrest
    exact ⟨others', hlength, rfl⟩
  | succ left ih =>
    obtain ⟨others', s', hlength, hrest⟩ := replaceFrom_step hfront h
    obtain ⟨others'', hlength', hresult⟩ := ih hrest
    exact ⟨others'', hlength'.trans hlength, hresult⟩

end

theorem tokens_of_error {fault : Fault} (hquoted : isQuoted line = false)
    (h : openTokens (.table bindings) functions (line.length + 1) line = .error fault) :
    tokens (.table bindings) functions line = .error fault := by
  simp only [tokens, hquoted, Bool.not_false, if_true, h]
  rfl

theorem tokens_of_quoted (hquoted : isQuoted line = true) (hbrace : '\x7b' ∉ line.toList) :
    tokens (.table bindings) functions line = .ok ([line], "") := by
  simp only [tokens, hquoted, Bool.not_true, Bool.false_eq_true, if_false,
    contains_eq_false "\x7b" rfl hbrace, Bool.false_and]
  rfl

/-- A line without references that is quoted or closes its parentheses is put together from its
pieces. -/
theorem Unreferring.tokens_of_closes (h : Unreferring bindings line) (hcloses : Closes line) :
    ∃ pieces gap, tokens (.table bindings) functions line = .ok (pieces, gap) ∧ pieces ≠ [] ∧
      join gap pieces = line ∧ ∀ piece ∈ pieces, '\x7b' ∉ piece.toList := by
  cases hquoted : isQuoted line with
  | true =>
    exact ⟨[line], "", tokens_of_quoted hquoted h.brace, cons_ne_nil _ _,
      join_singleton _ _, by simpa using h.brace⟩
  | false =>
    have hwords := hcloses.resolve_left (by simp [hquoted])
    exact ⟨split " " line, " ",
      tokens_of_open hquoted (openTokens_closed h hwords (Nat.lt_succ_self _)),
      split_ne_nil " " line, join_split " " (by decide) line,
      fun piece hmem hbrace => h.brace (mem_of_mem_split (by decide) hmem hbrace)⟩

end Substitution

namespace Running

open Substitution

variable {user : Value} {c : Conversation} {bindings : Entries} {s : Session}

theorem substitute_of_pieces (h : Running user c bindings s) {gap : String}
    (htokens : tokens (.table bindings) all (trim text) = .ok (pieces, gap)) :
    substitute user (.str text) false s =
      replaceFrom user c all gap pieces.length 0 pieces (trim text) s := by
  obtain ⟨m, below, hm, hstack⟩ := h.running
  exact substitute_apply h.isKey h.initialized hm hstack h.bindings htokens

theorem substitute_join (h : Running user c bindings s) {gap : String}
    (htokens : tokens (.table bindings) all (trim text) = .ok (pieces, gap))
    (hne : pieces ≠ []) (hbrace : ∀ piece ∈ pieces, '\x7b' ∉ piece.toList) :
    substitute user (.str text) false s = .ok (join gap pieces) s := by
  obtain ⟨first, rest, rfl⟩ := exists_cons_of_ne_nil hne
  have hpass : ∀ piece ∈ ((first :: rest).drop 0).take (rest.length + 1),
      (startsWith piece "\x7b" && endsWith piece "\x7d") = false := by
    simpa using fun piece hmem => isReference_eq_false (hbrace piece hmem)
  rw [h.substitute_of_pieces htokens, length_cons, ← Nat.zero_add (rest.length + 1),
    replaceFrom_pass 0 hpass (by simp)]
  rfl

theorem substitute_of_error (h : Running user c bindings s) {fault : Fault}
    (htokens : tokens (.table bindings) all (trim text) = .error fault) :
    substitute user (.str text) false s = .error fault s := by
  obtain ⟨m, below, hm, hstack⟩ := h.running
  rw [substitute_eq h.isKey h.initialized hm hstack h.bindings, htokens,
    bind_of_error (lift_error_apply _ _)]

section

variable {text word more rest : String} {before after : List String}

theorem substitute_gathered (h : Running user c bindings s)
    (hline : Unreferring bindings (trim text))
    (hbreaks : Breaks (trim text) before word after)
    (hcut : cut? ")" (join " " after) = some (more, rest))
    (hundeclared : bindings.has (word ++ more ++ ")") = false) {result : String} {t : Session}
    (hresult : substitute user (.str text) false s = .ok result t) :
    ∃ others, others ≠ [] ∧ result = join " " (before ++ (word ++ more ++ ")") :: others) := by
  obtain ⟨left, -, hopen⟩ := hbreaks.openTokens_gathered all hline hcut
    hundeclared (Nat.lt_succ_self _)
  cases hrest : openTokens (.table bindings) all left rest with
  | error fault =>
    rw [hrest] at hopen
    rw [h.substitute_of_error (tokens_of_error hbreaks.unquoted hopen)] at hresult
    cases hresult
  | ok others =>
    have hfront : ∀ piece ∈ before ++ [word ++ more ++ ")"], '\x7b' ∉ piece.toList := by
      intro piece hmem
      rcases mem_append.1 hmem with hmem | hmem
      · exact hbreaks.not_mem_before hline.brace piece hmem
      · rw [mem_singleton.1 hmem]
        exact hbreaks.not_mem_gathered hcut hline.brace
    have hpieces : openTokens (.table bindings) all ((trim text).length + 1)
        (trim text) = .ok (before ++ [word ++ more ++ ")"] ++ others) := by
      rw [hopen, hrest, append_assoc]
      rfl
    have hlength : (before ++ [word ++ more ++ ")"] ++ others).length =
        before.length + others.length + 1 := by
      simp only [length_append, length_singleton]
      omega
    rw [h.substitute_of_pieces (tokens_of_open hbreaks.unquoted hpieces), hlength] at hresult
    obtain ⟨others', hlength, hjoin⟩ := replaceFrom_front hfront hresult
    refine ⟨others', ?_, by rw [hjoin]; simp⟩
    exact ne_nil_of_length_pos (hlength ▸ length_pos_iff.2 (openTokens_ne_nil hrest))

theorem substitute_moved (h : Running user c bindings s)
    (hline : Unreferring bindings (trim text))
    (hbreaks : Breaks (trim text) before word after)
    (hcut : cut? ")" (join " " after) = some (more, rest))
    (hundeclared : bindings.has (word ++ more ++ ")") = false) (hrest : Unreferring bindings rest)
    (hclosed : ∀ word ∈ (split " " rest).dropLast, Closed word) :
    substitute user (.str text) false s =
      .ok (join " " (before ++ [word ++ more ++ ")", rest])) s := by
  obtain ⟨left, hleft, hopen⟩ := hbreaks.openTokens_gathered all hline hcut
    hundeclared (Nat.lt_succ_self _)
  rw [openTokens_closed hrest hclosed hleft] at hopen
  obtain ⟨front, hfront⟩ := exists_join_append " " before
  have hjoin : join " " (before ++ (word ++ more ++ ")") :: split " " rest) =
      join " " (before ++ [word ++ more ++ ")", rest]) := by
    rw [hfront _ (cons_ne_nil _ _), hfront _ (cons_ne_nil _ _),
      join_cons _ _ (split_ne_nil " " rest), join_split " " (by decide),
      join_cons _ _ (cons_ne_nil _ _), join_singleton]
  rw [← hjoin]
  refine h.substitute_join (tokens_of_open hbreaks.unquoted hopen) (by simp) fun piece hmem => ?_
  rcases mem_append.1 hmem with hmem | hmem
  · exact hbreaks.not_mem_before hline.brace piece hmem
  · rcases mem_cons.1 hmem with rfl | hmem
    · exact hbreaks.not_mem_gathered hcut hline.brace
    · exact fun hbrace => hrest.brace (mem_of_mem_split (by decide) hmem hbrace)

/-- A line without references is its own text if it is quoted, or if each word of it but the last
that opens a parenthesis also closes one.  Any other line has a first word that opens a parenthesis
and does not close it.  If nothing behind it does, the line has no text.  Else the text is another one
than the line, unless the word up to there is declared as a variable: in the text the blank behind the
word is missing, and there is one more behind the parenthesis. -/
theorem substitute_unreferring (h : Running user c bindings s) (text : String)
    (hline : Unreferring bindings (Text.trim text)) :
    (Closes (Text.trim text) → substitute user (.str text) false s = .ok (Text.trim text) s) ∧
    (Closes (Text.trim text) ∨ ∃ before word after, Breaks (Text.trim text) before word after) ∧
    ∀ before word after, Breaks (Text.trim text) before word after →
      (')' ∉ (Text.join " " after).toList →
        substitute user (.str text) false s = .error .badValue s) ∧
      ∀ more rest, Text.join " " after = more ++ ")" ++ rest → ')' ∉ more.toList →
        bindings.has (word ++ more ++ ")") = false →
          (∀ result t, substitute user (.str text) false s = .ok result t →
            result ≠ Text.trim text ∧ ∃ others, others ≠ [] ∧
              result = Text.join " " (before ++ (word ++ more ++ ")") :: others)) ∧
          (Unreferring bindings rest →
            (∀ word ∈ (Text.split " " rest).dropLast, Closed word) →
              substitute user (.str text) false s =
                .ok (Text.join " " (before ++ [word ++ more ++ ")", rest])) s) := by
  refine ⟨fun hcloses => ?_, closes_or_breaks _,
    fun before word after hbreaks => ⟨fun hopen => ?_, ?_⟩⟩
  · obtain ⟨pieces, gap, htokens, hne, hjoin, hbrace⟩ := hline.tokens_of_closes hcloses
    rw [h.substitute_join htokens hne hbrace, hjoin]
  · exact h.substitute_of_error (tokens_of_error hbreaks.unquoted
      (hbreaks.openTokens_unclosed hline hopen (Nat.lt_succ_self _)))
  · intro more rest hafter hmore hundeclared
    have hcut : Text.cut? ")" (Text.join " " after) = some (more, rest) := by
      rw [hafter, Text.cut?_append ")" rfl hmore]
    refine ⟨fun result t hresult => ?_, h.substitute_moved hline hbreaks hcut hundeclared⟩
    obtain ⟨others, hothers, rfl⟩ := h.substitute_gathered hline hbreaks hcut hundeclared hresult
    exact ⟨hbreaks.ne_of_gathered hcut hothers, others, hothers, rfl⟩

/-- Of three lines one stays, in one a blank moves, and one has no text. -/
theorem substitute_unreferring_studio :
    substitute "ann" " Hello (dear) friend :( " false (studio "red") =
      .ok "Hello (dear) friend :(" (studio "red") ∧
    substitute "ann" "Hello (my friend) there" false (studio "red") =
      .ok "Hello (myfriend)  there" (studio "red") ∧
    substitute "ann" "Sorry :( about that" false (studio "red") =
      .error .badValue (studio "red") := by
  have htrim : Text.trim " Hello (dear) friend :( " = "Hello (dear) friend :(" ∧
      Text.trim "Hello (my friend) there" = "Hello (my friend) there" ∧
      Text.trim "Sorry :( about that" = "Sorry :( about that" := by decide
  obtain ⟨hfriend, hthere, habout⟩ := htrim
  obtain ⟨hstays, -, -⟩ := substitute_unreferring (studio_running "red") " Hello (dear) friend :( "
    ⟨by decide +kernel, by decide +kernel⟩
  rw [hfriend] at hstays
  obtain ⟨-, -, hmoves⟩ := substitute_unreferring (studio_running "red") "Hello (my friend) there"
    ⟨by decide +kernel, by decide +kernel⟩
  rw [hthere] at hmoves
  have hmy : Breaks "Hello (my friend) there" ["Hello"] "(my" ["friend)", "there"] :=
    ⟨by decide, by decide, by decide, by decide, by decide⟩
  obtain ⟨-, hmoved⟩ := (hmoves _ _ _ hmy).2 "friend" " there" (by decide) (by decide)
    (by decide +kernel)
  obtain ⟨-, -, hfails⟩ := substitute_unreferring (studio_running "red") "Sorry :( about that"
    ⟨by decide +kernel, by decide +kernel⟩
  rw [habout] at hfails
  have hopen : Breaks "Sorry :( about that" ["Sorry"] ":(" ["about", "that"] :=
    ⟨by decide, by decide, by decide, by decide, by decide⟩
  exact ⟨hstays (.inr (by decide)), hmoved ⟨by decide +kernel, by decide +kernel⟩ (by decide),
    (hfails _ _ _ hopen).1 (by decide)⟩

/-- The blank in a parenthesis is not kept. -/
theorem substitute_unreferring_spaced :
    Unreferring [("color", "red"), ("words", .ofItems ["red rose"])] "Hello (my friend) there" ∧
    returned (substitute "ann" "Hello (my friend) there" false) (studio "red") =
      some "Hello (myfriend)  there" :=
  ⟨⟨by decide, by decide +kernel⟩, by decide +kernel⟩

end

end Running

end Colloquy
