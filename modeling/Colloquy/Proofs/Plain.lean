import Colloquy.Execution
import Colloquy.Proofs.Cutting
import Colloquy.Proofs.Session

/-! Texts without references.  In a line that has neither braces nor parentheses and no word that
names a variable or a function there is nothing to replace: finding the text that its command is
run with succeeds, and changes nothing. -/

namespace Colloquy

open Text Session Substitution Colloquy.Function Execution

variable {s : Session} {user : Value} {m : Manager} {c : Conversation} {rest : List Entry}

/-! ### Characters that a text does not have -/

namespace Text

variable {c : Char} {s : String}

theorem startsWith_eq_false (sep : String) (hsep : sep.toList = [c]) (h : c ∉ s.toList) :
    startsWith s sep = false := by
  rw [startsWith, hsep]
  cases hs : s.toList with
  | nil => rfl
  | cons x rest =>
    have hx : c ≠ x := fun hx => h (by simp [hs, hx])
    simpa [List.isPrefixOf] using hx

theorem mem_trim (h : c ∈ (trim s).toList) : c ∈ s.toList := by
  have hdrop {p : Char → Bool} {cs : List Char} (h : c ∈ cs.dropWhile p) : c ∈ cs :=
    (List.dropWhile_sublist p).mem h
  simp only [trim, dropEnd, dropStart, String.toList_ofList, List.mem_reverse] at h
  exact hdrop (List.mem_reverse.1 (hdrop h))

end Text

/-! ### Plain texts -/

theorem Function.mem_all (f : Function) : f ∈ all := by
  cases f <;> decide

/-- A text without references: no brace and no parenthesis is opened, no word is the name of a
variable or of a function, and none is a comparator. -/
structure Plain (bindings : Entries) (text : String) : Prop where
  brace : '\x7b' ∉ text.toList
  parenthesis : '(' ∉ text.toList
  name : ∀ word ∈ Text.split " " (Text.trim text),
    Entries.has bindings word = false ∧ ∀ f ∈ Function.all, f.name ≠ word
  comparator : ∀ name ∈ Condition.textComparators,
    Text.lower name ∉ Text.words (Text.lower text) ∧
      Text.lower ("!" ++ name) ∉ Text.words (Text.lower text)

instance (bindings : Entries) (text : String) : Decidable (Plain bindings text) :=
  decidable_of_iff (_ ∧ _ ∧ _ ∧ _) ⟨fun ⟨hbrace, hparen, hname, hcomparator⟩ =>
    ⟨hbrace, hparen, hname, hcomparator⟩, fun h => ⟨h.brace, h.parenthesis, h.name, h.comparator⟩⟩

namespace Substitution

variable {bindings : Entries} {functions : List Function}

theorem isName_eq_false {word : String} (hparen : '(' ∉ word.toList)
    (hname : Entries.has bindings word = false ∧ ∀ f ∈ all, f.name ≠ word) :
    isName (.table bindings) functions word = .ok false := by
  have hfunctions : (functions.any fun f => f.name == word) = false := by
    simpa using fun f _ => hname.2 f f.mem_all
  simp [isName, Value.entries, split_of_not_mem "(" rfl hparen, hname.1, hfunctions,
    bind, Except.bind, pure, Except.pure]

theorem openTokens_ok (fuel : Nat) {rest : String} (hbrace : '\x7b' ∉ rest.toList)
    (hparen : '(' ∉ rest.toList)
    (hname : ∀ word ∈ split " " rest,
      Entries.has bindings word = false ∧ ∀ f ∈ all, f.name ≠ word) :
    ∃ pieces, openTokens (.table bindings) functions fuel rest = .ok pieces ∧
      ∀ piece ∈ pieces, '\x7b' ∉ piece.toList := by
  induction fuel generalizing rest with
  | zero => exact ⟨[rest], rfl, by simpa using hbrace⟩
  | succ fuel ih =>
    cases hcut : cut? " " rest with
    | none =>
      rw [split_of_cut?_none hcut] at hname
      refine ⟨[rest], ?_, by simpa using hbrace⟩
      simp only [openTokens, hcut, isName_eq_false hparen (hname rest List.mem_cons_self)]
      rfl
    | some cut =>
      obtain ⟨word, more⟩ := cut
      have hrest := toList_of_cut? " " rfl hcut
      rw [hrest] at hbrace hparen
      simp only [List.mem_append, List.mem_cons, not_or] at hbrace hparen
      rw [split_of_cut? (by decide) hcut] at hname
      obtain ⟨hword, hmore⟩ := List.forall_mem_cons.1 hname
      obtain ⟨pieces, hpieces, hall⟩ := ih hbrace.2.2 hparen.2.2 hmore
      refine ⟨word :: pieces, ?_, List.forall_mem_cons.2 ⟨hbrace.1, hall⟩⟩
      simp only [openTokens, hcut, contains_eq_false "(" rfl hparen.1,
        Bool.false_and, Bool.false_eq_true, if_false]
      simp only [bind, Except.bind, pure, Except.pure, isName_eq_false hparen.1 hword, hpieces,
        Bool.false_and, Bool.false_eq_true, if_false]

theorem replaceFrom_ok (user : Value) (c : Conversation) (functions : List Function) (gap : String)
    (left position : Nat) (pieces : List String) (line : String) (s : Session)
    (h : ∀ piece ∈ pieces, '\x7b' ∉ piece.toList) :
    ∃ text, replaceFrom user c functions gap left position pieces line s = .ok text s := by
  induction left generalizing position line with
  | zero => exact ⟨line, rfl⟩
  | succ left ih =>
    have htoken : '\x7b' ∉ ((pieces[position]?).getD "").toList := by
      cases hpiece : pieces[position]? with
      | none => simp
      | some piece => exact h piece (List.mem_of_getElem? hpiece)
    obtain ⟨text, htext⟩ := ih (position + 1) (join gap pieces)
    refine ⟨text, ?_⟩
    simpa only [replaceFrom, startsWith_eq_false "\x7b" rfl htoken, Bool.false_and,
      Bool.false_eq_true, if_false, bind_apply, pure_apply] using htext

end Substitution

namespace Plain

variable {bindings : Entries} {text : String}

theorem tokens_ok (h : Plain bindings text) (functions : List Function) :
    ∃ pieces gap, tokens (.table bindings) functions (trim text) =
      .ok (pieces, gap) ∧ ∀ piece ∈ pieces, '\x7b' ∉ piece.toList := by
  have hbrace : '\x7b' ∉ (trim text).toList := fun hmem => h.brace (mem_trim hmem)
  have hparen : '(' ∉ (trim text).toList := fun hmem => h.parenthesis (mem_trim hmem)
  simp only [tokens]
  split
  · obtain ⟨pieces, hpieces, hall⟩ : ∃ pieces, openTokens (.table bindings) functions
        ((trim text).length + 1) (trim text) = .ok pieces ∧
          ∀ piece ∈ pieces, '\x7b' ∉ piece.toList :=
      openTokens_ok _ hbrace hparen h.name
    exact ⟨pieces, " ", by simp only [hpieces]; rfl, hall⟩
  · rw [contains_eq_false "\x7b" rfl hbrace]
    exact ⟨[trim text], "", rfl, by simpa using hbrace⟩

theorem substitute_ok (h : Plain bindings text) (hkey : user.isKey = true)
    (hm : managerIn s.active user = some m) (hstack : m.stack = .conversation c :: rest)
    (hbindings : c.bindings = .table bindings) :
    ∃ text', substitute user (.str text) false s = .ok text' s := by
  obtain ⟨pieces, gap, htokens, hall⟩ := h.tokens_ok (if s.initialized then all else [])
  obtain ⟨text', htext⟩ := replaceFrom_ok user c
    (if s.initialized then all else []) gap pieces.length 0 pieces (trim text) s hall
  refine ⟨text', ?_⟩
  simp only [substitute, currentAt, bind_apply,
    managerAt_of_some hkey hm, top_of_stack hstack, Value.text, lift_ok_apply,
    Bool.false_eq_true, if_false, present, pure_apply, hbindings, Value.size,
    known, get_apply, htokens, htext]

theorem spellOut_eq (h : Plain bindings text) : spellOut text = .ok text := by
  have hnone : ((Condition.textComparators.flatMap fun name => [name, "!" ++ name]).find? fun name =>
      (words (lower text)).contains (lower name)) = none := by
    simpa using h.comparator
  simp only [spellOut, hnone]
  rfl

theorem commandText_ok (h : Plain bindings text) (k : Keyword) (hkey : user.isKey = true)
    (hm : managerIn s.active user = some m) (hstack : m.stack = .conversation c :: rest)
    (hbindings : c.bindings = .table bindings) :
    ∃ text', commandText k user (.str text) s = .ok text' s := by
  obtain ⟨text', htext⟩ := h.substitute_ok hkey hm hstack hbindings
  unfold commandText
  split
  · exact ⟨_, rfl⟩
  · refine ⟨.str text', ?_⟩
    split <;>
      simp only [bind_apply, Value.text, lift_ok_apply, h.spellOut_eq, pure_apply, htext]

theorem congr {others : Entries} (h : Plain bindings text)
    (hnames : ∀ word : String, others.has word = bindings.has word) : Plain others text :=
  { h with name := fun word hword => (hnames word).symm ▸ h.name word hword }

end Plain

/-! ### Literal texts -/

theorem Execution.commandText_of_substitute {k : Keyword} (hk : k ≠ .branch)
    (hreplaces : k.substitutes = true) {text : Value} {t : Session} {text' : String}
    (h : substitute user text false s = .ok text' t) :
    commandText k user text s = .ok (.str text') t := by
  have hbranch : (k == .branch) = false := by simpa using hk
  simp only [commandText, hreplaces, hbranch, Bool.not_true, Bool.false_eq_true, if_false,
    bind_apply, pure_apply, h]

/-- A text in which nothing is replaced: a plain one, or one between quotes that opens no brace. -/
def Literal (bindings : Entries) (text : String) : Prop :=
  Plain bindings text ∨ Substitution.isQuoted (Text.trim text) = true ∧ '\x7b' ∉ text.toList

namespace Literal

variable {bindings : Entries} {text : String}

theorem commandText_ok (h : Literal bindings text) {k : Keyword} (hk : k ≠ .branch)
    (hkey : user.isKey = true) (hm : managerIn s.active user = some m)
    (hstack : m.stack = .conversation c :: rest) (hbindings : c.bindings = .table bindings) :
    ∃ text', commandText k user (.str text) s = .ok text' s := by
  rcases h with hplain | ⟨hquoted, hbrace⟩
  · exact hplain.commandText_ok k hkey hm hstack hbindings
  · have hopen : contains (trim text) "\x7b" = false :=
      contains_eq_false "\x7b" rfl fun hmem => hbrace (mem_trim hmem)
    have hpiece : ∀ piece ∈ [trim text], '\x7b' ∉ piece.toList := by
      intro piece hmem
      rw [List.mem_singleton.1 hmem]
      exact fun hmem => hbrace (mem_trim hmem)
    obtain ⟨text', htext⟩ := replaceFrom_ok user c
      (if s.initialized then all else []) "" 1 0 [trim text] (trim text) s hpiece
    have hsubstitute : substitute user (.str text) false s = .ok text' s := by
      simp only [substitute, currentAt, bind_apply,
        managerAt_of_some hkey hm, top_of_stack hstack, Value.text, lift_ok_apply,
        Bool.false_eq_true, if_false, present, pure_apply, hbindings, Value.size,
        known, get_apply, tokens, hquoted, hopen, Bool.not_true,
        Bool.false_and]
      exact htext
    rcases hreplaces : k.substitutes with _ | _
    · refine ⟨.str text, ?_⟩
      simp only [commandText, hreplaces, Bool.not_false, if_true, pure_apply]
    · exact ⟨_, commandText_of_substitute hk hreplaces hsubstitute⟩

theorem congr {others : Entries} (h : Literal bindings text)
    (hnames : ∀ word : String, others.has word = bindings.has word) : Literal others text := by
  rcases h with hplain | hquoted
  · exact .inl (hplain.congr hnames)
  · exact .inr hquoted

end Literal

end Colloquy
