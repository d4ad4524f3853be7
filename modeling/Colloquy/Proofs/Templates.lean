import Colloquy.Proofs.Spelling

/-! Quoted lines with references.  The references of a quoted line are replaced one after the other,
and each time the first piece that is equal to the reference is the one that is replaced.  What is
put in their place opens no brace, so it is never taken for a reference, and the line that comes of
it has all of them replaced at once. -/

namespace Colloquy

open Text Substitution List

/-! ### What is left of a text -/

namespace Text

variable {c : Char} {s set old new : String} {p : Char → Bool} {cs : List Char}

theorem mem_dropStart (h : c ∈ dropStart p cs) : c ∈ cs :=
  (dropWhile_sublist p).mem h

theorem mem_dropEnd (h : c ∈ dropEnd p cs) : c ∈ cs :=
  mem_reverse.1 (mem_dropStart (mem_reverse.1 h))

theorem mem_trimOf (h : c ∈ (trimOf set s).toList) : c ∈ s.toList := by
  simp only [trimOf, trimEndOf, trimStartOf, String.toList_ofList] at h
  exact mem_dropStart (mem_dropEnd h)

theorem mem_of_mem_split {sep piece : String} (hsep : sep ≠ "") (hpiece : piece ∈ split sep s)
    (h : c ∈ piece.toList) : c ∈ s.toList := by
  obtain ⟨a, b, hjoin⟩ := exists_join_eq hpiece sep
  rw [join_split sep hsep] at hjoin
  simp [hjoin, h]

theorem mem_replace (hold : old ≠ "") (h : c ∈ (replace old new s).toList) :
    c ∈ s.toList ∨ c ∈ new.toList := by
  rw [replace, String.isEmpty_eq_false_iff.2 hold, if_neg Bool.false_ne_true] at h
  rcases mem_join h with hnew | ⟨piece, hpiece, hmem⟩
  · exact .inr hnew
  · exact .inl (mem_of_mem_split hold hpiece hmem)

theorem dropStart_eq_self (h : ∀ c ∈ cs.head?, p c = false) : dropStart p cs = cs := by
  cases cs with
  | nil => rfl
  | cons first rest => exact dropWhile_cons_of_neg (by simp [h first rfl])

theorem dropStart_dropStart (p : Char → Bool) (cs : List Char) :
    dropStart p (dropStart p cs) = dropStart p cs := by
  apply dropStart_eq_self
  intro c hc
  have hhead := head?_dropWhile_not p cs
  rw [show (cs.dropWhile p).head? = some c from hc] at hhead
  exact hhead

theorem dropEnd_dropEnd (p : Char → Bool) (cs : List Char) :
    dropEnd p (dropEnd p cs) = dropEnd p cs := by
  rw [dropEnd, dropEnd, reverse_reverse]
  exact congrArg reverse (dropStart_dropStart p cs.reverse)

theorem dropStart_dropEnd (h : dropStart p cs = cs) : dropStart p (dropEnd p cs) = dropEnd p cs := by
  cases cs with
  | nil => rfl
  | cons first rest =>
    have hfirst : p first = false := by
      have hhead := head?_dropWhile_not p (first :: rest)
      rw [show (first :: rest).dropWhile p = first :: rest from h] at hhead
      exact hhead
    have hends : dropEnd p (first :: rest) = first :: dropEnd p rest := by
      rw [dropEnd, dropEnd, reverse_cons, dropWhile_append]
      split
      · rename_i hempty
        rw [isEmpty_iff.1 hempty, dropWhile_cons_of_neg (by simp [hfirst])]
        rfl
      · simp
    apply dropStart_eq_self
    intro c hc
    rw [hends] at hc
    rw [← Option.some.inj hc]
    exact hfirst

theorem trimStartOf_trimOf (set s : String) : trimStartOf set (trimOf set s) = trimOf set s := by
  simp only [trimOf, trimEndOf, trimStartOf, String.toList_ofList]
  rw [dropStart_dropEnd (dropStart_dropStart _ _)]

theorem trimEndOf_trimOf (set s : String) : trimEndOf set (trimOf set s) = trimOf set s := by
  simp only [trimOf, trimEndOf, trimStartOf, String.toList_ofList, dropEnd_dropEnd]

theorem join_empty (ws : List String) : join "" ws = String.join ws := by
  induction ws with
  | nil => rfl
  | cons w more ih =>
    cases more with
    | nil => simp [join_singleton]
    | cons next more => rw [join_cons_cons, ih, String.append_empty, String.join_cons (s := w)]

end Text

/-! ### Templates -/

/-- A line with references: the text in front of them, and each reference with the text behind it. -/
structure Template where
  start : String
  parts : List (String × String)

namespace Template

def names (t : Template) : List String :=
  t.parts.map (·.1)

/-- The quoted line with something in the place of each reference. -/
def fill (t : Template) (f : String → String) : String :=
  Text.inQuotes (t.start ++ String.join (t.parts.map fun part => f part.1 ++ part.2))

/-- The pieces that a line is cut into, where `text` stands in front of the references that remain. -/
def pieces (f : String → String) : String → List (String × String) → List String
  | text, [] => [text ++ "\""]
  | text, (name, after) :: rest => text :: f name :: pieces f after rest

/-- A line in which only the references open a brace, and these close it once. -/
structure Clear (t : Template) : Prop where
  start : '\x7b' ∉ t.start.toList
  behind : ∀ part ∈ t.parts, '\x7b' ∉ part.2.toList
  closes : ∀ part ∈ t.parts, '\x7d' ∉ part.1.toList

variable {t : Template} {f : String → String} {text : String} {parts : List (String × String)}

theorem join_pieces (f : String → String) (text : String) (parts : List (String × String)) :
    join "" (pieces f text parts) =
      text ++ String.join (parts.map fun part => f part.1 ++ part.2) ++ "\"" := by
  rw [join_empty]
  induction parts generalizing text with
  | nil => simp [pieces]
  | cons part rest ih =>
    rw [pieces, String.join_cons, String.join_cons, ih, map_cons, String.join_cons]
    simp only [String.append_assoc]

theorem fill_eq_join (t : Template) (f : String → String) :
    t.fill f = join "" (pieces f ("\"" ++ t.start) t.parts) := by
  rw [join_pieces, fill, inQuotes]
  simp only [String.append_assoc]

theorem length_le_fill (t : Template) (f : String → String) (h : ∀ name, f name ≠ "") :
    t.parts.length ≤ (t.fill f).length := by
  have hjoin (parts : List (String × String)) :
      parts.length ≤ (String.join (parts.map fun part => f part.1 ++ part.2)).length := by
    induction parts with
    | nil => exact Nat.zero_le _
    | cons part rest ih =>
      have hpos : (f part.1).length ≠ 0 := fun hzero => h part.1 (String.length_eq_zero_iff.1 hzero)
      rw [map_cons, String.join_cons, length_cons]
      simp only [String.length_append]
      omega
  have hparts := hjoin t.parts
  rw [fill, inQuotes]
  simp only [String.length_append]
  omega

theorem quotedTokens_pieces {fuel : Nat} (hfuel : parts.length < fuel) (htext : '\x7b' ∉ text.toList)
    (hbehind : ∀ part ∈ parts, '\x7b' ∉ part.2.toList)
    (hcloses : ∀ part ∈ parts, '\x7d' ∉ part.1.toList) :
    quotedTokens fuel (join "" (pieces braced text parts)) =
      .ok (pieces braced text parts) := by
  induction parts generalizing text fuel with
  | nil =>
    obtain ⟨left, rfl⟩ : ∃ left, fuel = left + 1 := ⟨fuel - 1, by omega⟩
    have hlast : '\x7b' ∉ (text ++ "\"").toList := by
      simpa [String.toList_append] using htext
    have hcut : cut? "\x7b" (text ++ "\"") = none := cut?_eq_none "\x7b" rfl hlast
    rw [pieces, join_singleton]
    simp only [quotedTokens, hcut]
  | cons part rest ih =>
    obtain ⟨name, after⟩ := part
    rw [forall_mem_cons] at hbehind hcloses
    obtain ⟨left, rfl⟩ : ∃ left, fuel = left + 1 := ⟨fuel - 1, by omega⟩
    have hline : join "" (pieces braced text ((name, after) :: rest)) =
        text ++ "\x7b" ++ (name ++ "\x7d" ++ join "" (pieces braced after rest)) := by
      simp only [pieces, join_empty, String.join_cons, braced, String.append_assoc]
    have hleft : rest.length < left := by
      rw [length_cons] at hfuel
      omega
    have hrest := ih hleft hbehind.1 hbehind.2 hcloses.2
    rw [hline, quotedTokens, cut?_append "\x7b" rfl htext]
    simp only [cut?_append "\x7d" rfl hcloses.1, hrest]
    rfl

theorem tokens_fill (h : t.Clear) (bindings : Value) (functions : List Function) :
    tokens bindings functions (t.fill braced) =
      .ok (pieces braced ("\"" ++ t.start) t.parts, "") := by
  have hstart : '\x7b' ∉ ("\"" ++ t.start).toList := by
    simpa [String.toList_append] using h.start
  have hquoted : isQuoted (t.fill braced) = true :=
    isQuoted_inQuotes _
  cases hparts : t.parts with
  | nil =>
    have hline : t.fill braced = "\"" ++ t.start ++ "\"" := by
      rw [fill_eq_join, hparts, pieces, join_singleton]
    have hopen : contains (t.fill braced) "\x7b" = false := by
      rw [hline]
      refine contains_eq_false (c := '\x7b') "\x7b" rfl ?_
      simpa [String.toList_append] using h.start
    simp only [tokens, hquoted, hopen, Bool.not_true, Bool.false_and,
      Bool.false_eq_true, if_false, pieces, ← hline]
    rfl
  | cons part rest =>
    have hmem (c : Char) (hc : c ∈ (braced part.1).toList) :
        c ∈ (t.fill braced).toList := by
      simp only [fill, toList_inQuotes, hparts, map_cons, String.join_cons,
        String.toList_append, mem_cons, mem_append]
      exact .inr (.inl (.inr (.inl (.inl hc))))
    have hopens : contains (t.fill braced) "\x7b" = true :=
      (contains_iff_mem rfl).2 (hmem '\x7b' (by simp [toList_braced]))
    have hcloses : contains (t.fill braced) "\x7d" = true :=
      (contains_iff_mem rfl).2 (hmem '\x7d' (by simp [toList_braced]))
    have hlength : t.parts.length < (t.fill braced).length + 1 :=
      Nat.lt_succ_of_le (t.length_le_fill _ fun name hempty => by
        have hchars := toList_braced name
        rw [hempty] at hchars
        cases hchars)
    have hpieces : quotedTokens ((t.fill braced).length + 1)
        (t.fill braced) = .ok (pieces braced ("\"" ++ t.start) t.parts) := by
      have hjoin := quotedTokens_pieces hlength hstart h.behind h.closes
      rwa [← t.fill_eq_join] at hjoin
    rw [← hparts]
    simp only [tokens, hquoted, hopens, hcloses, hpieces, Bool.not_true,
      Bool.false_eq_true, if_false, Bool.and_self, if_true]
    rfl

end Template

/-! ### Replacing the references -/

namespace Substitution

variable {w : String}

/-- What a text is put into a line as: without the blanks around it and the quotes around what is left
then, and without the quotes between the items of a list. -/
def shown (w : String) : String :=
  Text.replace "\", \"" ", " (Text.trimOf "\"" (Text.trim w))

theorem tidy_eq_shown (w : String) : tidy (trimOf "\"" (trim w)) = shown w := by
  rw [tidy, trimStartOf_trimOf, trimEndOf_trimOf, shown]

theorem not_mem_shown (h : '\x7b' ∉ w.toList) : '\x7b' ∉ (shown w).toList := by
  intro hmem
  rcases mem_replace (by decide) hmem with htext | hcomma
  · exact h (mem_trim (mem_trimOf htext))
  · revert hcomma
    decide

theorem isReference_eq_false {piece : String} (h : '\x7b' ∉ piece.toList) :
    (startsWith piece "\x7b" && endsWith piece "\x7d") = false := by
  rw [startsWith_eq_false "\x7b" rfl h, Bool.false_and]

theorem braced_not_mem {pieces : List String} (h : ∀ piece ∈ pieces, '\x7b' ∉ piece.toList)
    (name : String) : braced name ∉ pieces := by
  intro hmem
  refine h _ hmem ?_
  rw [toList_braced]
  exact mem_cons_self

variable {user : Value} {c : Conversation} {s : Session} {f : String → String} {text : String}
  {parts : List (String × String)} {before : List String}

/-- The references that remain are replaced.  The pieces in front of them open no brace: those that were
references have been replaced, so the first piece that is equal to a reference is the one that is
looked at. -/
theorem replaceFrom_template (hbefore : ∀ piece ∈ before, '\x7b' ∉ piece.toList)
    (htext : '\x7b' ∉ text.toList) (hbehind : ∀ part ∈ parts, '\x7b' ∉ part.2.toList)
    (hnames : ∀ part ∈ parts, Referable part.1)
    (hclear : ∀ part ∈ parts, '\x7b' ∉ (f part.1).toList)
    (hword : ∀ part ∈ parts, ∀ line, variableWord user c line part.1 s = .ok (f part.1) s)
    (line : String) :
    replaceFrom user c Function.all "" (Template.pieces braced text parts).length before.length
        (before ++ Template.pieces braced text parts) line s =
      .ok (join "" (before ++ Template.pieces f text parts)) s := by
  induction parts generalizing before text line with
  | nil =>
    have hlast : '\x7b' ∉ (text ++ "\"").toList := by
      simpa [String.toList_append] using htext
    have hpass : ∀ piece ∈ ((before ++ [text ++ "\""]).drop before.length).take 1,
        (startsWith piece "\x7b" && endsWith piece "\x7d") = false := by
      simpa using isReference_eq_false hlast
    exact congrFun (replaceFrom_pass 0 hpass (by simp)) s
  | cons part rest ih =>
    obtain ⟨name, after⟩ := part
    rw [forall_mem_cons] at hbehind hnames hclear hword
    let pieces := before ++ Template.pieces braced text ((name, after) :: rest)
    have hpass : ∀ piece ∈ (pieces.drop before.length).take 1,
        (startsWith piece "\x7b" && endsWith piece "\x7d") = false := by
      simpa [pieces, Template.pieces] using isReference_eq_false htext
    have hplaced : pieces[before.length + 1]? = some (braced name) := by
      simp [pieces, Template.pieces]
    have hfront : ∀ piece ∈ before ++ [text], '\x7b' ∉ piece.toList := by
      simpa [or_imp, forall_and] using ⟨hbefore, htext⟩
    have hreplaced : replaceToken (braced name) (f name) pieces =
        before ++ [text, f name] ++ Template.pieces braced after rest := by
      have happend := @replaceToken_append (f name) (before ++ [text])
        (Template.pieces braced after rest) (braced name) (braced_not_mem hfront name)
      simpa [pieces, Template.pieces] using happend
    have hdone : ∀ piece ∈ before ++ [text, f name], '\x7b' ∉ piece.toList := by
      simpa [or_imp, forall_and] using ⟨hbefore, htext, hclear.1⟩
    have hlength : (Template.pieces braced text ((name, after) :: rest)).length =
        (Template.pieces braced after rest).length + 1 + 1 := by
      simp [Template.pieces]
    have hrest := ih hdone hbehind.1 hbehind.2 hnames.2 hclear.2 hword.2
      (join "" (before ++ [text, f name] ++ Template.pieces braced after rest))
    rw [hlength, replaceFrom_pass _ hpass (by simp [pieces, Template.pieces]),
      replaceFrom_variable _ hnames.1 hplaced (hword.1 _), hreplaced]
    simpa [Template.pieces] using hrest

end Substitution

namespace Running

variable {user : Value} {c : Conversation} {bindings : Entries} {s : Session}

theorem variableWord_newest (h : Running user c bindings s) {message : Message}
    (hmessage : s.message = some message) (hsingle : message.Single) {name w : String}
    (hname : Referable name) {older : List Value} {number : Option Nat}
    (hfind : bindings.find? name = some (.list (.str w :: older) number)) (line : String) :
    variableWord user c line name s = .ok (shown w) s := by
  rw [← tidy_eq_shown]
  exact variableWord_eq hname h.bindings hfind rfl rfl
    (wordOf_list hmessage hsingle c.bindings name w older number)

theorem substitute_fill (h : Running user c bindings s) {t : Template} (hclear : t.Clear)
    {f : String → String} (hnames : ∀ name ∈ t.names, Referable name ∧
      '\x7b' ∉ (f name).toList ∧ ∀ line, variableWord user c line name s = .ok (f name) s) :
    substitute user (.str (t.fill braced)) false s = .ok (t.fill f) s := by
  obtain ⟨m, below, hm, hstack⟩ := h.running
  have hparts (part : String × String) (hpart : part ∈ t.parts) :=
    hnames part.1 (mem_map_of_mem hpart)
  have hstart : '\x7b' ∉ ("\"" ++ t.start).toList := by
    simpa [String.toList_append] using hclear.start
  have hreplaced := @Substitution.replaceFrom_template user c s f ("\"" ++ t.start) t.parts [] nofun
    hstart hclear.behind (fun part hpart => (hparts part hpart).1)
    (fun part hpart => (hparts part hpart).2.1) (fun part hpart => (hparts part hpart).2.2)
    (trim (t.fill braced))
  rw [nil_append, nil_append, ← t.fill_eq_join] at hreplaced
  have htrim : trim (t.fill braced) = t.fill braced :=
    trim_inQuotes _
  refine substitute_of_tokens h.isKey h.initialized hm hstack h.bindings ?_ hreplaced
  rw [htrim]
  exact Template.tokens_fill hclear (.table bindings) Function.all

end Running

/-- A quoted line with references to variables that hold lists of texts.  The line is put together with
the newest text of each variable in the place of every reference to it, and nothing else changes. -/
theorem Running.substitute_template {user : Value} {c : Conversation} {bindings : Entries}
    {s : Session} (h : Running user c bindings s) {message : Message}
    (hmessage : s.message = some message) (hsingle : message.Single) {t : Template} (hclear : t.Clear)
    {newest : String → String}
    (hnames : ∀ name ∈ t.names, Substitution.Referable name ∧ '\x7b' ∉ (newest name).toList ∧
      ∃ older number, bindings.find? name = some (.list (.str (newest name) :: older) number)) :
    Substitution.substitute user (.str (t.fill Substitution.braced)) false s =
      .ok (t.fill fun name => Substitution.shown (newest name)) s := by
  refine h.substitute_fill hclear fun name hmem => ?_
  obtain ⟨hname, hopens, older, number, hfind⟩ := hnames name hmem
  exact ⟨hname, Substitution.not_mem_shown hopens,
    h.variableWord_newest hmessage hsingle hname hfind⟩

/-- A line that refers to a list of two colors, to another variable and to the colors again. -/
theorem Running.substitute_template_colors :
    let colors : Value := .ofItems ["\"red\", \"blue\"", "green"]
    Substitution.substitute "ann"
        "\"I like \x7bcolor\x7d and a \x7bwords\x7d, but \x7bcolor\x7d?\"" false (studio colors) =
      .ok "\"I like red, blue and a red rose, but red, blue?\"" (studio colors) := by
  intro colors
  let t : Template :=
    { start := "I like ", parts := [("color", " and a "), ("words", ", but "), ("color", "?")] }
  let newest (name : String) : String :=
    if name = "color" then "\"red\", \"blue\"" else "red rose"
  have hclear : t.Clear := ⟨by decide, by decide, by decide⟩
  have hcolor : Entries.find? "color" [("color", colors), ("words", .ofItems ["red rose"])] =
      some (.list (.str (newest "color") :: ["green"]) none) := by
    simp [Entries.find?, Value.str_same, newest, colors, Value.ofItems]
  have hwords : Entries.find? "words" [("color", colors), ("words", .ofItems ["red rose"])] =
      some (.list (.str (newest "words") :: []) none) := by
    simp [Entries.find?, Value.str_same, newest, Value.ofItems]
  have hnames : ∀ name ∈ t.names, Substitution.Referable name ∧ '\x7b' ∉ (newest name).toList ∧
      ∃ older number, Entries.find? name [("color", colors), ("words", .ofItems ["red rose"])] =
        some (.list (.str (newest name) :: older) number) := by
    have hreferable : Substitution.Referable "words" := ⟨by decide, by decide, by decide, by decide⟩
    intro name hname
    have hcases : name = "color" ∨ name = "words" ∨ name = "color" := by
      simpa [t, Template.names] using hname
    rcases hcases with rfl | rfl | rfl
    · exact ⟨referable_color, by decide, _, _, hcolor⟩
    · exact ⟨hreferable, by decide, _, _, hwords⟩
    · exact ⟨referable_color, by decide, _, _, hcolor⟩
  have hrun := substitute_template (studio_running colors) rfl single_empty hclear hnames
  have hline : t.fill Substitution.braced =
      "\"I like \x7bcolor\x7d and a \x7bwords\x7d, but \x7bcolor\x7d?\"" := by decide
  have hresult : (t.fill fun name => Substitution.shown (newest name)) =
      "\"I like red, blue and a red rose, but red, blue?\"" := by decide
  rwa [hline, hresult] at hrun

end Colloquy
