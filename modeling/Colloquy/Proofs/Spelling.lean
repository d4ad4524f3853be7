import Colloquy.Proofs.Evaluators

/-! Spelling out a test.  Before an `if` that tests for a word in a list is decided, its line is
spelled out: the test is put in capitals wherever it stands as a word, and the reference behind it
becomes one to all values of the list. -/

namespace Colloquy

open Text List

/-! ### Cutting a line at a word -/

namespace Text

variable {c : Char} {cs rest before : List Char}

theorem prefix_word_iff {op word : List Char} (hop : ' ' ∉ op) (hword : ' ' ∉ word) :
    op ++ [' '] <+: word ++ ' ' :: rest ↔ op = word := by
  induction op generalizing word with
  | nil => cases word <;> simp_all [cons_prefix_cons]
  | cons x xs ih =>
    simp only [mem_cons, not_or] at hop
    cases word with
    | nil => simp [cons_prefix_cons, Ne.symm hop.1]
    | cons y ys =>
      simp only [mem_cons, not_or] at hword
      simp [cons_prefix_cons, ih hop.2 hword.2]

def gapped (op : String) : String :=
  " " ++ op ++ " "

theorem toList_gapped (op : String) : (gapped op).toList = ' ' :: (op.toList ++ [' ']) := by
  simp [gapped, String.toList_append]

section

variable {op word next : String} {words after : List String} (hop : ' ' ∉ op.toList)

include hop

theorem not_prefix_join (hnext : ' ' ∉ next.toList) (hne : op ≠ next) :
    ¬ op.toList ++ [' '] <+: (join " " (next :: words)).toList := by
  cases words with
  | nil =>
    rw [join_singleton]
    intro hbegins
    exact hnext (hbegins.subset (by simp))
  | cons other words =>
    have hlist : (join " " (next :: other :: words)).toList =
        next.toList ++ ' ' :: (join " " (other :: words)).toList := by
      simp [join_cons_cons, String.toList_append]
    rw [hlist, prefix_word_iff hop hnext]
    exact fun h => hne (String.toList_inj.1 h)

theorem cut?_gapped_skip (hword : ' ' ∉ word.toList) (hnext : ' ' ∉ next.toList) (hne : op ≠ next) :
    cut? (gapped op) (join " " (word :: next :: words)) =
      (cut? (gapped op) (join " " (next :: words))).map fun (before, after) =>
        (word ++ " " ++ before, after) := by
  have hlist : (join " " (word :: next :: words)).toList =
      word.toList ++ ' ' :: (join " " (next :: words)).toList := by
    simp [join_cons_cons, String.toList_append]
  have hnot : ¬ (' ' :: (op.toList ++ [' '])).isPrefixOf
      (' ' :: (join " " (next :: words)).toList) = true := by
    rw [List.isPrefixOf_iff_prefix, cons_prefix_cons]
    exact fun h => not_prefix_join hop hnext hne h.2
  rw [cut?, cut?, toList_gapped, hlist, cutChars?_append hword, cutChars?, if_neg hnot]
  cases cutChars? (' ' :: (op.toList ++ [' '])) (join " " (next :: words)).toList with
  | none => rfl
  | some parts => simp [String.ofList_append, String.append_assoc]

theorem cut?_gapped_none (hwords : ∀ w ∈ word :: words, ' ' ∉ w.toList) (hnot : op ∉ words) :
    cut? (gapped op) (join " " (word :: words)) = none := by
  induction words generalizing word with
  | nil =>
    rw [join_singleton]
    exact cut?_eq_none _ (toList_gapped op) (hwords word mem_cons_self)
  | cons next words ih =>
    rw [mem_cons, not_or] at hnot
    have hnext := fun w hw => hwords w (mem_cons_of_mem word hw)
    rw [cut?_gapped_skip hop (hwords word mem_cons_self) (hnext next mem_cons_self)
      hnot.1, ih hnext hnot.2]
    rfl

theorem cut?_gapped (hwords : ∀ w ∈ word :: words, ' ' ∉ w.toList) (hnot : op ∉ words)
    (hafter : after ≠ []) :
    cut? (gapped op) (join " " (word :: (words ++ op :: after))) =
      some (join " " (word :: words), join " " after) := by
  induction words generalizing word with
  | nil =>
    obtain ⟨next, after, rfl⟩ := exists_cons_of_ne_nil hafter
    have hlist : (join " " (word :: op :: next :: after)).toList =
        word.toList ++ ' ' :: (op.toList ++ ' ' :: (join " " (next :: after)).toList) := by
      simp [join_cons_cons, String.toList_append]
    have hprefix : (' ' :: (op.toList ++ [' '])).isPrefixOf
        (' ' :: (op.toList ++ ' ' :: (join " " (next :: after)).toList)) = true :=
      isPrefixOf_iff_prefix.2 ⟨(join " " (next :: after)).toList, by simp⟩
    rw [nil_append, cut?, toList_gapped, hlist,
      cutChars?_append (hwords word mem_cons_self), cutChars?, if_pos hprefix,
      join_singleton]
    simp [List.drop_append]
  | cons next words ih =>
    rw [mem_cons, not_or] at hnot
    have hnext := fun w hw => hwords w (mem_cons_of_mem word hw)
    rw [cons_append,
      cut?_gapped_skip hop (hwords word mem_cons_self) (hnext next mem_cons_self) hnot.1,
      ih hnext hnot.2, join_cons_cons]
    rfl

end

theorem contains_append_eq_false {a b part : String} (hpart : part ≠ "")
    (hapart : ∀ c ∈ part.toList, c ∉ b.toList) (h : contains a part = false) :
    contains (a ++ b) part = false := by
  have hno {cs : List Char} (hne : cs ≠ []) (hin : cs ⊆ part.toList) (hb : cs ⊆ b.toList) :
      False := by
    obtain ⟨c, rest, rfl⟩ := exists_cons_of_ne_nil hne
    exact hapart c (hin mem_cons_self) (hb mem_cons_self)
  rw [contains_eq_false_iff] at h ⊢
  rw [String.toList_append, infix_append_iff_ne_nil]
  rintro (ha | hb | ⟨front, back, -, hback, hparts, -, hb⟩)
  · exact h ha
  · exact hno (mt String.toList_eq_nil_iff.1 hpart) (fun _ hc => hc) hb.subset
  · exact hno hback (by simp [hparts]) hb.subset

end Text

/-! ### Spelling out -/

theorem Substitution.isWord_braced {x : String} (hx : ∀ c ∈ x.toList, isBlank c = false) :
    IsWord (braced x) := by
  constructor
  · intro hempty
    have hchars := toList_braced x
    rw [hempty] at hchars
    cases hchars
  · intro c hc
    rw [toList_braced] at hc
    simp only [mem_cons, mem_append, not_mem_nil, or_false] at hc
    rcases hc with rfl | hc | rfl
    · decide
    · exact hx c hc
    · decide

namespace Execution

open Substitution

def memberships : List String :=
  ["IN", "!IN"]

def conditionOf (test left right : String) : String :=
  Text.join " " ["if", braced left, test, braced right]

variable {op test x opts : String}

theorem memberships_cases (hop : op ∈ memberships) (htest : test = op ∨ test = lower op) :
    (op, test) ∈ [("IN", "IN"), ("IN", "in"), ("!IN", "!IN"), ("!IN", "!in")] := by
  have hlower : ∀ op ∈ memberships,
      (op, lower op) ∈ [("IN", "in"), ("!IN", "!in")] := by decide
  have hsmall := hlower op hop
  simp only [memberships, mem_cons, not_mem_nil, or_false, Prod.mk.injEq] at hop hsmall ⊢
  grind

theorem words_lower_condition (hop : op ∈ memberships) (htest : test = op ∨ test = lower op)
    (hx : ∀ c ∈ x.toList, isBlank c = false)
    (hopts : ∀ c ∈ opts.toList, isBlank c = false) :
    ∃ left right, words (lower (conditionOf test x opts)) =
      ["if", braced left, lower op, braced right] := by
  have hline (test x opts : String) : (conditionOf test x opts).toList =
      ['i', 'f', ' ', '\x7b'] ++ (x.toList ++ (('\x7d' :: ' ' :: (test.toList ++ [' ', '\x7b'])) ++
        (opts.toList ++ ['\x7d']))) := by
    simp [conditionOf, join_cons_cons, join_singleton, String.toList_append,
      toList_braced]
  obtain ⟨hplain, hmap, hword⟩ :
      ('\x7d' :: ' ' :: (test.toList ++ [' ', '\x7b'])).all isSteady = true ∧
      ('\x7d' :: ' ' :: (test.toList ++ [' ', '\x7b'])).map lowerChar =
        '\x7d' :: ' ' :: ((lower op).toList ++ [' ', '\x7b']) ∧
      IsWord (lower op) := by
    have hall : ∀ pair ∈ [("IN", "IN"), ("IN", "in"), ("!IN", "!IN"), ("!IN", "!in")],
        ('\x7d' :: ' ' :: (pair.2.toList ++ [' ', '\x7b'])).all isSteady = true ∧
        ('\x7d' :: ' ' :: (pair.2.toList ++ [' ', '\x7b'])).map lowerChar =
          '\x7d' :: ' ' :: ((lower pair.1).toList ++ [' ', '\x7b']) ∧
        IsWord (lower pair.1) := by
      decide
    exact hall _ (memberships_cases hop htest)
  have hlast : ['\x7d'].all isSteady = true := by decide
  obtain ⟨left, right, hleft, hright, hlower⟩ :=
    lowerAfter_between ['\x7b', ' ', 'f', 'i'] hx hopts hplain hlast
  refine ⟨String.ofList left, String.ofList right, ?_⟩
  have hjoin : lower (conditionOf test x opts) =
      conditionOf (lower op) (String.ofList left) (String.ofList right) := by
    rw [← String.toList_inj, lower, hline, hline, lowerAfter_append_map (by decide)]
    simp only [String.toList_ofList]
    rw [← hmap]
    exact congrArg _ hlower
  rw [hjoin]
  refine words_join ?_
  intro w hw
  simp only [mem_cons, not_mem_nil, or_false] at hw
  rcases hw with rfl | rfl | rfl | rfl
  · decide
  · exact isWord_braced (by simpa using hleft)
  · exact hword
  · exact isWord_braced (by simpa using hright)

theorem braced_ne {word : String} (hword : '\x7b' ∉ word.toList) (name : String) :
    braced name ≠ word := by
  rintro rfl
  rw [toList_braced] at hword
  exact hword mem_cons_self

theorem find_membership {words : List String} {left right : String} (hop : op ∈ memberships)
    (hwords : words = ["if", braced left, lower op, braced right]) :
    ((Condition.textComparators.flatMap fun name => [name, "!" ++ name]).find? fun name =>
      words.contains (lower name)) = some op := by
  have hnames : Condition.textComparators.flatMap (fun name => [name, "!" ++ name]) =
      "IN" :: "!IN" :: (Condition.textComparators.drop 1).flatMap fun name => [name, "!" ++ name] :=
    rfl
  have hmem : words.contains (lower op) = true := by simp [hwords]
  rw [hnames]
  simp only [memberships, mem_cons, not_mem_nil, or_false] at hop
  rcases hop with rfl | rfl
  · rw [find?_cons, hmem]
  · have hlower : lower "IN" = "in" ∧ lower "!IN" = "!in" := by decide
    have hnot : ¬ words.contains (lower "IN") = true := by
      have hin : '\x7b' ∉ "in".toList := by decide
      rw [hwords, hlower.1, hlower.2, List.contains_iff_mem]
      simp [(braced_ne hin _).symm]
    rw [find?_cons, Bool.eq_false_iff.2 hnot, find?_cons, hmem]

theorem cut?_conditionOf (hblank : ' ' ∉ op.toList) (hbrace : '\x7b' ∉ op.toList)
    (hx : ' ' ∉ (braced x).toList) :
    cut? (gapped op) (conditionOf op x opts) =
      some (join " " ["if", braced x], braced opts) := by
  have hwords : ∀ w ∈ ["if", braced x], ' ' ∉ w.toList := by simpa using hx
  have hnot : op ∉ [braced x] := by simp [(braced_ne hbrace _).symm]
  have hfound := cut?_gapped hblank hwords hnot (cons_ne_nil (braced opts) [])
  rwa [join_singleton " " (braced opts)] at hfound

theorem replace_gapped (hop : op ∈ memberships) (htest : test = op ∨ test = lower op)
    (hx : ' ' ∉ (braced x).toList) (hopts : ' ' ∉ (braced opts).toList) :
    replace (gapped (lower op)) (gapped op) (conditionOf test x opts) =
      conditionOf op x opts := by
  obtain ⟨hne, hblank, hblank', hbrace⟩ : op ≠ lower op ∧ ' ' ∉ op.toList ∧
      ' ' ∉ (lower op).toList ∧ '\x7b' ∉ (lower op).toList := by
    have hall : ∀ op ∈ memberships, op ≠ lower op ∧ ' ' ∉ op.toList ∧
        ' ' ∉ (lower op).toList ∧ '\x7b' ∉ (lower op).toList := by decide
    exact hall op hop
  have hgap : gapped (lower op) ≠ "" := by
    intro hempty
    have hchars := toList_gapped (lower op)
    rw [hempty] at hchars
    cases hchars
  rcases htest with rfl | rfl
  · have hcut : cut? (gapped (lower test)) (conditionOf test x opts) = none := by
      refine cut?_gapped_none hblank' ?_ ?_
      · simpa using ⟨hx, hblank, hopts⟩
      · simp [hne.symm, (braced_ne hbrace _).symm]
    exact replace_of_contains_eq_false _ hgap (cut?_eq_none_iff.1 hcut)
  · have hcut : cut? (gapped (lower op)) (conditionOf (lower op) x opts) =
        some (join " " ["if", braced x], braced opts) := cut?_conditionOf hblank' hbrace hx
    have hrest : cut? (gapped (lower op)) (braced opts) = none := by
      rw [← join_singleton " " (braced opts)]
      exact cut?_gapped_none hblank' (by simpa using hopts) (by simp)
    rw [replace_of_cut? _ hgap hcut, replace_of_contains_eq_false _ hgap (cut?_eq_none_iff.1 hrest)]
    simp [conditionOf, join_cons_cons, join_singleton, gapped, String.append_assoc]

/-- A test for a word in a list is put in capitals, and the reference behind it is one to all values
of the list. -/
theorem spellOut_membership (hop : op ∈ memberships) (htest : test = op ∨ test = lower op)
    (hx : ∀ c ∈ x.toList, isBlank c = false)
    (hopts : ∀ c ∈ opts.toList, isBlank c = false) (hclosed : '\x7d' ∉ opts.toList)
    (hindexed : '[' ∉ opts.toList) :
    spellOut (conditionOf test x opts) = .ok (conditionOf op x (opts ++ "[*]")) := by
  have hblank {name : String} (hname : ∀ c ∈ name.toList, isBlank c = false) :
      ' ' ∉ (braced name).toList := by
    intro hmem
    have hsolid := (isWord_braced hname).solid ' ' hmem
    revert hsolid
    decide
  obtain ⟨left, right, hwords⟩ := words_lower_condition hop htest hx hopts
  have hgap : lower (gapped op) = gapped (lower op) := by
    have hall : ∀ op ∈ memberships, lower (gapped op) = gapped (lower op) := by
      decide
    exact hall op hop
  have hplain : ' ' ∉ op.toList ∧ '\x7b' ∉ op.toList := by
    have hall : ∀ op ∈ memberships, ' ' ∉ op.toList ∧ '\x7b' ∉ op.toList := by decide
    exact hall op hop
  have hcut : cut? (gapped op) (conditionOf op x opts) =
      some (join " " ["if", braced x], braced opts) :=
    cut?_conditionOf hplain.1 hplain.2 (hblank hx)
  have hleft : (join " " ["if", braced x]).isEmpty = false := by
    simp [join_cons_cons, join_singleton]
  have hright : (braced opts).isEmpty = false :=
    String.isEmpty_eq_false_iff.2 (isWord_braced hopts).nonempty
  have hbracket : contains (braced opts) "[" = false := by
    refine contains_eq_false (c := '[') "[" rfl ?_
    rw [toList_braced]
    simpa using hindexed
  have hall : replace "\x7d" "[*]\x7d" (braced opts) = braced (opts ++ "[*]") := by
    have hlast : cut? "\x7d" (braced opts) = some ("\x7b" ++ opts, "") := by
      rw [← String.append_empty (s := braced opts)]
      exact cut?_append (c := '\x7d') "\x7d" rfl
        (by simpa [String.toList_append] using hclosed) ""
    rw [replace_of_cut? _ (by decide) hlast, show replace "\x7d" "[*]\x7d" "" = "" from rfl]
    simp [braced, String.append_assoc]
  have hspell : spellOut (conditionOf test x opts) =
      .ok (join " " ["if", braced x] ++ gapped op ++ braced (opts ++ "[*]")) := by
    have hgapped : " " ++ op ++ " " = gapped op := rfl
    simp only [spellOut]
    rw [find_membership hop hwords]
    simp only [hgapped, hgap, replace_gapped hop htest (hblank hx) (hblank hopts), hcut, hleft,
      hright, hbracket, hall, Bool.or_self, Bool.false_eq_true, if_false]
    rfl
  rw [hspell]
  simp [conditionOf, join_cons_cons, join_singleton, gapped, String.append_assoc]

end Execution

end Colloquy
