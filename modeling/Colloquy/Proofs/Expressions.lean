import Colloquy.Proofs.Comparators
import Colloquy.Proofs.LowerCase
import Colloquy.Proofs.Readers

/-! Expressions: how the text of an `if` is taken apart.  A line of words, one of which is a
comparator, is cut at the comparator into its two sides, as long as no other word has a character
that a comparator starts with. -/

namespace Colloquy

open Text

/-! ### Words and pieces -/

namespace Text

variable {c : Char} {cs before rest word : List Char} {s : String}

theorem wordsFrom_append (h : ∀ c ∈ cs, isBlank c = false) :
    wordsFrom word (cs ++ rest) = wordsFrom (cs.reverse ++ word) rest := by
  induction cs generalizing word with
  | nil => rfl
  | cons x xs ih =>
    have hx : isBlank x = false := h x List.mem_cons_self
    have hxs : ∀ c ∈ xs, isBlank c = false := fun c hc => h c (List.mem_cons_of_mem x hc)
    rw [List.cons_append, wordsFrom, hx, if_neg Bool.false_ne_true, ih hxs]
    simp

/-- A word: a text that is not empty and has no blanks. -/
structure IsWord (w : String) : Prop where
  nonempty : w ≠ ""
  solid : ∀ c ∈ w.toList, isBlank c = false

instance (w : String) : Decidable (IsWord w) :=
  decidable_of_iff (w ≠ "" ∧ (w.toList.all fun c => !isBlank c) = true)
    ⟨fun h => ⟨h.1, solid_of_all h.2⟩, fun h => ⟨h.nonempty, by simpa using h.solid⟩⟩

theorem words_join {ws : List String} (h : ∀ w ∈ ws, IsWord w) : words (join " " ws) = ws := by
  induction ws with
  | nil => rfl
  | cons w more ih =>
    obtain ⟨hne, hsolid⟩ := h w List.mem_cons_self
    have hempty : w.toList.reverse.isEmpty = false := by
      simpa [String.toList_eq_nil_iff] using hne
    cases more with
    | nil =>
      rw [join_singleton, words, ← List.append_nil w.toList, wordsFrom_append hsolid,
        List.append_nil, wordsFrom, hempty]
      simp
    | cons next more =>
      rw [join_cons_cons, words, String.toList_append, String.toList_append, List.append_assoc,
        wordsFrom_append hsolid, List.append_nil]
      change (wordsFrom w.toList.reverse (' ' :: (join " " (next :: more)).toList)).map _ = _
      rw [wordsFrom, if_pos (by decide), hempty, if_neg Bool.false_ne_true, List.map_cons,
        List.reverse_reverse, String.ofList_toList]
      exact congrArg _ (ih (List.forall_mem_cons.1 h).2)

theorem split_join {sep : String} (hsep : sep.toList = c :: rest) {parts : List String}
    (hne : parts ≠ []) (h : ∀ part ∈ parts, c ∉ part.toList) :
    split sep (join sep parts) = parts := by
  induction parts with
  | nil => exact absurd rfl hne
  | cons part more ih =>
    have hpart := h part List.mem_cons_self
    cases more with
    | nil => rw [join_singleton, split_of_not_mem sep hsep hpart]
    | cons next more =>
      rw [join_cons_cons, split_append sep hsep hpart,
        ih (by simp) (List.forall_mem_cons.1 h).2]

/-! ### Blanks around a text -/

/-- A text with no blank at either end. -/
structure Solid (s : String) : Prop where
  first : ∀ c ∈ s.toList.head?, isBlank c = false
  last : ∀ c ∈ s.toList.getLast?, isBlank c = false

namespace Solid

theorem of_chars (h : ∀ c ∈ s.toList, isBlank c = false) : Solid s :=
  ⟨fun c hc => h c (List.mem_of_mem_head? hc), fun c hc => h c (List.mem_of_mem_getLast? hc)⟩

theorem dropStart_eq (h : Solid s) : dropStart isBlank s.toList = s.toList := by
  have hfirst := h.first
  rw [dropStart]
  cases hchars : s.toList with
  | nil => rfl
  | cons x xs =>
    rw [hchars] at hfirst
    exact List.dropWhile_cons_of_neg (by simp [hfirst x rfl])

theorem dropEnd_eq (h : Solid s) : dropEnd isBlank s.toList = s.toList := by
  have hlast := h.last
  rw [List.getLast?_eq_head?_reverse] at hlast
  rw [dropEnd]
  cases hchars : s.toList.reverse with
  | nil => rw [List.reverse_eq_nil_iff.1 hchars]; rfl
  | cons x xs =>
    rw [hchars] at hlast
    rw [List.dropWhile_cons_of_neg (by simp [hlast x rfl]), ← hchars, List.reverse_reverse]

theorem trim_eq (h : Solid s) : trim s = s := by
  rw [trim, h.dropStart_eq, h.dropEnd_eq, String.ofList_toList]

theorem trim_append_blank (h : Solid s) : trim (s ++ " ") = s := by
  have hdrop : dropStart isBlank (s.toList ++ [' ']) = [] ∧ s = "" ∨
      dropStart isBlank (s.toList ++ [' ']) = s.toList ++ [' '] := by
    have hfirst := h.first
    cases hchars : s.toList with
    | nil => exact .inl ⟨by decide, String.toList_eq_nil_iff.1 hchars⟩
    | cons x xs =>
      rw [hchars] at hfirst
      exact .inr (List.dropWhile_cons_of_neg (by simp [hfirst x rfl]))
  rw [trim, String.toList_append]
  change String.ofList (dropEnd isBlank (dropStart isBlank (s.toList ++ [' ']))) = s
  rcases hdrop with ⟨hnil, rfl⟩ | hcons
  · rw [hnil]
    rfl
  · rw [hcons, dropEnd, List.reverse_append, List.reverse_singleton, List.singleton_append,
      List.dropWhile_cons_of_pos (by decide), ← dropEnd, h.dropEnd_eq, String.ofList_toList]

theorem trim_blank_append (h : Solid s) : trim (" " ++ s) = s := by
  rw [trim, String.toList_append, dropStart]
  change String.ofList (dropEnd isBlank (List.dropWhile isBlank (' ' :: s.toList))) = s
  rw [List.dropWhile_cons_of_pos (by decide), ← dropStart, h.dropStart_eq, h.dropEnd_eq,
    String.ofList_toList]

end Solid

theorem join_ne_empty {ws : List String} (h : ∀ w ∈ ws, IsWord w) (hne : ws ≠ []) :
    join " " ws ≠ "" := by
  intro hjoin
  have hwords := words_join h
  rw [hjoin] at hwords
  exact hne hwords.symm

theorem solid_join {ws : List String} (h : ∀ w ∈ ws, IsWord w) : Solid (join " " ws) := by
  induction ws with
  | nil => exact .of_chars (by simp [join])
  | cons w more ih =>
    obtain ⟨hne, hsolid⟩ := h w List.mem_cons_self
    have hmore : ∀ w ∈ more, IsWord w := (List.forall_mem_cons.1 h).2
    cases more with
    | nil =>
      rw [join_singleton]
      exact .of_chars hsolid
    | cons next more =>
      have hjoin : (join " " (w :: next :: more)).toList =
          w.toList ++ ' ' :: (join " " (next :: more)).toList := by
        rw [join_cons_cons, String.toList_append, String.toList_append, List.append_assoc]
        rfl
      constructor
      · intro c hc
        rw [hjoin, List.head?_append] at hc
        cases hchars : w.toList with
        | nil => exact absurd (String.toList_eq_nil_iff.1 hchars) hne
        | cons x xs =>
          rw [hchars] at hc hsolid
          cases hc
          exact hsolid c List.mem_cons_self
      · intro c hc
        rw [hjoin, List.getLast?_append, List.getLast?_cons] at hc
        cases hlast : (join " " (next :: more)).toList.getLast? with
        | none =>
          have hnil := String.toList_eq_nil_iff.1 (List.getLast?_eq_none_iff.1 hlast)
          exact absurd hnil (join_ne_empty hmore (by simp))
        | some d =>
          rw [hlast] at hc
          obtain rfl : d = c := by simpa using hc
          exact (ih hmore).last d hlast

theorem join_append_cons {ws vs : List String} (hws : ws ≠ []) (hvs : vs ≠ []) (w : String) :
    join " " (ws ++ w :: vs) = join " " ws ++ " " ++ w ++ (" " ++ join " " vs) := by
  have htail : join " " (w :: vs) = w ++ (" " ++ join " " vs) := by
    cases vs with
    | nil => exact absurd rfl hvs
    | cons v more => rw [join_cons_cons, String.append_assoc]
  induction ws with
  | nil => exact absurd rfl hws
  | cons x more ih =>
    cases more with
    | nil =>
      rw [List.singleton_append, join_cons_cons, htail, join_singleton]
      simp only [String.append_assoc]
    | cons y more =>
      rw [List.cons_append, List.cons_append, join_cons_cons, ← List.cons_append, ih (by simp),
        join_cons_cons]
      simp only [String.append_assoc]

theorem mem_join {sep : String} {ws : List String} (h : c ∈ (join sep ws).toList) :
    c ∈ sep.toList ∨ ∃ w ∈ ws, c ∈ w.toList := by
  induction ws with
  | nil => simp [join] at h
  | cons w more ih =>
    cases more with
    | nil =>
      rw [join_singleton] at h
      exact .inr ⟨w, List.mem_cons_self, h⟩
    | cons next more =>
      rw [join_cons_cons, String.toList_append, String.toList_append] at h
      rcases List.mem_append.1 h with hhead | hrest
      · rcases List.mem_append.1 hhead with hw | hsep
        · exact .inr ⟨w, List.mem_cons_self, hw⟩
        · exact .inl hsep
      · rcases ih hrest with hsep | ⟨v, hv, hc⟩
        · exact .inl hsep
        · exact .inr ⟨v, List.mem_cons_of_mem w hv, hc⟩

theorem join_append_head (sep x w : String) (more : List String) :
    join sep ((x ++ w) :: more) = x ++ join sep (w :: more) := by
  cases more with
  | nil => rw [join_singleton, join_singleton]
  | cons next more => simp only [join_cons_cons, String.append_assoc]

end Text

namespace Condition

/-! ### Sides -/

def comparators : List String :=
  negations.flatMap fun (op, neg) => [op, neg]

/-- The characters that a word of an operand does not have: those that are dropped from a condition,
and those that comparators start with. -/
def marks : List Char :=
  [':', '"', 'I', 'C', 'S', 'E', '=', '!', '<', '>']

structure Term (w : String) : Prop extends Text.IsWord w where
  unmarked : ∀ c ∈ marks, c ∉ w.toList

theorem comparators_isWord {op : String} (hop : op ∈ comparators) :
    Text.IsWord op ∧ ':' ∉ op.toList ∧ '"' ∉ op.toList := by
  have hall : ∀ op ∈ comparators, IsWord op ∧ ':' ∉ op.toList ∧ '"' ∉ op.toList := by
    decide
  exact hall op hop

theorem comparators_marked {op : String} (hop : op ∈ comparators) :
    ∃ c rest, op.toList = c :: rest ∧ c ∈ marks := by
  have hall : ∀ op ∈ comparators, op.toList.head?.any marks.contains = true := by decide
  obtain ⟨c, hhead, hc⟩ := (Option.any_eq_true _ _).1 (hall op hop)
  obtain ⟨rest, hrest⟩ := List.head?_eq_some_iff.1 hhead
  exact ⟨c, rest, hrest, List.contains_iff_mem.1 hc⟩

theorem comparatorIn_of_terms {op : String} (hop : op ∈ comparators) {ws vs : List String}
    (hws : ∀ w ∈ ws, Term w) (hvs : ∀ w ∈ vs, Term w) :
    comparatorIn (ws ++ op :: vs) = some op := by
  have hterm {w name : String} (hw : Term w) {c : Char} (hc : c ∈ marks) (hname : c ∈ name.toList) :
      w ≠ name := by
    rintro rfl
    exact hw.unmarked c hc hname
  have hcontains {name : String} {c : Char} (hc : c ∈ marks) (hname : c ∈ name.toList) :
      (ws ++ op :: vs).contains name = [op].contains name := by
    have hnot {us : List String} (hus : ∀ w ∈ us, Term w) : name ∉ us :=
      fun hmem => hterm (hus name hmem) hc hname rfl
    simp [List.contains_eq_mem, hnot hws, hnot hvs]
  have hnames : ∀ name ∈ textComparators ++ orderComparators, ∃ c ∈ marks, c ∈ name.toList := by
    have hall : ∀ name ∈ textComparators ++ orderComparators,
        marks.any name.toList.contains = true := by decide
    intro name hname
    simpa using hall name hname
  have hself : ∀ op ∈ comparators, comparatorIn [op] = some op := by decide
  rw [← hself op hop, comparatorIn, comparatorIn]
  generalize textComparators ++ orderComparators = names at hnames
  induction names with
  | nil => rfl
  | cons name rest ih =>
    obtain ⟨c, hc, hname⟩ := hnames name List.mem_cons_self
    rw [List.findSome?_cons, List.findSome?_cons, hcontains hc hname,
      hcontains (c := '!') (by decide) (by simp),
      ih (List.forall_mem_cons.1 hnames).2]

theorem isWord_of_terms {op : String} (hop : op ∈ comparators) {ws vs : List String}
    (hws : ∀ w ∈ ws, Term w) (hvs : ∀ w ∈ vs, Term w) : ∀ w ∈ ws ++ op :: vs, Text.IsWord w := by
  intro w hw
  rcases List.mem_append.1 hw with hw | hw
  · exact (hws w hw).toIsWord
  rcases List.mem_cons.1 hw with rfl | hw
  · exact (comparators_isWord hop).1
  · exact (hvs w hw).toIsWord

theorem not_blank_of_mark {c : Char} (hc : c ∈ marks) : c ∉ " ".toList := by
  intro hblank
  obtain rfl : c = ' ' := by simpa using hblank
  exact absurd hc (by decide)

theorem not_mem_join_terms {c : Char} (hc : c ∈ marks) {ws : List String} (hws : ∀ w ∈ ws, Term w) :
    c ∉ (Text.join " " ws).toList := by
  intro hmem
  rcases Text.mem_join hmem with hblank | ⟨w, hw, hcw⟩
  · exact not_blank_of_mark hc hblank
  · exact (hws w hw).unmarked c hc hcw

theorem wordsOf_join {ws : List String}
    (h : ∀ w ∈ ws, Text.IsWord w ∧ ':' ∉ w.toList ∧ '"' ∉ w.toList) :
    wordsOf (.str (join " " ("if" :: ws))) = ws := by
  have hwords : ∀ w ∈ "if" :: ws, IsWord w := by
    intro w hw
    rcases List.mem_cons.1 hw with rfl | hw
    · decide
    · exact (h w hw).1
  have hunmarked {c : Char} (hblank : c ∉ " ".toList) (hif : c ∉ "if".toList)
      (hws : ∀ w ∈ ws, c ∉ w.toList) : c ∉ (join " " ("if" :: ws)).toList := by
    intro hmem
    rcases mem_join hmem with hsep | ⟨w, hw, hcw⟩
    · exact hblank hsep
    rcases List.mem_cons.1 hw with rfl | hw
    · exact hif hcw
    · exact hws w hw hcw
  change (words (replace "\"" "" (replace ":" ""
    (join " " ("if" :: ws))))).drop 1 = _
  rw [replace_of_not_mem ":" rfl (hunmarked (by decide) (by decide) fun w hw => (h w hw).2.1),
    replace_of_not_mem "\"" rfl (hunmarked (by decide) (by decide) fun w hw => (h w hw).2.2),
    words_join hwords, List.drop_one, List.tail_cons]

theorem wordsOf_terms {op : String} (hop : op ∈ comparators) {ws vs : List String}
    (hws : ∀ w ∈ ws, Term w) (hvs : ∀ w ∈ vs, Term w) :
    wordsOf (.str (join " " ("if" :: (ws ++ op :: vs)))) = ws ++ op :: vs := by
  refine wordsOf_join fun w hw => ⟨isWord_of_terms hop hws hvs w hw, ?_⟩
  rcases List.mem_append.1 hw with hw | hw
  · exact ⟨(hws w hw).unmarked _ (by decide), (hws w hw).unmarked _ (by decide)⟩
  rcases List.mem_cons.1 hw with rfl | hw
  · exact (comparators_isWord hop).2
  · exact ⟨(hvs w hw).unmarked _ (by decide), (hvs w hw).unmarked _ (by decide)⟩

theorem sides_of_terms {op : String} (hop : op ∈ comparators) {ws vs : List String}
    (hws : ∀ w ∈ ws, Term w) (hvs : ∀ w ∈ vs, Term w) (hleft : ws ≠ []) (hright : vs ≠ []) :
    sides? (some op) (trim (join " " (ws ++ op :: vs))) =
      some (join " " ws ++ " ", " " ++ join " " vs) := by
  obtain ⟨c, rest, hchars, hc⟩ := comparators_marked hop
  have hblank : c ∉ " ".toList := not_blank_of_mark hc
  have hbefore : c ∉ (join " " ws ++ " ").toList := by
    rw [String.toList_append, List.mem_append, not_or]
    exact ⟨not_mem_join_terms hc hws, hblank⟩
  have hbehind : c ∉ (" " ++ join " " vs).toList := by
    rw [String.toList_append, List.mem_append, not_or]
    exact ⟨hblank, not_mem_join_terms hc hvs⟩
  rw [(solid_join (isWord_of_terms hop hws hvs)).trim_eq, join_append_cons hleft hright]
  simp only [sides?, split_append _ hchars hbefore, split_of_not_mem _ hchars hbehind]

/-- A line of words with a comparator among them applies the comparator to what stands on its two
sides. -/
theorem Compares.of_terms {op : String} (hop : op ∈ comparators) {ws vs : List String}
    {data : Value} (hfalsy : data.truthy = false) (hws : ∀ w ∈ ws, Term w) (hvs : ∀ w ∈ vs, Term w)
    (hleft : ws ≠ []) (hright : vs ≠ []) :
    Compares op (.read (some (join " " ws ++ " ", " " ++ join " " vs))) data
      (.str (join " " ("if" :: (ws ++ op :: vs)))) := by
  have hwords := wordsOf_terms hop hws hvs
  have htwo : 2 ≤ (wordsOf (.str (join " " ("if" :: (ws ++ op :: vs))))).length := by
    rw [hwords, List.length_append, List.length_cons]
    have := List.length_pos_iff.2 hright
    omega
  have hcompares := Compares.text hfalsy htwo (hwords ▸ comparatorIn_of_terms hop hws hvs)
  rwa [hwords, sides_of_terms hop hws hvs hleft hright] at hcompares

/-! ### Options -/

/-- The characters of words in lower case that are neither quoted nor cut at commas nor refer to
anything. -/
def isPlain (c : Char) : Bool :=
  !Text.isBlank c && Text.isSmall c && !(',' :: '\'' :: '\x7b' :: marks).contains c

structure Plain (w : String) : Prop where
  nonempty : w ≠ ""
  chars : ∀ c ∈ w.toList, isPlain c = true

namespace Plain

variable {w : String} (h : Plain w)

include h

theorem solid : ∀ c ∈ w.toList, isBlank c = false := by
  intro c hc
  have hplain := h.chars c hc
  simp only [isPlain, Bool.and_eq_true, Bool.not_eq_true'] at hplain
  exact hplain.1.1

theorem small : ∀ c ∈ w.toList, isSmall c = true := by
  intro c hc
  have hplain := h.chars c hc
  simp only [isPlain, Bool.and_eq_true] at hplain
  exact hplain.1.2

theorem not_mem {c : Char} (hc : c ∈ ',' :: '\'' :: '\x7b' :: marks) : c ∉ w.toList := by
  intro hmem
  have hplain := h.chars c hmem
  simp only [isPlain, Bool.and_eq_true, Bool.not_eq_true', List.contains_eq_mem,
    decide_eq_false_iff_not] at hplain
  exact hplain.2 hc

theorem comma : ',' ∉ w.toList :=
  h.not_mem (by decide)

theorem term : Term w := by
  refine ⟨⟨h.nonempty, h.solid⟩, fun c hc => h.not_mem ?_⟩
  simp only [List.mem_cons, hc, or_true]

end Plain

theorem tightCommas_join {parts : List String} (hne : parts ≠ [])
    (h : ∀ part ∈ parts, ',' ∉ part.toList) :
    tightCommas (join ", " parts) = join "," parts := by
  rw [tightCommas, replace, if_neg (by decide),
    split_join (show ", ".toList = [',', ' '] from rfl) hne h]

theorem sideOptions_left {w : String} (hw : Plain w) : sideOptions (w ++ " ") = [w] := by
  have hcomma : ∀ part ∈ [w ++ " "], ',' ∉ part.toList := by
    simpa [String.toList_append] using hw.comma
  have htight := tightCommas_join (by simp) hcomma
  rw [join_singleton, join_singleton] at htight
  rw [sideOptions, htight, (Solid.of_chars hw.solid).trim_append_blank,
    lower_of_small hw.small,
    split_of_not_mem "," rfl hw.comma]

theorem sideOptions_right {vs : List String} (hne : vs ≠ []) (hvs : ∀ v ∈ vs, Plain v) :
    sideOptions (" " ++ join ", " vs) = vs := by
  have hchars {p : Char → Prop} (hcomma : p ',') (hwords : ∀ v ∈ vs, ∀ c ∈ v.toList, p c) :
      ∀ c ∈ (join "," vs).toList, p c := by
    intro c hc
    rcases mem_join hc with hsep | ⟨v, hv, hcv⟩
    · obtain rfl : c = ',' := by simpa using hsep
      exact hcomma
    · exact hwords v hv c hcv
  have htight : tightCommas (" " ++ join ", " vs) = " " ++ join "," vs := by
    cases vs with
    | nil => exact absurd rfl hne
    | cons v more =>
      have hcomma : ∀ part ∈ (" " ++ v) :: more, ',' ∉ part.toList := by
        intro part hpart
        rcases List.mem_cons.1 hpart with rfl | hmore
        · simpa [String.toList_append] using (hvs v List.mem_cons_self).comma
        · exact (hvs part (List.mem_cons_of_mem _ hmore)).comma
      rw [← join_append_head, ← join_append_head, tightCommas_join (by simp) hcomma]
  have hsolid : Solid (join "," vs) :=
    .of_chars (hchars (by decide) fun v hv => (hvs v hv).solid)
  rw [sideOptions, htight, hsolid.trim_blank_append,
    lower_of_small (hchars (by decide) fun v hv => (hvs v hv).small),
    split_join (show ",".toList = [','] from rfl) hne fun v hv => (hvs v hv).comma]

end Condition

end Colloquy
