import Colloquy.Proofs.History
import Colloquy.Proofs.Templates

/-! Rewording: the command that replaces words.  A pair is applied to a text if its old word is one of
the words of the text, but then it is applied wherever the old word occurs, inside of other words as
well.  So the words of the result are those that the pairs say as long as no old word is part of
another word at its turn. -/

namespace Colloquy

open Session Command Text

/-! ### Replacing in words -/

namespace Text

variable {sep piece rest chars a b : List Char} {old new : String} {ws : List String}

theorem isPrefixOf_blank (hsep : ' ' ∉ sep) :
    sep.isPrefixOf (a ++ ' ' :: b) = sep.isPrefixOf a := by
  induction sep generalizing a with
  | nil => simp
  | cons x xs ih =>
    rw [List.mem_cons, not_or] at hsep
    cases a with
    | nil => simp [List.isPrefixOf, Ne.symm hsep.1]
    | cons y ys => rw [List.cons_append, List.isPrefixOf, List.isPrefixOf, ih hsep.2]

theorem cutChars?_blank (hsep : ' ' ∉ sep) (hne : sep ≠ []) (b : List Char) :
    cutChars? sep (a ++ ' ' :: b) =
      ((cutChars? sep a).map fun (x, y) => (x, y ++ ' ' :: b)).or
        ((cutChars? sep b).map fun (x, y) => (a ++ ' ' :: x, y)) := by
  induction a with
  | nil =>
    have hno : sep.isPrefixOf (' ' :: b) = false := by
      rw [← List.nil_append (' ' :: b), isPrefixOf_blank hsep]
      cases sep with
      | nil => exact absurd rfl hne
      | cons => rfl
    simp [cutChars?, hno, hne]
  | cons x xs ih =>
    have hsame := isPrefixOf_blank (a := x :: xs) (b := b) hsep
    rw [List.cons_append] at hsame ⊢
    rw [cutChars?, cutChars?, hsame]
    split
    · rename_i hprefix
      have hlength := (List.isPrefixOf_iff_prefix.1 hprefix).length_le
      rw [← List.cons_append, List.drop_append_of_le_length hlength]
      rfl
    · rw [ih]
      cases cutChars? sep xs <;> cases cutChars? sep b <;> rfl

theorem cut?_blank (hold : old ≠ "") (hblank : ' ' ∉ old.toList) (a b : String) :
    cut? old (a ++ " " ++ b) =
      ((cut? old a).map fun (x, y) => (x, y ++ " " ++ b)).or
        ((cut? old b).map fun (x, y) => (a ++ " " ++ x, y)) := by
  have hchars : (a ++ " " ++ b).toList = a.toList ++ ' ' :: b.toList := by simp
  rw [cut?, hchars, cutChars?_blank hblank (by simpa using hold), cut?, cut?]
  cases cutChars? old.toList a.toList <;> cases cutChars? old.toList b.toList <;>
    simp [String.ofList_append, String.append_assoc]

theorem replace_blank (hold : old ≠ "") (hblank : ' ' ∉ old.toList) (new a b : String) :
    replace old new (a ++ " " ++ b) = replace old new a ++ " " ++ replace old new b := by
  induction a using cut_induction hold with
  | whole a ha =>
    rw [replace_of_contains_eq_false new hold (cut?_eq_none_iff.1 ha)]
    have hcut := cut?_blank hold hblank a b
    rw [ha] at hcut
    cases hb : cut? old b with
    | none =>
      rw [hb] at hcut
      rw [replace_of_contains_eq_false new hold (cut?_eq_none_iff.1 hcut),
        replace_of_contains_eq_false new hold (cut?_eq_none_iff.1 hb)]
    | some parts =>
      rw [hb] at hcut
      rw [replace_of_cut? new hold hcut, replace_of_cut? new hold hb]
      simp only [String.append_assoc]
  | cut a x y ha ih =>
    have hcut := cut?_blank hold hblank a b
    rw [ha] at hcut
    rw [replace_of_cut? new hold hcut, ih, replace_of_cut? new hold ha]
    simp only [String.append_assoc]

theorem replace_join (hold : old ≠ "") (hblank : ' ' ∉ old.toList) (new : String)
    (ws : List String) :
    replace old new (join " " ws) = join " " (ws.map (replace old new)) := by
  induction ws with
  | nil => exact replace_empty hold new
  | cons w more ih =>
    cases more with
    | nil => rw [List.map_singleton, join_singleton, join_singleton]
    | cons next more =>
      rw [List.map_cons, List.map_cons] at *
      rw [join_cons_cons, replace_blank hold hblank, ih, join_cons_cons]

theorem replace_padded (hold : IsWord old) (new : String) (ws : List String) :
    replace old new (" " ++ join " " ws ++ " ") =
      " " ++ join " " (ws.map (replace old new)) ++ " " := by
  have hblank : ' ' ∉ old.toList := fun h => absurd (hold.solid ' ' h) (by decide)
  have hnone := replace_empty hold.nonempty new
  have hstart (s : String) : replace old new (" " ++ s) = " " ++ replace old new s := by
    have h := replace_blank hold.nonempty hblank new "" s
    rwa [hnone, String.empty_append] at h
  have hend (s : String) : replace old new (s ++ " ") = replace old new s ++ " " := by
    have h := replace_blank hold.nonempty hblank new s ""
    rwa [hnone, String.append_empty, String.append_empty] at h
  rw [hend, hstart, replace_join hold.nonempty hblank]

theorem wordsFrom_append_blank (word chars : List Char) :
    wordsFrom word (chars ++ [' ']) = wordsFrom word chars := by
  induction chars generalizing word with
  | nil => cases word <;> simp [wordsFrom, isBlank]
  | cons x xs ih => simp only [List.cons_append, wordsFrom, ih]

theorem words_padded (hws : ∀ w ∈ ws, IsWord w) : words (" " ++ join " " ws ++ " ") = ws := by
  have hchars : (" " ++ join " " ws ++ " ").toList = ' ' :: (join " " ws).toList ++ [' '] := by
    simp [String.toList_append]
  rw [words, hchars, wordsFrom_append_blank]
  exact words_join hws

theorem trim_padded (hws : ∀ w ∈ ws, IsWord w) :
    trim (" " ++ join " " ws ++ " ") = join " " ws := by
  rw [String.append_assoc, trim, String.toList_append, dropStart]
  exact (solid_join hws).trim_append_blank

theorem IsWord.replace {w : String} (hw : IsWord w) (hold : old ≠ "") (hnew : IsWord new) :
    IsWord (replace old new w) := by
  refine ⟨?_, fun c hc => (mem_replace hold hc).elim (hw.solid c) (hnew.solid c)⟩
  cases hcut : cut? old w with
  | none =>
    rw [replace_of_contains_eq_false new hold (cut?_eq_none_iff.1 hcut)]
    exact hw.nonempty
  | some parts =>
    rw [replace_of_cut? new hold hcut]
    simp [hnew.nonempty]

theorem length_replace (hold : old ≠ "") (new s : String) :
    ∃ n, (replace old new s).length + n * old.length = s.length + n * new.length := by
  induction s using cut_induction hold with
  | whole s h => exact ⟨0, by rw [replace_of_contains_eq_false new hold (cut?_eq_none_iff.1 h)]; simp⟩
  | cut s a b h ih =>
    obtain ⟨n, hn⟩ := ih
    refine ⟨n + 1, ?_⟩
    rw [replace_of_cut? new hold h, eq_of_cut? h]
    simp only [String.length_append, Nat.succ_mul]
    omega

/-- Only a replacement by the same text leaves a text as it is in which the replaced one occurs. -/
theorem eq_of_replace_eq_self {s : String} (hold : old ≠ "") (hin : contains s old = true)
    (h : replace old new s = s) : old = new := by
  cases hcut : cut? old s with
  | none => simp [cut?_eq_none_iff.1 hcut] at hin
  | some parts =>
    obtain ⟨n, hn⟩ := length_replace hold new parts.2
    rw [replace_of_cut? new hold hcut] at h
    have hsame := h.trans (eq_of_cut? hcut)
    have hlength := congrArg String.length hsame
    simp only [String.length_append] at hlength
    have htimes : (n + 1) * new.length = (n + 1) * old.length := by
      simp only [Nat.succ_mul]
      omega
    have hchars := congrArg String.toList hsame
    simp only [String.toList_append, List.append_assoc, List.append_cancel_left_eq] at hchars
    refine (String.toList_inj.1 (List.append_inj hchars ?_).1).symm
    rw [String.length_toList, String.length_toList]
    exact Nat.eq_of_mul_eq_mul_left n.succ_pos htimes

end Text

/-! ### Pairs of words -/

namespace Command

/-- A word in lower case and the one that takes its place.  Quotes on both sides of the blank would be
those of two texts. -/
structure WordPair where
  old : String
  new : String
  isWord_old : Text.IsWord old
  isWord_new : Text.IsWord new
  lower : Text.lower (old ++ " " ++ new) = old ++ " " ++ new
  unquoted : Text.contains (old ++ " " ++ new) "\" \"" = false

namespace WordPair

variable {p : WordPair} {ws : List String}

def entry (p : WordPair) : Value :=
  .str (p.old ++ " " ++ p.new)

/-- The words with the new one in the place of each that is the old one. -/
def exchange (p : WordPair) (ws : List String) : List String :=
  ws.map fun w => if w = p.old then p.new else w

/-- The words with the new one in the place of the old one wherever that occurs in them, if it is one
of them. -/
def spread (p : WordPair) (ws : List String) : List String :=
  if p.old ∈ ws then ws.map (Text.replace p.old p.new) else ws

/-- The old word is not one of the words, or not part of another one, or it stays. -/
def Clear (p : WordPair) (ws : List String) : Prop :=
  p.old ∉ ws ∨ p.old = p.new ∨ ∀ w ∈ ws, Text.contains w p.old = true → w = p.old

theorem replace_old (p : WordPair) : replace p.old p.new p.old = p.new := by
  have hold := p.isWord_old.nonempty
  have hcut := cut?_self p.old hold ""
  rw [String.append_empty] at hcut
  rw [replace_of_cut? _ hold hcut, replace_empty hold, String.empty_append, String.append_empty]

theorem spread_eq_exchange_iff : p.spread ws = p.exchange ws ↔ p.Clear ws := by
  have hne := p.isWord_old.nonempty
  by_cases hold : p.old ∈ ws
  · rw [spread, if_pos hold, exchange, List.map_inj_left]
    constructor
    · intro h
      by_cases hsame : p.old = p.new
      · exact .inr (.inl hsame)
      · refine .inr (.inr fun w hw hin => ?_)
        by_cases hword : w = p.old
        · exact hword
        · have hself := h w hw
          rw [if_neg hword] at hself
          exact absurd (eq_of_replace_eq_self hne hin hself) hsame
    · rintro (hnot | hsame | hclear) w hw
      · exact absurd hold hnot
      · rw [← hsame, replace_self hne]
        split
        · rename_i hword
          exact hword
        · rfl
      · by_cases hword : w = p.old
        · rw [if_pos hword, hword, p.replace_old]
        · rw [if_neg hword, replace_of_contains_eq_false _ hne]
          exact Bool.eq_false_iff.2 fun hin => hword (hclear w hw hin)
  · rw [spread, if_neg hold, exchange]
    refine ⟨fun _ => .inl hold, fun _ => ?_⟩
    have hid : ws.map (fun w => if w = p.old then p.new else w) = ws.map id :=
      List.map_congr_left fun w hw => if_neg fun (h : w = p.old) => hold (h ▸ hw)
    rw [hid, List.map_id]

def exchangeAll : List WordPair → List String → List String
  | [], ws => ws
  | p :: rest, ws => exchangeAll rest (p.exchange ws)

def spreadAll : List WordPair → List String → List String
  | [], ws => ws
  | p :: rest, ws => spreadAll rest (p.spread ws)

/-- Each pair in turn is clear of the words that those before it have made. -/
def AllClear : List WordPair → List String → Prop
  | [], _ => True
  | p :: rest, ws => p.Clear ws ∧ AllClear rest (p.exchange ws)

theorem spreadAll_eq_iff (pairs : List WordPair) (ws : List String) :
    (∀ n, spreadAll (pairs.take n) ws = exchangeAll (pairs.take n) ws) ↔ AllClear pairs ws := by
  induction pairs generalizing ws with
  | nil => simp [AllClear, spreadAll, exchangeAll]
  | cons p rest ih =>
    rw [AllClear, ← ih, ← spread_eq_exchange_iff]
    constructor
    · intro h
      have hfirst : p.spread ws = p.exchange ws := h 1
      refine ⟨hfirst, fun n => ?_⟩
      have hnext := h (n + 1)
      rwa [List.take_succ_cons, spreadAll, exchangeAll, hfirst] at hnext
    · rintro ⟨hfirst, hrest⟩ n
      cases n with
      | zero => rfl
      | succ n =>
        rw [List.take_succ_cons, spreadAll, exchangeAll, hfirst]
        exact hrest n

theorem replacement_entry (p : WordPair) : replacement p.entry = .ok (p.old, p.new) := by
  have hsolid : trim (p.old ++ " " ++ p.new) = p.old ++ " " ++ p.new := by
    have hws : ∀ w ∈ [p.old, p.new], IsWord w := by
      simp [p.isWord_old, p.isWord_new]
    exact (solid_join hws).trim_eq
  have hcut : cut? " " (p.old ++ " " ++ p.new) = some (p.old, p.new) := by
    apply cut?_append " " rfl
    intro h
    exact absurd (p.isWord_old.solid ' ' h) (by decide)
  have hquoted : Value.member "\" \"" p.entry = .ok false := congrArg Except.ok p.unquoted
  rw [replacement, hquoted]
  simp [entry, Value.text, p.lower, hsolid, hcut, bind, Except.bind, pure, Except.pure]

theorem isWord_spread (hws : ∀ w ∈ ws, IsWord w) : ∀ w ∈ p.spread ws, IsWord w := by
  intro w hw
  rw [spread] at hw
  split at hw
  · obtain ⟨v, hv, rfl⟩ := List.mem_map.1 hw
    exact (hws v hv).replace p.isWord_old.nonempty p.isWord_new
  · exact hws w hw

theorem replaceWords_entries (pairs : List WordPair) (hws : ∀ w ∈ ws, IsWord w) :
    (∀ w ∈ spreadAll pairs ws, IsWord w) ∧
    replaceWords (" " ++ join " " ws ++ " ") (pairs.map entry) =
      .ok (" " ++ join " " (spreadAll pairs ws) ++ " ") := by
  induction pairs generalizing ws with
  | nil => exact ⟨hws, rfl⟩
  | cons p rest ih =>
    have htruthy : p.entry.truthy = true := by
      simp [entry, Value.truthy]
    have hstep : (if (words (" " ++ join " " ws ++ " ")).contains p.old then
        replace p.old p.new (" " ++ join " " ws ++ " ")
        else " " ++ join " " ws ++ " ") = " " ++ join " " (p.spread ws) ++ " " := by
      rw [words_padded hws, replace_padded p.isWord_old, spread]
      by_cases hold : p.old ∈ ws <;> simp [hold]
    obtain ⟨hwords, hrest⟩ := ih (isWord_spread (p := p) hws)
    refine ⟨hwords, ?_⟩
    rw [List.map_cons, replaceWords, if_pos htruthy, replacement_entry]
    exact (congrArg (replaceWords · _) hstep).trans hrest

end WordPair

end Command

namespace Running

variable {user value : Value} {c : Conversation} {bindings : Entries} {s : Session} {i : Int}
  {name line target : String} {table : Value} {ws : List String}

theorem replaceValues_held (h : Running user c bindings s) (hindex : c.index = .int i)
    (hline : Rephrases bindings line name target table) {older : List Value} {number : Option Nat}
    (hfind : bindings.find? name = some (.list (.str (join " " ws) :: older) number))
    (hws : ∀ w ∈ ws, IsWord w) (hlower : lower (join " " ws) = join " " ws)
    {pairs : List WordPair} (hpairs : table.elements = .ok (pairs.map WordPair.entry)) :
    ∃ t, replaceValues user (.str line) s = .ok () t ∧ t.held user target =
      some (.str (join " " (WordPair.spreadAll pairs ws))) := by
  obtain ⟨hwords, hreplace⟩ := WordPair.replaceWords_entries pairs hws
  rw [h.replaceValues_of_item hfind (Value.itemAt_nat (i := 0) rfl) hline hpairs, hlower, hreplace]
  have hbody : (do
      let output ← (Except.ok (" " ++ join " " (WordPair.spreadAll pairs ws) ++
        " ") : Except Fault String)
      Edit.writeVariable target (.str (trim output))
      Edit.step 1 : Edit Unit) { conversation := c } = .ok () { conversation := { c with
        bindings := .table (bindings.insert target (.str (join " "
          (WordPair.spreadAll pairs ws))))
        index := .int (i + 1) } } := by
    rw [bind_of_ok (lift_ok_apply _ _), trim_padded hwords,
      bind_of_ok (Edit.writeVariable_apply h.bindings _ _)]
    exact Edit.step_apply hindex 1
  obtain ⟨t, -, -, hrun, -, hheld, -⟩ := h.edits hbody rfl
  refine ⟨t, hrun, ?_⟩
  rw [hheld, Entries.find?_insert_self]
  rfl

/-- The words of the text that is left are those of the old text with each pair applied wherever its
old word occurs in them, if it is one of them.  At the turn of every pair these are the words with the
new one in the place of each that is the old one, exactly if no old word is part of another word at its
turn, or it stays. -/
theorem replaceValues_words (h : Running user c bindings s) (hindex : c.index = .int i)
    (hline : Rephrases bindings line name target table) {older : List Value} {number : Option Nat}
    (hfind : bindings.find? name = some (.list (.str (Text.join " " ws) :: older) number))
    (hws : ∀ w ∈ ws, Text.IsWord w) (hlower : Text.lower (Text.join " " ws) = Text.join " " ws)
    {pairs : List WordPair} (hpairs : table.elements = .ok (pairs.map WordPair.entry)) :
    ∃ t, replaceValues user (.str line) s = .ok () t ∧
      t.held user target = some (.str (Text.join " " (WordPair.spreadAll pairs ws))) ∧
      (WordPair.AllClear pairs ws →
        t.held user target = some (.str (Text.join " " (WordPair.exchangeAll pairs ws)))) ∧
      ((∀ n, WordPair.spreadAll (pairs.take n) ws = WordPair.exchangeAll (pairs.take n) ws) ↔
        WordPair.AllClear pairs ws) := by
  obtain ⟨t, hrun, hheld⟩ := h.replaceValues_held hindex hline hfind hws hlower hpairs
  have hiff := WordPair.spreadAll_eq_iff pairs ws
  refine ⟨t, hrun, hheld, fun hclear => ?_, hiff⟩
  have hall := hiff.2 hclear pairs.length
  rw [List.take_length] at hall
  rw [hheld, hall]

def translating (text : String) (pairs : List String) : Conversation :=
  { scriptMeta := .emptyTable, filename := "letter", startTime := 0
    bindings := .table [("x", .ofItems [.str text]), ("subs", .ofItems (pairs.map .str))]
    lines := .ofItems [lineOf "sub_values" 0 "sub_values(x, subs)" (.int 1) .null]
    index := .int 0 }

def bureau (text : String) (pairs : List String) : Session :=
  { root := "/home", initialized := true, message := some {}
    active := [("ann", { user := "ann", stack := [.conversation (translating text pairs)] })] }

theorem bureau_running (text : String) (pairs : List String) :
    Running "ann" (translating text pairs)
      [("x", .ofItems [.str text]), ("subs", .ofItems (pairs.map .str))] (bureau text pairs) where
  isKey := rfl
  initialized := rfl
  running := ⟨{ user := "ann", stack := [.conversation (translating text pairs)] }, [], by
    simp [managerIn, bureau, Value.str_same], rfl⟩
  bindings := rfl
  message := ⟨{}, rfl⟩

theorem bureau_rephrases (text : String) (pairs : List String) :
    Rephrases [("x", .ofItems [.str text]), ("subs", .ofItems (pairs.map .str))]
      "sub_values(x, subs)" "x" "x" (.ofItems (pairs.map .str)) where
  names := by
    have htrim : trim " subs" = "subs" := by decide
    exact ⟨" subs", by decide, by simp [htrim, Entries.find?, Value.str_same]⟩
  target := by decide

theorem bureau_find {ws : List String} {text : String} (h : join " " ws = text)
    (pairs : List String) :
    Entries.find? "x" [("x", .ofItems [.str text]), ("subs", .ofItems (pairs.map .str))] =
      some (.list (.str (join " " ws) :: []) none) := by
  rw [Entries.find?, Value.str_same, h]
  rfl

def youForI : WordPair where
  old := "i"
  new := "you"
  isWord_old := by decide
  isWord_new := by decide
  lower := by decide
  unquoted := by decide

def areForAm : WordPair where
  old := "am"
  new := "are"
  isWord_old := by decide
  isWord_new := by decide
  lower := by decide
  unquoted := by decide

/-- Two pairs are applied to a text of three words. -/
theorem replaceValues_words_here :
    ∃ t, replaceValues "ann" "sub_values(x, subs)" (bureau "i am here" ["i you", "am are"]) =
        .ok () t ∧ t.held "ann" "x" = some "you are here" := by
  have hclear : WordPair.AllClear [youForI, areForAm] ["i", "am", "here"] :=
    ⟨.inr (.inr (by decide)), .inr (.inr (by decide)), trivial⟩
  have hpairs : Value.elements (.ofItems (["i you", "am are"].map .str)) =
      .ok ([youForI, areForAm].map WordPair.entry) := rfl
  have hwords : Text.join " " ["i", "am", "here"] = "i am here" := by decide
  obtain ⟨t, hrun, -, hheld, -⟩ := replaceValues_words (bureau_running _ _) rfl
    (bureau_rephrases "i am here" _) (bureau_find hwords _) (by decide) (by decide) hpairs
  exact ⟨t, hrun, hheld hclear⟩

/-- The letters of a word that is replaced are replaced in other words as well. -/
theorem replaceValues_inside_words :
    ((bureau "i am in italy" ["i you"]).after
      (replaceValues "ann" "sub_values(x, subs)")).held "ann" "x" = some "you am youn youtaly" ∧
    WordPair.exchangeAll [youForI] ["i", "am", "in", "italy"] = ["you", "am", "in", "italy"] := by
  have hwords : Text.join " " ["i", "am", "in", "italy"] = "i am in italy" := by decide
  have hpairs : Value.elements (.ofItems (["i you"].map .str)) =
      .ok ([youForI].map WordPair.entry) := rfl
  obtain ⟨t, hrun, hheld⟩ := (bureau_running "i am in italy" ["i you"]).replaceValues_held rfl
    (bureau_rephrases _ _) (bureau_find hwords _) (by decide) (by decide) hpairs
  refine ⟨?_, by decide⟩
  rw [after, hrun]
  exact hheld

end Running

end Colloquy
