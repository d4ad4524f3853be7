import Colloquy.Proofs.Rewording
import Colloquy.Proofs.Rotation

/-! Perspective: what is captured in front of a literal piece of a pattern is turned, as said by another
person.  The entries of the table are applied in turn, each wherever its text occurs.  Since no entry
has a blank, each word is turned by itself, but a word that holds one of the table, or is made into
one on the way, is turned again. -/

namespace Colloquy

open Text (IsWord)

def Draft.HasNewest (name value : String) (d : Draft) : Prop :=
  ∃ (names : Entries) (older : List Value) (number : Option Nat),
    d.conversation.bindings = .table names ∧
      names.find? name = some (.list (.str value :: older) number)

namespace Pattern

/-! ### Turning words -/

/-- The word with each entry of a table applied in turn wherever its text occurs. -/
def replaceEach : List (String × String) → String → String
  | [], w => w
  | (old, new) :: rest, w => replaceEach rest (Text.replace old new w)

def turnedWord : String → String :=
  replaceEach perspectives

/-- The word that the table has in the place of a word. -/
def changedWord (w : String) : String :=
  (perspectives.lookup w).getD w

theorem perspectives_isWord : ∀ p ∈ perspectives, IsWord p.1 ∧ IsWord p.2 := by
  decide

section

variable {w : String} {ws : List String} {table : List (String × String)}

theorem isWord_replaceEach (htable : ∀ p ∈ table, IsWord p.1 ∧ IsWord p.2) (hw : IsWord w) :
    IsWord (replaceEach table w) := by
  induction table generalizing w with
  | nil => exact hw
  | cons p rest ih =>
    obtain ⟨hold, hnew⟩ := htable p List.mem_cons_self
    exact ih (fun q hq => htable q (List.mem_cons_of_mem p hq)) (hw.replace hold.nonempty hnew)

theorem isWord_map_replace {old new : String} (hold : IsWord old) (hnew : IsWord new)
    (hws : ∀ w ∈ ws, IsWord w) : ∀ w ∈ ws.map (Text.replace old new), IsWord w := by
  intro w hw
  obtain ⟨v, hv, rfl⟩ := List.mem_map.1 hw
  exact (hws v hv).replace hold.nonempty hnew

theorem foldl_words (htable : ∀ p ∈ table, IsWord p.1 ∧ IsWord p.2) (hws : ∀ w ∈ ws, IsWord w) :
    table.foldl (fun s (old, new) => Text.trim (Text.replace old new s)) (Text.join " " ws) =
      Text.join " " (ws.map (replaceEach table)) := by
  induction table generalizing ws with
  | nil =>
    rw [show replaceEach [] = id from rfl, List.map_id]
    rfl
  | cons p rest ih =>
    obtain ⟨old, new⟩ := p
    obtain ⟨hold, hnew⟩ := htable (old, new) List.mem_cons_self
    have hreplaced := isWord_map_replace hold hnew hws
    have hrest := ih (List.forall_mem_cons.1 htable).2 hreplaced
    rw [List.map_map] at hrest
    dsimp only [List.foldl_cons]
    rw [Text.replace_join hold.nonempty fun h => absurd (hold.solid ' ' h) (by decide),
      (Text.solid_join hreplaced).trim_eq, hrest]
    rfl

theorem foldl_padded (hne : table ≠ []) (htable : ∀ p ∈ table, IsWord p.1 ∧ IsWord p.2)
    (hws : ∀ w ∈ ws, IsWord w) :
    table.foldl (fun s (old, new) => Text.trim (Text.replace old new s))
        (" " ++ Text.join " " ws ++ " ") = Text.join " " (ws.map (replaceEach table)) := by
  obtain ⟨⟨old, new⟩, rest, rfl⟩ := List.exists_cons_of_ne_nil hne
  obtain ⟨hold, hnew⟩ := htable (old, new) List.mem_cons_self
  have hreplaced := isWord_map_replace hold hnew hws
  have hrest := foldl_words (List.forall_mem_cons.1 htable).2 hreplaced
  rw [List.map_map] at hrest
  dsimp only [List.foldl_cons]
  rw [Text.replace_padded hold, Text.trim_padded hreplaced, hrest]
  rfl

theorem turned_words {s : String} (hws : ∀ w ∈ ws, IsWord w) (hs : Text.trim s = Text.join " " ws) :
    turned s = Text.join " " (ws.map turnedWord) := by
  rw [turned, hs]
  exact foldl_padded (List.cons_ne_nil _ _) perspectives_isWord hws

theorem isWord_turnedWord (hw : IsWord w) : IsWord (turnedWord w) :=
  isWord_replaceEach perspectives_isWord hw

theorem isWord_changedWord (hw : IsWord w) : IsWord (changedWord w) := by
  rw [changedWord]
  cases hfind : perspectives.lookup w with
  | none => exact hw
  | some new =>
    obtain ⟨before, after, hentry, -⟩ := List.lookup_eq_some_iff.1 hfind
    refine (perspectives_isWord (w, new) ?_).2
    rw [hentry]
    simp

/-- The words that are turned as the table says whatever they are among: two of the table, and those
in which none of it occurs but for single letters. -/
def TurnsRight (w : String) : Prop :=
  w = "am" ∨ w = "you" ∨
    (w ≠ "i" ∧ ∀ part ∈ ["am", "my", "me", "you"], Text.contains w part = false)

theorem turnedWord_perspectives :
    ∀ p ∈ perspectives, turnedWord p.1 = p.2 ↔ p.1 = "am" ∨ p.1 = "you" := by
  decide

theorem replace_you (h : Text.contains w "you" = false) :
    Text.replace "you" "i" (Text.replace "i" "you" w) = w := by
  induction w using Text.cut_induction (show "i" ≠ "" by decide) with
  | whole w hcut =>
    rw [Text.replace_of_contains_eq_false _ (by decide) (Text.cut?_eq_none_iff.1 hcut),
      Text.replace_of_contains_eq_false _ (by decide) h]
  | cut w a b hcut ih =>
    rw [Text.contains_eq_false_iff, Text.eq_of_cut? hcut, String.toList_append,
      String.toList_append] at h
    have hb : Text.contains b "you" = false :=
      Text.contains_eq_false_iff.2 fun hin => h (List.infix_append_of_infix_right hin)
    -- What is put in starts where it stands, because `you` does not overlap with itself.
    have hfirst (rest : List Char) : Text.cutChars? "you".toList (a.toList ++ "you".toList ++ rest) =
        some (a.toList, rest) := by
      refine Text.cutChars?_of_first (by decide) fun x z hsuffix hprefix => ?_
      rcases z with _ | ⟨y, _ | ⟨z, more⟩⟩
      · simp at hprefix
      · simp at hprefix
      · obtain ⟨rfl, rfl, rfl⟩ : 'y' = x ∧ 'o' = y ∧ 'u' = z := by simpa using hprefix
        refine h (List.infix_append_of_infix_left (List.infix_append_of_infix_left ?_))
        exact (List.prefix_append "you".toList more).isInfix.trans hsuffix.isInfix
    have hyou : Text.cut? "you" (a ++ "you" ++ Text.replace "i" "you" b) =
        some (a, Text.replace "i" "you" b) := by
      rw [Text.cut?, String.toList_append, String.toList_append, hfirst]
      simp
    rw [Text.replace_of_cut? _ (by decide) hcut, Text.replace_of_cut? _ (by decide) hyou, ih hb,
      ← Text.eq_of_cut? hcut]

theorem contains_eq_false_of_infix {part whole : String} (h : Text.contains w part = false)
    (hin : part.toList <:+: whole.toList) : Text.contains w whole = false := by
  rw [Text.contains_eq_false_iff] at h ⊢
  exact fun hwhole => h (hin.trans hwhole)

theorem turnedWord_eq_self (h : ∀ part ∈ ["am", "my", "me", "you"], Text.contains w part = false) :
    turnedWord w = w := by
  have hno (old new : String) (hold : old ≠ "") (hnot : Text.contains w old = false) :
      Text.replace old new w = w := Text.replace_of_contains_eq_false new hold hnot
  have hyou := h "you" (by simp)
  have hmy := h "my" (by simp)
  -- The fifth entry is undone by the sixth, and no other text of the table occurs.
  have hback := replace_you hyou
  have hyour : Text.contains w "your" = false := contains_eq_false_of_infix hyou ⟨[], ['r'], rfl⟩
  have hmyself : Text.contains w "myself" = false :=
    contains_eq_false_of_infix hmy ⟨[], "self".toList, rfl⟩
  have hyourself : Text.contains w "yourself" = false :=
    contains_eq_false_of_infix hyou ⟨[], "rself".toList, rfl⟩
  simp only [turnedWord, perspectives, replaceEach]
  rw [hno "am" _ (by decide) (h "am" (by simp)), hno "your" _ (by decide) hyour,
    hno "my" _ (by decide) hmy, hno "me" _ (by decide) (h "me" (by simp)), hback,
    hno "myself" _ (by decide) hmyself, hno "yourself" _ (by decide) hyourself]

theorem perspectives_parts : ∀ p ∈ perspectives, p.1 = "i" ∨
    ["am", "my", "me", "you"].any (Text.contains p.1) = true := by
  decide

theorem changedWord_eq_self (hi : w ≠ "i")
    (h : ∀ part ∈ ["am", "my", "me", "you"], Text.contains w part = false) :
    changedWord w = w := by
  have hnone : perspectives.lookup w = none := by
    refine List.lookup_eq_none_iff.2 fun p hp => bne_iff_ne.2 ?_
    rintro rfl
    rcases perspectives_parts p hp with hletter | hpart
    · exact hi hletter
    · obtain ⟨part, hmem, hin⟩ := List.any_eq_true.1 hpart
      rw [h part hmem] at hin
      cases hin
  rw [changedWord, hnone]
  rfl

theorem TurnsRight.turnedWord_eq (h : TurnsRight w) : turnedWord w = changedWord w := by
  rcases h with rfl | rfl | ⟨hi, hparts⟩
  · decide
  · decide
  · rw [turnedWord_eq_self hparts, changedWord_eq_self hi hparts]

theorem join_turned_eq_iff (hws : ∀ w ∈ ws, IsWord w) :
    Text.join " " (ws.map turnedWord) = Text.join " " (ws.map changedWord) ↔
      ∀ w ∈ ws, turnedWord w = changedWord w := by
  have hturned : ∀ w ∈ ws.map turnedWord, IsWord w := by
    intro w hw
    obtain ⟨v, hv, rfl⟩ := List.mem_map.1 hw
    exact isWord_turnedWord (hws v hv)
  have hchanged : ∀ w ∈ ws.map changedWord, IsWord w := by
    intro w hw
    obtain ⟨v, hv, rfl⟩ := List.mem_map.1 hw
    exact isWord_changedWord (hws v hv)
  rw [← List.map_inj_left]
  constructor
  · intro h
    rw [← Text.words_join hturned, h, Text.words_join hchanged]
  · intro h
    rw [h]

end

/-! ### Captures -/

/-- Goes along the input by one piece of a pattern.  What is left of the input, and the variable that
what comes next is kept in. -/
def takePiece (pieces : List String) (piece input : String) (pending : Option String) :
    Edit (Option (String × Option String)) :=
  match Segment.of piece with
  | .gap =>
    match pending with
    | none => return some (input, pending)
    | some name => do
      let input := turnedEnd input
      prepend name (Text.trim input)
      return some (input, pending)
  | .synonym name => do
    let left ← takeSynonym name piece input (← (← Edit.readVariable name).elements)
    return left.map (·, pending)
  | .capture name => do
    if pieces.idxOf piece == pieces.length - 1 then prepend name (Text.trim input)
    return some (input, if name.isEmpty then none else some name)
  | .literal text => do
    let cut? := Text.cut? text input
    match pending with
    | some name => prepend name (turned ((cut?.map (·.1)).getD input))
    | none => pure ()
    match cut? with
    | some (_, input) => return some (input, none)
    | none => throw .outOfRange

/-- Goes along the input by the first pieces of a pattern. -/
def takePieces (pieces : List String) : List String → Option (String × Option String) →
    Edit (Option (String × Option String))
  | [], left => return left
  | _, none => return none
  | piece :: rest, some (input, pending) => do
    takePieces pieces rest (← takePiece pieces piece input pending)

def captureRest (pieces rest : List String) : Option (String × Option String) → Edit Bool
  | some (input, pending) => capture pieces rest input pending
  | none => return false

theorem capture_cons (pieces rest : List String) (piece input : String) (pending : Option String) :
    capture pieces (piece :: rest) input pending =
      takePiece pieces piece input pending >>= captureRest pieces rest := by
  unfold capture takePiece
  cases Segment.of piece with
  | gap =>
    cases pending with
    | none => rfl
    | some name => simp only [bind_assoc, pure_bind]; rfl
  | synonym name =>
    simp only [bind_assoc, pure_bind]
    refine bind_congr fun value => bind_congr fun options => bind_congr fun left => ?_
    cases left <;> rfl
  | capture name =>
    dsimp only
    split <;> simp only [bind_assoc, pure_bind] <;> rfl
  | literal text =>
    dsimp only
    generalize Text.cut? text input = found
    cases pending <;> cases found <;> simp only [bind_assoc, pure_bind] <;> rfl

theorem captureRest_append (pieces front rest : List String) (left : Option (String × Option String)) :
    captureRest pieces (front ++ rest) left =
      takePieces pieces front left >>= captureRest pieces rest := by
  induction front generalizing left with
  | nil => rfl
  | cons piece front ih =>
    cases left with
    | none => rfl
    | some left =>
      rw [List.cons_append, captureRest, capture_cons, takePieces, bind_assoc]
      exact bind_congr fun left => ih left

/-- The input comes to a piece that captures in front of a literal one: `before` stands in front of the
literal in what the pieces before have left of the input, and `after` behind it. -/
structure Meets (input : String) (pieces rest : List String) (name before after : String)
    (d d' : Draft) : Prop where
  reached : ∃ front piece next text left pending, pieces = front ++ piece :: next :: rest ∧
    takePieces pieces front (some (Text.trim input, none)) d = .ok (some (left, pending)) d' ∧
    Segment.of piece = .capture name ∧ Segment.of next = .literal text ∧
    Text.cut? text left = some (before, after)
  named : name ≠ ""

variable {pieces rest : List String} {input name before after entry : String} {d d' : Draft}

theorem prepend_newest {entries : Entries} (hbindings : d.conversation.bindings = .table entries)
    (name value : String) : ∃ d', prepend name value d = .ok () d' ∧ d'.HasNewest name value := by
  obtain ⟨older, hrun⟩ | ⟨items, n, -, hrun⟩ := prepend_cases hbindings name value
  · exact ⟨_, hrun, _, older, none, rfl, Entries.find?_insert_self ..⟩
  · exact ⟨_, hrun, _, items, some n, rfl, Entries.find?_insert_self ..⟩

/-- A piece that is not the last one captures what stands in front of the next. -/
theorem capture_before_literal {front : List String} {piece next text left : String}
    {pending : Option String} (hname : Segment.of piece = .capture name) (hne : name ≠ "")
    (htext : Segment.of next = .literal text) (hcut : Text.cut? text left = some (before, after)) :
    capture (front ++ piece :: next :: rest) (piece :: next :: rest) left pending = (do
      prepend name (turned before)
      capture (front ++ piece :: next :: rest) rest after none) := by
  have hindex : ((front ++ piece :: next :: rest).idxOf piece ==
      (front ++ piece :: next :: rest).length - 1) = false := by
    have hle : (front ++ piece :: next :: rest).idxOf piece ≤ front.length := by
      rw [List.idxOf_append]
      split
      · exact Nat.le_of_lt (List.idxOf_lt_length_of_mem ‹_›)
      · simp
    rw [beq_eq_false_iff_ne, List.length_append, List.length_cons, List.length_cons]
    omega
  have hnamed : name.isEmpty = false := String.isEmpty_eq_false_iff.2 hne
  have hfirst (pieces : List String)
      (hlast : (pieces.idxOf piece == pieces.length - 1) = false) :
      takePiece pieces piece left pending = return some (left, some name) := by
    unfold takePiece
    simp only [hname, hlast, hnamed, Bool.false_eq_true, if_false]
  have hsecond (pieces : List String) : takePiece pieces next left (some name) = (do
      prepend name (turned before)
      return some (after, none)) := by
    unfold takePiece
    simp only [htext, hcut]
    rfl
  rw [capture_cons, hfirst _ hindex, pure_bind, captureRest, capture_cons, hsecond, bind_assoc]
  rfl

theorem Meets.captured_eq (h : Meets input pieces rest name before after d d') :
    captured input (.pieces pieces) d = rescue (do
      prepend name (turned before)
      capture pieces rest after none) (fun _ => return true) d' := by
  obtain ⟨front, piece, next, text, left, pending, rfl, hfront, hname, htext, hcut⟩ := h.reached
  have hrun := captureRest_append (front ++ piece :: next :: rest) front (piece :: next :: rest)
    (some (Text.trim input, none))
  rw [captureRest] at hrun
  simp only [captured, rescue, hrun, bind_of_ok hfront, captureRest,
    capture_before_literal hname h.named htext hcut]

/-- What a pattern captures in front of a literal piece.  The words of the text there are turned each by
itself, by all entries of the table in turn.  They are those that the table says exactly if each word
is turned as it says; two words of the table are, and those that hold none of `am`, `my`, `me` and
`you` and are not `i`. -/
theorem respond_captures_turned {pattern response : String} {responses ws : List String}
    {d₁ d₂ : Draft} {entries : Entries} (htexts : texts entry = pattern :: responses)
    (hsearch : search (numberWildcards pattern) = .ok (.pieces pieces))
    (hstart : startCounting entry d = .ok () d₁)
    (hfits : fits d₁.conversation.bindings input pattern = .ok true)
    (hnext : nextResponse entry responses d₁ = .ok response d₂)
    (hmeets : Meets input pieces rest name before after d₂ d')
    (hbindings : d'.conversation.bindings = .table entries)
    (hws : ∀ w ∈ ws, IsWord w) (hbefore : Text.trim before = Text.join " " ws) :
    (∃ d'' : Draft, d''.HasNewest name (Text.join " " (ws.map turnedWord)) ∧
      respond input entry d = (do
        let found ← rescue (capture pieces rest after none) fun _ => return true
        return if found then some (Text.join " " (numbered 1 (Text.words response))) else none) d'') ∧
    (Text.join " " (ws.map turnedWord) = Text.join " " (ws.map changedWord) ↔
      ∀ w ∈ ws, turnedWord w = changedWord w) ∧
    (∀ w, TurnsRight w → turnedWord w = changedWord w) ∧
    ∀ p ∈ perspectives, turnedWord p.1 = p.2 ↔ p.1 = "am" ∨ p.1 = "you" := by
  obtain ⟨d'', hprepend, hnewest⟩ :=
    prepend_newest hbindings name (Text.join " " (ws.map turnedWord))
  refine ⟨⟨d'', hnewest, ?_⟩, join_turned_eq_iff hws, fun w hw => hw.turnedWord_eq,
    turnedWord_perspectives⟩
  have hcaptured : captured input (.pieces pieces) d₂ =
      rescue (capture pieces rest after none) (fun _ => return true) d'' := by
    rw [hmeets.captured_eq, turned_words hws hbefore]
    simp only [rescue, bind_of_ok hprepend]
  obtain ⟨fault, hnot, -⟩ | ⟨hnot, -⟩ | ⟨-, found, hfound, hrespond⟩ :=
    respond_cases hstart htexts input
  · cases hfits.symm.trans hnot
  · cases hfits.symm.trans hnot
  · obtain rfl := Except.ok.inj (hfound.symm.trans hsearch)
    rw [hrespond, answering, bind_of_ok hnext, bind_apply, hcaptured, bind_apply]

def wondering (text entry : String) : Conversation :=
  { scriptMeta := .emptyTable, filename := "wonder", startTime := 0, index := .int 0
    bindings := .object [("x", .str text), ("talk", .ofItems [.str entry])] }

theorem eq_ok_of_toOption {α : Type} {found : Except Fault α} {a : α}
    (h : found.toOption = some a) : found = .ok a := by
  cases found with
  | error fault => cases h
  | ok b => exact congrArg Except.ok (Option.some.inj h)

/-- Words that hold no other ones of the table are turned as it says. -/
theorem respond_captures_turned_tea :
    ∃ d : Draft, d.HasNewest "_wildcard_1" "i and tom" ∧
      respond " you and tom like tea " "\"* like tea\"\"why *\""
        { conversation := wondering "" "" } = .ok (some "why \x7b_wildcard_1\x7d") d := by
  let entry := "\"* like tea\"\"why *\""
  let d₁ : Draft := { conversation := { wondering "" "" with
    counters := .table [(.str entry, .int 0)] } }
  have htexts : texts entry = ["* like tea", "why *"] := by decide
  have hsearch : search (numberWildcards "* like tea") =
      .ok (.pieces ["\x7b_wildcard_1\x7d", " like tea"]) := eq_ok_of_toOption (by decide)
  have hfits : fits d₁.conversation.bindings " you and tom like tea " "* like tea" = .ok true :=
    eq_ok_of_toOption (by decide)
  have hstart : startCounting entry { conversation := wondering "" "" } = .ok () d₁ := rfl
  have hcounted : Counted entry ["why *"].length 0 d₁.conversation.counters :=
    ⟨_, 0, rfl, by simp [Entries.find?, Value.str_same], by simp, rfl⟩
  obtain ⟨response, names, hresponse, hnext, -⟩ := nextResponse_counted hcounted (by simp)
  obtain rfl : "why *" = response := by simpa using hresponse
  have hmeets : Meets " you and tom like tea " ["\x7b_wildcard_1\x7d", " like tea"] []
      "_wildcard_1" "you and tom" "" (counting names d₁) (counting names d₁) :=
    ⟨⟨[], "\x7b_wildcard_1\x7d", " like tea", " like tea", "you and tom like tea", none, rfl, by
      rw [show Text.trim " you and tom like tea " = "you and tom like tea" by decide]
      rfl, by decide, by decide, by decide⟩, by decide⟩
  have hbefore : Text.trim "you and tom" = Text.join " " ["you", "and", "tom"] := by decide
  have hturned : Text.join " " (["you", "and", "tom"].map turnedWord) = "i and tom" := by
    decide
  have hanswer : Text.join " " (numbered 1 (Text.words "why *")) = "why \x7b_wildcard_1\x7d" := by
    decide
  obtain ⟨⟨d, hnewest, hrespond⟩, -⟩ := respond_captures_turned htexts hsearch hstart hfits hnext
    hmeets rfl (by decide) hbefore
  rw [hturned] at hnewest
  rw [hanswer] at hrespond
  exact ⟨d, hnewest, hrespond⟩

end Pattern

def Session.ofWondering : Session :=
  { root := "/home", initialized := true
    active := [("ann", { user := "ann", stack := [.conversation
      (Pattern.wondering "my name is sam ok" "\"* is sam\" \"why *\"")] })] }

/-- What is captured of the words `my name` is not `your name`. -/
theorem Session.captures_turned_twice :
    ((ofWondering.answered "x").held "ann" "_wildcard_1").map Value.display = some "['ir naree']" ∧
    ["my", "name"].map Pattern.changedWord = ["your", "name"] := by
  decide +kernel

end Colloquy
