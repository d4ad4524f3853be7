import Colloquy.Proofs.Perspective

/-! What a wildcard stood for before.  A response that refers only to what the pattern in front of it
captures is filled with just that: two scripts that differ in nothing but their wildcards answer
alike.  A response that has a wildcard more is filled with what was captured by an earlier line. -/

namespace Colloquy

open Session Command Value Text Entries Substitution Pattern

namespace Pattern

variable {pieces rest : List String} {input name word entry pattern response : String}
  {responses names : List String} {found : Search} {d : Draft} {entries others : Entries}
  {items : List Value} {number : Option Nat} {position many n fuel : Nat} {counters : Value}
  {kept : List (String × String)} {template : Template}

/-! ### What a pattern captures -/

/-- What a pattern without names in brackets captures, by variable and in the order in which it is
kept. -/
def catches (pieces : List String) : List String → String → Option String → List (String × String)
  | [], _, _ => []
  | piece :: rest, input, pending =>
    match Segment.of piece with
    | .gap =>
      match pending with
      | none => catches pieces rest input none
      | some name =>
        (name, Text.trim (turnedEnd input)) :: catches pieces rest (turnedEnd input) (some name)
    | .synonym _ => []
    | .capture name =>
      let behind := catches pieces rest input (if name.isEmpty then none else some name)
      if pieces.idxOf piece == pieces.length - 1 then (name, Text.trim input) :: behind else behind
    | .literal text =>
      let cut? := Text.cut? text input
      let behind := match cut? with
        | some (_, input) => catches pieces rest input none
        | none => []
      match pending with
      | some name => (name, turned ((cut?.map (·.1)).getD input)) :: behind
      | none => behind

def Search.catches (input : String) : Search → List (String × String)
  | .whole _ => []
  | .pieces parts => Pattern.catches parts parts (Text.trim input) none

def Segment.isSynonym : Segment → Bool
  | .synonym _ => true
  | _ => false

def Search.isPlain : Search → Bool
  | .whole _ => true
  | .pieces parts => parts.all fun piece => !(Segment.of piece).isSynonym

/-- Keeps texts in front of the values of their variables. -/
def keepAll : List (String × String) → Edit Unit
  | [] => return ()
  | (name, value) :: rest => do
    prepend name value
    keepAll rest

theorem rescue_prepend (hbindings : d.conversation.bindings = .table entries) (name value : String)
    {body : Edit Bool}
    (hbody : ∀ d' names, d'.conversation.bindings = .table names →
      rescue body (fun _ => return true) d' = (do keepAll kept; return true : Edit Bool) d') :
    rescue (do prepend name value; body) (fun _ => return true) d =
      (do keepAll ((name, value) :: kept); return true : Edit Bool) d := by
  obtain ⟨d', hrun, names, _, _, htable, -⟩ := prepend_newest hbindings name value
  rw [keepAll, bind_assoc, bind_of_ok hrun, ← hbody d' names htable]
  simp only [rescue, bind_of_ok hrun]

theorem rescue_capture (hplain : ∀ piece ∈ rest, (Segment.of piece).isSynonym = false)
    (hbindings : d.conversation.bindings = .table entries) (input : String)
    (pending : Option String) :
    rescue (capture pieces rest input pending) (fun _ => return true) d =
      (do keepAll (catches pieces rest input pending); return true : Edit Bool) d := by
  induction rest generalizing input pending d entries with
  | nil => rfl
  | cons piece rest ih =>
    obtain ⟨hpiece, hrest⟩ := List.forall_mem_cons.1 hplain
    have hgo (input : String) (pending : Option String) (d' : Draft) (names : Entries)
        (htable : d'.conversation.bindings = .table names) := ih hrest htable input pending
    unfold capture catches
    cases hsegment : Segment.of piece with
    | gap =>
      cases pending with
      | none => exact hgo _ _ _ _ hbindings
      | some name => exact rescue_prepend hbindings _ _ (hgo _ _)
    | synonym name => simp [hsegment, Segment.isSynonym] at hpiece
    | capture name =>
      dsimp only
      split
      · exact rescue_prepend hbindings _ _ (hgo _ _)
      · exact hgo _ _ _ _ hbindings
    | literal text =>
      dsimp only
      generalize cut? text input = cut?
      cases pending with
      | none =>
        cases cut? with
        | none => rfl
        | some parts => exact hgo _ _ _ _ hbindings
      | some name =>
        cases cut? with
        | none => exact rescue_prepend hbindings _ _ fun _ _ _ => rfl
        | some parts => exact rescue_prepend hbindings _ _ (hgo _ _)

theorem captured_eq (hplain : found.isPlain = true)
    (hbindings : d.conversation.bindings = .table entries) (input : String) :
    captured input found d = (do keepAll (found.catches input); return true : Edit Bool) d := by
  cases found with
  | whole text => rfl
  | pieces parts => exact rescue_capture (by simpa [Search.isPlain] using hplain) hbindings _ _

/-! ### What is kept -/

def caught (name : String) : List (String × String) → Option String
  | [] => none
  | (other, value) :: rest => (caught name rest).or (if other = name then some value else none)

def numberOf (entries : Entries) (name : String) : Option Nat :=
  (entries.find? name).bind Value.listNumber

/-- No two of the variables hold the same list. -/
def Separate (names : List String) (entries : Entries) : Prop :=
  ∀ a ∈ names, ∀ b ∈ names, ∀ n, numberOf entries a = some n → numberOf entries b = some n → a = b

theorem prepend_separate (hbindings : d.conversation.bindings = .table entries)
    (hseparate : Separate names entries) (hname : name ∈ names) (value : String) :
    ∃ d' entries', prepend name value d = .ok () d' ∧ d'.conversation.bindings = .table entries' ∧
      Separate names entries' ∧ d'.HasNewest name value ∧
      ∀ other ∈ names, other ≠ name → ∀ v, d.HasNewest other v → d'.HasNewest other v := by
  obtain ⟨older, hrun⟩ | ⟨items, n, hfind, hrun⟩ := prepend_cases hbindings name value
  · have hnumber (a : String) (k : Nat) (hk : numberOf (entries.insert name
        (.list (.str value :: older) none)) a = some k) : numberOf entries a = some k := by
      by_cases ha : a = name
      · rw [ha, numberOf, find?_insert_self] at hk
        cases hk
      · rwa [numberOf, find?_insert_ne (Ne.symm ha)] at hk
    refine ⟨_, _, hrun, rfl, fun a ha b hb k hka hkb => ?_, ?_, fun other _ hne v hv => ?_⟩
    · exact hseparate a ha b hb k (hnumber a k hka) (hnumber b k hkb)
    · exact ⟨_, older, none, rfl, find?_insert_self ..⟩
    · obtain ⟨_, older', number, htable, hother⟩ := hv
      obtain rfl := table.inj (hbindings.symm.trans htable)
      exact ⟨_, older', number, rfl, (find?_insert_ne (Ne.symm hne) _ _).trans hother⟩
  · have hown : numberOf entries name = some n := by rw [numberOf, hfind]; rfl
    have hnumber (a : String) : numberOf (insert name (.list (.str value :: items) (some n))
        (changedEntries { number := n, items := .str value :: items } entries)) a =
          numberOf entries a := by
      by_cases ha : a = name
      · rw [ha, hown, numberOf, find?_insert_self]
        rfl
      · rw [numberOf, find?_insert_ne (Ne.symm ha), find?_changed, numberOf]
        cases entries.find? a with
        | none => rfl
        | some v => exact listNumber_changed _ v
    refine ⟨_, _, hrun, rfl, fun a ha b hb k hka hkb => ?_, ?_, fun other hother hne v hv => ?_⟩
    · exact hseparate a ha b hb k (hnumber a ▸ hka) (hnumber b ▸ hkb)
    · exact ⟨_, items, some n, rfl, find?_insert_self ..⟩
    · obtain ⟨_, older, number, htable, hfound⟩ := hv
      obtain rfl := table.inj (hbindings.symm.trans htable)
      have hnot : number ≠ some n := by
        rintro rfl
        exact hne (hseparate other hother name hname n (by rw [numberOf, hfound]; rfl) hown)
      refine ⟨_, changedItems { number := n, items := .str value :: items } older, number, rfl,
        (find?_insert_ne (Ne.symm hne) _ _).trans ?_⟩
      rw [find?_changed, hfound, Option.map_some, changed,
        if_neg (by simpa using hnot)]
      rfl

theorem keepAll_newest (hbindings : d.conversation.bindings = .table entries)
    (hseparate : Separate names entries) (hkept : ∀ p ∈ kept, p.1 ∈ names) :
    ∃ d' entries', keepAll kept d = .ok () d' ∧ d'.conversation.bindings = .table entries' ∧
      (∀ name v, caught name kept = some v → d'.HasNewest name v) ∧
      ∀ name ∈ names, ∀ v, caught name kept = none → d.HasNewest name v → d'.HasNewest name v := by
  induction kept generalizing d entries with
  | nil => exact ⟨d, entries, rfl, hbindings, nofun, fun _ _ _ _ h => h⟩
  | cons p rest ih =>
    obtain ⟨hfirst, hrest⟩ := List.forall_mem_cons.1 hkept
    obtain ⟨d₁, entries₁, hprepend, htable₁, hseparate₁, hnewest, hothers⟩ :=
      prepend_separate hbindings hseparate hfirst p.2
    obtain ⟨d', entries', hrun, htable, hcaught, hleft⟩ := ih htable₁ hseparate₁ hrest
    refine ⟨d', entries', (bind_of_ok hprepend).trans hrun, htable, fun name v hv => ?_,
      fun name hname v hv hbefore => ?_⟩
    · cases hbehind : caught name rest with
      | some w =>
        rw [caught, hbehind] at hv
        exact hcaught name v (hbehind.trans hv)
      | none =>
        rw [caught, hbehind] at hv
        by_cases hsame : p.1 = name
        · rw [if_pos hsame] at hv
          obtain rfl := Option.some.inj hv
          exact hsame ▸ hleft p.1 hfirst p.2 (hsame ▸ hbehind) hnewest
        · rw [if_neg hsame] at hv
          cases hv
    · obtain ⟨hbehind, hother⟩ := Option.or_eq_none_iff.1 hv
      have hne : p.1 ≠ name := fun heq => by simp [heq] at hother
      exact hleft name hname v hbehind (hothers name hname (Ne.symm hne) v hbefore)

/-! ### Going through a table -/

def synonyms : Nat → String → List String
  | 0, _ => []
  | fuel + 1, pattern =>
    match Text.cut? "[" pattern with
    | none => []
    | some (_, rest) =>
      match Text.cut? "]" rest with
      | none => []
      | some (name, rest) => name :: synonyms fuel rest

theorem synonymsOccur_congr (input : String)
    (h : ∀ name ∈ synonyms fuel pattern, find? (.str name) others = entries.find? name) :
    synonymsOccur (.table others) input fuel pattern =
      synonymsOccur (.table entries) input fuel pattern := by
  induction fuel generalizing pattern with
  | zero => rfl
  | succ fuel ih =>
    unfold synonyms at h
    unfold synonymsOccur
    cases hopens : cut? "[" pattern with
    | none => rfl
    | some parts =>
      cases hcloses : cut? "]" parts.2 with
      | none => simp only [hcloses]
      | some parts' =>
        simp only [hopens, hcloses, List.forall_mem_cons] at h
        have hitem : (table others).item (.str parts'.1) =
            (table entries).item (.str parts'.1) := by
          simp only [item, h.1]
        simp only [hcloses, hitem, ih h.2]

theorem entry_ne_empty (htexts : texts entry = pattern :: responses) : entry ≠ "" := by
  rintro rfl
  rw [show texts "" = [] by decide] at htexts
  cases htexts

def entryOf (word : String) : String :=
  Text.replace "\" \"" "\"\"" (Text.trim word)

/-- The table entry is empty, or its pattern does not fit. -/
def Skipped (entries : Entries) (input word : String) : Prop :=
  entryOf word = "" ∨ ∃ pattern responses, texts (entryOf word) = pattern :: responses ∧
    fits (.table entries) input pattern = .ok false

def bracketed (word : String) : List String :=
  match texts (entryOf word) with
  | [] => []
  | pattern :: _ => synonyms (numberWildcards pattern).length (numberWildcards pattern)

/-- Variables that are the same but for the wildcards. -/
def Alike (entries others : Entries) : Prop :=
  ∀ name, (∀ i, name ≠ Substitution.wildcardName i) →
    Entries.find? (.str name) others = entries.find? name

theorem Alike.fits_eq (h : Alike entries others)
    (hword : ∀ i, wildcardName i ∉ bracketed word)
    (htexts : texts (entryOf word) = pattern :: responses) (input : String) :
    fits (.table others) input pattern = fits (.table entries) input pattern := by
  rw [bracketed, htexts] at hword
  have hnames := synonymsOccur_congr input fun name hname =>
    h name fun i hi => hword i (hi ▸ hname)
  simp only [fits, hnames]

theorem Alike.skipped (h : Alike entries others)
    (hword : ∀ i, wildcardName i ∉ bracketed word) (hskipped : Skipped entries input word) :
    Skipped others input word := by
  obtain hempty | ⟨pattern, responses, htexts, hfits⟩ := hskipped
  · exact .inl hempty
  · exact .inr ⟨pattern, responses, htexts, (h.fits_eq hword htexts input).trans hfits⟩

/-- The draft in which a table is gone through, before anything is captured. -/
structure Seeks (entries : Entries) (entry : String) (many n : Nat) (d : Draft) : Prop where
  changes : d.changes = []
  bindings : d.conversation.bindings = .table entries
  counted : Counted entry many n d.conversation.counters

theorem Seeks.startCounting (h : Seeks entries entry many n d) (other : String) :
    ∃ d', startCounting other d = .ok () d' ∧ Seeks entries entry many n d' := by
  obtain ⟨d', hstart, ⟨names, rfl⟩, hcounted⟩ := startCounting_counted h.counted other
  exact ⟨_, hstart, h.changes, h.bindings, hcounted⟩

theorem firstResponse_item (hchanges : d.changes = [])
    (hword : items[position]? = some (.str word)) (input : String) (fuel : Nat) :
    firstResponse input (.list items number) (fuel + 1) position d =
      (if (entryOf word).isEmpty then firstResponse input (.list items number) fuel (position + 1)
      else do
        match ← respond input (entryOf word) with
        | some response => return some response
        | none => firstResponse input (.list items number) fuel (position + 1)) d := by
  have hat : entryAt? (.list items number) position d = .ok (some (.str word)) d := by
    simp only [entryAt?, Edit.itemsNow, bind_apply, get_apply, hchanges, List.find?_nil]
    exact congrArg (EStateM.Result.ok · d) hword
  rw [firstResponse, bind_of_ok hat, entryOf]
  exact bind_of_ok (lift_ok_apply _ _)

theorem firstResponse_skipped {skipped : List String} (hskipped : ∀ other ∈ skipped, Skipped entries input other)
    (hitems : ∀ i other, skipped[i]? = some other → items[position + i]? = some (.str other))
    (h : Seeks entries entry many n d) :
    ∃ d', Seeks entries entry many n d' ∧
      firstResponse input (.list items number) (fuel + skipped.length) position d =
        firstResponse input (.list items number) fuel (position + skipped.length) d' := by
  induction skipped generalizing position d with
  | nil => exact ⟨d, h, rfl⟩
  | cons other rest ih =>
    obtain ⟨hother, hrest⟩ := List.forall_mem_cons.1 hskipped
    have hnext (i : Nat) (later : String) (hlater : rest[i]? = some later) :
        items[position + 1 + i]? = some (.str later) := by
      rw [Nat.add_assoc, Nat.add_comm 1]
      exact hitems (i + 1) later hlater
    rw [List.length_cons, ← Nat.add_assoc, firstResponse_item h.changes (by exact hitems 0 other rfl),
      show position + (rest.length + 1) = position + 1 + rest.length by omega]
    obtain hempty | ⟨pattern, responses, htexts, hfits⟩ := hother
    · rw [if_pos (by simp [hempty])]
      exact ih hrest hnext h
    · obtain ⟨d', hstart, h'⟩ := h.startCounting (entryOf other)
      obtain ⟨fault, hnot, -⟩ | ⟨-, hrespond⟩ | ⟨hnot, -⟩ := respond_cases hstart htexts input
      · cases (h'.bindings ▸ hnot).symm.trans hfits
      · rw [if_neg (by simp [entry_ne_empty htexts]), bind_of_ok hrespond]
        exact ih hrest hnext h'
      · cases (h'.bindings ▸ hnot).symm.trans hfits

/-- The text that a reference to a variable is replaced by, behind what is kept. -/
def newest? (kept : List (String × String)) (entries : Entries) (name : String) : Option String :=
  (caught name kept).or <| match entries.find? name with
    | some (.list (.str text :: _) _) => some text
    | _ => none

theorem hasNewest_of_newest? {v : String} (hbindings : d.conversation.bindings = .table entries)
    (hnone : caught name kept = none) (h : newest? kept entries name = some v) : d.HasNewest name v := by
  rw [newest?, hnone, Option.none_or] at h
  split at h
  · rename_i hfind
    obtain rfl := Option.some.inj h
    exact ⟨_, _, _, hbindings, hfind⟩
  · cases h

/-- A table has a response for an input: the first entry that fits keeps what its pattern captures,
and the response whose turn it is refers to the names of the template. -/
structure Responds (counters : Value) (entries : Entries) (input : String) (items : List Value)
    (kept : List (String × String)) (template : Template) : Prop where
  chosen : ∃ skipped word behind pattern responses found n response,
    items = List.map .str skipped ++ .str word :: behind ∧
    (∀ other ∈ skipped, Skipped entries input other) ∧
    texts (entryOf word) = pattern :: responses ∧ fits (.table entries) input pattern = .ok true ∧
    search (numberWildcards pattern) = .ok found ∧ found.isPlain = true ∧
    found.catches input = kept ∧ Counted (entryOf word) responses.length n counters ∧
    responses[n % responses.length]? = some response ∧
    Substitution.withWildcards (Text.trim (Text.join " " (numbered 1 (Text.words response)))) =
      template.fill Substitution.braced
  clear : template.Clear

theorem Responds.alike (h : Responds counters entries input items kept template)
    (halike : Alike entries others)
    (hitems : ∀ word, .str word ∈ items → ∀ i, wildcardName i ∉ bracketed word) :
    Responds counters others input items kept template := by
  obtain ⟨skipped, word, behind, pattern, responses, found, n, response, rfl, hskipped, htexts, hfits,
    hrest⟩ := h.chosen
  refine ⟨⟨skipped, word, behind, pattern, responses, found, n, response, rfl, fun other hother =>
    halike.skipped (hitems other (by simp [hother])) (hskipped other hother), htexts, ?_, hrest⟩, h.clear⟩
  exact (halike.fits_eq (hitems word (by simp)) htexts input).trans hfits

theorem Responds.firstResponse {c : Conversation}
    (h : Responds c.counters entries input items kept template)
    (hbindings : c.bindings = .table entries) (hseparate : Separate names entries)
    (hkept : ∀ p ∈ kept, p.1 ∈ names) (number : Option Nat) (extra : Nat) :
    ∃ response d' entries', firstResponse input (.list items number) (items.length + extra) 0
        { conversation := c } = .ok (some response) d' ∧
      withWildcards (trim response) = template.fill braced ∧
      d'.conversation.bindings = .table entries' ∧
      ∀ name ∈ names, ∀ v, newest? kept entries name = some v → d'.HasNewest name v := by
  obtain ⟨skipped, word, behind, pattern, responses, found, n, response, rfl, hskipped, htexts, hfits,
    hsearch, hplain, rfl, hcounted, hresponse, hreads⟩ := h.chosen
  have hseeks : Seeks entries (entryOf word) responses.length n { conversation := c } :=
    ⟨rfl, hbindings, hcounted⟩
  have hitems (i : Nat) (other : String) (hother : skipped[i]? = some other) :
      (skipped.map str ++ .str word :: behind)[0 + i]? = some (.str other) := by
    have hlt : i < (skipped.map str).length := by
      simpa using (List.getElem?_eq_some_iff.1 hother).1
    rw [Nat.zero_add, List.getElem?_append_left hlt, List.getElem?_map, hother]
    rfl
  have hword : (skipped.map str ++ .str word :: behind)[0 + skipped.length]? =
      some (.str word) := by simp
  obtain ⟨d₁, hseeks₁, hskip⟩ := firstResponse_skipped hskipped hitems hseeks
  obtain ⟨d₂, hstart, hseeks₂⟩ := hseeks₁.startCounting (entryOf word)
  have hne : responses ≠ [] := by
    rintro rfl
    simp at hresponse
  obtain ⟨_, counters, hturn, hnext, -⟩ := nextResponse_counted hseeks₂.counted hne
  obtain rfl := Option.some.inj (hresponse.symm.trans hturn)
  obtain ⟨d', entries', hkeep, hentries', hcaught, hleft⟩ :=
    keepAll_newest (d := counting counters d₂) hseeks₂.bindings hseparate hkept
  have hrespond : respond input (entryOf word) d₁ =
      .ok (some (join " " (numbered 1 (words response)))) d' := by
    obtain ⟨fault, hnot, -⟩ | ⟨hnot, -⟩ | ⟨-, found', hfound, hrespond⟩ :=
      respond_cases hstart htexts input
    · cases (hseeks₂.bindings ▸ hnot).symm.trans hfits
    · cases (hseeks₂.bindings ▸ hnot).symm.trans hfits
    · obtain rfl := Except.ok.inj (hfound.symm.trans hsearch)
      rw [hrespond, answering, bind_of_ok hnext, bind_apply,
        captured_eq (d := counting counters d₂) hplain hseeks₂.bindings, bind_of_ok hkeep]
      rfl
  refine ⟨_, d', entries', ?_, hreads, hentries', fun name hname v hv => ?_⟩
  · rw [show (skipped.map str ++ .str word :: behind).length + extra =
        behind.length + extra + 1 + skipped.length by simp; omega, hskip,
      firstResponse_item hseeks₁.changes hword, if_neg (by simp [entry_ne_empty htexts]),
      bind_of_ok hrespond]
    rfl
  · cases hlast : caught name (found.catches input) with
    | some w =>
      rw [newest?, hlast] at hv
      exact hcaught name v (hlast.trans hv)
    | none => exact hleft name hname v hlast (hasNewest_of_newest? hseeks₂.bindings hlast hv)

end Pattern

namespace Running

variable {user : Value} {c : Conversation} {bindings : Entries} {s : Session} {message : Message}
  {template : Template} {newest : String → String} {line name target text : String}
  {items : List Value} {number : Option Nat} {kept : List (String × String)}

theorem substitute_response (h : Running user c bindings s) (hmessage : s.message = some message)
    (hsingle : message.Single) (hclear : template.Clear) {response : String}
    (hresponse : withWildcards (trim response) =
      template.fill braced)
    (hnames : ∀ name ∈ template.names, Referable name ∧ '\x7b' ∉ (newest name).toList ∧
      ∃ older number, bindings.find? name = some (.list (.str (newest name) :: older) number)) :
    substitute user (.str response) true s =
      .ok (template.fill fun name => shown (newest name)) s := by
  rw [← h.substitute_template hmessage hsingle hclear hnames, ← hresponse]
  have htrim : trim (withWildcards (trim response)) =
      withWildcards (trim response) := trim_inQuotes _
  simp only [substitute, bind_apply, text, lift_ok_apply, htrim, if_true,
    Bool.false_eq_true, if_false]

/-- A line that answers the text of a variable by a table.  What is captured is put into neither of
them, and no two of the names share a list. -/
structure Asks (user : Value) (c : Conversation) (bindings : Entries) (line name target text : String)
    (items : List Value) (number : Option Nat) (names : List String) (s : Session) : Prop where
  running : Running user c bindings s
  message : ∃ m, s.message = some m ∧ m.Single
  index : ∃ i, c.index = .int i
  line : Rephrases bindings line name target (.list items number)
  passes : Pattern.Passes bindings name (.list items number)
  held : s.held user name = some (.str text)
  separate : Pattern.Separate names bindings

/-- The references of a response are replaced by what was kept last, or else by what was there. -/
theorem Asks.answerPattern_newest
    (h : Asks user c bindings line name target text items number
      (kept.map Prod.fst ++ template.names) s)
    (hresponds : Responds c.counters bindings (" " ++ text ++ " ") items kept template)
    (hnames : ∀ name ∈ template.names, Referable name ∧
      '\x7b' ∉ (newest name).toList ∧ newest? kept bindings name = some (newest name)) :
    ∃ t, answerPattern user (.str line) s = .ok () t ∧
      t.held user name = some (if target = name then .list (.str (template.fill fun name =>
        shown (newest name)) :: history (some (.str text))) none else .str text) := by
  obtain ⟨m, hmessage, hsingle⟩ := h.message
  obtain ⟨i, hindex⟩ := h.index
  obtain ⟨response, d, entries, hfirst, hreads, hentries, hnewest⟩ := hresponds.firstResponse
    h.running.bindings h.separate
    (fun p hp => List.mem_append_left _ (List.mem_map_of_mem hp)) number extraEntries
  obtain ⟨u, next, names, hedit, hrunning, hfound, hsame⟩ := h.running.edits hfirst hentries
  have hfilled (name : String) (hname : name ∈ template.names) : Referable name ∧
      '\x7b' ∉ (newest name).toList ∧
      ∃ older number, names.find? name = some (.list (.str (newest name) :: older) number) := by
    obtain ⟨hreferable, hopens, hlast⟩ := hnames name hname
    obtain ⟨_, older, n, htable, hfind⟩ := hnewest name (List.mem_append_right _ hname) _ hlast
    obtain rfl := table.inj (hentries.symm.trans htable)
    have hcopied := hfound name
    rw [hfind, hrunning.held, Option.map_some, copied] at hcopied
    obtain ⟨value, hvalue, hcopy⟩ := Option.map_eq_some_iff.1 hcopied
    obtain ⟨items, number, rfl, hitems⟩ := list_of_copied hcopy
    obtain ⟨first, older', rfl, hfirst, -⟩ := List.map_eq_cons_iff.1 hitems
    obtain rfl := str_of_copied hfirst
    exact ⟨hreferable, hopens, older', number, hvalue⟩
  have houtput := hrunning.substitute_response (hsame.trans hmessage) hsingle hresponds.clear hreads
    hfilled
  obtain ⟨t, hrun, hanswer⟩ :=
    h.running.answerPattern_held hindex h.line h.passes rfl h.held hedit houtput rfl
  refine ⟨t, hrun, ?_⟩
  rw [hanswer, Template.fill, trim_inQuotes]

/-- Two scripts that are the same but for their wildcards give the same answer, if the pattern that
fits captures each wildcard of the response and no pattern has a wildcard in brackets. -/
theorem answerPattern_wildcards {others : Entries} {t : Session}
    (h : Asks user c bindings line name target text items number
      (kept.map Prod.fst ++ template.names) s)
    (h' : Asks user { c with bindings := .table others } others line name target text items number
      (kept.map Prod.fst ++ template.names) t)
    (halike : Pattern.Alike bindings others)
    (hitems : ∀ word, .str word ∈ items →
      ∀ i, Substitution.wildcardName i ∉ Pattern.bracketed word)
    (hresponds : Pattern.Responds c.counters bindings (" " ++ text ++ " ") items kept template)
    (hnames : ∀ name ∈ template.names, Substitution.Referable name ∧
      '\x7b' ∉ (newest name).toList ∧ Pattern.newest? kept bindings name = some (newest name))
    (hcaught : ∀ i, Substitution.wildcardName i ∈ template.names →
      Pattern.caught (Substitution.wildcardName i) kept ≠ none) :
    ∃ u v, answerPattern user (.str line) s = .ok () u ∧ answerPattern user (.str line) t = .ok () v ∧
      u.held user name = v.held user name ∧
      u.held user name = some (if target = name then .list (.str (template.fill fun name =>
        Substitution.shown (newest name)) :: Value.history (some (.str text))) none else .str text) := by
  obtain ⟨u, hrun, hheld⟩ := h.answerPattern_newest hresponds hnames
  obtain ⟨v, hrun', hheld'⟩ := h'.answerPattern_newest (hresponds.alike halike hitems)
    fun name hname => by
      obtain ⟨hreferable, hopens, hnewest⟩ := hnames name hname
      refine ⟨hreferable, hopens, ?_⟩
      by_cases hwildcard : ∃ i, name = Substitution.wildcardName i
      · obtain ⟨i, rfl⟩ := hwildcard
        obtain ⟨w, hw⟩ := Option.ne_none_iff_exists'.1 (hcaught i hname)
        rwa [Pattern.newest?, hw] at hnewest ⊢
      · rwa [Pattern.newest?, halike name (not_exists.1 hwildcard)]
  exact ⟨u, v, hrun, hrun', hheld.trans hheld'.symm, hheld⟩

def musingTable : List Value :=
  ["\"hello\" \"you said *\"", "\"i like *\" \"why *\""]

def musings (text : String) (captured : Entries) : Entries :=
  ("x", .str text) :: ("talk", .ofItems musingTable) :: captured

def musing (text : String) (captured : Entries) : Session :=
  { root := "/home", initialized := true, message := some {}
    active := [("ann", { user := "ann", stack := [.conversation { Pattern.wondering "" "" with
      bindings := .table (musings text captured) }] })] }

theorem musing_asks (captured : Entries) :
    Asks "ann" { wondering "" "" with bindings := .table (musings "i like cats" captured) }
      (musings "i like cats" captured) "sub_key\x7bx,talk\x7d" "x" "x" "i like cats" musingTable none
      ["_wildcard_1", "_wildcard_1"] (musing "i like cats" captured) := by
  have hrunning : Running "ann" { wondering "" "" with
      bindings := .table (musings "i like cats" captured) } (musings "i like cats" captured)
      (musing "i like cats" captured) :=
    ⟨rfl, rfl, ⟨_, [], by simp only [managerIn, musing, List.find?, str_same]; rfl, rfl⟩, rfl,
      ⟨_, rfl⟩⟩
  have hlist : trim "talk" = "talk" := by decide
  refine ⟨hrunning, ⟨_, rfl, single_empty⟩, ⟨0, rfl⟩, ⟨⟨"talk", by decide, ?_⟩, by decide⟩,
    ⟨_, rfl, fun word hword target htarget => ⟨?_, fun _ _ h => h⟩⟩, ?_, by simp [Separate]⟩
  · simp [hlist, musings, find?, str_same, ofItems]
  · have hword : word = "\"hello\" \"you said *\"" ∨ word = "\"i like *\" \"why *\"" := by
      simpa [musingTable] using hword
    rintro rfl
    rcases hword with rfl | rfl
    · exact absurd htarget (by decide)
    · exact absurd htarget (by decide)
  · simp [hrunning.held, musings, find?, str_same, copied]

theorem musing_responds (captured : Entries) :
    Responds .emptyTable (musings "i like cats" captured) (" " ++ "i like cats" ++ " ")
      musingTable [("_wildcard_1", "cats")] ⟨"why ", [("_wildcard_1", "")]⟩ := by
  have hskipped : Skipped (musings "i like cats" captured) (" " ++ "i like cats" ++ " ")
      "\"hello\" \"you said *\"" :=
    .inr ⟨"hello", ["you said *"], by decide, rfl⟩
  refine ⟨⟨["\"hello\" \"you said *\""], "\"i like *\" \"why *\"", [], "i like *", ["why *"],
    .pieces ["i like ", "\x7b_wildcard_1\x7d"], 0, "why *", rfl, by simpa using hskipped,
    by decide, rfl, eq_ok_of_toOption (by decide), by decide,
    by decide, ⟨[], 0, rfl, rfl, by simp, rfl⟩, rfl, by decide⟩,
    ⟨by decide, by decide, by decide⟩⟩

/-- What was captured of an earlier text is not in the answer. -/
theorem answerPattern_wildcards_cats :
    ∃ u v, answerPattern "ann" "sub_key\x7bx,talk\x7d" (musing "i like cats" []) = .ok () u ∧
      answerPattern "ann" "sub_key\x7bx,talk\x7d"
        (musing "i like cats" [("_wildcard_1", .ofItems ["dogs"])]) = .ok () v ∧
      u.held "ann" "x" = v.held "ann" "x" ∧
      u.held "ann" "x" = some (.ofItems ["\"why cats\"", "i like cats"]) := by
  have hwildcard : Substitution.wildcardName 1 = "_wildcard_1" := by decide
  have halike : Pattern.Alike (musings "i like cats" [])
      (musings "i like cats" [("_wildcard_1", .ofItems ["dogs"])]) := by
    intro name hname
    have hne : "_wildcard_1" ≠ name := fun h => hname 1 (h.symm.trans hwildcard.symm)
    simp [musings, Entries.find?, Value.str_same, hne]
  have hitems (word : String) (hword : .str word ∈ musingTable) (i : Nat) :
      Substitution.wildcardName i ∉ Pattern.bracketed word := by
    have hword : word = "\"hello\" \"you said *\"" ∨ word = "\"i like *\" \"why *\"" := by
      simpa [musingTable] using hword
    have hnone : Pattern.bracketed word = [] := by
      rcases hword with rfl | rfl <;> decide
    simp [hnone]
  have hnames : ∀ name ∈ (⟨"why ", [("_wildcard_1", "")]⟩ : Template).names,
      Substitution.Referable name ∧ '\x7b' ∉ "cats".toList ∧
        Pattern.newest? [("_wildcard_1", "cats")] (musings "i like cats" []) name = some "cats" := by
    intro name hname
    obtain rfl : name = "_wildcard_1" := by simpa [Template.names] using hname
    exact ⟨⟨by decide, by decide, by decide, by decide⟩, by decide, rfl⟩
  have hcaught (i : Nat)
      (hi : Substitution.wildcardName i ∈ (⟨"why ", [("_wildcard_1", "")]⟩ : Template).names) :
      Pattern.caught (Substitution.wildcardName i) [("_wildcard_1", "cats")] ≠ none := by
    have hi : Substitution.wildcardName i = "_wildcard_1" := by simpa [Template.names] using hi
    simp [hi, Pattern.caught]
  have hanswer : ((⟨"why ", [("_wildcard_1", "")]⟩ : Template).fill fun _ =>
      Substitution.shown "cats") = "\"why cats\"" := by decide
  obtain ⟨u, v, hrun, hrun', hsame, hheld⟩ := answerPattern_wildcards (musing_asks []) (musing_asks _)
    halike hitems (musing_responds []) hnames hcaught
  refine ⟨u, v, hrun, hrun', hsame, ?_⟩
  rw [hheld, hanswer]
  rfl

/-- A response with a wildcard that the pattern does not capture repeats an earlier capture. -/
theorem uncaught_wildcard_repeated :
    (((musing "hello" [("_wildcard_1", .ofItems ["cats"])]).answered "x").held "ann" "x").map
      Value.display = some "['\"you said cats\"', 'hello']" ∧
    (((musing "hello" []).answered "x").held "ann" "x").map Value.display =
      some "['\"you said \"', 'hello']" := by
  decide +kernel

end Running

end Colloquy
