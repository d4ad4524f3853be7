import Colloquy.Proofs.Tallies

/-! Responses take turns.  Each time the pattern of an entry fits what was said, the next response of
the entry is chosen, and after the last one the first.  How often an entry was used is counted for
each script.  The count goes on over all commands and over all lists that have the entry, it is kept
while other scripts run above, and it also goes on if the response is dropped for the place of a
synonym. -/

namespace Colloquy

open Session Request Pattern List

variable {pattern : String}

/-! ### Choices -/

namespace Pattern

/-- Whether the texts of a pattern occur in an input, with a synonym for each name in brackets. -/
def fits (bindings : Value) (input pattern : String) : Except Fault Bool := do
  let pattern := numberWildcards pattern
  let search ← search pattern
  let synonyms ← synonymsOccur bindings input pattern.length pattern
  return occurs input search && synonyms

def result? {α : Type} (body : Edit α) (d : Draft) : Option α :=
  match body d with
  | .ok a _ => some a
  | .error .. => none

/-- What happens when the pattern of an entry fits: the response that is chosen, the counter that is
kept, and the answer, which is dropped if a synonym stands in the wrong place. -/
structure Choice where
  entry : String
  response : Option String
  count : Option Value
  answer : Option String

def Choice.of (entry : String) (responses : List String) (answer : Option String) (d : Draft) :
    Choice where
  entry
  response := result? (nextResponse entry responses) d
  count := ((d.after (nextResponse entry responses)).conversation.counters.get entry).toOption
  answer

/-- The choice that an entry leads to, if its pattern fits. -/
def choice? (input entry : String) (d : Draft) : Option Choice :=
  match texts entry with
  | [] => none
  | pattern :: responses =>
    let counting := d.after (startCounting entry)
    match fits counting.conversation.bindings input pattern with
    | .ok true => some (.of entry responses (result? (respond input entry) d).join counting)
    | _ => none

/-- The choices of one entry of a list and, unless it has a response, of those behind it. -/
def choicesFrom (input entry : String) (behind : Draft → List Choice) (d : Draft) : List Choice :=
  if entry.isEmpty then behind d
  else (choice? input entry d).toList ++
    match respond input entry d with
    | .ok none d => behind d
    | _ => []

def choices (input : String) (entries : Value) : Nat → Nat → Draft → List Choice
  | 0, _, _ => []
  | fuel + 1, position, d =>
    match entryAt? entries position d with
    | .ok (some (.str entry)) _ =>
      choicesFrom input (Text.replace "\" \"" "\"\"" (Text.trim entry))
        (choices input entries fuel (position + 1)) d
    | _ => []

/-! ### The turn of an entry -/

/-- The counters after an entry with so many responses was used `n` times. -/
def Counted (entry : String) (many n : Nat) (counters : Value) : Prop :=
  ∃ (names : Entries) (count : Nat), counters = .table names ∧
    (names.find? entry).getD (.int 0) = .int count ∧ count ≤ many ∧ count % many = n % many

def counting (names : Entries) (d : Draft) : Draft :=
  { d with conversation := { d.conversation with counters := .table names } }

/-- The choices of an entry that was used `n` times before take turns. -/
def Rotates (entry : String) (responses : List String) (n : Nat) (choices : List Choice) : Prop :=
  ∀ i choice, (choices.filter (·.entry = entry))[i]? = some choice →
    ∃ response, responses[(n + i) % responses.length]? = some response ∧
      choice.response = some response ∧
      choice.count = some (.int ((n + i) % responses.length + 1 : Nat)) ∧
      ∀ answer ∈ choice.answer, answer = Text.join " " (numbered 1 (Text.words response))

def uses (entry : String) (choices : List Choice) : Nat :=
  (choices.filter (·.entry = entry)).length

section

variable {entry other input : String} {responses : List String} {many n : Nat} {d : Draft}

theorem Rotates.append {made more : List Choice} (h : Rotates entry responses n made)
    (h' : Rotates entry responses (n + uses entry made) more) :
    Rotates entry responses n (made ++ more) := by
  intro i choice hchoice
  rw [filter_append] at hchoice
  by_cases hi : i < uses entry made
  · rw [getElem?_append_left hi] at hchoice
    exact h i choice hchoice
  · rw [getElem?_append_right (Nat.not_lt.1 hi)] at hchoice
    have hlater := h' _ choice hchoice
    rwa [Nat.add_assoc, show (filter _ made).length = uses entry made from rfl,
      Nat.add_sub_cancel' (Nat.not_lt.1 hi)] at hlater

theorem Counted.insert_ne {names : Entries} (h : Counted entry many n (.table names))
    (hne : other ≠ entry) (value : Value) :
    Counted entry many n (.table (names.insert other value)) := by
  obtain ⟨_, count, htable, hcount, hle, hmod⟩ := h
  obtain rfl := Value.table.inj htable
  exact ⟨_, count, rfl, by rwa [Entries.find?_insert_ne hne], hle, hmod⟩

theorem startCounting_counted (h : Counted entry many n d.conversation.counters) (other : String) :
    ∃ d', startCounting other d = .ok () d' ∧ (∃ names, d' = counting names d) ∧
      Counted entry many n d'.conversation.counters := by
  obtain ⟨names, count, htable, hcount, hle, hmod⟩ := id h
  have hentries : d.conversation.counters.entries = .ok names := by rw [htable]; rfl
  have hput : d.conversation.counters.put (.str other) (.int 0) =
      .ok (.table (names.insert other (.int 0))) := by rw [htable]; rfl
  rw [startCounting, bind_of_ok (Edit.read_apply d), hentries, bind_of_ok (lift_ok_apply _ _), hput]
  cases hnew : Entries.find? other names with
  | some old =>
    rw [if_neg (by simp [Entries.has, hnew])]
    exact ⟨d, rfl, ⟨names, by rw [counting, ← htable]⟩, h⟩
  | none =>
    rw [if_pos (by simp [Entries.has, hnew])]
    refine ⟨_, rfl, ⟨_, rfl⟩, ?_⟩
    by_cases hne : other = entry
    · subst hne
      refine ⟨_, count, rfl, ?_, hle, hmod⟩
      rw [Entries.find?_insert_self]
      rwa [hnew] at hcount
    · exact (htable ▸ h).insert_ne hne _

theorem nextResponse_counted (h : Counted entry responses.length n d.conversation.counters)
    (hne : responses ≠ []) : ∃ response names, responses[n % responses.length]? = some response ∧
      nextResponse entry responses d = .ok response (counting names d) ∧
      Entries.find? entry names = some (.int (n % responses.length + 1 : Nat)) := by
  obtain ⟨names, count, htable, hcount, hle, hmod⟩ := h
  have hpos : 0 < responses.length := length_pos_iff.2 hne
  have hturn : (if responses.length ≤ count then 0 else count) = n % responses.length := by
    rw [← hmod]
    split
    · rw [show count = responses.length by omega, Nat.mod_self]
    · rw [Nat.mod_eq_of_lt (by omega)]
  have hlt : n % responses.length < responses.length := Nat.mod_lt _ hpos
  have hget : d.conversation.counters.get entry (.int 0) = .ok (.int count) := by
    simp only [htable, Value.get, Value.isKey, if_true, hcount]
  have hitem : (Value.ofItems (responses.map .str)).item (.int (n % responses.length : Nat)) =
      .ok (.str responses[n % responses.length]) := by
    refine Value.itemAt_nat ?_
    rw [getElem?_map, getElem?_eq_getElem hlt]
    rfl
  have hput (value : Value) : d.conversation.counters.put entry value =
      .ok (.table (names.insert entry value)) := by rw [htable]; rfl
  refine ⟨_, _, getElem?_eq_getElem hlt, ?_, Entries.find?_insert_self entry _ names⟩
  have hstep (turn : Value) (hturn : turn = .int (n % responses.length : Nat)) : (do
      let response ← (Value.ofItems (responses.map .str)).item turn
      let counters ← (← Edit.read).counters.put entry (← turn.addInt 1)
      Edit.update fun c => { c with counters }
      response.text : Edit String) d = .ok responses[n % responses.length]
        (counting (names.insert entry (.int (n % responses.length + 1 : Nat))) d) := by
    simp only [hturn, hitem, lift_ok_apply, bind_apply, Edit.read_apply, hput, Value.addInt,
      Value.asInt?, Value.text]
    rfl
  rw [nextResponse, bind_of_ok (Edit.read_apply d), hget, bind_of_ok (lift_ok_apply _ _),
    Value.compare_int, bind_of_ok (lift_ok_apply _ _)]
  by_cases hover : responses.length ≤ count
  · rw [if_pos hover] at hturn
    rw [if_pos (by simpa using hover)]
    exact hstep _ (by rw [← hturn]; rfl)
  · rw [if_neg hover] at hturn
    rw [if_neg (by simpa using hover)]
    exact hstep _ (by rw [← hturn])

theorem nextResponse_counted_ne (h : Counted entry many n d.conversation.counters)
    (hne : other ≠ entry) (responses : List String) :
    Counted entry many n (d.after (nextResponse other responses)).conversation.counters := by
  let D (d : Draft) : Prop := Counted entry many n d.conversation.counters
  refine Draft.after_bind (D := D) h fun c d' hread hd => ?_
  cases hread
  refine Draft.after_lift_bind hd fun used _ => Draft.after_lift_bind hd fun isOver _ => ?_
  extract_lets rest
  have hrest (turn : Value) : D (d.after (rest turn)) := by
    refine Draft.after_lift_bind hd fun response _ => ?_
    refine Draft.after_bind (D := D) hd fun c d' hread _ => ?_
    cases hread
    refine Draft.after_lift_bind hd fun next _ => Draft.after_lift_bind hd fun counters hput => ?_
    obtain ⟨names, _, htable, -⟩ := id h
    rw [htable] at h hput
    cases hput
    exact Draft.after_bind (D := D) (h.insert_ne hne _) fun _ d' _ hd' => (Retains.baseLaw D).lift _ d' hd'
  clear_value rest
  split
  · exact hrest _
  · exact hrest _

/-! ### The entries of a list -/

theorem rotates_nil : Rotates entry responses n [] :=
  fun i choice hchoice => by simp at hchoice

/-- What an entry does from the choice of a response on. -/
def answering (input entry : String) (responses : List String) (search : Search) :
    Edit (Option String) := do
  let response ← nextResponse entry responses
  let response := Text.join " " (numbered 1 (Text.words response))
  return if ← captured input search then some response else none

theorem answering_counted (htexts : texts entry = pattern :: responses) (hne : responses ≠ [])
    (h : Counted entry responses.length n d.conversation.counters) {pattern' : String}
    {responses' : List String} (hother : texts other = pattern' :: responses') (input : String)
    (search : Search) {answer : Option String}
    (hanswer : answer = (result? (answering input other responses' search) d).join) :
    Rotates entry responses n [.of other responses' answer d] ∧
      Counted entry responses.length (n + uses entry [.of other responses' answer d])
        (d.after (answering input other responses' search)).conversation.counters := by
  have hcaptured (response : String) (d : Draft) : (d.after (do
      return if ← captured input search then some response else none)).conversation.counters =
        d.conversation.counters :=
    Fixes.bind (Fixes.counters.captures.captured input fun _ _ _ _ _ _ => trivial) (fun _ => .pure _) d
  by_cases hsame : other = entry
  · subst hsame
    obtain ⟨-, rfl⟩ := List.cons.inj (hother.symm.trans htexts)
    obtain ⟨response, names, hresponse, hrun, hfound⟩ := nextResponse_counted h hne
    have hpos : 0 < responses'.length := length_pos_iff.2 hne
    have hlt : n % responses'.length < responses'.length := Nat.mod_lt _ hpos
    constructor
    · intro i choice hchoice
      obtain ⟨rfl, rfl⟩ : i = 0 ∧ .of other responses' answer d = choice := by
        cases i with
        | zero => simpa [Choice.of] using hchoice
        | succ i => simp [Choice.of] at hchoice
      refine ⟨response, hresponse, by rw [Choice.of, result?, hrun], ?_, fun answer' hmem => ?_⟩
      · simp only [Choice.of, hrun, Draft.after, counting, Value.get, Value.isKey, if_true, hfound]
        rfl
      · have hmem : answer' ∈ answer := hmem
        rw [hanswer, result?, answering, bind_of_ok hrun, bind_apply] at hmem
        cases hfound : captured input search (counting names d) with
        | error fault d' =>
          rw [hfound] at hmem
          cases hmem
        | ok found d' =>
          rw [hfound] at hmem
          cases found with
          | false => cases hmem
          | true => exact (Option.some.inj hmem).symm
    · rw [answering, Draft.after, bind_of_ok hrun, ← Draft.after, hcaptured]
      refine ⟨names, n % responses'.length + 1, rfl, by rw [hfound]; rfl, hlt, ?_⟩
      simp [uses, Choice.of]
  · have hunused : [Choice.of other responses' answer d].filter (·.entry = entry) = [] := by
      simp [Choice.of, hsame]
    constructor
    · intro i choice hchoice
      simp [hunused] at hchoice
    · rw [uses, hunused]
      refine Draft.after_bind (D := fun d => Counted entry responses.length n d.conversation.counters)
        (nextResponse_counted_ne h hsame responses') fun response d' _ hd' => ?_
      rwa [hcaptured]

theorem respond_cases {d' : Draft} (hstart : startCounting entry d = .ok () d')
    (htexts : texts entry = pattern :: responses) (input : String) :
    (∃ fault, fits d'.conversation.bindings input pattern = .error fault ∧
        respond input entry d = .error fault d') ∨
      (fits d'.conversation.bindings input pattern = .ok false ∧
        respond input entry d = .ok none d') ∨
      fits d'.conversation.bindings input pattern = .ok true ∧
        ∃ found, search (numberWildcards pattern) = .ok found ∧
          respond input entry d = answering input entry responses found d' := by
  have hrespond : respond input entry d = (do
      let search ← search (numberWildcards pattern)
      let synonyms ← synonymsOccur (← Edit.read).bindings input (numberWildcards pattern).length
        (numberWildcards pattern)
      if occurs input search && synonyms then answering input entry responses search
      else return none : Edit _) d' := by
    rw [respond, bind_of_ok hstart, htexts]
    rfl
  rw [hrespond, fits]
  cases search (numberWildcards pattern) with
  | error fault => exact .inl ⟨fault, rfl, rfl⟩
  | ok found =>
    rw [bind_of_ok (lift_ok_apply _ _), bind_of_ok (Edit.read_apply d')]
    cases synonymsOccur d'.conversation.bindings input (numberWildcards pattern).length
        (numberWildcards pattern) with
    | error fault => exact .inl ⟨fault, rfl, rfl⟩
    | ok synonyms =>
      rw [bind_of_ok (lift_ok_apply _ _)]
      cases hfits : occurs input found && synonyms with
      | false => exact .inr (.inl ⟨congrArg Except.ok hfits, rfl⟩)
      | true => exact .inr (.inr ⟨congrArg Except.ok hfits, found, rfl, rfl⟩)

theorem respond_counted (htexts : texts entry = pattern :: responses) (hne : responses ≠ [])
    (h : Counted entry responses.length n d.conversation.counters) (input other : String) :
    Rotates entry responses n (choice? input other d).toList ∧
      Counted entry responses.length (n + uses entry (choice? input other d).toList)
        (d.after (respond input other)).conversation.counters := by
  obtain ⟨d', hstart, -, h'⟩ := startCounting_counted h other
  have hafter : d.after (startCounting other) = d' := by rw [Draft.after, hstart]
  cases hother : texts other with
  | nil =>
    have hrespond : respond input other d = .error .missingOperation d' := by
      rw [respond, bind_of_ok hstart, hother]
      rfl
    rw [show choice? input other d = none by rw [choice?, hother], Draft.after, hrespond]
    exact ⟨rotates_nil, h'⟩
  | cons pattern' responses' =>
    rw [choice?, hother]
    dsimp only
    rw [hafter]
    obtain ⟨fault, hfits, hrespond⟩ | ⟨hfits, hrespond⟩ | ⟨hfits, search, -, hrespond⟩ :=
      respond_cases hstart hother input
    · rw [hfits, Draft.after, hrespond]
      exact ⟨rotates_nil, h'⟩
    · rw [hfits, Draft.after, hrespond]
      exact ⟨rotates_nil, h'⟩
    · have hanswer : (result? (respond input other) d).join =
          (result? (answering input other responses' search) d').join := by
        rw [result?, hrespond, result?]
      rw [hfits, Draft.after, hrespond, ← Draft.after]
      exact answering_counted htexts hne h' hother input search hanswer

theorem uses_append (made more : List Choice) :
    uses entry (made ++ more) = uses entry made + uses entry more := by
  rw [uses, filter_append, length_append, uses, uses]

theorem choicesFrom_counted (htexts : texts entry = pattern :: responses) (hne : responses ≠ [])
    {behind : Draft → List Choice} {next : Edit (Option String)}
    (hbehind : ∀ n d, Counted entry responses.length n d.conversation.counters → Rotates entry responses n (behind d) ∧ Counted entry responses.length (n + uses entry (behind d)) (d.after next).conversation.counters)
    (h : Counted entry responses.length n d.conversation.counters) (input other : String) :
    Rotates entry responses n (choicesFrom input other behind d) ∧
      Counted entry responses.length (n + uses entry (choicesFrom input other behind d))
        (d.after (if other.isEmpty then next else do
          match ← respond input other with
          | some response => return some response
          | none => next)).conversation.counters := by
  by_cases hempty : other.isEmpty
  · rw [choicesFrom, if_pos hempty, if_pos hempty]
    exact hbehind n d h
  rw [choicesFrom, if_neg hempty, if_neg hempty]
  obtain ⟨hmade, hcounted⟩ := respond_counted htexts hne h input other
  rw [Draft.after] at hcounted
  rw [Draft.after, bind_apply]
  cases hrespond : respond input other d with
  | error fault d' =>
    rw [hrespond] at hcounted
    exact ⟨hmade.append rotates_nil, by rwa [append_nil]⟩
  | ok response d' =>
    rw [hrespond] at hcounted
    cases response with
    | some response => exact ⟨hmade.append rotates_nil, by rwa [append_nil]⟩
    | none =>
      obtain ⟨hmore, hcounted⟩ := hbehind _ d' hcounted
      rw [uses_append, ← Nat.add_assoc]
      exact ⟨hmade.append hmore, hcounted⟩

theorem after_entryAt? (entries : Value) (position : Nat) (d : Draft) :
    d.after (entryAt? entries position) = d := by
  unfold entryAt?
  split
  · rename_i items number
    simp only [Draft.after, Edit.itemsNow, bind_apply, get_apply]
    cases d.changes.find? (fun change => number == some change.number) <;> rfl
  · cases entries.elements <;> rfl

theorem choices_counted (htexts : texts entry = pattern :: responses) (hne : responses ≠ [])
    (input : String) (entries : Value) (fuel position : Nat)
    (h : Counted entry responses.length n d.conversation.counters) :
    Rotates entry responses n (choices input entries fuel position d) ∧
      Counted entry responses.length (n + uses entry (choices input entries fuel position d))
        (d.after (firstResponse input entries fuel position)).conversation.counters := by
  induction fuel generalizing position d n with
  | zero => exact ⟨rotates_nil, h⟩
  | succ fuel ih =>
    have hlook := after_entryAt? entries position d
    rw [Draft.after] at hlook
    rw [firstResponse, Draft.after]
    cases hentry : entryAt? entries position d with
    | error fault d' =>
      rw [hentry] at hlook
      rw [show choices input entries (fuel + 1) position d = [] by rw [choices, hentry],
        bind_of_error hentry, show d' = d from hlook]
      exact ⟨rotates_nil, h⟩
    | ok entry? d' =>
      rw [hentry] at hlook
      obtain rfl : d' = d := hlook
      rw [bind_of_ok hentry, ← Draft.after]
      cases entry? with
      | none =>
        rw [show choices input entries (fuel + 1) position d' = [] by rw [choices, hentry]]
        exact ⟨rotates_nil, h⟩
      | some value =>
        cases value with
        | str word =>
          rw [show choices input entries (fuel + 1) position d' = choicesFrom input
            (Text.replace "\" \"" "\"\"" (Text.trim word)) (choices input entries fuel (position + 1))
            d' by rw [choices, hentry]]
          have htext {f : String → Edit (Option String)} :
              d'.after (liftM (Value.text (.str word)) >>= f) = d'.after (f word) := rfl
          rw [htext]
          generalize Text.replace "\" \"" "\"\"" (Text.trim word) = other
          exact choicesFrom_counted htexts hne (fun n d => ih (n := n) (d := d) (position + 1)) h
            input _
        | _ =>
          rw [show choices input entries (fuel + 1) position d' = [] by rw [choices, hentry]]
          exact ⟨rotates_nil, h⟩

end

/-- What a line that names a text and a list goes by: the text with blanks around it, the list and
the number of entries that are gone through. -/
def consulted (name list : String) : Edit (String × Value × Nat) := do
  let input ← (← Edit.readVariable (.str (Text.trim name))).needle
  let entries ← Edit.readVariable (.str (Text.trim list))
  return (" " ++ input ++ " ", entries, (← entries.size) + extraEntries)

def answerFrom (name list : String) : Edit (Option String) := do
  let (input, entries, fuel) ← consulted name list
  firstResponse input entries fuel 0

def choicesFor (name list : String) (d : Draft) : List Choice :=
  match consulted name list d with
  | .ok (input, entries, fuel) d => choices input entries fuel 0 d
  | .error .. => []

theorem choicesFor_counted {entry : String} {responses : List String} {n : Nat} {d : Draft}
    (htexts : texts entry = pattern :: responses) (hne : responses ≠ [])
    (h : Counted entry responses.length n d.conversation.counters) (name list : String) :
    Rotates entry responses n (choicesFor name list d) ∧
      Counted entry responses.length (n + uses entry (choicesFor name list d))
        (d.after (answerFrom name list)).conversation.counters := by
  have hsame : (d.after (consulted name list)).conversation.counters = d.conversation.counters := by
    refine Fixes.bind (Fixes.counters.readVariable _) (fun _ => .bind (.lift _) fun _ => ?_) d
    exact .bind (Fixes.counters.readVariable _) fun _ => .bind (.lift _) fun _ => .pure _
  rw [Draft.after] at hsame
  rw [choicesFor, answerFrom, Draft.after, bind_apply]
  cases hrun : consulted name list d with
  | error fault d' =>
    rw [hrun] at hsame
    exact ⟨rotates_nil, hsame.symm ▸ h⟩
  | ok found d' =>
    rw [hrun] at hsame
    exact choices_counted htexts hne _ _ _ _ (hsame.symm ▸ h)

end Pattern

/-! ### Commands -/

namespace Command

def choices (user text : Value) (s : Session) : List Pattern.Choice :=
  match current user s with
  | .ok c _ =>
    match rephraseNames (some c) text s with
    | .ok (name, list) _ => Pattern.choicesFor name list { conversation := c }
    | .error .. => []
  | .error .. => []

theorem after_answerPattern_of_error {user : Value} {s : Session} {fault : Fault}
    (h : current user s = .error fault s) (text : Value) :
    s.after (answerPattern user text) = s := by
  refine (Looks.currentAt user).bind_after (T := (· = s)) rfl fun c? _ => ?_
  refine ((Looks.law user).rephraseNames c? text).bind_after (T := (· = s)) rfl fun names _ => ?_
  exact after_of_error (bind_of_error (bind_of_error h))

theorem answerPattern_tallies {user : Value} {s : Session} {m : Manager} {c : Conversation}
    {rest : List Entry} (hkey : user.isKey = true) (hm : managerIn s.active user = some m)
    (hstack : m.stack = .conversation c :: rest) (text : Value) :
    (s.after (answerPattern user text) = s ∧ choices user text s = []) ∨
      ∃ name list, choices user text s = Pattern.choicesFor name list { conversation := c } ∧
        (s.after (answerPattern user text)).tallies user <:+
          some (Draft.after (Pattern.answerFrom name list) { conversation := c }).conversation.counters
            :: rest.map Entry.tally := by
  have hat : currentAt user s = .ok (some c) s := by
    rw [currentAt, bind_of_ok (managerAt_of_some hkey hm), top_of_stack hstack]
  have hnames := (Looks.law user).rephraseNames (some c) text s
  have hchoices : choices user text s = match rephraseNames (some c) text s with
      | .ok (name, list) _ => Pattern.choicesFor name list { conversation := c }
      | .error .. => [] := by
    rw [choices, current_of_stack hkey hm hstack]
  rw [Session.after, answerPattern, bind_of_ok hat, hchoices]
  cases hrun : rephraseNames (some c) text s with
  | error fault t =>
    rw [after_of_error hrun] at hnames
    rw [bind_of_error hrun]
    exact .inl ⟨hnames, rfl⟩
  | ok names t =>
    rw [after_of_ok hrun] at hnames
    rw [bind_of_ok hrun, ← Session.after, hnames]
    refine .inr ⟨names.1, names.2, rfl, ?_⟩
    rw [← after_edit_tallies hkey hm hstack]
    refine after_bind (T := fun t => t.tallies user <:+ _) ?_ fun response? t _ ht => ?_
    · rw [Pattern.answerFrom, Pattern.consulted]
      simp only [bind_assoc, pure_bind]
      exact suffix_refl _
    cases response? with
    | none => exact ht
    | some response =>
      have hgive : KeepsTallies user (do
          let depth := (← managerAt user).depth
          let c ← current user
          let output ← Substitution.substitute user response true
          editSince user depth c do
            Pattern.prepend names.1 (Text.trim output)
            Edit.step 1) := by
        refine .look (.managerAt user) fun m => .look (.current user) fun c => ?_
        refine .bind (.substitute _ _) fun output => ?_
        exact .editSince _ _ (.bind (Fixes.counters.prepend _ _) fun _ => Fixes.counters.step 1)
      exact (hgive t).trans ht

end Command

/-! ### Runs -/

namespace Session

/-- The counters of the script that has so many scripts below it on the stack of a user. -/
def tallyAt (user : Value) (height : Nat) (s : Session) : Option (Option Value) :=
  (s.tallies user).reverse[height]?

def choicesAt (user : Value) (height : Nat) (name text : Value) (s : Session) :
    List Pattern.Choice :=
  match Keyword.known? name s with
  | .ok (some .subKey) _ => if s.depthOf user = height + 1 then Command.choices user text s else []
  | _ => []

/-- Commands for a user, one after the other and each with a message of its own, that leave a script
on the stack which has so many scripts below it, and the choices that they make for this script.
They may fail. -/
inductive Chooses (user : Value) (height : Nat) : Session → List Pattern.Choice → Session → Prop
  | refl (s : Session) : Chooses user height s [] s
  | command {s t : Session} {made : List Pattern.Choice} (name text : Value)
      (message : Option Message)
      (hdepth : height < ((Request.command name user text).run message s).2.depthOf user)
      (hrest : Chooses user height ((Request.command name user text).run message s).2 made t) :
      Chooses user height s
        (choicesAt user height name text { s with message, events := [] } ++ made) t

/-- An entry was used `n` times by the script that has so many scripts below it. -/
def CountedAt (user : Value) (height : Nat) (entry : String) (many n : Nat) (s : Session) : Prop :=
  ∃ counters, s.tallyAt user height = some (some counters) ∧ Pattern.Counted entry many n counters

section

variable {user : Value} {height n : Nat} {entry pattern : String} {responses : List String}
  {s t : Session}

theorem length_tallies (user : Value) (s : Session) : (s.tallies user).length = s.depthOf user :=
  length_map _

theorem tallyAt_of_suffix {tallies : List (Option Value)} (h : s.tallies user <:+ tallies)
    (hheight : height < s.depthOf user) : s.tallyAt user height = tallies.reverse[height]? := by
  obtain ⟨above, rfl⟩ := h
  rw [tallyAt, reverse_append, getElem?_append_left]
  rwa [List.length_reverse, length_tallies]

theorem CountedAt.depth {many : Nat} (h : CountedAt user height entry many n s) :
    height < s.depthOf user := by
  obtain ⟨counters, hat, -⟩ := h
  obtain ⟨hlt, -⟩ := List.getElem?_eq_some_iff.1 hat
  rwa [List.length_reverse, length_tallies] at hlt

theorem getElem?_reverse_cons {α : Type} (a : α) (l : List α) (i : Nat) :
    (a :: l).reverse[i]? = if i = l.length then some a else l.reverse[i]? := by
  grind

theorem answerPattern_counted (htexts : texts entry = pattern :: responses)
    (hne : responses ≠ []) (h : CountedAt user height entry responses.length n s) (text : Value)
    (hdepth : height < (s.after (Command.answerPattern user text)).depthOf user)
    {made : List Choice}
    (hmade : made = if s.depthOf user = height + 1 then Command.choices user text s else []) :
    Rotates entry responses n made ∧
      CountedAt user height entry responses.length (n + uses entry made)
        (s.after (Command.answerPattern user text)) := by
  obtain ⟨fault, herror⟩ | ⟨m, c, rest, hkey, hm, hstack, -⟩ := current_cases user s
  · rw [Command.choices, herror, ite_self] at hmade
    rw [hmade, Command.after_answerPattern_of_error herror]
    exact ⟨rotates_nil, h⟩
  obtain ⟨hafter, hnone⟩ | ⟨name, list, hchoices, hsuffix⟩ :=
    Command.answerPattern_tallies hkey hm hstack text
  · rw [hnone, ite_self] at hmade
    rw [hmade, hafter]
    exact ⟨rotates_nil, h⟩
  obtain ⟨counters, hat, hcounted⟩ := h
  have hafter := tallyAt_of_suffix hsuffix hdepth
  rw [getElem?_reverse_cons, length_map] at hafter
  rw [tallyAt, tallies, stackOf_eq hm, hstack, map_cons, getElem?_reverse_cons,
    length_map] at hat
  rw [depthOf, stackOf_eq hm, hstack, length_cons, hchoices] at hmade
  by_cases htop : height = rest.length
  · rw [if_pos htop] at hafter hat
    rw [if_pos (by rw [htop])] at hmade
    obtain rfl : c.counters = counters := by simpa [Entry.tally] using hat
    obtain ⟨hrotates, hcounted⟩ :=
      choicesFor_counted (d := { conversation := c }) htexts hne hcounted name list
    rw [hmade]
    exact ⟨hrotates, _, hafter, hcounted⟩
  · rw [if_neg htop] at hafter hat
    rw [if_neg (by omega)] at hmade
    rw [hmade]
    exact ⟨rotates_nil, counters, hafter.trans hat, hcounted⟩

theorem CountedAt.of_suffix {many : Nat} (h : CountedAt user height entry many n s)
    (hdepth : height < t.depthOf user)
    (hsuffix : t.tallies user <:+ s.tallies user ∨ s.tallies user <:+ t.tallies user) :
    CountedAt user height entry many n t := by
  have hheight := h.depth
  obtain ⟨counters, hat, hcounted⟩ := h
  refine ⟨counters, ?_, hcounted⟩
  obtain hsuffix | hsuffix := hsuffix
  · exact (tallyAt_of_suffix hsuffix hdepth).trans hat
  · exact (tallyAt_of_suffix hsuffix hheight).symm.trans hat

theorem runCommand_counted (htexts : texts entry = pattern :: responses)
    (hne : responses ≠ []) (h : CountedAt user height entry responses.length n s) (name text : Value)
    (hdepth : height < (s.after (runCommand name user text)).depthOf user) :
    Rotates entry responses n (choicesAt user height name text s) ∧
      CountedAt user height entry responses.length
        (n + uses entry (choicesAt user height name text s))
        (s.after (runCommand name user text)) := by
  have hlook := Looks.known? name s
  cases hknown : Keyword.known? name s with
  | error fault s' =>
    rw [after_of_error hknown] at hlook
    have hafter : s.after (runCommand name user text) = s := by
      rw [Session.after, runCommand, bind_of_error hknown, hlook]
    rw [hafter, choicesAt, hknown]
    exact ⟨rotates_nil, h⟩
  | ok k? s' =>
    rw [after_of_ok hknown] at hlook
    rw [hlook] at hknown
    cases k? with
    | none =>
      have hafter : s.after (runCommand name user text) = s := by
        rw [Session.after, runCommand, bind_of_ok hknown]
        rfl
      rw [hafter, choicesAt, hknown]
      exact ⟨rotates_nil, h⟩
    | some k =>
      have hafter : s.after (runCommand name user text) = s.after (k.perform user text) := by
        rw [Session.after, runCommand, bind_of_ok hknown, ← Session.after]
      rw [hafter] at hdepth ⊢
      by_cases hk : k = .subKey
      · subst hk
        exact answerPattern_counted htexts hne h text hdepth (by rw [choicesAt, hknown])
      · have hnone : choicesAt user height name text s = [] := by
          rw [choicesAt, hknown]
          cases k <;> trivial
        rw [hnone]
        exact ⟨rotates_nil, h.of_suffix hdepth (Keyword.perform_tallies hk text s)⟩

namespace Chooses

variable {made : List Pattern.Choice}

theorem counted (htexts : texts entry = pattern :: responses) (hne : responses ≠ [])
    (hrun : Chooses user height s made t)
    (h : CountedAt user height entry responses.length n s) :
    Rotates entry responses n made ∧
      CountedAt user height entry responses.length (n + uses entry made) t := by
  induction hrun generalizing n with
  | refl s => exact ⟨rotates_nil, h⟩
  | @command s _ _ name text message hdepth _ ih =>
    rw [snd_run_command] at hdepth ih
    have hstart : CountedAt user height entry responses.length n { s with message, events := [] } := h
    obtain ⟨hmade, hcounted⟩ := runCommand_counted htexts hne hstart name text hdepth
    obtain ⟨hmore, hcounted⟩ := ih hcounted
    rw [uses_append, ← Nat.add_assoc]
    exact ⟨hmade.append hmore, hcounted⟩

/-- The responses of an entry take turns.  Let a script have no counters, and let any commands be given
for the user that leave it on the stack.  When the pattern of an entry with `m` responses fits for the
`i`-th time, counted from zero, the response `i % m` is chosen.  It is also what the entry answers
with, unless a synonym stands in the wrong place.  The counter of the entry is never above `m`. -/
theorem responses_rotate (htexts : Pattern.texts entry = pattern :: responses)
    (hne : responses ≠ []) (hstart : s.tallyAt user height = some (some .emptyTable))
    (hrun : Chooses user height s made t) :
    (∀ i choice, (made.filter (·.entry = entry))[i]? = some choice →
      ∃ response, responses[i % responses.length]? = some response ∧
        choice.response = some response ∧
        choice.count = some (.int (i % responses.length + 1 : Nat)) ∧
        ∀ answer ∈ choice.answer,
          answer = Text.join " " (Pattern.numbered 1 (Text.words response))) ∧
    ∃ (names : Entries) (count : Nat), t.tallyAt user height = some (some (.table names)) ∧
      (names.find? entry).getD (.int 0) = .int count ∧ count ≤ responses.length ∧
      count % responses.length = (made.filter (·.entry = entry)).length % responses.length := by
  have hzero : Pattern.Counted entry responses.length 0 .emptyTable :=
    ⟨[], 0, rfl, rfl, Nat.zero_le _, rfl⟩
  obtain ⟨hrotates, counters, hat, names, count, rfl, hcount, hle, hmod⟩ :=
    hrun.counted htexts hne ⟨_, hstart, hzero⟩
  refine ⟨fun i choice hchoice => ?_, names, count, hat, hcount, hle, ?_⟩
  · have hturn := hrotates i choice hchoice
    rwa [Nat.zero_add] at hturn
  · rwa [Nat.zero_add] at hmod

end Chooses

end

def moods : Session :=
  { root := "/home", initialized := true
    active := [("ann", { user := "ann", stack := [.conversation
      { scriptMeta := .emptyTable, filename := "moods", startTime := 0, index := .int 0
        bindings := .object [("a", "sad i am"), ("b", "i am sad"), ("c", "sad i am"),
          ("mood", .ofItems ["sad"]), ("talk", .ofItems ["\"[mood] i am\" \"why\" \"so\""])] }] })] }

def answered (name : String) (s : Session) : Session :=
  commanded "sub_key" (.str ("sub_key\x7b" ++ name ++ ",talk\x7d")) s

/-- The second of three responses is dropped, but counts. -/
theorem Chooses.responses_rotate_moods :
    ∃ made, Chooses "ann" 0 moods made (moods.answered "a" |>.answered "b" |>.answered "c") ∧
      made.map (·.response) = [some "why", some "so", some "why"] ∧
      made.map (·.answer) = [some "why", none, some "why"] ∧
      ∃ (names : Entries) (count : Nat),
        (moods.answered "a" |>.answered "b" |>.answered "c").tallyAt "ann" 0 =
          some (some (.table names)) ∧
        (names.find? "\"[mood] i am\"\"why\"\"so\"").getD (.int 0) = .int count ∧ count ≤ 2 ∧
        count % 2 = 1 := by
  have htexts : Pattern.texts "\"[mood] i am\"\"why\"\"so\"" = "[mood] i am" :: ["why", "so"] := by
    decide
  obtain ⟨made, hrun, hthree, hresponses, hanswers⟩ : ∃ made,
      Chooses "ann" 0 moods made (moods.answered "a" |>.answered "b" |>.answered "c") ∧
      (made.filter (·.entry = "\"[mood] i am\"\"why\"\"so\"")).length = 3 ∧
      made.map (·.response) = [some "why", some "so", some "why"] ∧
      made.map (·.answer) = [some "why", none, some "why"] := by
    rw [answered, answered, answered, commanded, commanded, commanded]
    refine ⟨_, .command "sub_key" _ (some {}) ?_ (.command "sub_key" _ (some {}) ?_
      (.command "sub_key" _ (some {}) ?_ (.refl _))), ?_⟩ <;> decide +kernel
  have hstart : moods.tallyAt "ann" 0 = some (some .emptyTable) := by
    simp [tallyAt, tallies, stackOf, managerIn, moods, Value.str_same, Entry.tally]
  obtain ⟨-, names, count, hat, hcount, hle, hmod⟩ := responses_rotate htexts (by simp) hstart hrun
  rw [hthree] at hmod
  exact ⟨made, hrun, hresponses, hanswers, names, count, hat, hcount, hle, hmod⟩

end Session

end Colloquy
