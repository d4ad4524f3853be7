import Colloquy.Proofs.Loops
import Colloquy.Service

/-! What the user says to a loop that asks.  Each answer is kept in front of the values of the
variable; as long as it is not the final one, the loop speaks once more and waits again. -/

namespace Colloquy

open Session Execution Command Value Entries Listening

variable {m : Message} {initial : List Value} {told : List String}

/-- A message by which a user says something to a script: words that are no request to leave and
that are not said to somebody by name.  A list that the message asks for is one of texts, if the
values given are, and a recording that comes with it is named. -/
structure Message.Tells (user : Value) (values : List Value) (m : Message) (answer : String) :
    Prop where
  user : m.user = user
  words : ∃ heard, Entries.find? "utterances" m.data = some heard ∧
    heard.item (.int 0) = .ok (.str answer)
  nonempty : answer ≠ ""
  stays : Text.trim answer ≠ "exit"
  unnamed : Text.startsWith (Text.trim answer) "neon " = false
  listable : Substitution.Listable m values
  recording : ((Entries.find? "audio_file" m.context).getD .null).truthy = true →
    ∃ file, (Entries.find? "audio_file" m.context).getD .null = .str file

/-- A message by which a user says something to a script that is no request to leave it. -/
structure Message.Voices (user : Value) (m : Message) (words : String) : Prop where
  user : m.user = user
  heard : ∃ heard utterance, Entries.find? "utterances" m.data = some heard ∧
    heard.item (.int 0) = .ok utterance ∧ Listening.spoken utterance = .ok words
  stays : Text.trim words ≠ "exit"

theorem Message.Tells.voices {user : Value} {values : List Value} {answer : String}
    (h : m.Tells user values answer) : m.Voices user answer := by
  obtain ⟨heard, hheard, hwords⟩ := h.words
  have hspoken : Listening.spoken (.str answer) = .ok answer := by
    have hnamed : Text.startsWith (Text.trim (str answer).display) "neon " = false :=
      h.unnamed
    rw [Listening.spoken]
    simp only [hnamed, Bool.false_eq_true, if_false]
    rfl
  exact ⟨h.user, ⟨heard, _, hheard, hwords, hspoken⟩, h.stays⟩

def Value.items? : Value → Option (List Value)
  | .list items _ => some items
  | _ => none

/-- The values that are put behind an answer: all items of a list, or the given one in the place of a
value that is not empty. -/
def Value.behind (old noted : Value) : List Value :=
  match old.items? with
  | some items => items
  | none => if old.truthy then [noted] else []

namespace Listening

variable {user : Value} {s : Session} {c : Conversation} {m : Message} {name words answer : String}

theorem answer?_eq (hawaited : c.awaited = .str name) (hcomma : ',' ∉ name.toList)
    (hwords : words ≠ "") : answer? c words = .ok (some words) := by
  have hmember : member "," c.awaited = .ok false := by
    rw [hawaited]
    exact congrArg Except.ok (Text.contains_eq_false "," rfl hcomma)
  simp [answer?, hmember, bind, Except.bind, pure, Except.pure, hwords]

/-- What is done about the words that a script waits for: an answer is taken, and without one the
script waits on. -/
def settle (user : Value) (m : Message) : Option String → Run Bool
  | some answer => do
    takeAnswer user m answer
    return true
  | none => do
    await user
    return false

theorem respond_settles {manager : Manager} {below : List Entry} {answered : Option String}
    (hkey : user.isKey = true) (hmessage : s.message = some m)
    (hm : managerIn s.active user = some manager)
    (hstack : manager.stack = .conversation c :: below) (hfilename : c.filename.truthy = true)
    (hawaits : s.awaiting.any (·.same user) = true) (hvoices : m.Voices user words)
    (hanswer : answer? c words = .ok answered) :
    respond s = settle user m answered { s with awaiting := dropFirst user s.awaiting } := by
  obtain ⟨heard, utterance, hheard, hwords, hspoken⟩ := hvoices.heard
  have hdatum : (datum "utterances" : Run Value) s = .ok heard s := by
    rw [datum, bind_of_ok (theMessage_of_some hmessage), hheard]
    rfl
  have hwaiting : isAwaiting user s = .ok true s := by
    simp only [isAwaiting, bind_apply, get_apply, pure_apply, hawaits]
  have hstop : stopAwaiting user s =
      .ok () { s with awaiting := dropFirst user s.awaiting } := by
    rw [stopAwaiting, modify_apply]
  have hhear : hear user m c s =
      settle user m answered { s with awaiting := dropFirst user s.awaiting } := by
    rw [hear, bind_of_ok hdatum, hwords, bind_of_ok (lift_ok_apply _ _), hspoken,
      bind_of_ok (lift_ok_apply _ _), if_neg (by simpa using hvoices.stays), bind_of_ok hwaiting,
      if_pos rfl, bind_of_ok hstop, hanswer, bind_of_ok (lift_ok_apply _ _)]
    cases answered <;> rfl
  rw [respond, bind_of_ok (theMessage_of_some hmessage), hvoices.user,
    bind_of_ok (manager?_of_isKey hkey s), hm]
  simp only [present]
  rw [bind_of_ok (top_of_stack hstack _)]
  simp only
  rw [bind_of_ok (pure_apply _ _), if_pos hfilename, hhear]

theorem keepAnswer_apply {entries : Entries} {old : Value} (hbindings : c.bindings = .table entries)
    (hawaited : c.awaited = .str name) (hfind : entries.find? name = some old) (answer : String) :
    ∃ (names : Entries) (speaker : Value) (number : Option Nat) (changes : List Change),
      keepAnswer answer { conversation := c } =
        .ok () { conversation := { c with bindings := .table names, speaker }, changes } ∧
      names.find? name = some (.list (.str answer :: old.behind (.str name)) number) ∧
        ∀ word : String, names.has word = entries.has word := by
  have hhas : entries.has name = true := by rw [has, hfind, Option.isSome_some]
  have hplain (values : List Value) :
      Edit.writeVariable name (.list values none) { conversation := c } = .ok () { conversation :=
        { c with bindings := .table (entries.insert name (.list values none)) } } :=
    Edit.writeVariable_apply hbindings name _
  have hkeep : keepAnswer answer { conversation := c } = (match old with
      | .list items number => do
        Edit.writeVariable name (← Edit.changeList number (.str answer :: items))
      | _ =>
        Edit.writeVariable name
          (.ofItems (if old.truthy then [.str answer, .str name] else [.str answer])))
        { conversation := c } := by
    rw [keepAnswer, bind_of_ok (Edit.read_apply _), hawaited,
      bind_of_ok (Edit.readVariable_apply hbindings hfind)]
    cases old <;> rfl
  rw [hkeep]
  cases old with
  | list items number =>
    cases number with
    | none =>
      exact ⟨_, _, none, [], (bind_of_ok rfl).trans (hplain _), find?_insert_self _ _ _,
        has_insert hhas _⟩
    | some n =>
      let change : Change := { number := n, items := .str answer :: items }
      have htable := Conversation.bindings_changed hbindings change
      have hsame (word : String) :
          has (changedEntries change entries) word = entries.has word := by
        rw [has, find?_changed, Option.isSome_map, has]
      refine ⟨_, _, some n, [change], (bind_of_ok rfl).trans (Edit.writeVariable_apply htable _ _),
        find?_insert_self _ _ _, fun word => ?_⟩
      rw [has_insert ((hsame name).trans hhas), hsame]
  | _ =>
    simp only [behind, items?]
    split
    all_goals
      exact ⟨_, _, none, [], hplain _, find?_insert_self _ _ _, has_insert hhas _⟩

theorem keepRecording_apply {entries : Entries} (hrecordings : c.recordings = .table entries)
    (hawaited : c.awaited = .str name) (file : String) :
    keepRecording file { conversation := c } = .ok () { conversation := { c with
      recordings := .table (entries.insert name (.ofItems (.str (Text.trim file) ::
        if file = "" then [] else ((entries.find? name).getD .null).behind (.str name)))) } } := by
  have hfiles (old : Value) : (match old with
      | .list items _ =>
        if file.isEmpty then [.str (Text.trim file)] else .str (Text.trim file) :: items
      | _ => if old.truthy && !file.isEmpty then [.str (Text.trim file), .str name]
        else [.str (Text.trim file)]) =
      str (Text.trim file) :: if file = "" then [] else old.behind (.str name) := by
    by_cases hfile : file = ""
    · cases old <;> simp [hfile]
    · have hempty : file.isEmpty = false := by simpa using hfile
      rw [if_neg hfile, hempty]
      cases old with
      | list items number => rfl
      | _ =>
        simp only [Bool.not_false, Bool.and_true, behind, items?]
        split <;> rfl
  cases c
  cases hrecordings
  cases hawaited
  rw [← hfiles]
  rfl

end Listening

namespace AskLoop

variable {loop : AskLoop} {user : Value} {names entries : Entries} {values : List Value} {i : Nat}
  {s t : Session} {c c' : Conversation} {answer : String}

/-- The loop speaks and waits, unless the limit of lines is reached before. -/
theorem Stands.waits {n : Nat} {s₀ : Session} (h : loop.Stands user loop.first values s)
    (hgoes : Goes user n s₀ s) (budget : Nat) :
    (∃ t, proceed budget user s₀ = .error .stepLimit t) ∨
      ∃ t, proceed budget user s₀ = .ok () t ∧ loop.Waits user values t ∧
        t.spoken = s.spoken ++ loop.said := by
  obtain ⟨k, t, hgoes', hstands, hspoken⟩ := h.speaks
  obtain ⟨u, hadvance, hwaits, hspoken'⟩ := hstands.asks
  obtain ⟨names, -, hstanding⟩ := hstands.standing
  obtain ⟨message, hmessage, -⟩ := hstanding.message
  rcases Nat.lt_or_ge (n + k) budget with hlt | hge
  · obtain ⟨rest, rfl⟩ : ∃ rest, budget = rest + 1 + (n + k) := ⟨budget - 1 - (n + k), by omega⟩
    refine .inr ⟨u, (hgoes.trans hgoes').proceed_ok ?_, hwaits, hspoken'.trans hspoken⟩
    rw [proceed_succ (by rw [hmessage]; rfl)]
    refine rescue_of_ok ?_
    rw [bind_of_ok hadvance]
    rfl
  · exact .inl ((hgoes.trans hgoes').proceed_stepLimit hge)

theorem dropFirst_append (hself : user.same user = true) {others : List Value}
    (h : others.any (·.same user) = false) : dropFirst user (others ++ [user]) = others := by
  induction others with
  | nil => simp [dropFirst, hself]
  | cons other rest ih =>
    rw [List.any_cons, Bool.or_eq_false_iff] at h
    simp [dropFirst, h.1, ih h.2]

theorem Held.keepAnswer_eq (h : loop.Held c) (hawaited : c.awaited = .str loop.asked)
    (hat : c.At loop.lines names i) (hbinds : loop.Binds values names) (answer : String) :
    ∃ draft names', keepAnswer answer { conversation := c } = .ok () draft ∧
      draft.conversation.At loop.lines names' i ∧ loop.Binds (.str answer :: values) names' ∧
        (∀ root, transcriptPath root draft.conversation = transcriptPath root c) ∧
          loop.Held draft.conversation ∧ draft.conversation.awaited = .str loop.asked := by
  obtain ⟨entries, hbindings, hentries⟩ := table_of_copied hat.bindings
  obtain ⟨items, number, hfind, hitems⟩ := hbinds.find?_entries hentries
  obtain ⟨names', speaker, number', changes, hkeep, hkept, hhas⟩ :=
    keepAnswer_apply hbindings hawaited hfind answer
  refine ⟨_, copiedEntries names', hkeep,
    ⟨hat.lines, copied_table _, hat.index, hat.lastIndent⟩, ⟨fun word => ?_, ?_⟩, fun _ => rfl,
    ⟨h.filename, h.recordings, h.loops⟩, hawaited⟩
  · rw [has_copied, hhas, ← has_copied, hentries, hbinds.declared]
  · rw [find?_copied, hkept]
    simp only [Option.map_some, copied, copiedItems_eq, behind, items?,
      List.map_cons, hitems]

theorem Held.keepRecording_eq (h : loop.Held c) (hawaited : c.awaited = .str loop.asked)
    (file : String) :
    ∃ recordings, keepRecording file { conversation := c } =
      .ok () { conversation := { c with recordings := .table recordings } } := by
  obtain ⟨entries, hentries⟩ := h.recordings
  exact ⟨_, keepRecording_apply hentries hawaited file⟩

theorem confirm_ok (hmessage : s.message = some m) :
    ∃ e, Listening.confirm s = .ok () { s with events := e :: s.events } ∧
      Session.said e = none := by
  rw [Listening.confirm, bind_of_ok (theMessage_of_some hmessage)]
  exact ⟨_, rfl, rfl⟩

theorem takeAnswer_eq
    (hedit : edit user (keepAnswer (Text.trim answer)) s = .ok () t)
    (ht : Standing user loop.lines names i t)
    (htop : t.Top user fun c => loop.Held c ∧ c.awaited = .str loop.asked)
    (htells : m.Tells user initial answer) :
    ∃ u, takeAnswer user m answer s = (do
        Listening.confirm
        sleep 1000
        resume user : Run Unit) u ∧
      Standing user loop.lines names i u ∧ u.Top user loop.Held ∧ u.message = t.message ∧
        u.events = t.events := by
  rw [takeAnswer, bind_of_ok hedit]
  by_cases hfile : ((Entries.find? "audio_file" m.context).getD .null).truthy = true
  · obtain ⟨file, htext⟩ := htells.recording hfile
    obtain ⟨u, hedit', hu, hheld, hmessage, hevents, -⟩ :
        ∃ u, edit user (keepRecording (recordingName file)) t =
          .ok () u ∧ Standing user loop.lines names i u ∧ u.Top user loop.Held ∧ _ :=
      ht.change htop fun c hat htop => by
        obtain ⟨recordings, hrun⟩ := htop.1.keepRecording_eq htop.2 (recordingName file)
        exact ⟨_, hrun, ⟨hat.lines, hat.bindings, hat.index, hat.lastIndent⟩, fun _ => rfl,
          fun _ => ⟨htop.1.filename, ⟨recordings, rfl⟩, htop.1.loops⟩⟩
    refine ⟨u, ?_, hu, hheld, hmessage, hevents⟩
    rw [htext] at hfile
    simp only [htext, hfile, if_true]
    rw [text, bind_of_ok (lift_ok_apply _ _), bind_of_ok hedit']
  · refine ⟨t, ?_, ht, fun m c below hm hstack => (htop m c below hm hstack).1, rfl, rfl⟩
    simp only
    rw [if_neg hfile]

theorem Stands.takes (h : loop.Stands user loop.last values s)
    (hawaited : s.Top user fun c => c.awaited = .str loop.asked) (hmessage : s.message = some m)
    (htells : m.Tells user initial answer) :
    ∃ t, takeAnswer user m answer s = resume user t ∧ t.message = some m ∧
      t.spoken = s.spoken ∧
        loop.Stands user loop.last (.str (Text.trim answer) :: values) t := by
  obtain ⟨names, hbinds, hstanding⟩ := h.standing
  obtain ⟨manager, c, below, -, hm, hstack, hat, -⟩ := hstanding.current
  have hheld := h.held manager c below hm hstack
  obtain ⟨draft, names', hkeep, hat', hbinds', hpath, hheld', hawaited'⟩ :=
    hheld.keepAnswer_eq (hawaited manager c below hm hstack) hat hbinds (Text.trim answer)
  have hcurrent : s.Top user fun c' => c' = c := by
    intro m' c' below' hm' hstack'
    obtain rfl := Option.some.inj (hm'.symm.trans hm)
    exact Entry.conversation.inj (List.cons.inj (hstack'.symm.trans hstack)).1
  obtain ⟨t, hedit, ht, htop, hmessage₁, hevents₁, -⟩ :
      ∃ t, edit user (keepAnswer (Text.trim answer)) s = .ok () t ∧
        Standing user loop.lines names' loop.last t ∧
          t.Top user (fun c => loop.Held c ∧ c.awaited = .str loop.asked) ∧ _ :=
    hstanding.change hcurrent fun c' _ hc => ⟨draft, hc ▸ hkeep, hat', hc ▸ hpath,
      fun next => ⟨hheld'.settled next, hawaited'⟩⟩
  obtain ⟨u, htake, hu, hheldu, hmessage₂, hevents₂⟩ := takeAnswer_eq hedit ht htop htells
  have hmessage' : u.message = some m := hmessage₂.trans (hmessage₁.trans hmessage)
  obtain ⟨e, hconfirm, hsaid⟩ := confirm_ok hmessage'
  refine ⟨{ u with events := e :: u.events, clock := u.clock + 1000 }, ?_, hmessage', ?_,
    ⟨names', hbinds', hu.isKey, hu.initialized, hu.canSpeak, hu.awaiting, hu.message, hu.current⟩,
    hheldu⟩
  · rw [htake, bind_of_ok hconfirm]
    rfl
  · have hspoken := spoken_cons e u
    rw [hsaid, Option.toList_none, List.append_nil] at hspoken
    exact hspoken.trans (spoken_congr (hevents₂.trans hevents₁))

theorem Waits.responds (h : loop.Waits user values s) (hself : user.same user = true)
    (htells : m.Tells user initial answer) :
    ∃ t, t.message = some m ∧ t.spoken = [] ∧
      loop.Stands user loop.last (.str (Text.trim answer) :: values) t ∧
        Request.respond.run (some m) s = match resume user t with
          | .ok _ u => (.ok (.bool true), u)
          | .error fault u => (.error fault, u) := by
  obtain ⟨others, hawaiting, hstands⟩ := h.waiting
  obtain ⟨names, hbinds, hstanding⟩ := hstands.standing
  obtain ⟨manager, c, below, -, hm, hstack, -⟩ := hstanding.current
  obtain ⟨heard, hheard, hwords⟩ := htells.words
  let s₁ : Session := { s with message := some m, events := [] }
  let s₂ : Session := { s₁ with awaiting := others }
  have hnotable : m.Notable := fun _ => ⟨.str answer, by rw [hheard]; exact hwords⟩
  have hstands₂ : loop.Stands user loop.last values s₂ :=
    ⟨⟨names, hbinds, hstanding.isKey, hstanding.initialized, hstanding.canSpeak, hstanding.awaiting,
      ⟨m, rfl, hnotable⟩, hstanding.current⟩, hstands.held⟩
  obtain ⟨t, htake, hmessage, hspoken, ht⟩ := hstands₂.takes h.awaited rfl htells
  refine ⟨t, hmessage, hspoken, ht, ?_⟩
  have hrespond : respond s₁ = (do
      takeAnswer user m answer
      return true) s₂ := by
    have hwaiting : s₁.awaiting = others ++ [user] := hawaiting
    have hany : s₁.awaiting.any (·.same user) = true := by
      rw [hwaiting]
      simp [hself]
    have hanswer : answer? c answer = .ok (some answer) :=
      answer?_eq (h.awaited manager c below hm hstack)
        (loop.asked_names.characters _ (by decide)) htells.nonempty
    rw [respond_settles (s := s₁) hstanding.isKey rfl hm hstack
      (hstands.held manager c below hm hstack).filename hany htells.voices hanswer,
      settle, hwaiting, dropFirst_append hself hstanding.awaiting]
  simp only [Request.run, Request.serve]
  rw [bind_apply, hrespond, bind_apply, htake]
  cases resume user t <;> rfl

/-- Answers given one after the other, the newest first, none of which takes too many lines. -/
inductive Told (user : Value) (initial : List Value) (s : Session) : List String → Session → Prop
  | refl : Told user initial s [] s
  | tell {told : List String} {t : Session} {m : Message} {answer : String}
      (h : Told user initial s told t) (htells : m.Tells user initial answer)
      (hlimit : (Request.respond.run (some m) t).1 ≠ .error .stepLimit) :
      Told user initial s (answer :: told) (Request.respond.run (some m) t).2

def valuesAfter (told : List String) (initial : List Value) : List Value :=
  told.map (fun answer => .str (Text.trim answer)) ++ initial

theorem listable_valuesAfter (h : Substitution.Listable m initial) (told : List String) :
    Substitution.Listable m (valuesAfter told initial) := by
  obtain ⟨flag, hflag, htexts⟩ := h
  refine ⟨flag, hflag, fun hwhole value hvalue => ?_⟩
  rcases List.mem_append.1 hvalue with hvalue | hvalue
  · obtain ⟨answer, -, rfl⟩ := List.mem_map.1 hvalue
    exact ⟨_, rfl⟩
  · exact htexts hwhole value hvalue

theorem Waits.tell (h : loop.Waits user (valuesAfter told initial) s)
    (hself : user.same user = true) (htells : m.Tells user initial answer)
    (hanswer : Text.trim answer ≠ loop.final)
    (hlimit : (Request.respond.run (some m) s).1 ≠ .error .stepLimit) :
    (Request.respond.run (some m) s).1 = .ok (.bool true) ∧
      (Request.respond.run (some m) s).2.spoken = loop.said ∧
        loop.Waits user (valuesAfter (answer :: told) initial)
          (Request.respond.run (some m) s).2 := by
  obtain ⟨t, hmessage, hspoken, hstands, hrun⟩ := h.responds hself htells
  obtain ⟨u, hadvance, hspoken', hnext⟩ :=
    hstands.closes hmessage (listable_valuesAfter htells.listable told)
  rw [if_neg hanswer] at hnext
  have hgoes : Goes user 1 t u := .step (by rw [hmessage]; rfl) hadvance (.refl u)
  rw [hrun] at hlimit ⊢
  obtain ⟨v, hstop⟩ | ⟨v, hok, hwaits, hsaid⟩ := hnext.waits hgoes lineLimit
  · simp only [resume, hstop] at hlimit
    exact absurd rfl hlimit
  · simp only [resume, hok]
    refine ⟨trivial, ?_, hwaits⟩
    rw [hsaid, hspoken', hspoken, List.nil_append]

theorem Waits.leave (h : loop.Waits user (valuesAfter told initial) s)
    (hself : user.same user = true) (htells : m.Tells user initial answer)
    (hanswer : Text.trim answer = loop.final) :
    ∃ t u, advance user t = .ok true u ∧ u.spoken = [] ∧
      loop.Stands user (loop.last + 1) (valuesAfter (answer :: told) initial) u ∧
        Request.respond.run (some m) s = match resume user t with
          | .ok _ v => (.ok (.bool true), v)
          | .error fault v => (.error fault, v) := by
  obtain ⟨t, hmessage, hspoken, hstands, hrun⟩ := h.responds hself htells
  obtain ⟨u, hadvance, hspoken', hnext⟩ :=
    hstands.closes hmessage (listable_valuesAfter htells.listable told)
  rw [if_pos hanswer] at hnext
  exact ⟨t, u, hadvance, hspoken'.trans hspoken, hnext, hrun⟩

/-- As long as no answer is the final one, the loop waits with all of them in front of the values
that the variable had. -/
theorem Told.waits (h : Told user initial s told t) (hself : user.same user = true)
    (hwaits : loop.Waits user initial s) (htold : ∀ answer ∈ told, Text.trim answer ≠ loop.final) :
    loop.Waits user (valuesAfter told initial) t := by
  induction h with
  | refl => exact hwaits
  | tell _ htells hlimit ih =>
    obtain ⟨hanswer, hrest⟩ := List.forall_mem_cons.1 htold
    exact ((ih hrest).tell hself htells hanswer hlimit).2.2

/-- A loop that asks runs its lines once, and once more for each answer that is not the final one;
with the final one the script goes on behind the loop. -/
theorem Stands.asks_until_final {initial : List Value} (h : loop.Stands user loop.first initial s)
    (hself : user.same user = true) (hlimit : ∀ t, resume user s ≠ .error .stepLimit t) :
    ∃ t, resume user s = .ok () t ∧ t.spoken = s.spoken ++ loop.said ∧
      ∀ told u, Told user initial t told u →
        (∀ answer ∈ told, Text.trim answer ≠ loop.final) →
          loop.Waits user (valuesAfter told initial) u ∧
            ∀ m answer, Message.Tells user initial m answer →
              (Text.trim answer ≠ loop.final →
                (Request.respond.run (some m) u).1 ≠ .error .stepLimit →
                  (Request.respond.run (some m) u).1 = .ok (.bool true) ∧
                    (Request.respond.run (some m) u).2.spoken = loop.said ∧
                      loop.Waits user (valuesAfter (answer :: told) initial)
                        (Request.respond.run (some m) u).2) ∧
              (Text.trim answer = loop.final →
                ∃ v w, advance user v = .ok true w ∧ w.spoken = [] ∧
                  loop.Stands user (loop.last + 1) (valuesAfter (answer :: told) initial) w ∧
                    Request.respond.run (some m) u = match resume user v with
                      | .ok _ x => (.ok (.bool true), x)
                      | .error fault x => (.error fault, x)) := by
  obtain ⟨t, hstop⟩ | ⟨t, hok, hwaits, hsaid⟩ := h.waits (.refl s) lineLimit
  · exact absurd hstop (hlimit t)
  · refine ⟨t, hok, hsaid, fun told u htold hanswers => ?_⟩
    have hwaits' := htold.waits hself hwaits hanswers
    exact ⟨hwaits', fun m answer htells => ⟨fun hanswer hlimit =>
      hwaits'.tell hself htells hanswer hlimit, hwaits'.leave hself htells⟩⟩

def quizLines (name : String) : List Value :=
  [lineOf "" 0 "" (.int 1) .null,
   lineOf "loop" 0 ("LOOP " ++ name) (.int 2) .null,
   lineOf "neon speak" 1 "Neon: \"Which colour?\"" (.int 3) (speechData "\"Which colour?\""),
   lineOf "voice_input" 1 "voice_input(colour)" (.int 4) .null,
   lineOf "loop" 0 ("LOOP " ++ name ++ " UNTIL colour == red") (.int 5) .null,
   lineOf "neon speak" 0 "Neon: Right" (.int 6) (speechData "Right"),
   lineOf "exit" 0 "exit" (.int 7) .null]

def quiz (name : String) : Session :=
  let caller : Conversation := { scriptMeta := .emptyTable, filename := "caller", startTime := 0 }
  let c : Conversation :=
    { scriptMeta := .emptyTable, filename := "quiz", startTime := 0
      bindings := .object [("colour", .ofItems ["grey"])], lines := .ofItems (quizLines name)
      loops := .object [(name, .object [("start", .int 2), ("end", .int 5),
        ("end_variable", "colour"), ("end_value", "red")])] }
  { root := "/home", files := { folders := [["script_transcript"]] }, initialized := true
    message := some {}, awaiting := ["bob"]
    active := [("ann", { user := "ann", stack := [.conversation c, .conversation caller] })] }

def saying (words : String) : Message :=
  { data := [("utterances", .ofItems [.str words])], context := [("user", "ann")] }

def quizLoop : AskLoop where
  lines := quizLines "ask"
  names := [("colour", .ofItems ["grey"])]
  first := 1
  start := .int 2
  name := "ask"
  phrases := ["\"Which colour?\""]
  asked := "colour"
  final := "red"
  opening := ⟨_, _, rfl, ⟨_, _, _, lineOf_isLine _ _ _ _ _, by decide, .null⟩,
    lineOf_number _ _ _ _ _, by rw [Value.same_int]; rfl⟩
  earlier i hi := by
    obtain rfl : i = 0 := by omega
    exact ⟨_, _, rfl, lineOf_number _ _ _ _ _, by rw [Value.same_int]; rfl⟩
  body i phrase hphrase := by
    obtain ⟨hi, rfl⟩ := List.getElem?_eq_some_iff.1 hphrase
    obtain rfl : i = 0 := by simpa using hi
    exact ⟨_, rfl, .neonSpeak, _, _, _, .inr rfl, lineOf_isLine _ _ _ _ _,
      .inl (by decide +kernel), speechData_isSpeech (by decide)⟩
  asking := ⟨_, _, _, rfl, lineOf_isLine _ _ _ _ _⟩
  closing := ⟨_, rfl, _, _, _, lineOf_isLine _ _ _ _ _, by decide, .null⟩
  words := by decide +kernel
  asked_names := ⟨by decide +kernel, by simp, by decide +kernel⟩
  begins := by decide
  final_nonempty := by decide
  final_unquoted := by decide

theorem saying_tells {words : String} (hnonempty : words ≠ "") (hexit : Text.trim words ≠ "exit")
    (hnamed : Text.startsWith (Text.trim words) "neon " = false) (values : List Value) :
    (saying words).Tells "ann" values words where
  user := by simp [saying, Message.user, Entries.find?, str_same]
  words := ⟨.ofItems [.str words], by simp [saying, Entries.find?, str_same], by rfl⟩
  nonempty := hnonempty
  stays := hexit
  unnamed := hnamed
  listable := ⟨.bool false, by simp [saying, Entries.find?, str_same]; rfl, nofun⟩
  recording := by simp [saying, Entries.find?, str_same, truthy]

theorem quiz_stands : quizLoop.Stands "ann" quizLoop.first ["grey"] (quiz "ask") where
  standing := by
    refine ⟨[("colour", .ofItems ["grey"])],
      ⟨fun _ => rfl, by simp [quizLoop, Entries.find?, str_same, Value.ofItems]⟩,
      rfl, rfl, rfl, by decide +kernel, ⟨_, rfl, fun h => by cases h⟩, ?_⟩
    refine ⟨?m, ?c, ?below, ["script_transcript", "quiz_0.txt"], ?found, ?stack, ?place, ?writes⟩
    case found =>
      simp only [managerIn, quiz, List.find?, str_same]
      rfl
    case stack => rfl
    case place => exact ⟨⟨none, rfl⟩, rfl, rfl, 0, rfl⟩
    case writes => exact ⟨rfl, by decide, by decide⟩
  held m c below hm hstack := by
    simp only [managerIn, quiz, List.find?, str_same] at hm
    obtain rfl := Option.some.inj hm
    obtain ⟨rfl, -⟩ := hstack
    refine ⟨rfl, ⟨_, rfl⟩, .object [("start", .int 2), ("end", .int 5), ("end_variable", "colour"),
      ("end_value", "red")], ?_, ?_, ?_, ?_⟩
    all_goals simp [quizLoop, Value.item_object, Value.get_object]

def exhausts (user : Value) (s : Session) : Bool :=
  match resume user s with
  | .error .stepLimit _ => true
  | _ => false

/-- A colour that is wrong is asked for again, and the right one leads on. -/
theorem quiz_asked :
    ∃ t, resume "ann" (quiz "ask") = .ok () t ∧ t.spoken.map Value.display = ["Which colour?"] ∧
      (Request.respond.run (some (saying " blue ")) t).2.spoken.map Value.display =
        ["Which colour?"] ∧
      quizLoop.Waits "ann" ["blue", "grey"] (Request.respond.run (some (saying " blue ")) t).2 ∧
      ∃ v w, advance "ann" v = .ok true w ∧ quizLoop.Stands "ann" 5 ["red", "blue", "grey"] w ∧
        Request.respond.run (some (saying "red"))
            (Request.respond.run (some (saying " blue ")) t).2 =
          match resume "ann" v with
          | .ok _ x => (.ok (.bool true), x)
          | .error fault x => (.error fault, x) := by
  obtain ⟨hstart, hanswer⟩ : exhausts "ann" (quiz "ask") = false ∧
      (Request.respond.run (some (saying " blue "))
        ((quiz "ask").after (resume "ann"))).1.isOk = true := by decide +kernel
  have hlimit : ∀ t, resume "ann" (quiz "ask") ≠ .error .stepLimit t := by
    intro t h
    rw [exhausts, h] at hstart
    cases hstart
  obtain ⟨t, hok, hspoken, hrest⟩ := quiz_stands.asks_until_final (by decide +kernel) hlimit
  have hfirst : (quiz "ask").after (resume "ann") = t := by rw [after, hok]
  have hblue := @saying_tells " blue " (by decide) (by decide) (by decide)
    ["grey"]
  have hlimit' : (Request.respond.run (some (saying " blue ")) t).1 ≠ .error .stepLimit := by
    intro h
    rw [hfirst, h] at hanswer
    cases hanswer
  have hblueValues : valuesAfter [" blue "] ["grey"] = ([.str "blue", .str "grey"] : List Value) := by
    rw [valuesAfter, List.map_cons, show Text.trim " blue " = "blue" by decide]
    rfl
  have hredValues : valuesAfter ["red", " blue "] ["grey"] =
      ([.str "red", .str "blue", .str "grey"] : List Value) := by
    rw [valuesAfter, List.map_cons, show Text.trim "red" = "red" by decide, List.cons_append,
      ← hblueValues]
    rfl
  obtain ⟨-, hagain⟩ := hrest [] t .refl (by simp)
  obtain ⟨hwaits, hnext⟩ := hrest [" blue "] _ (.tell .refl hblue hlimit') (by decide)
  obtain ⟨v, w, hadvance, -, hleft, hrun⟩ := (hnext (saying "red") "red"
    (saying_tells (by decide) (by decide) (by decide) ["grey"])).2 (by decide)
  refine ⟨t, hok, ?_, ?_, ?_, v, w, hadvance, ?_, hrun⟩
  · rw [hspoken]
    decide
  · rw [((hagain _ _ hblue).1 (by decide) hlimit').2.1]
    decide
  · exact hblueValues ▸ hwaits
  · rw [← hredValues]
    exact hleft

/-- A loop by the name of a function ends the script before it has asked, and a word said to
somebody by name ends the loop, also if there is a blank in front of the name. -/
theorem quiz_ended :
    ((quiz "random").after (resume "ann")).spoken.map Value.display = [] ∧
      ((quiz "random").after (resume "ann")).awaiting.map Value.display = ["bob"] ∧
        (Request.respond.run (some (saying " neon red"))
          ((quiz "ask").after (resume "ann"))).2.spoken.map Value.display = ["Right"] := by
  decide +kernel

end AskLoop

end Colloquy
