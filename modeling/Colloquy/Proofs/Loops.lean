import Colloquy.Proofs.Runs
import Colloquy.Proofs.Words

/-! Loops that ask.  Such a loop speaks, waits for the user's words and keeps them in front of the
values of a variable; its last line goes back to the first one until the newest value is the final
one. -/

namespace Colloquy

open Session Execution Command Value Text Entries Substitution Colloquy.Function List

/-! ### The script -/

/-- A spoken line with the phrase given. -/
def Value.Speaks (names : Entries) (line : Value) (phrase : String) : Prop :=
  ∃ (k : Keyword) (text : String) (indent : Int) (data : Value), (k = .speak ∨ k = .neonSpeak) ∧
    line.IsLine k.name text indent data ∧ Literal names text ∧ data.IsSpeech phrase

/-- A line that starts or ends a loop, with the words given. -/
def Value.Loops (line : Value) (words : List String) : Prop :=
  ∃ (text : String) (indent : Int) (data : Value),
    line.IsLine Keyword.loop.name text indent data ∧ Text.trim text = Text.join " " words ∧
      PlainData data

/-- A loop of a script: its first line, lines that are spoken, a line that waits for the user's
words, and the line that goes back to the first one until the words are the final ones. -/
structure AskLoop where
  lines : List Value
  /-- The variables that the script has declared. -/
  names : Entries
  first : Nat
  start : Value
  name : String
  phrases : List String
  /-- The variable that the user's words go to. -/
  asked : String
  final : String
  opening : ∃ line number, lines[first]? = some line ∧ line.Loops ["LOOP", name] ∧
    line.item "line_number" = .ok number ∧ number.same start = true
  earlier : ∀ i < first, ∃ line number, lines[i]? = some line ∧
    line.item "line_number" = .ok number ∧ number.same start = false
  body : ∀ (i : Nat) (phrase : String), phrases[i]? = some phrase →
    ∃ line, lines[first + 1 + i]? = some line ∧ line.Speaks names phrase
  asking : ∃ line indent data, lines[first + 1 + phrases.length]? = some line ∧
    line.IsLine Function.voiceInput.name ("voice_input(" ++ asked ++ ")") indent data
  closing : ∃ line, lines[first + 2 + phrases.length]? = some line ∧
    line.Loops ["LOOP", name, "UNTIL", asked, "==", final]
  words : ∀ word ∈ ["LOOP", name, "UNTIL", "==", final], Substitution.Stays names word
  asked_names : Substitution.Names names asked
  begins : Text.contains name "END" = false ∧ Text.contains name "UNTIL" = false
  final_nonempty : final ≠ ""
  final_unquoted : '"' ∉ final.toList ∧ '\'' ∉ final.toList

namespace AskLoop

def last (loop : AskLoop) : Nat :=
  loop.first + 2 + loop.phrases.length

def said (loop : AskLoop) : List Value :=
  loop.phrases.filterMap spokenOf

/-- Variables by the same names as at first, with the given values of the one that is asked for. -/
structure Binds (loop : AskLoop) (values : List Value) (names : Entries) : Prop where
  declared : ∀ word : String, names.has word = loop.names.has word
  asked : names.find? loop.asked = some (.list values none)

/-- A conversation that has the loop among its own, and that takes answers. -/
structure Held (loop : AskLoop) (c : Conversation) : Prop where
  filename : c.filename.truthy = true
  recordings : ∃ entries, c.recordings = .table entries
  loops : ∃ entry, c.loops.item loop.name = .ok entry ∧ entry.item "start" = .ok loop.start ∧
    entry.get "end_variable" = .ok (.str loop.asked) ∧
      entry.get "end_value" = .ok (.str loop.final)

end AskLoop

/-! ### The running script -/

theorem Command.loop_apply {user : Value} {m : Manager} {c : Conversation} {below : List Entry}
    {message : Message} {s : Session} (hkey : user.isKey = true)
    (hm : managerIn s.active user = some m) (hstack : m.stack = .conversation c :: below)
    (hmessage : s.message = some message) (text : String) :
    Command.loop user (.str text) s =
      (if Text.contains text "END" || Text.contains text "UNTIL" then
        match Text.split " " text with
        | _ :: name :: _ => Session.edit user (endLoop name)
        | _ => throw .outOfRange
      else Session.edit user (Edit.step 1)) s := by
  have hmember (part : String) : Value.member (.str part) (.str text) =
      .ok (Text.contains text part) := rfl
  rw [Command.loop, bind_of_ok (currentOf_of_stack hkey hm hstack),
    bind_of_ok (lineData_apply hmessage), hmember,
    bind_of_ok (lift_ok_apply _ _)]
  cases Text.contains text "END" with
  | true => rfl
  | false =>
    rw [if_neg Bool.false_ne_true, hmember, bind_of_ok (lift_ok_apply _ _)]
    rfl

theorem Command.loopDone_of_item {loop value : Value} {bindings : Entries}
    {reference given name final first : String}
    (hvariable : loop.get "end_variable" = .ok (.str reference))
    (hname : Text.replace "\x7d" "" (Text.replace "\x7b" "" reference) = name)
    (hvalue : loop.get "end_value" = .ok (.str given))
    (hfinal : Text.replace "'" "" (Text.replace "\"" "" given) = final) (hne : final ≠ "")
    (hfind : bindings.find? name = some value) (htruthy : value.truthy = true)
    (hfirst : value.item (.int 0) = .ok (.str first)) :
    loopDone loop (.table bindings) = .ok (first == final) := by
  have hget : (Value.table bindings).get name = .ok value := by
    simp only [Value.get, hfind]
    rfl
  have hitem : (Value.table bindings).item name = .ok value := by
    simp only [Value.item, hfind]
    rfl
  have hnonempty : final.isEmpty = false := by simpa using hne
  have hdisplay (text : String) : (Value.str text).display = text := rfl
  simp only [loopDone, hvariable, hvalue, hdisplay, hname, hfinal, hget, hitem, hfirst, htruthy,
    hnonempty, Value.str_same, bind, Except.bind, pure, Except.pure, Bool.not_false, Bool.and_self,
    if_true]

namespace Standing

variable {user : Value} {lines : List Value} {names names' : Entries} {i j : Nat} {s t : Session}
  {P Q : Conversation → Prop}

theorem change {α : Type} (h : Standing user lines names i s) {body : Edit α} {a : α}
    (hP : s.Top user P)
    (hbody : ∀ c, c.At lines names i → P c → ∃ draft : Draft,
      body { conversation := c } = .ok a draft ∧ draft.conversation.At lines names' j ∧
        (∀ root, transcriptPath root draft.conversation = transcriptPath root c) ∧
          ∀ next, Q (settled next draft)) :
    ∃ t, Session.edit user body s = .ok a t ∧ Standing user lines names' j t ∧ t.Top user Q ∧
      t.message = s.message ∧ t.events = s.events ∧ t.awaiting = s.awaiting ∧
        t.depthOf user = s.depthOf user := by
  obtain ⟨m, c, below, -, hm, hstack, hat, -⟩ := h.current
  obtain ⟨draft, hrun, hat', hpath, hQ⟩ := hbody c hat (hP m c below hm hstack)
  refine ⟨Session.kept user m draft s, ?_, h.of_kept hm hstack hat' hpath, ?_, kept_message _ _ _ _,
    ?_, kept_awaiting _ _ _ _, ?_⟩
  · rw [edit_eq h.isKey hm hstack, hrun]
  · intro m' c' below' hm' hstack'
    rw [managerIn_kept_self draft hm] at hm'
    obtain rfl := Option.some.inj hm'
    obtain ⟨rfl, -⟩ : settled s.lists draft = c' ∧ _ := by simpa [Manager.setTop] using hstack'
    exact hQ s.lists
  · simp [Session.kept, withChanges_eq]
  · rw [depthOf, depthOf, stackOf_kept_self draft hm hstack, stackOf_eq hm, hstack]
    simp

theorem top_of_alike (h : Standing user lines names i s) (halike : Alike user s t)
    (hP : s.Top user P) (hbare : ∀ c c' : Conversation, c'.bare = c.bare → P c → P c') :
    t.Top user P := by
  intro m' c' below' hm' hstack'
  obtain ⟨m, c, below, -, hm, hstack, -⟩ := h.current
  obtain ⟨m₁, c₁, below₁, hm₁, hstack₁, -, -, hc⟩ := halike.running hm hstack
  obtain rfl := Option.some.inj (hm₁.symm.trans hm')
  obtain ⟨rfl, rfl⟩ : c₁ = c' ∧ below₁ = below' := by simpa using hstack₁.symm.trans hstack'
  exact hbare c c₁ hc (hP m c below hm hstack)

theorem advance_loop (h : Standing user lines names i s) {line : Value} {words : List String}
    {R : String → Prop} (hline : lines[i]? = some line) (hloops : line.Loops words)
    (hsubstitute : ∀ (t : Session) (text : String), Standing user lines names i t → Alike user s t →
      trim text = Text.join " " words →
        ∃ text', substitute user (.str text) false t = .ok text' t ∧ R text') :
    ∃ t text', R text' ∧ Standing user lines names i t ∧ Alike user s t ∧ t.spoken = s.spoken ∧
      advance user s = (do
        Command.loop user (.str text')
        return (← manager? user).isSome) t := by
  obtain ⟨text, indent, data, hparts, htrim, hdata⟩ := hloops
  obtain ⟨t, hstage, halike, hevents, hadvance⟩ := h.advance_command hline hparts
  obtain ⟨text', hfilled, hR⟩ := hsubstitute t text hstage halike htrim
  obtain ⟨message, hm, -⟩ := hstage.message
  obtain ⟨u, hpass, haside, -⟩ := passData_ok hm .loop user hparts.data hdata
  refine ⟨u, text', hR, hstage.aside haside, halike.trans (haside.alike user), ?_, ?_⟩
  · rw [haside.spoken, spoken_congr hevents]
  · rw [hadvance _ (commandText_of_substitute (by decide) rfl hfilled), bind_of_ok hpass]
    rfl

theorem loop_apply (h : Standing user lines names i s) (text : String) :
    Command.loop user (.str text) s =
      (if Text.contains text "END" || Text.contains text "UNTIL" then
        match Text.split " " text with
        | _ :: name :: _ => Session.edit user (endLoop name)
        | _ => throw .outOfRange
      else Session.edit user (Edit.step 1)) s := by
  obtain ⟨m, c, below, -, hm, hstack, -⟩ := h.current
  obtain ⟨message, hmessage, -⟩ := h.message
  exact Command.loop_apply h.isKey hm hstack hmessage text

end Standing

/-! ### The lines of the loop -/

theorem Command.lineIndex_eq {number : Value} {first : Nat} {lines : List Value}
    (hfirst : ∃ line n, lines[first]? = some line ∧ line.item "line_number" = .ok n ∧
      n.same number = true)
    (hearlier : ∀ i < first, ∃ line n, lines[i]? = some line ∧
      line.item "line_number" = .ok n ∧ n.same number = false) :
    lineIndex number lines = .ok first := by
  induction lines generalizing first with
  | nil =>
    obtain ⟨line, n, hline, -⟩ := hfirst
    cases hline
  | cons line rest ih =>
    cases first with
    | zero =>
      obtain ⟨line', n, hline, hn, hsame⟩ := hfirst
      obtain rfl : line = line' := by simpa using hline
      simp only [lineIndex, hn, bind, Except.bind, hsame, if_true]
      rfl
    | succ first =>
      obtain ⟨line', n, hline, hn, hsame⟩ := hearlier 0 (Nat.succ_pos first)
      obtain rfl : line = line' := by simpa using hline
      have hrest := ih (by simpa using hfirst) fun i hi => by
        simpa using hearlier (i + 1) (Nat.succ_lt_succ hi)
      simp only [lineIndex, hn, bind, Except.bind, hsame, Bool.false_eq_true, if_false, hrest]
      rfl

theorem Substitution.Listable.of_bare {m m' : Message} {values : List Value} (h : Listable m values)
    (hbare : m'.bare = m.bare) : Listable m' values := by
  have hname : "cc_data" ≠ "parser_data" := by decide
  have hfind : find? "cc_data" m'.data = find? "cc_data" m.data := by
    rw [← find?_erase hname m.data, ← find?_erase hname m'.data]
    exact congrArg (fun m => find? "cc_data" m.data) hbare
  rw [Listable, hfind]
  exact h

namespace AskLoop

variable {loop : AskLoop} {user : Value} {names entries : Entries} {values : List Value} {i : Nat}
  {s t : Session} {c c' : Conversation} {answer : String}

theorem Binds.has_entries (h : loop.Binds values names)
    (hentries : copiedEntries entries = names) (word : String) :
    entries.has word = loop.names.has word := by
  rw [← has_copied, hentries, h.declared]

theorem Binds.find?_entries (h : loop.Binds values names)
    (hentries : copiedEntries entries = names) :
    ∃ items number, entries.find? loop.asked = some (.list items number) ∧
      items.map copied = values := by
  have hasked := h.asked
  rw [← hentries, find?_copied] at hasked
  obtain ⟨v, hv, hcopied⟩ := Option.map_eq_some_iff.1 hasked
  obtain ⟨items, number, rfl, hitems⟩ := list_of_copied hcopied
  exact ⟨items, number, hv, hitems⟩

theorem Held.of_bare (h : loop.Held c) (hbare : c'.bare = c.bare) : loop.Held c' := by
  have hfilename : c'.filename = c.filename := (congrArg Conversation.filename hbare :)
  have hrecordings : c'.recordings = c.recordings := (congrArg Conversation.recordings hbare :)
  have hloops : c'.loops = c.loops := (congrArg Conversation.loops hbare :)
  exact ⟨hfilename ▸ h.filename, hrecordings ▸ h.recordings, hloops ▸ h.loops⟩

theorem Held.settled {draft : Draft} (h : loop.Held draft.conversation) (next : Nat) :
    loop.Held (settled next draft) :=
  ⟨h.filename, h.recordings, h.loops⟩

/-- The script stands at the line `i`, with the values given. -/
structure Stands (loop : AskLoop) (user : Value) (i : Nat) (values : List Value) (s : Session) :
    Prop where
  standing : ∃ names, loop.Binds values names ∧ Standing user loop.lines names i s
  held : s.Top user loop.Held

/-- The script waits for the user's words behind the line that asks for them. -/
structure Waits (loop : AskLoop) (user : Value) (values : List Value) (s : Session) : Prop where
  waiting : ∃ others, s.awaiting = others ++ [user] ∧
    loop.Stands user loop.last values { s with awaiting := others }
  awaited : s.Top user fun c => c.awaited = .str loop.asked

theorem Stands.leads (most : Nat) {j : Nat} {said : List Value} (h : loop.Stands user i values s)
    (hleads : ∀ names, loop.Binds values names → Standing user loop.lines names i s →
      Leads user loop.lines names s most j said) :
    ∃ n t, Goes user n s t ∧ loop.Stands user j values t ∧ t.spoken = s.spoken ++ said := by
  obtain ⟨names, hbinds, hstanding⟩ := h.standing
  obtain ⟨n, t, -, hgoes, hnext, halike, hspoken⟩ := hleads names hbinds hstanding
  exact ⟨n, t, hgoes, ⟨⟨names, hbinds, hnext⟩,
    hstanding.top_of_alike halike h.held fun _ _ hbare hheld => hheld.of_bare hbare⟩, hspoken⟩

theorem words_unquoted (words : List String) (word : String) :
    isQuoted (Text.join " " ("LOOP" :: word :: words)) = false := by
  rw [Text.join_cons_cons]
  simp [isQuoted, startsWith, String.toList_append]

theorem leads_opening (hbinds : loop.Binds values names)
    (h : Standing user loop.lines names loop.first s) :
    Leads user loop.lines names s 1 (loop.first + 1) [] := by
  obtain ⟨line, number, hline, hloops, -⟩ := loop.opening
  obtain ⟨t, text', rfl, hstanding, halike, hspoken, hadvance⟩ :
      ∃ t text', text' = Text.join " " ["LOOP", loop.name] ∧ _ :=
    h.advance_loop hline hloops fun t text ht halike htrim => by
      obtain ⟨m, c, below, -, hm, hstack, hat, -⟩ := ht.current
      obtain ⟨entries, hbindings, hentries⟩ := Value.table_of_copied hat.bindings
      refine ⟨_, Substitution.substitute_words ht.isKey ht.initialized hm hstack hbindings htrim
        (by rw [htrim]; exact words_unquoted _ _) (cons_ne_nil _ _) fun word hword => ?_, rfl⟩
      exact (loop.words word (by grind)).congr (hbinds.has_entries hentries)
  have hstarts (part : String) (rest : List Char) (hpart : part.toList = 'E' :: rest ∨
      part.toList = 'U' :: rest) (hname : Text.contains loop.name part = false) :
      Text.contains (Text.join " " ["LOOP", loop.name]) part = false := by
    rw [Text.join_cons_cons, Text.join_singleton]
    rcases hpart with hpart | hpart
    · rw [Text.contains_append_right part hpart (by decide), hname]
    · rw [Text.contains_append_right part hpart (by decide), hname]
  obtain ⟨u, hedit, hnext, halike', -, hevents, -⟩ := hstanding.edit (j := loop.first + 1) (a := ())
    fun c hc => ⟨_, hc.step, rfl, rfl, hc.lastIndent⟩
  refine Leads.line h ⟨u, ?_, hnext, halike.trans halike', ?_⟩
  · have hloop : Command.loop user (.str (Text.join " " ["LOOP", loop.name])) t = .ok () u := by
      rw [hstanding.loop_apply, hstarts "END" _ (.inl rfl) loop.begins.1,
        hstarts "UNTIL" _ (.inr rfl) loop.begins.2]
      exact hedit
    rw [hadvance, bind_of_ok hloop, hnext.isActive]
  · rw [spoken_congr hevents, hspoken, append_nil]

theorem leads_body (hbinds : loop.Binds values names) {n : Nat} (hn : n ≤ loop.phrases.length)
    (h : Standing user loop.lines names (loop.first + 1) s) :
    Leads user loop.lines names s n (loop.first + 1 + n)
      ((loop.phrases.take n).filterMap spokenOf) := by
  induction n with
  | zero => exact Leads.refl h
  | succ n ih =>
    have hlt : n < loop.phrases.length := hn
    obtain ⟨line, hline, k, text, indent, data, hk, hparts, htext, hdata⟩ :=
      loop.body n _ (getElem?_eq_getElem hlt)
    refine ((ih (Nat.le_of_succ_le hn)).trans fun t ht _ => Leads.line ht
      (ht.advance_speech hk hline hparts (htext.congr hbinds.declared) hdata)).cast
        (Nat.le_refl _) (by omega) ?_
    rw [take_succ_eq_append_getElem hlt, filterMap_append]
    cases hspoken : spokenOf loop.phrases[n] <;> simp [hspoken]

theorem Stands.speaks (h : loop.Stands user loop.first values s) :
    ∃ n t, Goes user n s t ∧ loop.Stands user (loop.first + 1 + loop.phrases.length) values t ∧
      t.spoken = s.spoken ++ loop.said := by
  refine h.leads (1 + loop.phrases.length) fun names hbinds hstanding => ?_
  refine ((leads_opening hbinds hstanding).trans fun t ht _ =>
    leads_body hbinds (Nat.le_refl _) ht).cast (Nat.le_refl _) rfl ?_
  rw [take_length, nil_append]
  rfl

/-! ### Asking -/

theorem functionArgument_eq {bindings : Entries} {name : String}
    (h : Names bindings name) :
    functionArgument (.str ("voice_input(" ++ name ++ ")")) = .ok (some name) := by
  have hbrace : Text.contains ("voice_input(" ++ name ++ ")") "\x7b" = false := by
    refine contains_eq_false "\x7b" rfl ?_
    simp only [String.toList_append, mem_append, not_or]
    exact ⟨⟨by decide, h.characters _ (by decide)⟩, by decide⟩
  have hopen : Text.contains ("voice_input(" ++ name ++ ")") "(" = true := by
    have hpart := contains_append "voice_input" "(" (name ++ ")")
    rwa [← String.append_assoc] at hpart
  have hclose : Text.contains ("voice_input(" ++ name ++ ")") ")" = true := by
    have hpart := contains_append ("voice_input(" ++ name) ")" ""
    rwa [String.append_empty] at hpart
  have hbetween : Pattern.between "(" ")" ("voice_input(" ++ name ++ ")") = name := by
    have hstart : Text.split "(" ("voice_input(" ++ name ++ ")") =
        "voice_input" :: Text.split "(" (name ++ ")") := by
      have hsplit := split_append (a := "voice_input") "(" rfl (by decide) (name ++ ")")
      rwa [← String.append_assoc] at hsplit
    have hstop : Text.split ")" (name ++ ")") = name :: Text.split ")" "" := by
      have hsplit := split_append (a := name) ")" rfl (h.characters _ (by decide)) ""
      rwa [String.append_empty] at hsplit
    have hname : Text.split "(" (name ++ ")") = [name ++ ")"] := by
      refine split_of_not_mem "(" rfl ?_
      simp only [String.toList_append, mem_append, not_or]
      exact ⟨h.characters _ (by decide), by decide⟩
    simp [Pattern.between, hstart, hname, hstop]
  have hmember (part text : String) : member (.str part) (.str text) =
      .ok (Text.contains text part) := rfl
  simp only [functionArgument, hmember, bind, Except.bind, pure, Except.pure, hbrace, hopen, hclose,
    Bool.false_eq_true, if_false, if_true]
  exact congrArg (fun key => Except.ok (some key)) hbetween

theorem edit_awaiting {α : Type} {body : Edit α} {a : α} (h : Session.edit user body s = .ok a t)
    (users : List Value) :
    Session.edit user body { s with awaiting := users } = .ok a { t with awaiting := users } := by
  obtain ⟨fault, herror⟩ | ⟨m, c, below, hkey, hm, hstack, -⟩ := current_cases user s
  · rw [Session.edit, bind_of_error herror] at h
    cases h
  · rw [edit_eq hkey hm hstack] at h
    have hm' : managerIn { s with awaiting := users }.active user = some m := hm
    rw [edit_eq hkey hm' hstack]
    cases hbody : body { conversation := c } with
    | error fault draft =>
      rw [hbody] at h
      cases h
    | ok b draft =>
      rw [hbody] at h
      obtain ⟨rfl, rfl⟩ := by simpa using h
      simp [kept, withChanges_eq]

theorem voiceInput_apply {name : String} (hcomma : Text.contains name "," = false)
    (hfill : Session.edit user (Edit.update fun c => { c with awaited := .str name }) s = .ok () t) :
    voiceInput.call (.str name) user s =
      .ok .null { t with awaiting := s.awaiting ++ [user] } := by
  have hmember : member (.str ",") (.str name) = .ok false := congrArg Except.ok hcomma
  have hfill' := edit_awaiting hfill (s.awaiting ++ [user])
  simp only [Function.call, Function.runVoiceInput, await]
  rw [bind_of_ok (modify_apply _ _), hmember, bind_of_ok (lift_ok_apply _ _),
    if_neg Bool.false_ne_true, bind_of_ok (pure_apply _ _), bind_of_ok hfill', pure_apply]

theorem Stands.asks (h : loop.Stands user (loop.first + 1 + loop.phrases.length) values s) :
    ∃ t, advance user s = .ok false t ∧ loop.Waits user values t ∧ t.spoken = s.spoken := by
  obtain ⟨names, hbinds, hstanding⟩ := h.standing
  obtain ⟨line, indent, data, hline, hparts⟩ := loop.asking
  obtain ⟨c, t, -, ht, halike, hevents, hadvance⟩ := hstanding.advance_runLine hline hparts
  have hheld : t.Top user loop.Held :=
    hstanding.top_of_alike halike h.held fun _ _ hbare hheld => hheld.of_bare hbare
  have hcomma := loop.asked_names.characters ',' (by decide)
  have hdeclared (c : Conversation)
      (hat : c.At loop.lines names (loop.first + 1 + loop.phrases.length)) :
      member loop.asked c.bindings = .ok true := by
    obtain ⟨entries, hbindings, hentries⟩ := Value.table_of_copied hat.bindings
    have hhas := (hbinds.has_entries hentries loop.asked).trans loop.asked_names.declared
    rw [hbindings, member, show (Value.str loop.asked).isKey = true from rfl, if_pos rfl, hhas]
  -- The variable is declared, so the first edit changes nothing.
  obtain ⟨t₁, hdeclare, ht₁, hheld₁, -, hevents₁, hawaiting₁, -⟩ :
      ∃ t₁, Session.edit user (do
          if !(← member loop.asked (← Edit.read).bindings) then
            Edit.writeVariable loop.asked (.ofItems [])) t = .ok () t₁ ∧
        Standing user loop.lines names (loop.first + 1 + loop.phrases.length) t₁ ∧
          t₁.Top user loop.Held ∧ _ :=
    ht.change hheld fun c hat hheld => by
      refine ⟨{ conversation := c }, ?_, hat, fun _ => rfl, hheld.settled⟩
      rw [bind_of_ok (Edit.read_apply _)]
      simp only [hdeclared c hat]
      rfl
  obtain ⟨t₂, hfill, ht₂, htop₂, -, hevents₂, hawaiting₂, hdepth⟩ :
      ∃ t₂, Session.edit user (Edit.update fun c => { c with awaited := .str loop.asked }) t₁ =
        .ok () t₂ ∧ Standing user loop.lines names (loop.first + 1 + loop.phrases.length) t₂ ∧
          t₂.Top user (fun c => loop.Held c ∧ c.awaited = .str loop.asked) ∧ _ :=
    ht₁.change hheld₁ fun c hat hheld =>
      ⟨_, rfl, ⟨hat.lines, hat.bindings, hat.index, hat.lastIndent⟩, fun _ => rfl,
        fun _ => ⟨⟨hheld.filename, hheld.recordings, hheld.loops⟩, rfl⟩⟩
  obtain ⟨t₃, hstep, ht₃, htop₃, -, hevents₃, hawaiting₃, -⟩ :
      ∃ t₃, Session.edit user (Edit.step 1) t₂ = .ok () t₃ ∧
        Standing user loop.lines names loop.last t₃ ∧
          t₃.Top user (fun c => loop.Held c ∧ c.awaited = .str loop.asked) ∧ _ :=
    ht₂.change htop₂ fun c hat htop => by
      refine ⟨_, hat.step, ⟨hat.lines, hat.bindings, ?_, hat.lastIndent⟩, fun _ => rfl,
        fun _ => ⟨⟨htop.1.filename, htop.1.recordings, htop.1.loops⟩, htop.2⟩⟩
      simp only [last, int.injEq]
      omega
  have hrun : runFunction .voiceInput c user line (.str ("voice_input(" ++ loop.asked ++ ")")) t =
      .ok () { t₃ with awaiting := t₁.awaiting ++ [user] } := by
    obtain ⟨m₁, -, -, -, hm₁, -⟩ := ht₁.current
    obtain ⟨m₂, -, -, -, hm₂, -⟩ := ht₂.current
    rw [depthOf, depthOf, stackOf_eq hm₁, stackOf_eq hm₂] at hdepth
    have hsame : (m₂.depth == m₁.depth) = true := beq_iff_eq.2 hdepth
    rw [runFunction, functionArgument_eq loop.asked_names, bind_of_ok (lift_ok_apply _ _)]
    simp only [split_of_not_mem "," rfl hcomma, headD_cons]
    rw [bind_of_ok hdeclare, bind_of_ok (managerAt_of_some ht₁.isKey hm₁),
      bind_of_ok (voiceInput_apply (contains_eq_false "," rfl hcomma) hfill), editSince,
      bind_of_ok (manager?_of_isKey ht₁.isKey _)]
    simp only [hm₂, hsame, if_true]
    exact edit_awaiting hstep _
  have hfunction : (all.find? fun f =>
      (Value.str voiceInput.name).same (.str f.name)) = some .voiceInput := by
    simp only [Value.str_same]
    decide
  refine ⟨{ t₃ with awaiting := t₁.awaiting ++ [user] }, ?_, ⟨⟨t₁.awaiting, rfl, ?_⟩, ?_⟩, ?_⟩
  · have hknown : Keyword.known? (.str voiceInput.name) t = .ok none t := by
      simp only [Keyword.known?, bind_apply, get_apply, ht.initialized, if_true, pure_apply]
      rfl
    have hfunctions : known t = .ok all t := by
      simp only [known, bind_apply, get_apply, ht.initialized, if_true, pure_apply]
    rw [hadvance, runLine, bind_of_ok hknown]
    simp only
    rw [bind_of_ok hfunctions]
    simp only [hfunction]
    rw [bind_of_ok hrun, pure_apply]
  · have hothers : t₃.awaiting = t₁.awaiting := hawaiting₃.trans hawaiting₂
    rw [← hothers]
    exact ⟨⟨names, hbinds, ht₃⟩, fun m c below hm hstack => (htop₃ m c below hm hstack).1⟩
  · exact fun m c below hm hstack => (htop₃ m c below hm hstack).2
  · exact spoken_congr (hevents₃.trans (hevents₂.trans (hevents₁.trans hevents)))

/-! ### The last line -/

theorem Binds.find?_answer (h : loop.Binds (.str answer :: values) names)
    (hentries : copiedEntries entries = names) :
    ∃ items number, entries.find? loop.asked = some (.list (.str answer :: items) number) ∧
      items.map copied = values := by
  obtain ⟨items, number, hfind, hitems⟩ := h.find?_entries hentries
  obtain ⟨first, rest, rfl, hfirst, hrest⟩ := map_eq_cons_iff.1 hitems
  obtain rfl := str_of_copied hfirst
  exact ⟨rest, number, hfind, hrest⟩

theorem loopDone_eq {entry : Value} (hbinds : loop.Binds (.str answer :: values) names)
    (hbindings : c.bindings.copied = .table names)
    (hasked : entry.get "end_variable" = .ok (.str loop.asked))
    (hfinal : entry.get "end_value" = .ok (.str loop.final)) :
    loopDone entry c.bindings = .ok (answer == loop.final) := by
  obtain ⟨entries, htable, hentries⟩ := Value.table_of_copied hbindings
  obtain ⟨items, number, hfind, -⟩ := hbinds.find?_answer hentries
  have hname : replace "\x7d" "" (replace "\x7b" "" loop.asked) = loop.asked := by
    rw [replace_of_not_mem "\x7b" rfl (loop.asked_names.characters _ (by decide)),
      replace_of_not_mem "\x7d" rfl (loop.asked_names.characters _ (by decide))]
  have hvalue : replace "'" "" (replace "\"" "" loop.final) = loop.final := by
    rw [replace_of_not_mem "\"" rfl loop.final_unquoted.1,
      replace_of_not_mem "'" rfl loop.final_unquoted.2]
  have hnewest : (list (.str answer :: items) number).item (.int 0) = .ok (.str answer) :=
    itemAt_nat (i := 0) rfl
  rw [htable]
  exact loopDone_of_item hasked hname hfinal hvalue loop.final_nonempty hfind rfl hnewest

theorem Held.endLoop_eq (h : loop.Held c) (hat : c.At loop.lines names i)
    (hbinds : loop.Binds (.str answer :: values) names) :
    endLoop loop.name { conversation := c } = .ok () { conversation :=
      { c with index := .int (if answer = loop.final then i + 1 else loop.first : Nat) } } := by
  obtain ⟨entry, hentry, hstart, hasked, hfinal⟩ := h.loops
  have helements : c.lines.elements = .ok loop.lines := by
    obtain ⟨number, hlines⟩ := hat.lines
    rw [hlines, elements]
  have hindex : lineIndex loop.start loop.lines = .ok loop.first := by
    obtain ⟨line, number, hline, -, hnumber⟩ := loop.opening
    exact lineIndex_eq ⟨line, number, hline, hnumber⟩ loop.earlier
  rw [endLoop, bind_of_ok (Edit.read_apply _), hentry, bind_of_ok (lift_ok_apply _ _), hstart,
    bind_of_ok (lift_ok_apply _ _), loopDone_eq hbinds hat.bindings hasked hfinal,
    bind_of_ok (lift_ok_apply _ _)]
  by_cases hanswer : answer = loop.final
  · rw [if_pos (beq_iff_eq.2 hanswer), if_pos hanswer]
    exact hat.step
  · rw [if_neg (fun h => hanswer (beq_iff_eq.1 h)), if_neg hanswer, helements,
      bind_of_ok (lift_ok_apply _ _), hindex, bind_of_ok (lift_ok_apply _ _)]
    rfl

theorem substitute_closing (hbinds : loop.Binds (.str answer :: values) names)
    (ht : Standing user loop.lines names i t) {m : Message} (hmessage : t.message = some m)
    (hlist : Listable m values) {text : String}
    (htrim : trim text =
      Text.join " " ["LOOP", loop.name, "UNTIL", loop.asked, "==", loop.final]) :
    ∃ word, substitute user (.str text) false t =
      .ok (Text.join " " ["LOOP", loop.name, "UNTIL", word, "==", loop.final]) t := by
  obtain ⟨manager, c, below, -, hm, hstack, hat, -⟩ := ht.current
  obtain ⟨entries, hbindings, hentries⟩ := Value.table_of_copied hat.bindings
  obtain ⟨items, number, hfind, hitems⟩ := hbinds.find?_answer hentries
  have hnames := loop.asked_names.congr (hbinds.has_entries hentries)
  have hstays (word : String) (hword : word ∈ ["LOOP", loop.name, "UNTIL", "==", loop.final]) :=
    (loop.words word hword).congr (hbinds.has_entries hentries)
  have hlist' : Listable m items := by
    obtain ⟨flag, hflag, htexts⟩ := hlist
    refine ⟨flag, hflag, fun hwhole value hvalue => ?_⟩
    obtain ⟨text, htext⟩ := htexts hwhole value.copied (hitems ▸ mem_map_of_mem hvalue)
    exact ⟨text, str_of_copied htext⟩
  obtain ⟨word, hword⟩ := variableWord_ok hmessage hlist' hbindings hfind hnames
  have htrim' : trim text =
      Text.join " " (["LOOP", loop.name, "UNTIL"] ++ loop.asked :: ["==", loop.final]) := htrim
  exact ⟨word, substitute_variable ht.isKey ht.initialized hm hstack hbindings htrim'
    (by rw [htrim]; exact words_unquoted _ _) (by simp) (fun word h => hstays word (by grind))
    (fun word h => hstays word (by grind)) hnames hword⟩

theorem Stands.closes {m : Message} (h : loop.Stands user loop.last (.str answer :: values) s)
    (hmessage : s.message = some m) (hlist : Listable m values) :
    ∃ t, advance user s = .ok true t ∧ t.spoken = s.spoken ∧
      loop.Stands user (if answer = loop.final then loop.last + 1 else loop.first)
        (.str answer :: values) t := by
  obtain ⟨names, hbinds, hstanding⟩ := h.standing
  obtain ⟨line, hline, hloops⟩ := loop.closing
  obtain ⟨t, text', ⟨word, rfl⟩, ht, halike, hspoken, hadvance⟩ :
      ∃ t text', (∃ word, text' = Text.join " "
        ["LOOP", loop.name, "UNTIL", word, "==", loop.final]) ∧ _ :=
    hstanding.advance_loop hline hloops fun t text ht halike htrim => by
      have hbare := halike.message
      rw [hmessage] at hbare
      obtain ⟨m', hm', heq⟩ := Option.map_eq_some_iff.1 hbare
      obtain ⟨word, hword⟩ := substitute_closing hbinds ht hm' (hlist.of_bare heq) htrim
      exact ⟨_, hword, word, rfl⟩
  have hheld : t.Top user loop.Held :=
    hstanding.top_of_alike halike h.held fun _ _ hbare hheld => hheld.of_bare hbare
  obtain ⟨u, hedit, hu, hheld', -, hevents, -⟩ :
      ∃ u, Session.edit user (endLoop loop.name) t = .ok () u ∧ Standing user loop.lines names
        (if answer = loop.final then loop.last + 1 else loop.first) u ∧ u.Top user loop.Held ∧ _ :=
    ht.change hheld fun c hat hheld => ⟨_, hheld.endLoop_eq hat hbinds,
      ⟨hat.lines, hat.bindings, rfl, hat.lastIndent⟩, fun _ => rfl,
      fun _ => ⟨hheld.filename, hheld.recordings, hheld.loops⟩⟩
  have hloop : Command.loop user
      (.str (Text.join " " ["LOOP", loop.name, "UNTIL", word, "==", loop.final])) t = .ok () u := by
    have huntil : Text.contains (Text.join " " ["LOOP", loop.name, "UNTIL", word, "==", loop.final])
        "UNTIL" = true := contains_join (by simp) " "
    have hblank := (loop.words loop.name (by simp)).blank
    have hsplit : Text.split " " (Text.join " " ["LOOP", loop.name, "UNTIL", word, "==", loop.final]) =
        "LOOP" :: loop.name :: Text.split " " (Text.join " " ["UNTIL", word, "==", loop.final]) := by
      rw [Text.join_cons_cons, split_append " " rfl (by decide), Text.join_cons_cons,
        split_append " " rfl hblank]
    rw [ht.loop_apply, huntil, Bool.or_true, if_pos rfl, hsplit]
    exact hedit
  refine ⟨u, ?_, (spoken_congr hevents).trans hspoken, ⟨names, hbinds, hu⟩, hheld'⟩
  rw [hadvance, bind_of_ok hloop, hu.isActive]

end AskLoop

end Colloquy
