import Colloquy.Proofs.Stage

/-! What the lines do that speak and branch.  Each of them is run at a stage and leads to a stage at
the line behind it, or behind the lines that it passes over. -/

namespace Colloquy

open Session Execution Command Value Entries List

variable {s : Session} {m : Message} {data line : Value} {k : Keyword}
  {command phrase text : String} {fuel i outer : Nat}

/-! ### The data of a line -/

/-- Nothing but the data of the line and silent requests to the host have changed. -/
structure Session.Aside (s t : Session) : Prop where
  rest : { t with events := s.events, message := s.message } = s
  message : t.message.map Message.bare = s.message.map Message.bare
  spoken : t.spoken = s.spoken

theorem Session.Aside.alike {t : Session} (h : Aside s t) (user : Value) : Alike user s t where
  host := (congrArg host h.rest :)
  root := (congrArg root h.rest :)
  clock := (congrArg clock h.rest :)
  awaiting := (congrArg awaiting h.rest :)
  reads := (congrArg reads h.rest :)
  initialized := (congrArg initialized h.rest :)
  message := h.message
  manager := (congrArg (fun s : Session => (managerIn s.active user).map Manager.bare) h.rest :)

theorem setDatum_apply (hm : s.message = some m) (name : String) (value : Value) :
    setDatum name value s =
      .ok () { s with message := some { m with data := insert name value m.data } } := by
  rw [setDatum, bind_of_ok (theMessage_of_some hm), modify_apply]

theorem lineData_apply (hm : s.message = some m) :
    lineData s = .ok ((Entries.find? "parser_data" m.data).getD .null) s := by
  rw [lineData, datum, bind_of_ok (theMessage_of_some hm), pure_apply]

/-- Data without references: there are none, or none of their texts opens a brace. -/
def PlainData (data : Value) : Prop :=
  data.truthy = true → ∃ entries, data = .table entries ∧
    ∀ e ∈ entries, ∀ text, e.2 = .str text → '\x7b' ∉ text.toList

theorem PlainData.null : PlainData .null :=
  fun h => by cases h

theorem fillData_ok (user : Value) {entries : Entries} (s : Session)
    (h : ∀ e ∈ entries, ∀ text, e.2 = .str text → '\x7b' ∉ text.toList) :
    fillData user entries s = .ok () s := by
  induction entries with
  | nil => rfl
  | cons e rest ih =>
    obtain ⟨hfirst, hrest⟩ := forall_mem_cons.1 h
    obtain ⟨key, value⟩ := e
    cases value with
    | str text =>
      have hbrace := Text.contains_eq_false "\x7b" rfl (hfirst text rfl)
      simp only [fillData, hbrace, Bool.false_and, Bool.false_eq_true, if_false]
      exact ih hrest
    | _ => exact ih hrest

theorem passData_ok (hm : s.message = some m) (k : Keyword) (user : Value)
    (hline : line.get "data" = .ok data) (hdata : PlainData data) :
    ∃ t, passData k user line s = .ok () t ∧ Aside s t ∧ lineData t = .ok data t := by
  refine ⟨{ s with message := some { m with data := insert "parser_data" data m.data } },
    ?_, ⟨rfl, ?_, rfl⟩, ?_⟩
  · rw [passData, hline, bind_of_ok (lift_ok_apply _ _), bind_of_ok (setDatum_apply hm _ _)]
    refine rescue_of_ok ?_
    rw [bind_of_ok (lineData_apply rfl), find?_insert_self, Option.getD_some]
    split
    · rename_i htruthy
      obtain ⟨entries, rfl, hplain⟩ := hdata (Bool.and_eq_true_iff.1 htruthy).1
      exact (bind_of_ok (lift_ok_apply entries _)).trans (fillData_ok user _ hplain)
    · rfl
  · rw [hm]
    simp only [Option.map_some, Message.bare, Option.some.injEq]
    rw [erase_insert]
  · rw [lineData_apply rfl, find?_insert_self, Option.getD_some]

namespace Standing

variable {user : Value} {lines : List Value} {names : Entries} {i : Nat} {s t : Session}

theorem aside (h : Standing user lines names i s) (haside : Aside s t) :
    Standing user lines names i t := by
  have hactive : t.active = s.active := (congrArg active haside.rest :)
  have hfiles : t.files = s.files := (congrArg files haside.rest :)
  obtain ⟨m, c, below, place, hm, hstack, hat, hwrites⟩ := h.current
  refine h.alike (haside.alike user) (fun m' c' below' hm' hstack' => ?_) fun _ _ hw => hfiles ▸ hw
  rw [hactive, hm] at hm'
  obtain rfl := Option.some.inj hm'
  rw [hstack] at hstack'
  obtain ⟨rfl, rfl⟩ := hstack'
  exact ⟨hat.index, hat.lastIndent⟩

theorem commandText_ok (h : Standing user lines names i s) (hk : k ≠ .branch)
    (htext : Literal names text) : ∃ text', commandText k user (.str text) s = .ok text' s := by
  obtain ⟨m, c, below, -, hm, hstack, hat, -⟩ := h.current
  obtain ⟨entries, hentries, rfl⟩ := table_of_copied hat.bindings
  exact (htext.congr fun word => (has_copied entries word).symm).commandText_ok hk
    h.isKey hm hstack hentries

theorem isActive (h : Standing user lines names i s) :
    (do return (← manager? user).isSome : Run Bool) s = .ok true s := by
  obtain ⟨m, c, -, -, hm, -⟩ := h.current
  rw [bind_of_ok (manager?_of_isKey h.isKey s), hm]
  rfl

end Standing

/-! ### Speaking -/

def speechData (phrase : String) : Value :=
  .object [("name", "Neon"), ("phrase", .str phrase)]

@[simp] theorem speechData_truthy (phrase : String) : (speechData phrase).truthy = true := rfl

@[simp] theorem speechData_name (phrase : String) :
    (speechData phrase).get "name" = .ok (.str "Neon") := by
  simp [speechData, Value.get_object]

@[simp] theorem speechData_phrase (phrase : String) :
    (speechData phrase).get "phrase" = .ok (.str phrase) := by
  simp [speechData, Value.get_object]

/-- The data of a line that has a phrase spoken by the voice of the script. -/
structure Value.IsSpeech (data : Value) (phrase : String) : Prop where
  plain : PlainData data
  truthy : data.truthy = true
  name : data.get "name" = .ok (.str "Neon")
  phrase : data.get "phrase" = .ok (.str phrase)

theorem speechData_isSpeech (h : '\x7b' ∉ phrase.toList) : (speechData phrase).IsSpeech phrase :=
  ⟨fun _ => ⟨_, rfl, by simpa [speechData] using h⟩, speechData_truthy phrase,
    speechData_name phrase, speechData_phrase phrase⟩

/-- What is spoken of a phrase: nothing if it is empty but for blanks and quotes around it, or a mere
heading. -/
def spokenOf (phrase : String) : Option Value :=
  if !(cleanQuotes phrase).truthy ||
      Text.endsWith (Text.lower (cleanQuotes phrase).display) "speak:" then none
  else some (cleanQuotes phrase)

/-- A phrase that is spoken: it opens no brace, and without blanks and quotes around it, it is not
empty and is not a mere heading. -/
structure Speakable (phrase : String) : Prop where
  brace : '\x7b' ∉ phrase.toList
  truthy : (cleanQuotes phrase).truthy = true
  heading : Text.endsWith (Text.lower (cleanQuotes phrase).display) "speak:" = false

instance (phrase : String) : Decidable (Speakable phrase) :=
  decidable_of_iff (_ ∧ _ ∧ _) ⟨fun ⟨hbrace, htruthy, hheading⟩ => ⟨hbrace, htruthy, hheading⟩,
    fun h => ⟨h.brace, h.truthy, h.heading⟩⟩

namespace Standing

variable {user : Value} {lines : List Value} {names : Entries} {i : Nat} {s t : Session}

variable (h : Standing user lines names i s)

include h

theorem say_ok (text voice : Value) :
    ∃ t, say text voice s = .ok () t ∧ Standing user lines names i t ∧ Alike user s t ∧
      t.message = s.message ∧ t.files = s.files ∧ t.spoken = s.spoken ++ [text] := by
  refine ⟨{ s with events := .speak text voice :: s.events }, ?_,
    ⟨h.isKey, h.initialized, h.canSpeak, h.awaiting, h.message, h.current⟩,
    ⟨rfl, rfl, rfl, rfl, rfl, rfl, rfl, rfl⟩, rfl, rfl, spoken_cons _ s⟩
  simp only [say, Session.tell, bind_apply, modify_apply, get_apply, h.canSpeak]
  rfl

theorem note_ok {c : Conversation} {place : Place}
    (hwrites : s.files.Writes s.root (transcriptPath s.root c) place) (who : String)
    (what : Value) :
    ∃ t, noteSaid c who what s = .ok () t ∧ Standing user lines names i t ∧ Alike user s t ∧
      t.spoken = s.spoken ∧ t.files.Writes t.root (transcriptPath t.root c) place := by
  obtain ⟨files, hnote, hkeeps⟩ := noteSaid_ok hwrites who what
  have halike : Alike user s { s with files } := ⟨rfl, rfl, rfl, rfl, rfl, rfl, rfl, rfl⟩
  obtain ⟨m, c', below, place', hm, hstack, hat, hwrites'⟩ := h.current
  exact ⟨_, hnote, ⟨h.isKey, h.initialized, h.canSpeak, h.awaiting, h.message,
    m, c', below, place', hm, hstack, hat, hkeeps _ _ hwrites'⟩, halike, rfl, hkeeps _ _ hwrites⟩

theorem speakAloud_ok {m : Manager} {c : Conversation}
    {below : List Entry} (hm : managerIn s.active user = some m)
    (hstack : m.stack = .conversation c :: below) {entries : Entries}
    (hdata : lineData s = .ok (.table entries) s) (phrase : Value) :
    ∃ t, speakAloud user c phrase s = .ok () t ∧ Standing user lines names (i + 1) t ∧
      Alike user s t ∧ t.spoken = s.spoken ++ [phrase] := by
  obtain ⟨m₁, c₁, below₁, place, hm₁, hstack₁, hat, hwrites⟩ := h.current
  rw [hm] at hm₁
  obtain rfl := Option.some.inj hm₁
  rw [hstack] at hstack₁
  obtain ⟨rfl, rfl⟩ := hstack₁
  obtain ⟨t, hedit, hstage, halike, hmessage, hevents, hfiles⟩ :
      ∃ t, Session.edit user (do
          Edit.step 1
          Edit.update fun c => { c with lastRequest := phrase }) s = .ok () t ∧
        Standing user lines names (i + 1) t ∧ Alike user s t ∧ t.message = s.message ∧
          t.events = s.events ∧ t.files = s.files :=
    h.edit fun c hc => ⟨{ c with index := .int (i + 1), lastRequest := phrase }, by
      simp [Edit.step, Edit.read, Edit.update, bind_apply, hc.index, Value.addInt, Value.asInt?],
      rfl, rfl, hc.lastIndent⟩
  obtain ⟨u, hsay, hstage', halike', hmessage', hfiles', hspoken⟩ := hstage.say_ok phrase c.speaker
  obtain ⟨message, hm', hnotable⟩ := hstage'.message
  have hheard : (datum "utterances" : Run Value) u =
      .ok ((Entries.find? "utterances" message.data).getD .null) u := by
    rw [datum, bind_of_ok (theMessage_of_some hm'), pure_apply]
  rw [speakAloud, bind_of_ok hedit, bind_of_ok hsay, bind_of_ok hheard]
  have hwrites' : u.files.Writes u.root (transcriptPath u.root c) place := by
    rw [hfiles', hfiles, halike'.root, halike.root]
    exact hwrites
  have hspoken' : u.spoken = s.spoken ++ [phrase] := by rw [hspoken, spoken_congr hevents]
  split
  · rename_i htruthy
    obtain ⟨words, hwords⟩ := hnotable htruthy
    have hdata' : lineData u = .ok (.table entries) u := by
      rw [lineData_apply (hmessage ▸ hmessage' ▸ hm')] at hdata
      rw [lineData_apply hm', (EStateM.Result.ok.inj hdata).1]
    obtain ⟨v, hnote, hstage₁, halike₁, hspoken₁, hwrites₁⟩ :=
      hstage'.note_ok hwrites' user.display words
    obtain ⟨w, hnote', hstage₂, halike₂, hspoken₂, -⟩ := hstage₁.note_ok hwrites₁ "Neon" phrase
    refine ⟨w, ?_, hstage₂, (halike.trans halike').trans (halike₁.trans halike₂), ?_⟩
    · rw [bind_of_ok hdata', Value.entries, bind_of_ok (lift_ok_apply _ _), noteUser, hwords,
        bind_of_ok (m := liftM _ >>= _) ((bind_of_ok (lift_ok_apply _ _)).trans hnote)]
      exact hnote'
    · rw [hspoken₂, hspoken₁, hspoken']
  · obtain ⟨w, hnote, hstage₂, halike₂, hspoken₂, -⟩ := hstage'.note_ok hwrites' "Neon" phrase
    exact ⟨w, hnote, hstage₂, (halike.trans halike').trans halike₂, by rw [hspoken₂, hspoken']⟩

/-- A spoken line that is not left out goes on by a line and has spoken what is spoken of its
phrase. -/
theorem advance_speech_in (hk : k = .speak ∨ k = .neonSpeak)
    {indent : Int} {parents : List Value} (hline : lines[i]? = some line)
    (hparts : line.HasParts k.name text indent parents data)
    (hplace : s.Top user fun c => ∃ last : Int, c.lastIndent = .int last ∧ placed indent last parents = .ok .inside)
    (htext : Literal names text) (hdata : data.IsSpeech phrase) :
    ∃ t, advance user s = .ok true t ∧ Standing user lines names (i + 1) t ∧ Alike user s t ∧
      t.spoken = s.spoken ++ (spokenOf phrase).toList := by
  obtain ⟨t, hstage, -, halike, hevents, hadvance⟩ := h.advance_command_in hline hparts hplace
  have hbranch : k ≠ .branch := by rcases hk with rfl | rfl <;> decide
  obtain ⟨text', hcommandText⟩ := hstage.commandText_ok hbranch htext
  obtain ⟨message, hm, -⟩ := hstage.message
  obtain ⟨u, hpass, haside, hlineData⟩ := passData_ok hm k user hparts.data hdata.plain
  obtain ⟨entries, rfl, -⟩ := hdata.plain hdata.truthy
  have hstage' := hstage.aside haside
  obtain ⟨m, c, below, -, hmanager, hstack, -⟩ := hstage'.current
  obtain ⟨v, hspeak, hnext, halike', hspoken⟩ : ∃ v, k.perform user text' u = .ok () v ∧
      Standing user lines names (i + 1) v ∧ Alike user u v ∧
        v.spoken = u.spoken ++ (spokenOf phrase).toList := by
    have hcommand : k.perform user text' = speak user text' := by
      rcases hk with rfl | rfl <;> rfl
    have hcurrent : currentAt user u = .ok (some c) u := by
      rw [currentAt, bind_of_ok (managerAt_of_some h.isKey hmanager), top_of_stack hstack]
    rw [hcommand, speak, bind_of_ok hcurrent, bind_of_ok hlineData, hdata.truthy,
      if_pos rfl, hdata.name]
    simp only [bind_apply, lift_ok_apply, pure_apply, Value.str_same, BEq.rfl, Bool.not_true,
      Bool.false_eq_true, if_false, if_true, hdata.phrase, spokenOf]
    split
    · obtain ⟨v, hedit, hnext, halike', -, hevents', -⟩ := hstage'.edit (j := i + 1) (a := ())
        fun c hc => ⟨_, hc.step, rfl, rfl, hc.lastIndent⟩
      exact ⟨v, hedit, hnext, halike', by rw [spoken_congr hevents']; simp⟩
    · exact hstage'.speakAloud_ok hmanager hstack hlineData (cleanQuotes phrase)
  refine ⟨v, ?_, hnext, halike.trans ((haside.alike user).trans halike'), ?_⟩
  · rw [hadvance text' hcommandText, bind_of_ok hpass, bind_of_ok hspeak, hnext.isActive]
  · rw [hspoken, haside.spoken, spoken_congr hevents]

theorem advance_speech (hk : k = .speak ∨ k = .neonSpeak)
    {indent : Int} (hline : lines[i]? = some line) (hparts : line.IsLine k.name text indent data)
    (htext : Literal names text) (hdata : data.IsSpeech phrase) :
    ∃ t, advance user s = .ok true t ∧ Standing user lines names (i + 1) t ∧ Alike user s t ∧
      t.spoken = s.spoken ++ (spokenOf phrase).toList :=
  h.advance_speech_in hk hline hparts.hasParts (h.top_placed_nil indent) htext hdata

theorem advance_speak (hk : k = .speak ∨ k = .neonSpeak)
    {indent : Nat} {number : Value}
    (hline : lines[i]? = some (lineOf k.name indent text number (speechData phrase)))
    (hplain : Plain names text) (hphrase : Speakable phrase) :
    ∃ t, advance user s = .ok true t ∧ Standing user lines names (i + 1) t ∧ Alike user s t ∧
      t.spoken = s.spoken ++ [cleanQuotes phrase] := by
  have hspoken : spokenOf phrase = some (cleanQuotes phrase) := by
    simp only [spokenOf, hphrase.truthy, hphrase.heading, Bool.not_true, Bool.or_self,
      Bool.false_eq_true, if_false]
  have hspeech := h.advance_speech hk hline (lineOf_isLine _ _ _ _ _) (.inl hplain)
    (speechData_isSpeech hphrase.brace)
  rwa [hspoken] at hspeech

end Standing

/-! ### Passing over lines -/

def Value.Deeper (indent : Nat) (line : Value) : Prop :=
  ∃ (command : String) (deeper : Nat), line.item "command" = .ok (.str command) ∧
    line.item "indent" = .ok (.int deeper) ∧ indent < deeper

/-- A line with which a block at an indent is over: it is not indented deeper than the block, and it
is no `else` at the indent of the block. -/
def Value.Bounds (indent : Nat) (line : Value) : Prop :=
  ∃ (command : String) (outer : Nat), line.item "command" = .ok (.str command) ∧
    line.item "indent" = .ok (.int outer) ∧ outer ≤ indent ∧ command ≠ "" ∧
      ¬ (command = "else" ∧ outer = indent)

section

variable {lines inner rest : List Value} {line : Value} {number : Option Nat} {c : Conversation}
  {indent : Nat}

theorem getElem?_of_drop (h : lines.drop i = line :: rest) : lines[i]? = some line := by
  rw [← head?_drop, h, head?_cons]

theorem item_of_drop (h : lines.drop i = line :: rest) (hlines : c.lines = .list lines number) :
    c.lines.item (.int i) = .ok line := by
  simp only [hlines, item, Value.asInt?, itemAt_nat (getElem?_of_drop h)]

theorem drop_append (h : lines.drop i = inner ++ rest) : lines.drop (i + inner.length) = rest := by
  rw [← drop_drop, h, drop_left]

theorem drop_succ (h : lines.drop i = line :: rest) : lines.drop (i + 1) = rest := by
  rw [← drop_drop, h, drop_one, tail_cons]

theorem pass_inner {α : Type} {seek : Nat → Edit α}
    (hround : ∀ {i fuel : Nat} {line : Value} {rest : List Value}, lines.drop i = line :: rest → rest ≠ [] → line.Deeper indent → seek (fuel + 1) { conversation := { c with index := .int i } } = seek fuel { conversation := { c with index := .int (i + 1) } })
    (hdrop : lines.drop i = inner ++ rest) (hrest : rest ≠ [])
    (hinner : ∀ line ∈ inner, line.Deeper indent) :
    seek (inner.length + fuel) { conversation := { c with index := .int i } } =
      seek fuel { conversation := { c with index := .int ((i + inner.length : Nat)) } } := by
  induction inner generalizing i with
  | nil => simp
  | cons line inner ih =>
    obtain ⟨hline, hall⟩ := forall_mem_cons.1 hinner
    have hnext := ih (drop_succ hdrop) hall
    have hfuel : (line :: inner).length + fuel = inner.length + fuel + 1 := by
      simp only [length_cons]
      omega
    have hi : (i + 1 + inner.length : Nat) = i + (line :: inner).length := by
      simp only [length_cons]
      omega
    rw [hi] at hnext
    rw [hfuel, hround hdrop (by simp [hrest]) hline]
    exact hnext

theorem seekElse_succ (hlines : c.lines = .list lines number) (hdrop : lines.drop i = line :: rest)
    (hcommand : line.item "command" = .ok (.str command))
    (hindent : line.item "indent" = .ok (.int outer)) :
    seekElse (.int indent) (fuel + 1) { conversation := { c with index := .int i } } =
      if command = "else" ∧ outer = indent then
        .ok () { conversation := { c with index := .int (i + 1) } }
      else if outer ≤ indent ∧ command ≠ "" then
        .ok () { conversation := { c with index := .int i } }
      else seekElse (.int indent) fuel { conversation := { c with index := .int (i + 1) } } := by
  have hsize : c.lines.size = .ok lines.length := by rw [hlines, size]
  have hi : (i : Int) ≤ lines.length := by
    have := congrArg List.length hdrop
    simp only [length_drop, length_cons] at this
    omega
  have hsame : (int outer).same (.int indent) = decide (outer = indent) := by
    rw [same_int]
    exact decide_eq_decide.2 Int.ofNat_inj
  have htruthy : (str command).truthy = decide (command ≠ "") := by
    rw [Bool.eq_iff_iff]
    simp [truthy]
  have hrest : (do
        let outside ← liftM ((int outer).compare .atMost (.int indent))
        if outside && (str command).truthy then pure ()
        else
          Edit.step 1
          seekElse (.int indent) fuel : Edit Unit)
        { conversation := { c with index := .int i } } =
      if outer ≤ indent ∧ command ≠ "" then .ok () { conversation := { c with index := .int i } }
      else seekElse (.int indent) fuel { conversation := { c with index := .int (i + 1) } } := by
    rw [compare_int, bind_of_ok (lift_ok_apply _ _), htruthy]
    by_cases hout : outer ≤ indent ∧ command ≠ ""
    · rw [if_pos hout, if_pos (by simp [hout])]
      rfl
    · rw [if_neg hout, if_neg (by simpa using hout)]
      rfl
  rw [seekElse, bind_of_ok (Edit.read_apply _)]
  simp only [hsize, compare_int]
  rw [bind_of_ok (lift_ok_apply _ _), bind_of_ok (lift_ok_apply _ _), if_pos (by simpa using hi),
    item_of_drop hdrop hlines, bind_of_ok (lift_ok_apply _ _), hcommand,
    bind_of_ok (lift_ok_apply _ _), hindent, Value.str_same]
  by_cases helse : command = "else"
  · rw [if_pos (by simpa using helse), bind_of_ok (lift_ok_apply _ _), bind_of_ok (pure_apply _ _), hsame]
    by_cases hsameIndent : outer = indent
    · rw [if_pos (decide_eq_true hsameIndent), if_pos ⟨helse, hsameIndent⟩]
      rfl
    · rw [if_neg (by simpa using hsameIndent), if_neg (fun h => hsameIndent h.2)]
      exact hrest
  · rw [if_neg (by simpa using helse), if_neg (fun h => helse h.1)]
    exact hrest

theorem seekOutdent_succ (hlines : c.lines = .list lines number)
    (hdrop : lines.drop i = line :: rest) (hindent : line.item "indent" = .ok (.int outer)) :
    seekOutdent (.int indent) (fuel + 1) { conversation := { c with index := .int i } } =
      if indent < outer then
        if rest = [] then .ok true { conversation := { c with index := .int i } }
        else seekOutdent (.int indent) fuel { conversation := { c with index := .int (i + 1) } }
      else .ok false { conversation := { c with index := .int i } } := by
  have hsize : c.lines.size = .ok lines.length := by rw [hlines, size]
  have hlength : lines.length = i + 1 + rest.length := by
    have := congrArg List.length hdrop
    simp only [length_drop, length_cons] at this
    omega
  have hhere : Edit.here "indent" { conversation := { c with index := .int i } } =
      .ok (.int outer) { conversation := { c with index := .int i } } := by
    rw [Edit.here, bind_of_ok (Edit.read_apply _), item_of_drop hdrop hlines,
      bind_of_ok (lift_ok_apply _ _), hindent, lift_ok_apply]
  have hlast : (int i).same (.int (lines.length - 1)) = decide (rest = []) := by
    rw [same_int, hlength, Bool.eq_iff_iff]
    simp only [beq_iff_eq, decide_eq_true_eq, ← length_eq_zero_iff]
    omega
  rw [seekOutdent, bind_of_ok hhere, compare_int, bind_of_ok (lift_ok_apply _ _)]
  by_cases hlt : indent < outer
  · rw [if_pos (by simpa using hlt), if_pos hlt, bind_of_ok (Edit.read_apply _)]
    simp only [hsize]
    rw [bind_of_ok (lift_ok_apply _ _), hlast]
    by_cases hrest : rest = []
    · rw [if_pos (decide_eq_true hrest), if_pos hrest]
      rfl
    · rw [if_neg (by simpa using hrest), if_neg hrest]
      rfl
  · rw [if_neg (by simpa using hlt), if_neg hlt]
    rfl

theorem seekElse_ok (hlines : c.lines = .list lines number)
    (hdrop : lines.drop i = inner ++ line :: rest) (hinner : ∀ line ∈ inner, line.Deeper indent)
    (hcommand : line.item "command" = .ok (.str command))
    (hindent : line.item "indent" = .ok (.int outer)) (houter : outer ≤ indent)
    (hname : command ≠ "") :
    seekElse (.int indent) (inner.length + (fuel + 1))
        { conversation := { c with index := .int i } } =
      .ok () { conversation := { c with index := .int (if command = "else" ∧ outer = indent then
        ((i + inner.length + 1 : Nat)) else ((i + inner.length : Nat))) } } := by
  have hpass : seekElse (.int indent) (inner.length + (fuel + 1))
        { conversation := { c with index := .int i } } =
      seekElse (.int indent) (fuel + 1)
        { conversation := { c with index := .int ((i + inner.length : Nat)) } } :=
    pass_inner (fun hdrop _ ⟨_, _, hcommand, hindent, hlt⟩ => by
      rw [seekElse_succ hlines hdrop hcommand hindent, if_neg (by omega), if_neg (by omega)])
    hdrop (by simp) hinner
  rw [hpass, seekElse_succ hlines (drop_append hdrop) hcommand hindent]
  split
  · rfl
  · rw [if_pos ⟨houter, hname⟩]

theorem seekOutdent_ok (hlines : c.lines = .list lines number)
    (hdrop : lines.drop i = inner ++ line :: rest) (hinner : ∀ line ∈ inner, line.Deeper indent)
    (hindent : line.item "indent" = .ok (.int outer)) (houter : outer ≤ indent) :
    seekOutdent (.int indent) (inner.length + (fuel + 1))
        { conversation := { c with index := .int i } } =
      .ok false { conversation := { c with index := .int ((i + inner.length : Nat)) } } := by
  have hpass : seekOutdent (.int indent) (inner.length + (fuel + 1))
        { conversation := { c with index := .int i } } =
      seekOutdent (.int indent) (fuel + 1)
        { conversation := { c with index := .int ((i + inner.length : Nat)) } } :=
    pass_inner (fun hdrop hrest ⟨_, _, _, hindent, hlt⟩ => by
      rw [seekOutdent_succ hlines hdrop hindent, if_pos hlt, if_neg hrest])
    hdrop (by simp) hinner
  rw [hpass, seekOutdent_succ hlines (drop_append hdrop) hindent, if_neg (by omega)]

end

section

variable {lines inner rest : List Value} {line stop : Value} {names : Entries} {c : Conversation}
  {i indent outer : Nat}

theorem linesLeft_ok (hlines : ∃ number, c.lines = .list lines number) (hindex : c.index = .int (i + 1))
    (hdrop : lines.drop (i + 1) = inner ++ stop :: rest) :
    ∃ fuel, linesLeft c = .ok (inner.length + (fuel + 1)) := by
  obtain ⟨number, hlines⟩ := hlines
  have hlength := congrArg List.length hdrop
  simp only [length_drop, length_append, length_cons] at hlength
  refine ⟨rest.length + 2, except_bind_ok_iff.2 ⟨lines.length, by rw [hlines, size], ?_⟩⟩
  simp only [hindex, Value.asInt?, Option.getD_some]
  exact congrArg Except.ok (by omega)

theorem Conversation.At.here (h : c.At lines names i) (hline : lines[i]? = some line) (name : String)
    {value : Value} (hvalue : line.item name = .ok value) :
    Edit.here name { conversation := c } = .ok value { conversation := c } := by
  obtain ⟨number, hlines⟩ := h.lines
  have hitem : c.lines.item c.index = .ok line := by
    simp only [hlines, h.index, item, Value.asInt?, itemAt_nat hline]
  rw [Edit.here, bind_of_ok (Edit.read_apply _), hitem, bind_of_ok (lift_ok_apply _ _), hvalue,
    lift_ok_apply]

theorem enterIf_true (h : c.At lines names i) (hline : lines[i]? = some line)
    (hindent : line.item "indent" = .ok (.int indent)) :
    enterIf true { conversation := c } =
      .ok () { conversation := { c with index := .int ((i + 1 : Nat)) } } := by
  rw [enterIf, bind_of_ok (h.here hline "indent" hindent), bind_of_ok h.step]
  rfl

theorem enterIf_false (h : c.At lines names i) (hline : lines[i]? = some line)
    (hindent : line.item "indent" = .ok (.int indent))
    (hdrop : lines.drop (i + 1) = inner ++ stop :: rest)
    (hinner : ∀ line ∈ inner, line.Deeper indent)
    (hcommand : stop.item "command" = .ok (.str command))
    (houter : stop.item "indent" = .ok (.int outer)) (hle : outer ≤ indent) (hname : command ≠ "") :
    enterIf false { conversation := c } =
      .ok () { conversation := { c with index := .int (if command = "else" ∧ outer = indent then
        ((i + 1 + inner.length + 1 : Nat)) else ((i + 1 + inner.length : Nat))) } } := by
  obtain ⟨number, hlines⟩ := h.lines
  obtain ⟨fuel, hfuel⟩ := linesLeft_ok (c := { c with index := .int (i + 1) }) h.lines rfl hdrop
  rw [enterIf, bind_of_ok (h.here hline "indent" hindent), bind_of_ok h.step]
  simp only [Bool.not_false, if_true]
  rw [bind_of_ok (Edit.read_apply _), hfuel, bind_of_ok (lift_ok_apply _ _)]
  exact seekElse_ok hlines hdrop hinner hcommand houter hle hname

theorem passElse_ok (h : c.At lines names i) (hline : lines[i]? = some line)
    (hindent : line.item "indent" = .ok (.int indent))
    (hdrop : lines.drop (i + 1) = inner ++ stop :: rest)
    (hinner : ∀ line ∈ inner, line.Deeper indent)
    (houter : stop.item "indent" = .ok (.int outer)) (hle : outer ≤ indent) :
    passElse { conversation := c } =
      .ok false { conversation := { c with index := .int ((i + 1 + inner.length : Nat)) } } := by
  obtain ⟨number, hlines⟩ := h.lines
  obtain ⟨fuel, hfuel⟩ := linesLeft_ok (c := { c with index := .int (i + 1) }) h.lines rfl hdrop
  rw [passElse, bind_of_ok (h.here hline "indent" hindent), bind_of_ok h.step,
    bind_of_ok (Edit.read_apply _), hfuel, bind_of_ok (lift_ok_apply _ _)]
  exact seekOutdent_ok hlines hdrop hinner houter hle

end

/-! ### Branching -/

def Command.holds (text : Value) : Run Bool := do
  let data ← lineData
  if data.truthy then liftM (Condition.ofData data) else pure (Condition.ofText text)

theorem Command.branch_apply (user text : Value) (s : Session) :
    branch user text s = (holds text >>= fun b => Session.edit user (enterIf b)) s := by
  rw [branch, holds]
  cases hdata : lineData s with
  | error fault t => simp only [bind_apply, hdata]
  | ok data t =>
    simp only [bind_apply, hdata]
    split <;> simp only [bind_apply]

/-- What the compiler found out about the line that a message is about. -/
def Message.lineData (m : Message) : Value :=
  (Entries.find? "parser_data" m.data).getD .null

/-- Whether a condition holds that the compiler has given, or else the text. -/
def Condition.verdict (data text : Value) : Except Fault Bool :=
  if data.truthy then ofData data else .ok (ofText text)

theorem Command.holds_eq (hm : s.message = some m) (text : Value) :
    holds text s = (liftM (Condition.verdict m.lineData text) : Run Bool) s := by
  rw [holds, bind_of_ok (lineData_apply hm), Condition.verdict, Message.lineData]
  split <;> rfl

theorem Command.branch_of_verdict {text : Value} {b : Bool} (hm : s.message = some m)
    (hb : Condition.verdict m.lineData text = .ok b) (user : Value) :
    branch user text s = Session.edit user (enterIf b) s := by
  rw [branch_apply, bind_of_ok (by rw [holds_eq hm, hb, lift_ok_apply])]

/-- The data of a branch decide its condition: in all sessions like the one given, whatever the text
of the line, they are found to hold or not to hold, and finding that out changes nothing else. -/
def Decides (user : Value) (s : Session) (data : Value) (b : Bool) : Prop :=
  ∀ t, Alike user s t → ∀ line text : Value, line.get "data" = .ok data →
    ∃ u, (do
      passData .branch user line
      Command.holds text : Run Bool) t = .ok b u ∧ Aside t u

namespace Standing

variable {user : Value} {lines : List Value} {names : Entries} {i j indent : Nat} {s₀ s t : Session}
  {text : String} {number data : Value}

theorem advance_branch (h : Standing user lines names i s)
    (hline : lines[i]? = some (lineOf Keyword.branch.name indent text number data)) (hplain : Plain names text)
    (halike₀ : Alike user s₀ s) {b : Bool} (hdecides : Decides user s₀ data b)
    (henter : ∀ c : Conversation, c.At lines names i →
      enterIf b { conversation := c } = .ok () { conversation := { c with index := .int j } }) :
    ∃ t, advance user s = .ok true t ∧ Standing user lines names j t ∧ Alike user s t ∧
      t.spoken = s.spoken := by
  obtain ⟨t, text', hstage, halike, hevents, hadvance⟩ :=
    h.advance_line (k := .branch) hline hplain
  obtain ⟨u, hholds, haside⟩ :=
    hdecides t (halike₀.trans halike) (lineOf Keyword.branch.name indent text number data) text'
      (lineOf_data _ _ _ _ _)
  obtain ⟨_, v, hpass, hholds'⟩ := bind_ok_iff.1 hholds
  have hstage' := hstage.aside haside
  obtain ⟨w, hedit, hnext, halike', -, hevents', -⟩ := hstage'.edit (j := j) (a := ())
    fun c hc => ⟨_, henter c hc, rfl, rfl, hc.lastIndent⟩
  have hperform : Keyword.branch.perform user text' v = .ok () w := by
    rw [Keyword.perform, branch_apply, bind_of_ok hholds', hedit]
  refine ⟨w, ?_, hnext, halike.trans ((haside.alike user).trans halike'), ?_⟩
  · rw [hadvance]
    rw [bind_of_ok hpass, bind_of_ok hperform, hnext.isActive]
  · rw [spoken_congr hevents', haside.spoken, spoken_congr hevents]

theorem advance_else (h : Standing user lines names i s)
    (hline : lines[i]? = some (lineOf Keyword.otherwise.name indent text number data)) (hplain : Plain names text)
    (hdata : PlainData data)
    (hpass : ∀ c : Conversation, c.At lines names i →
      passElse { conversation := c } = .ok false { conversation := { c with index := .int j } }) :
    ∃ t, advance user s = .ok true t ∧ Standing user lines names j t ∧ Alike user s t ∧
      t.spoken = s.spoken := by
  obtain ⟨t, text', hstage, halike, hevents, hadvance⟩ :=
    h.advance_line (k := .otherwise) hline hplain
  obtain ⟨message, hm, -⟩ := hstage.message
  obtain ⟨u, hdone, haside, -⟩ := passData_ok hm .otherwise user (lineOf_data _ _ _ _ _) hdata
  obtain ⟨v, hedit, hnext, halike', -, hevents', -⟩ := (hstage.aside haside).edit (j := j)
    (a := false) fun c hc => ⟨_, hpass c hc, rfl, rfl, hc.lastIndent⟩
  have hperform : Keyword.otherwise.perform user text' u = .ok () v :=
    bind_of_ok hedit
  refine ⟨v, ?_, hnext, halike.trans ((haside.alike user).trans halike'), ?_⟩
  · rw [hadvance]
    rw [bind_of_ok hdone, bind_of_ok hperform, hnext.isActive]
  · rw [spoken_congr hevents', haside.spoken, spoken_congr hevents]

end Standing

end Colloquy
