import Colloquy.Proofs.Answers
import Colloquy.Proofs.Readers
import Colloquy.Proofs.References
import Colloquy.Proofs.Responses

/-! What stays of the values of a variable when a new one comes.  An assignment puts it in front of
all that the variable held.  A response to the text of the variable does so too.  An answer of the
user and its recording go in front of a list, but in the place of a text the name of the variable is
put behind them. -/

namespace Colloquy

open Session Command Value Text Entries Substitution Edit Listening Pattern

variable {s u : Session} {data text user : Value} {draft : Draft} {entries : Entries}
  {given name : String}

/-! ### What stays behind a new value -/

namespace Value

/-- What stays of the value of a variable: the items of a list if they are not all empty, or a value
that is no list and not empty. -/
def history : Option Value → List Value
  | none => []
  | some old =>
    match old.items? with
    | some items => if items.any (·.truthy) then items else []
    | none => if old.truthy then [old] else []

/-- A value of which the same stays behind an answer as behind any other new value. -/
def Stays (old noted : Value) : Prop :=
  match old.items? with
  | some items => items = [] ∨ items.any (·.truthy) = true
  | none => old.truthy = true → old = noted

theorem behind_eq_history_iff (old : Option Value) (noted : Value) :
    (old.getD .null).behind noted = history old ↔ (old.getD .null).Stays noted := by
  cases old with
  | none => exact iff_of_true rfl nofun
  | some old =>
    rw [Option.getD_some]
    cases hitems : old.items? with
    | some items =>
      simp only [behind, history, Stays, hitems]
      by_cases hany : items.any (·.truthy) = true
      · rw [if_pos hany]
        exact iff_of_true rfl (.inr hany)
      · rw [if_neg hany]
        exact (or_iff_left hany).symm
    | none =>
      simp only [behind, history, Stays, hitems]
      by_cases htruthy : old.truthy = true
      · rw [if_pos htruthy, if_pos htruthy]
        simp only [htruthy, List.cons.injEq, and_true, forall_const]
        exact eq_comm
      · rw [if_neg htruthy, if_neg htruthy]
        exact iff_of_true rfl fun h => absurd h htruthy

theorem items?_copied (v : Value) : v.copied.items? = v.items?.map (List.map copied) := by
  cases v with
  | list items number => rw [copied, items?, items?, copiedItems_eq, Option.map_some]
  | _ => simp only [copied, items?, Option.map_none]

theorem any_truthy_copied (items : List Value) :
    (items.map copied).any (·.truthy) = items.any (·.truthy) := by
  rw [List.any_map]
  exact congrArg items.any (funext truthy_copied)

theorem map_copied_behind (old noted : Value) :
    (old.behind noted).map copied = old.copied.behind noted.copied := by
  simp only [behind, items?_copied, truthy_copied]
  cases old.items? with
  | some items => rfl
  | none =>
    simp only [Option.map_none]
    split <;> rfl

theorem map_copied_history (old : Option Value) :
    (history old).map copied = history (old.map copied) := by
  cases old with
  | none => rfl
  | some old =>
    simp only [history, Option.map_some, items?_copied, truthy_copied]
    cases old.items? with
    | some items =>
      simp only [Option.map_some, any_truthy_copied]
      split <;> rfl
    | none =>
      simp only [Option.map_none]
      split <;> rfl

theorem keptValues_eq (old : Option Value) : keptValues (old.getD .null) = history old := by
  cases old with
  | none => rfl
  | some old => cases old <;> rfl

end Value

/-! ### What a session shows of a variable -/

/-- The value under a name of a table, without the numbers of its lists. -/
def Value.under (v : Value) (name : String) : Option Value :=
  match v with
  | .table entries => (Entries.find? name entries).map Value.copied
  | _ => none

def Session.held (user : Value) (name : String) (s : Session) : Option Value :=
  match s.stackOf user with
  | .conversation c :: _ => c.bindings.under name
  | _ => none

def Session.recorded (user : Value) (name : String) (s : Session) : Option Value :=
  match s.stackOf user with
  | .conversation c :: _ => c.recordings.under name
  | _ => none

theorem Session.held_kept {m : Manager} {e : Entry} {rest : List Entry}
    (hm : managerIn s.active user = some m) (hstack : m.stack = e :: rest)
    (hentries : draft.conversation.bindings = .table entries) (name : String) :
    (kept user m draft s).held user name = (entries.find? name).map copied := by
  have hcopied := copied_numbered draft.conversation.bindings s.lists
  rw [hentries, copied_table] at hcopied
  obtain ⟨names, hnames, hsame⟩ := table_of_copied hcopied
  simp only [held, stackOf_kept_self draft hm hstack, settled, hentries, hnames, Value.under]
  rw [← find?_copied, hsame, find?_copied]

namespace Running

variable {user : Value} {c : Conversation} {bindings : Entries} {s : Session}

theorem held (h : Running user c bindings s) (name : String) :
    s.held user name = (bindings.find? name).map copied := by
  obtain ⟨m, below, hm, hstack⟩ := h.running
  simp only [Session.held, stackOf_eq hm, hstack, h.bindings, Value.under]

theorem recorded (h : Running user c bindings s) (name : String) :
    s.recorded user name = c.recordings.under name := by
  obtain ⟨m, below, hm, hstack⟩ := h.running
  simp only [Session.recorded, stackOf_eq hm, hstack]

theorem edits {α : Type} {body : Edit α} {a : α} (h : Running user c bindings s)
    (hbody : body { conversation := c } = .ok a draft)
    (hentries : draft.conversation.bindings = .table entries) :
    ∃ t next names, edit user body s = .ok a t ∧ Running user (settled next draft) names t ∧
      (∀ name, t.held user name = (entries.find? name).map copied) ∧
        t.message = s.message := by
  obtain ⟨m, below, hm, hstack⟩ := h.running
  have hcopied := copied_numbered draft.conversation.bindings s.lists
  rw [hentries, copied_table] at hcopied
  obtain ⟨names, hnames, -⟩ := table_of_copied hcopied
  have hrunning : Running user (settled s.lists draft) names (kept user m draft s) :=
    { isKey := h.isKey
      initialized := by
        simp only [kept, withChanges_eq]
        exact h.initialized
      running := ⟨_, below.map (Entry.changedBy draft.changes),
        managerIn_kept_self draft hm, by
        simp [Manager.setTop, hstack]⟩
      bindings := by rw [settled, hentries, hnames]
      message := by
        rw [kept_message]
        exact h.message }
  refine ⟨kept user m draft s, s.lists, names, ?_, hrunning, held_kept hm hstack hentries,
    kept_message _ _ _ _⟩
  rw [edit_eq h.isKey hm hstack, hbody]

end Running

/-! ### Assignments -/

/-- A line that assigns a text to a variable, by its data or, without any, by the text of the line.
-/
inductive Assigns (data text : Value) (name given : String) : Prop
  | data {word : String} (hdata : data.truthy = true)
      (hname : data.get "variable" = .ok (.str word)) (hword : Text.trim word = name)
      (hvalue : data.get "value" = .ok (.str given))
  | line {line word : String} (hdata : data.truthy = false) (hline : text = .str line)
      (hcut : Text.cut? "=" line = some (word, given))
      (hword : Text.trimEndOf "\x7d" (Text.trimStartOf "\x7b" (Text.trim word)) = name)

theorem Assigns.assignment_eq (h : Assigns data text name given) :
    assignment data text = .ok (name, Text.trim given) := by
  cases h with
  | data hdata hname hword hvalue =>
    rw [assignment, if_pos hdata, hname, hvalue, ← hword]
    rfl
  | line hdata hline hcut hword =>
    rw [assignment, hdata, if_neg Bool.false_ne_true, hline]
    simp only [Value.text, bind, Except.bind, hcut, hword]
    rfl

/-- A text that stands for itself in an assignment: one value, and no function to call. -/
structure Command.Verbatim (given : String) : Prop where
  single : ',' ∉ given.toList
  uncalled : ∀ f ∈ Function.all, Text.contains given f.name = false

theorem Command.Verbatim.assignedValue_eq (h : Verbatim given) (hinitialized : s.initialized = true)
    (user : Value) : assignedValue user given s = .ok (.ofItems [.str given]) s := by
  have hknown : Function.known s = .ok Function.all s := by
    simp only [Function.known, bind_apply, get_apply, hinitialized, pure_apply, if_true]
  have hnone : (Function.all.find? fun f => contains given f.name) = none := by
    rw [List.find?_eq_none]
    intro f hf
    rw [h.uncalled f hf]
    exact Bool.false_ne_true
  have hvalues : valuesOf given = [given] := by
    rw [valuesOf, contains_eq_false "," rfl h.single, Bool.false_and, if_neg Bool.false_ne_true]
  rw [assignedValue, bind_of_ok hknown, hnone]
  simp only [hvalues]
  rfl

/-- Puts a new value in front of what a variable has held, and goes on to the next line. -/
def Command.store (user : Value) (name : String) (old new : Value) : Run Unit :=
  edit user do
    let pushed ← pushValue new (keptValues old)
    Edit.writeVariable name pushed
    let _ ← pushed.item (.int 0)
    Edit.step 1

theorem Command.pushValue_apply (new : String) (old : List Value) (draft : Draft) :
    pushValue (.ofItems [.str new]) old draft = .ok (.ofItems (.str new :: old)) draft := by
  cases old <;> rfl

namespace Running

variable {user : Value} {c : Conversation} {bindings : Entries} {s : Session} {name : String}
  {i : Int}

theorem setVariable_eq (h : Running user c bindings s) (hdata : lineData s = .ok data s)
    (hassigns : Assigns data text name given) :
    setVariable user text s = (do
      let new ← assignedValue user (Text.trim given)
      store user name ((bindings.find? name).getD .null) new) s := by
  rw [setVariable, bind_of_ok h.currentAt, bind_of_ok hdata, hassigns.assignment_eq,
    bind_of_ok (lift_ok_apply _ _)]
  dsimp only [present]
  rw [bind_of_ok (pure_apply _ _), get_of_table h.bindings, bind_of_ok (lift_ok_apply _ _)]
  rfl

theorem store_held (h : Running user c bindings s) (hindex : c.index = .int i) (new : String) :
    ∃ t, store user name ((bindings.find? name).getD .null) (.ofItems [.str new]) s = .ok () t ∧
      t.held user name = some (.list (.str new :: history (s.held user name)) none) := by
  let values := str new :: history (bindings.find? name)
  have hbody : (do
      let pushed ← pushValue (.ofItems [.str new]) (keptValues ((bindings.find? name).getD .null))
      writeVariable name pushed
      let _ ← pushed.item (.int 0)
      step 1) { conversation := c } = .ok () { conversation := { c with
        bindings := .table (bindings.insert name (.list values none)), index := .int (i + 1) } } := by
    have hfirst : (ofItems values).item (.int 0) = .ok (.str new) :=
      itemAt_nat (i := 0) rfl
    rw [bind_of_ok (pushValue_apply _ _ _), keptValues_eq,
      bind_of_ok (writeVariable_apply h.bindings _ _), hfirst, bind_of_ok (lift_ok_apply _ _),
      step_apply (by exact hindex)]
    rfl
  obtain ⟨t, -, -, hedit, -, hheld, -⟩ := h.edits hbody rfl
  refine ⟨t, hedit, ?_⟩
  rw [hheld, find?_insert_self, h.held, ← map_copied_history]
  simp only [Option.map_some, values, copied, copiedItems_eq, List.map_cons]

theorem setVariable_held (h : Running user c bindings s) (hindex : c.index = .int i)
    (hdata : lineData s = .ok data s) (hassigns : Assigns data text name given)
    (hverbatim : Verbatim (Text.trim given)) :
    ∃ t, setVariable user text s = .ok () t ∧ t.held user name =
      some (.list (.str (Text.trim given) :: history (s.held user name)) none) := by
  rw [h.setVariable_eq hdata hassigns, bind_of_ok (hverbatim.assignedValue_eq h.initialized user)]
  exact h.store_held hindex _

end Running

/-! ### Answers -/

/-- A script that waits for words of the user and has a place for their recordings. -/
structure Expects (user : Value) (c : Conversation) (name : String) (s : Session) : Prop where
  filename : c.filename.truthy = true
  awaited : c.awaited = .str name
  awaits : s.awaiting.any (·.same user) = true
  recordings : ∃ entries, c.recordings = .table entries

/-- The recording that comes with a message, if there is one. -/
inductive Message.Records (m : Message) : Option String → Prop
  | none (h : ((Entries.find? "audio_file" m.context).getD .null).truthy = false) : m.Records none
  | some {file : String} (h : Entries.find? "audio_file" m.context = some (.str file))
      (hfile : file ≠ "") : m.Records (some file)

theorem Session.held_congr {t : Session} (h : t.active = s.active) (user : Value) (name : String) :
    t.held user name = s.held user name ∧ t.recorded user name = s.recorded user name := by
  simp only [held, recorded, stackOf, h, and_self]

theorem Edit.readVariable_missing (h : draft.conversation.bindings = .table entries)
    (hfind : entries.find? name = none) :
    readVariable (.str name) draft = .error .missingEntry draft := by
  have hitem : (table entries).item (.str name) = .error .missingEntry := by
    simp only [item, hfind]
    rfl
  rw [readVariable, bind_of_ok (read_apply _), h, hitem]
  rfl

/-- What is kept of a recording, where `old` are the recordings for the variable before. -/
def Listening.recordings (name : String) (old : Option Value) : Option String → Option Value
  | none => old
  | some file =>
    let file := recordingName file
    some (.list (.str (Text.trim file) ::
      if file = "" then [] else (old.getD .null).behind (.str name)) none)

theorem Listening.recordingName_append (file : String) :
    recordingName (file ++ ".flac") = trimEndOf ".flac" file := by
  have hends : endsWith (file ++ ".flac") ".flac" = true := by
    rw [endsWith, String.toList_append, List.isSuffixOf_iff_suffix]
    exact List.suffix_append _ _
  have hending : ∀ c ∈ ".flac".toList.reverse, ".flac".toList.contains c = true := by
    intro c hc
    rw [List.contains_iff_mem]
    exact List.mem_reverse.1 hc
  have hdrop : dropEnd (".flac".toList.contains ·) (file.toList ++ ".flac".toList) =
      dropEnd (".flac".toList.contains ·) file.toList := by
    rw [dropEnd, List.reverse_append, List.dropWhile_append_of_pos hending, dropEnd]
  rw [recordingName, if_pos hends, trimEndOf, String.toList_append, hdrop, trimEndOf]

theorem Listening.goesOn {m : Message} (hmessage : s.message = some m) (user : Value) :
    ∃ t, (do confirm; sleep 1000; Execution.resume user : Run Unit) s = Execution.resume user t ∧
      t.active = s.active := by
  obtain ⟨e, hconfirm, -⟩ := AskLoop.confirm_ok hmessage
  refine ⟨{ s with events := e :: s.events, clock := s.clock + 1000 }, ?_, rfl⟩
  rw [bind_of_ok hconfirm]
  rfl

namespace Running

variable {user : Value} {c : Conversation} {bindings : Entries} {s : Session} {m : Message}
  {name answer : String} {file? : Option String} {x : Value}

theorem takeAnswer_held (h : Running user c bindings s) (hawaited : c.awaited = .str name)
    (hentries : c.recordings = .table entries) (hmessage : s.message = some m)
    (hrecords : m.Records file?) (hheld : s.held user name = some x) (answer : String) :
    ∃ t, takeAnswer user m answer s = Execution.resume user t ∧
      t.held user name =
        some (.list (.str (Text.trim answer) :: x.behind (.str name)) none) ∧
      t.recorded user name = recordings name (s.recorded user name) file? := by
  rw [h.held] at hheld
  obtain ⟨old, hfind, rfl⟩ := Option.map_eq_some_iff.1 hheld
  obtain ⟨names, speaker, number, changes, hkeep, hkept, -⟩ :=
    keepAnswer_apply h.bindings hawaited hfind (Text.trim answer)
  obtain ⟨t, next, names', hedit, ht, hheld', hmessage'⟩ := h.edits hkeep rfl
  have hvalue : t.held user name =
      some (.list (.str (Text.trim answer) :: old.copied.behind (.str name)) none) := by
    rw [hheld', hkept]
    simp only [Option.map_some, copied, copiedItems_eq, List.map_cons,
      map_copied_behind]
  have hrecorded : t.recorded user name = s.recorded user name := by
    rw [ht.recorded, h.recorded]
    rfl
  rw [takeAnswer, bind_of_ok hedit]
  cases hrecords with
  | none hfile =>
    obtain ⟨u, hgoes, hactive⟩ := goesOn (hmessage'.trans hmessage) user
    obtain ⟨hvalue', hrecorded'⟩ := held_congr hactive user name
    refine ⟨u, ?_, hvalue'.trans hvalue, hrecorded'.trans hrecorded⟩
    simp only [hfile, Bool.false_eq_true, if_false]
    exact hgoes
  | @some file hcontext hfile =>
    -- The recording is kept by a second edit, of the script as the answer has left it.
    let c' := settled next { conversation := { c with bindings := .table names, speaker }, changes }
    have hrun := keepRecording_apply (c := c') hentries hawaited
      (recordingName file)
    obtain ⟨u, next', names'', hedit', hu, hheld'', hmessage''⟩ := ht.edits hrun ht.bindings
    obtain ⟨v, hgoes, hactive⟩ :=
      goesOn (hmessage''.trans (hmessage'.trans hmessage)) user
    obtain ⟨hvalue', hrecorded'⟩ := held_congr hactive user name
    refine ⟨v, ?_, ?_, ?_⟩
    · have htruthy : (str file).truthy = true := by simpa [truthy] using hfile
      simp only [hcontext, Option.getD_some, htruthy, if_true]
      rw [Value.text, bind_of_ok (lift_ok_apply _ _), bind_of_ok hedit']
      exact hgoes
    · rw [hvalue', hheld'', ← ht.held, hvalue]
    · rw [hrecorded', hu.recorded, h.recorded, hentries]
      simp only [settled, Value.under, find?_insert_self, recordings, ofItems,
        Option.map_some, copied, copiedItems_eq, List.map_cons]
      split
      · rfl
      · rw [map_copied_behind, ← Option.getD_map copied]
        rfl

variable {words : String}

theorem respond_held (h : Running user c bindings s) (hexpects : Expects user c name s)
    (hmessage : s.message = some m) (hvoices : m.Voices user words)
    (hanswer : answer? c words = .ok (some answer)) (hrecords : m.Records file?)
    (hheld : s.held user name = some x) :
    ∃ t, respond s = (do Execution.resume user; return true) t ∧
      t.held user name =
        some (.list (.str (Text.trim answer) :: x.behind (.str name)) none) ∧
      t.recorded user name = recordings name (s.recorded user name) file? := by
  obtain ⟨manager, below, hm, hstack⟩ := h.running
  obtain ⟨entries, hentries⟩ := hexpects.recordings
  let s' : Session := { s with awaiting := dropFirst user s.awaiting }
  have h' : Running user c bindings s' := ⟨h.isKey, h.initialized, h.running, h.bindings, h.message⟩
  obtain ⟨t, htake, hvalue, hrecorded⟩ :=
    h'.takeAnswer_held hexpects.awaited hentries hmessage hrecords hheld answer
  refine ⟨t, ?_, hvalue, hrecorded⟩
  rw [respond_settles h.isKey hmessage hm hstack hexpects.filename hexpects.awaits hvoices
    hanswer, settle, bind_apply, htake, bind_apply]

theorem respond_missing (h : Running user c bindings s) (hexpects : Expects user c name s)
    (hmessage : s.message = some m) (hvoices : m.Voices user words)
    (hanswer : answer? c words = .ok (some answer)) (hheld : s.held user name = none) :
    ∃ t, respond s = .error .missingEntry t := by
  obtain ⟨manager, below, hm, hstack⟩ := h.running
  rw [h.held, Option.map_eq_none_iff] at hheld
  have hkeep : keepAnswer (Text.trim answer) { conversation := c } =
      .error .missingEntry { conversation := c } := by
    rw [keepAnswer, bind_of_ok (read_apply _), hexpects.awaited]
    exact bind_of_error (readVariable_missing h.bindings hheld)
  let s' : Session := { s with awaiting := dropFirst user s.awaiting }
  have hedit : edit user (keepAnswer (Text.trim answer)) s' =
      .error .missingEntry (kept user manager { conversation := c } s') := by
    rw [edit_eq h.isKey (by exact hm) hstack, hkeep]
  refine ⟨kept user manager { conversation := c } s', ?_⟩
  rw [respond_settles h.isKey hmessage hm hstack hexpects.filename hexpects.awaits hvoices
    hanswer]
  exact bind_of_error (bind_of_error hedit)

end Running

/-! ### Responses -/

/-- A table whose patterns capture neither into a variable nor into the table. -/
structure Pattern.Passes (bindings : Entries) (name : String) (table : Value) : Prop where
  entries : ∃ items, table.elements = .ok items ∧ ∀ word, .str word ∈ items →
    ∀ target ∈ targets (Text.replace "\" \"" "\"\"" (Text.trim word)), target ≠ name ∧
      ∀ value, bindings.find? target = some value → value.listNumber ≠ none →
        value.listNumber ≠ table.listNumber

theorem Session.shown_eq_some {index bindings : Value} (h : s.shown user = some (index, bindings)) :
    ∃ m c rest, managerIn s.active user = some m ∧ m.stack = .conversation c :: rest ∧
      c.index = index ∧ c.bindings.copied = bindings := by
  cases hm : managerIn s.active user with
  | none =>
    rw [shown, stackOf, hm] at h
    cases h
  | some m =>
    rw [shown, stackOf_eq hm] at h
    split at h
    · rename_i c rest hstack
      obtain ⟨rfl, rfl⟩ := Prod.mk.inj (Option.some.inj h)
      exact ⟨m, c, rest, rfl, hstack, rfl, rfl⟩
    · cases h

namespace Pattern

def binding (entries : Entries) (d : Draft) : Draft :=
  { d with conversation := { d.conversation with bindings := .table entries } }

variable {c : Conversation} {entries : Entries} {name text : String}

/-- A text in front of the values of a variable makes a new list of them, or changes the one that is
there wherever it stands. -/
theorem prepend_cases {d : Draft} (hbindings : d.conversation.bindings = .table entries)
    (target value : String) :
    (∃ older, prepend target value d =
      .ok () (binding (entries.insert target (.list (.str value :: older) none)) d)) ∨
    ∃ items n, entries.find? target = some (.list items (some n)) ∧
      let change : Change := { number := n, items := .str value :: items }
      prepend target value d = .ok () (binding (insert target (.list change.items (some n))
        (changedEntries change entries))
          { conversation := d.conversation.changed change, changes := change :: d.changes }) := by
  rw [prepend, bind_of_ok (read_apply _), get_of_table hbindings,
    bind_of_ok (lift_ok_apply _ _)]
  have hnew (old : Value) : ∃ older, writeVariable target (.ofItems
      (if old.truthy then [.str value, old] else [.str value])) d =
        .ok () (binding (entries.insert target (.list (.str value :: older) none)) d) := by
    rw [writeVariable_apply hbindings]
    split
    · exact ⟨[old], rfl⟩
    · exact ⟨[], rfl⟩
  cases hold : (entries.find? target).getD .null with
  | list items number =>
    cases items with
    | nil => exact .inl (hnew (.list [] number))
    | cons first rest =>
      cases number with
      | none =>
        exact .inl ⟨_, (bind_of_ok rfl).trans (writeVariable_apply hbindings _ _)⟩
      | some n =>
        refine .inr ⟨first :: rest, n, ?_, ?_⟩
        · cases hfind : entries.find? target with
          | none => simp [hfind] at hold
          | some old => simpa [hfind] using hold
        · exact (bind_of_ok rfl).trans (writeVariable_apply
            (Conversation.bindings_changed hbindings _) _ _)
  | _ => exact .inl (hnew _)

theorem prepend_text (hbindings : c.bindings = .table entries)
    (hfind : entries.find? name = some (.str text)) (value : String) :
    prepend name value { conversation := c } = .ok () { conversation := { c with
      bindings := .table (entries.insert name
        (.list (.str value :: history (some (.str text))) none)) } } := by
  have hvalues : (if (str text).truthy then [str value, .str text] else [.str value]) =
      .str value :: history (some (.str text)) := by
    simp only [history, items?]
    split <;> rfl
  rw [prepend, bind_of_ok (read_apply _), get_of_table hbindings, hfind,
    bind_of_ok (lift_ok_apply _ _)]
  simp only [Option.getD_some, hvalues]
  exact writeVariable_apply hbindings _ _

theorem prepend_held (hbindings : c.bindings = .table entries)
    (hfind : entries.find? name = some (.str text)) (target value : String) :
    ∃ (draft : Draft) (names : Entries), prepend target value { conversation := c } = .ok () draft ∧
      draft.conversation.bindings = .table names ∧ draft.conversation.index = c.index ∧
        (names.find? name).map copied = some (if target = name then
          .list (.str value :: history (some (.str text))) none else .str text) := by
  by_cases htarget : target = name
  · subst htarget
    refine ⟨_, _, prepend_text hbindings hfind value, rfl, rfl, ?_⟩
    rw [find?_insert_self, if_pos rfl, Option.map_some, copied, copiedItems_eq,
      List.map_cons, map_copied_history]
    rfl
  · rw [if_neg htarget]
    obtain ⟨older, hrun⟩ | ⟨items, n, -, hrun⟩ :=
      prepend_cases (d := { conversation := c }) hbindings target value
    · refine ⟨_, _, hrun, rfl, rfl, ?_⟩
      rw [find?_insert_ne htarget, hfind]
      rfl
    · refine ⟨_, _, hrun, rfl, rfl, ?_⟩
      rw [find?_insert_ne htarget, find?_changed, hfind]
      rfl

end Pattern

def Pattern.targetsOf (entries : List Value) : List String :=
  entries.flatMap fun
    | .str word => targets (Text.replace "\" \"" "\"\"" (Text.trim word))
    | _ => []

theorem Running.firstResponse_shown {table : Value} {c : Conversation} {bindings : Entries}
    {text : String} (h : Running user c bindings s) (hfind : bindings.find? name = some (.str text))
    (hpasses : Passes bindings name table) {input : String} {fuel : Nat}
    {response? : Option String}
    (hedit : edit user (firstResponse input table fuel 0) s = .ok response? u) :
    ∃ names : Entries, u.shown user = some (c.index, .table names) ∧
      names.find? name = some (.str text) := by
  obtain ⟨m, below, hm, hstack⟩ := h.running
  obtain ⟨items, helements, hitems⟩ := hpasses.entries
  -- The list that is gone through is in none of the variables that the entries capture into.
  have htargets : ∀ target ∈ targetsOf items, target ≠ name ∧
      ∀ value, bindings.find? target = some value →
        value.listNumber ≠ none → value.listNumber ≠ table.listNumber := by
    intro target htarget
    obtain ⟨item, hitem, hmem⟩ := List.mem_flatMap.1 htarget
    cases item with
    | str word => exact hitems word hitem target hmem
    | _ => cases hmem
  have hapart : Draft.Apart (targetsOf items) name text table.listNumber c.index
      { conversation := c } :=
    ⟨⟨bindings, h.bindings, hfind, fun target htarget => (htargets target htarget).2⟩, by simp, rfl⟩
  have hdraft := Draft.Apart.firstResponse (fun hname => (htargets name hname).1 rfl) input helements
    (fun word hword target htarget => List.mem_flatMap.2 ⟨_, hword, htarget⟩) fuel 0 _ hapart
  rw [edit_eq h.isKey hm hstack] at hedit
  rw [Draft.after] at hdraft
  cases hbody : firstResponse input table fuel 0 { conversation := c } with
  | error fault draft =>
    rw [hbody] at hedit
    cases hedit
  | ok found draft =>
    rw [hbody] at hedit hdraft
    cases hedit
    obtain ⟨entries, hbindings, hsame, -⟩ := hdraft.bindings
    refine ⟨copiedEntries entries, ?_, ?_⟩
    · rw [Session.shown, stackOf_kept_self draft hm hstack]
      simp only [settled, copied_numbered, hdraft.index, hbindings, copied_table]
    · rw [find?_copied, hsame]
      rfl

theorem Command.give_held {v : Session} {i : Int} {names : Entries} {text response output : String}
    (hkey : user.isKey = true) (hshown : u.shown user = some (.int i, .table names))
    (hfind : names.find? name = some (.str text))
    (houtput : substitute user (.str response) true u = .ok output v)
    (hdepth : v.depthOf user = u.depthOf user) (target : String) :
    ∃ t, give user target (some response) u = .ok () t ∧
      t.held user name = some (if target = name then
        .list (.str (Text.trim output) :: history (some (.str text))) none else .str text) := by
  obtain ⟨m, c, below, hm, hstack, -, -⟩ := shown_eq_some hshown
  have hafter : u.after (substitute user (.str response) true) = v := by
    rw [after, houtput]
  have hshown' : v.shown user = some (.int i, .table names) := by
    have hremains : u.Remains user v := hafter ▸ substitute_remains _ _ _
    -- A response that leaves the script would make the stack shorter.
    rcases hremains with hless | ⟨-, hsame⟩
    · omega
    · rw [hsame, hshown]
  obtain ⟨m', c', below', hm', hstack', hindex, hnames⟩ := shown_eq_some hshown'
  obtain ⟨entries, hbindings, rfl⟩ := table_of_copied hnames
  rw [find?_copied] at hfind
  obtain ⟨value, hvalue, htext⟩ := Option.map_eq_some_iff.1 hfind
  obtain rfl := str_of_copied htext
  obtain ⟨draft, names, hprepend, hdraft, hsame, hheld⟩ :=
    prepend_held hbindings hvalue target (Text.trim output)
  have hstep := step_apply (hsame.trans hindex) 1
  have hdepths : m'.depth = m.depth := by
    rw [depthOf, depthOf, stackOf_eq hm, stackOf_eq hm'] at hdepth
    exact hdepth
  let stepped : Draft :=
    { draft with conversation := { draft.conversation with index := .int (i + 1) } }
  refine ⟨kept user m' stepped v, ?_, ?_⟩
  · rw [give, bind_of_ok (managerAt_of_some hkey hm), bind_of_ok (current_of_stack hkey hm hstack),
      bind_of_ok houtput, editSince, bind_of_ok (manager?_of_isKey hkey v), hm']
    simp only [hdepths, beq_self_eq_true, if_true]
    rw [edit_eq hkey hm' hstack', bind_of_ok hprepend, hstep]
  · refine (held_kept hm' hstack' ?_ name).trans hheld
    exact hdraft

namespace Running

variable {user : Value} {c : Conversation} {bindings : Entries} {s : Session} {i : Int}
  {name line target : String} {table : Value} {size : Nat}

theorem answerPattern_missing (h : Running user c bindings s)
    (hline : Rephrases bindings line name target table) (hheld : s.held user name = none) :
    answerPattern user (.str line) s = edit user (throw .missingEntry) s := by
  obtain ⟨list, hnames, -⟩ := hline.names
  rw [h.held, Option.map_eq_none_iff] at hheld
  rw [answerPattern, bind_of_ok h.currentAt, bind_of_ok (rephraseNames hnames)]
  apply h.edit_error_bind
  rw [hline.target]
  exact bind_of_error (readVariable_missing h.bindings hheld)

theorem answerPattern_wrongKind (h : Running user c bindings s)
    (hline : Rephrases bindings line name target table) (hsize : table.size = .ok size) {old : Value}
    (hheld : s.held user name = some old) (hold : ∀ text, old ≠ .str text) :
    answerPattern user (.str line) s = edit user (throw .wrongKind) s := by
  rw [h.held] at hheld
  obtain ⟨value, hfind, rfl⟩ := Option.map_eq_some_iff.1 hheld
  have hneedle : value.needle = .error .wrongKind := by
    rw [← needle_copied]
    cases hcopied : value.copied with
    | str text => exact absurd hcopied (hold text)
    | _ => rfl
  rw [h.answerPattern_eq hfind hline hsize, hneedle]
  exact h.edit_error_bind rfl _

/-- A response is put in front of the text of the variable that the line names, if it is named there
without blanks around it. -/
theorem answerPattern_held (h : Running user c bindings s) (hindex : c.index = .int i)
    (hline : Rephrases bindings line name target table)
    (hpasses : Passes bindings name table) (hsize : table.size = .ok size)
    {text response output : String} {v : Session} (hheld : s.held user name = some (.str text))
    (hresponse : edit user (firstResponse (" " ++ text ++ " ") table
      (size + extraEntries) 0) s = .ok (some response) u)
    (houtput : substitute user (.str response) true u = .ok output v)
    (hdepth : v.depthOf user = u.depthOf user) :
    ∃ t, answerPattern user (.str line) s = .ok () t ∧
      t.held user name = some (if target = name then
        .list (.str (Text.trim output) :: history (some (.str text))) none else .str text) := by
  rw [h.held] at hheld
  obtain ⟨value, hfind, hvalue⟩ := Option.map_eq_some_iff.1 hheld
  obtain rfl := str_of_copied hvalue
  obtain ⟨names, hshown, hkept⟩ := h.firstResponse_shown hfind hpasses hresponse
  rw [hindex] at hshown
  obtain ⟨t, hgive, hheld'⟩ := give_held h.isKey hshown hkept houtput hdepth target
  refine ⟨t, ?_, hheld'⟩
  rw [h.answerPattern_eq hfind hline hsize]
  exact (bind_of_ok hresponse).trans hgive

/-- What the writers of a variable leave behind a new value.  An assignment leaves the history of the
variable.  So does a response to the text of the variable, if the line names it without blanks and the
response does not leave the script; there is no response to other values.  An answer of the user, and
its recording, leave all of a list but the name of the variable in the place of a text, and an answer
for a variable that is not declared is lost.  The ending of a recording is left out with all
characters before it that occur in it. -/
theorem writers_held (h : Running user c bindings s) (hindex : c.index = .int i) (name : String) :
    (∀ data text given, lineData s = .ok data s → Assigns data text name given →
      Verbatim (Text.trim given) →
        ∃ t, setVariable user text s = .ok () t ∧ t.held user name =
          some (.list (.str (Text.trim given) :: Value.history (s.held user name)) none)) ∧
    (∀ line target table size, Rephrases bindings line name target table → table.size = .ok size →
      (∀ text response output u v, s.held user name = some (.str text) →
        Pattern.Passes bindings name table →
        edit user (Pattern.firstResponse (" " ++ text ++ " ") table (size + Pattern.extraEntries) 0)
          s = .ok (some response) u →
        Substitution.substitute user (.str response) true u = .ok output v →
        v.depthOf user = u.depthOf user →
          ∃ t, answerPattern user (.str line) s = .ok () t ∧
            t.held user name = some (if target = name then
              .list (.str (Text.trim output) :: Value.history (s.held user name)) none
              else .str text)) ∧
      (∀ old, s.held user name = some old → (∀ text, old ≠ .str text) →
        answerPattern user (.str line) s = edit user (throw .wrongKind) s) ∧
      (s.held user name = none →
        answerPattern user (.str line) s = edit user (throw .missingEntry) s)) ∧
    (∀ m words answer file?, s.message = some m → Expects user c name s → m.Voices user words →
      Listening.answer? c words = .ok (some answer) → m.Records file? →
        (∀ old, s.held user name = some old →
          ∃ t, Listening.respond s = (do Execution.resume user; return true) t ∧
            t.held user name =
              some (.list (.str (Text.trim answer) :: old.behind (.str name)) none) ∧
            t.recorded user name = Listening.recordings name (s.recorded user name) file?) ∧
        (s.held user name = none → ∃ t, Listening.respond s = .error .missingEntry t)) ∧
    (∀ words, c.awaited = .str name → ',' ∉ name.toList → words ≠ "" →
      Listening.answer? c words = .ok (some words)) ∧
    (∀ old : Option Value, (old.getD .null).behind (.str name) = Value.history old ↔
      (old.getD .null).Stays (.str name)) ∧
    (∀ file, (Text.endsWith file ".flac" = false → Listening.recordingName file = file) ∧
      Listening.recordingName (file ++ ".flac") = Text.trimEndOf ".flac" file ∧
      ((∀ last ∈ file.toList.getLast?, last ∉ ".flac".toList) →
        Text.trimEndOf ".flac" file = file)) := by
  refine ⟨?_, ?_, ?_, ?_, ?_, ?_⟩
  · intro data text given hdata hassigns hverbatim
    exact h.setVariable_held hindex hdata hassigns hverbatim
  · intro line target table size hline hsize
    refine ⟨?_, ?_, h.answerPattern_missing hline⟩
    · intro text response output u v hheld hpasses hresponse houtput hdepth
      rw [hheld]
      exact h.answerPattern_held hindex hline hpasses hsize hheld hresponse houtput hdepth
    · intro old hheld hold
      exact h.answerPattern_wrongKind hline hsize hheld hold
  · intro m words answer file? hmessage hexpects hvoices hanswer hrecords
    constructor
    · intro old hheld
      exact h.respond_held hexpects hmessage hvoices hanswer hrecords hheld
    · intro hheld
      exact h.respond_missing hexpects hmessage hvoices hanswer hheld
  · intro words hawaited hcomma hwords
    exact Listening.answer?_eq hawaited hcomma hwords
  · intro old
    exact Value.behind_eq_history_iff old (.str name)
  · intro file
    refine ⟨?_, Listening.recordingName_append file, Text.trimEndOf_eq_self⟩
    intro hends
    rw [Listening.recordingName, hends, if_neg Bool.false_ne_true]

def returned {α : Type} (m : Run α) (s : Session) : Option α :=
  match m s with
  | .ok a _ => some a
  | .error .. => none

theorem eq_ok_of_returned {α : Type} {m : Run α} {a : α} (h : returned m s = some a) :
    m s = .ok a (s.after m) := by
  rw [returned] at h
  split at h
  · rename_i b t hrun
    obtain rfl := Option.some.inj h
    rw [after, hrun]
  · cases h

def spoken : Message :=
  { data := [("utterances", .ofItems [" new "])]
    context := [("user", "ann"), ("audio_file", "take.wav")] }

def diaryNames (value : Value) : Entries :=
  [("y", value), ("mood", .ofItems []),
   ("talk", .ofItems ["\"i am \x7bmood\x7d\" \"why \x7bmood\x7d\""])]

def diary (value : Value) : Conversation :=
  { scriptMeta := .emptyTable, filename := "diary", startTime := 0
    bindings := .table (diaryNames value), recordings := .object [("y", .ofItems ["older.wav"])]
    lines := .ofItems [lineOf "voice_input" 0 "voice_input(y)" (.int 1) .null,
      lineOf "voice_input" 0 "voice_input(y)" (.int 2) .null]
    index := .int 1, awaited := "y" }

def evening (value : Value) : Session :=
  { root := "/home", initialized := true, message := some spoken, awaiting := ["ann"]
    active := [("ann", { user := "ann", stack := [.conversation (diary value)] })] }

theorem evening_running (value : Value) :
    Running "ann" (diary value) (diaryNames value) (evening value) where
  isKey := rfl
  initialized := rfl
  running := ⟨{ user := "ann", stack := [.conversation (diary value)] }, [], by
    simp [managerIn, evening, str_same], rfl⟩
  bindings := rfl
  message := ⟨spoken, rfl⟩

theorem evening_held (value : Value) : (evening value).held "ann" "y" = some value.copied := by
  rw [(evening_running value).held, diaryNames, find?, str_same]
  rfl

theorem evening_recorded (value : Value) :
    (evening value).recorded "ann" "y" = some (.ofItems ["older.wav"]) := by
  rw [(evening_running value).recorded]
  simp only [diary, object, Value.under, List.map_cons, find?, str_same]
  rfl

theorem evening_lineData (value : Value) :
    lineData (evening value) = .ok .null (evening value) := by
  rw [lineData, datum, bind_of_ok (theMessage_of_some rfl)]
  simp [spoken, find?, str_same]

theorem diary_rephrases (value : Value) : Rephrases (diaryNames value) "sub_key\x7by,talk\x7d" "y" "y"
    (.ofItems ["\"i am \x7bmood\x7d\" \"why \x7bmood\x7d\""]) where
  names := by
    have htrim : Text.trim "talk" = "talk" := by decide
    exact ⟨"talk", by decide, by simp [diaryNames, htrim, find?, str_same]⟩
  target := by decide

theorem diary_passes (value : Value) : Passes (diaryNames value) "y"
    (.ofItems ["\"i am \x7bmood\x7d\" \"why \x7bmood\x7d\""]) where
  entries := by
    refine ⟨_, rfl, fun word hword target htarget => ⟨?_, fun _ _ h => h⟩⟩
    obtain rfl : word = "\"i am \x7bmood\x7d\" \"why \x7bmood\x7d\"" := by simpa using hword
    have htargets : targets (replace "\" \"" "\"\""
        (Text.trim "\"i am \x7bmood\x7d\" \"why \x7bmood\x7d\"")) = ["mood"] := by decide
    rw [htargets, List.mem_singleton] at htarget
    rw [htarget]
    decide

theorem evening_expects (value : Value) : Expects "ann" (diary value) "y" (evening value) where
  filename := rfl
  awaited := rfl
  awaits := by simp [evening, str_same]
  recordings := ⟨_, rfl⟩

theorem spoken_voices : spoken.Voices "ann" " new " where
  user := by simp [spoken, Message.user, find?, str_same]
  heard := ⟨.ofItems [" new "], " new ", by simp [spoken, find?, str_same], rfl, by
    have hnamed : startsWith (Text.trim (str " new ").display) "neon " = false := by
      decide
    rw [Listening.spoken]
    simp only [hnamed, Bool.false_eq_true, if_false]
    rfl⟩
  stays := by decide

theorem spoken_records : spoken.Records (some "take.wav") :=
  .some (by simp [spoken, find?, str_same]) (by decide)

/-- An assignment, a response and an answer with its recording stand in front of what was there. -/
theorem evening_kept :
    (∃ t, setVariable "ann" "y = new" (evening (.ofItems ["old"])) = .ok () t ∧
      t.held "ann" "y" = some (.ofItems ["new", "old"])) ∧
    (∃ t, answerPattern "ann" "sub_key\x7by,talk\x7d" (evening "i am sad") = .ok () t ∧
      t.held "ann" "y" = some (.ofItems ["\"why sad\"", "i am sad"])) ∧
    ∃ t, Listening.respond (evening (.ofItems ["old"])) =
        (do Execution.resume "ann"; return true) t ∧
      t.held "ann" "y" = some (.ofItems ["new", "old"]) ∧
      t.recorded "ann" "y" = some (.ofItems ["take.wav", "older.wav"]) := by
  have hnew : Text.trim " new" = "new" := by decide
  have hanswer : Text.trim " new " = "new" := by decide
  have houtput : Text.trim "\"why sad\"" = "\"why sad\"" := by decide
  have hname : Listening.recordingName "take.wav" = "take.wav" := by decide
  have hfile : Text.trim "take.wav" = "take.wav" := by decide
  have hassigns : Assigns .null "y = new" "y" " new" := by
    refine .line rfl rfl (?_ : Text.cut? "=" "y = new" = some ("y ", " new")) ?_ <;> decide
  obtain ⟨hset, -, hanswers, hwords, -⟩ :=
    writers_held (evening_running (.ofItems ["old"])) rfl "y"
  obtain ⟨-, hresponses, -⟩ := writers_held (evening_running "i am sad") rfl "y"
  refine ⟨?_, ?_, ?_⟩
  · obtain ⟨t, hrun, hheld⟩ := hset .null "y = new" " new" (evening_lineData _) hassigns
      (hnew ▸ ⟨by decide, by decide⟩)
    refine ⟨t, hrun, ?_⟩
    rw [hheld, evening_held, hnew]
    rfl
  · let s := evening "i am sad"
    let search := edit "ann" (Pattern.firstResponse (" " ++ "i am sad" ++ " ")
      (.ofItems ["\"i am \x7bmood\x7d\" \"why \x7bmood\x7d\""]) (1 + Pattern.extraEntries) 0)
    let fill := Substitution.substitute "ann" (.str "why \x7bmood\x7d") true
    have hsearch : search s = .ok (some "why \x7bmood\x7d") (s.after search) :=
      eq_ok_of_returned (by decide +kernel)
    have hfill : fill (s.after search) = .ok "\"why sad\"" ((s.after search).after fill) :=
      eq_ok_of_returned (by decide +kernel)
    obtain ⟨t, hrun, hheld⟩ := (hresponses _ _ _ 1 (diary_rephrases _) rfl).1 _ _ _ _ _
      (evening_held _) (diary_passes _) hsearch hfill (by decide +kernel)
    refine ⟨t, hrun, ?_⟩
    rw [hheld, evening_held, houtput]
    rfl
  · obtain ⟨t, hrun, hheld, hrecorded⟩ := (hanswers _ _ _ _ rfl (evening_expects _) spoken_voices
      (hwords _ rfl (by decide) (by decide)) spoken_records).1 _ (evening_held _)
    refine ⟨t, hrun, ?_, ?_⟩
    · rw [hheld, hanswer]
      rfl
    · rw [hrecorded, evening_recorded]
      simp only [Listening.recordings, hname, hfile]
      rw [if_neg (by decide)]
      rfl

/-- Behind an answer there is the name of the variable in the place of the text that it held. -/
theorem text_named :
    (((evening "old").after Listening.respond).held "ann" "y").map Value.display ≠
      some (Value.list (.str (Text.trim " new ") :: Value.history (some "old")) none).display := by
  decide +kernel

end Running

end Colloquy
