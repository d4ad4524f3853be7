import Colloquy.Proofs.Lists
import Colloquy.Proofs.Plain

/-! A user whose only script speaks and branches.  Running such lines changes the place of the
script, what was said last, the transcript and the data of the line; all else stays as it is, and a
stage is a session in which the next such line can be run. -/

namespace Colloquy

open Value Entries Edit List

variable {s t : Session} {c : Conversation} {m : Manager} {below : List Entry} {entries : Entries}
  {data v : Value} {draft : Draft} {command text : String} {indent : Int} {parents : List Value}
  {k : Keyword}

/-! ### Transcripts -/

namespace Files

/-- A path at which a text can be added: it leads to a place in a folder, and no folder is there. -/
structure Writes (fs : Files) (root path : String) (place : Place) : Prop where
  target : fs.resolve root [] path = .ok (.inside place)
  folder : fs.isFolder place.dropLast = true
  free : fs.isFolder place = false

variable {fs fs' : Files} {root path : String} {place : Place}

theorem follow_of_file (hfolders : fs'.folders = fs.folders)
    (hfiles : ∀ q, fs'.isFile q = true → fs.isFile q = true ∨ q = place)
    (hfree : fs.isFolder place = false) {start : Place} {names : List String} {target : Target}
    (h : fs.follow start names = .ok target) : fs'.follow start names = .ok target := by
  have hfolder (q : Place) : fs'.isFolder q = fs.isFolder q := by simp only [isFolder, hfolders]
  induction names generalizing start with
  | nil => exact h
  | cons name rest ih =>
    have hstart : fs.isFile start = false ∧ fs.isFolder start = true := by
      simp only [follow] at h
      grind
    have hfile : fs'.isFile start = false := by grind
    simp only [follow, hstart, hfile, hfolder] at h ⊢
    grind

theorem append_ok (hfolder : fs.isFolder place.dropLast = true) (hfree : fs.isFolder place = false)
    (text : String) : ∃ fs', fs.append place text = .ok fs' ∧ fs'.folders = fs.folders ∧
      ∀ q, fs'.isFile q = true → fs.isFile q = true ∨ q = place := by
  simp only [append, hfree, hfolder, Bool.not_true, Bool.false_eq_true, if_false]
  cases fs.raw? place with
  | none =>
    refine ⟨_, rfl, rfl, fun q hq => ?_⟩
    simp only [isFile, any_append, any_cons, any_nil, Bool.or_false,
      Bool.or_eq_true, beq_iff_eq] at hq ⊢
    exact hq.imp_right Eq.symm
  | some old =>
    refine ⟨_, rfl, rfl, fun q hq => .inl ?_⟩
    simp only [isFile, any_map] at hq ⊢
    obtain ⟨file, hmem, hfile⟩ := any_eq_true.1 hq
    refine any_eq_true.2 ⟨file, hmem, ?_⟩
    simp only [Function.comp] at hfile
    split at hfile <;> exact hfile

theorem Writes.append (h : fs.Writes root path place) (text : String) :
    ∃ fs', fs.append place text = .ok fs' ∧
      ∀ path place, fs.Writes root path place → fs'.Writes root path place := by
  obtain ⟨fs', hfs', hfolders, hfiles⟩ := append_ok h.folder h.free text
  have hfolder (q : Place) : fs'.isFolder q = fs.isFolder q := by simp only [isFolder, hfolders]
  have hfollow (start : Place) (names : List String) (target : Target)
      (h' : fs.follow start names = .ok target) : fs'.follow start names = .ok target :=
    follow_of_file hfolders hfiles h.free h'
  refine ⟨fs', hfs', fun path' place' h' => ?_⟩
  refine ⟨?_, by rw [hfolder, h'.folder], by rw [hfolder, h'.free]⟩
  have htarget := h'.target
  simp only [resolve] at htarget ⊢
  grind

end Files

namespace Session

def transcriptPath (root : String) (c : Conversation) : String :=
  joinPath (Text.join "/" (root :: transcriptFolder))
    (c.filename.display ++ "_" ++ (Value.int c.startTime).display ++ ".txt")

theorem noteSaid_ok {place : Place} (h : s.files.Writes s.root (transcriptPath s.root c) place)
    (who : String) (what : Value) :
    ∃ files, noteSaid c who what s = .ok () { s with files } ∧
      ∀ path place, s.files.Writes s.root path place → files.Writes s.root path place := by
  obtain ⟨files, hfiles, hkeeps⟩ := h.append ""
  obtain ⟨files', hfiles', hkeeps'⟩ := (hkeeps _ _ h).append
    (nowText ++ ", " ++ who ++ " said: \"" ++ what.display ++ "\" \n")
  have htarget := h.target
  simp only [transcriptPath] at htarget
  refine ⟨files', ?_, fun path place hwrites => hkeeps' _ _ (hkeeps _ _ hwrites)⟩
  simp only [noteSaid, addTranscript, bind_apply, get_apply, Session.path, htarget, lift_ok_apply,
    Files.appendTarget, hfiles, set_apply, needle, hfiles']

/-! ### What stays as it is -/

def said : Event → Option Value
  | .speak text _ => some text
  | _ => none

def spoken (s : Session) : List Value :=
  s.events.reverse.filterMap said

theorem spoken_congr (h : t.events = s.events) : t.spoken = s.spoken := by
  rw [spoken, h, spoken]

theorem spoken_cons (e : Event) (s : Session) :
    spoken { s with events := e :: s.events } = s.spoken ++ (said e).toList := by
  simp only [spoken, reverse_cons, filterMap_append]
  cases h : said e <;> simp [h]

end Session

/-- The message without what the compiler found out about the line. -/
def Message.bare (m : Message) : Message :=
  { m with data := m.data.erase "parser_data" }

/-- The conversation without its place and without what was said last. -/
def Conversation.bare (c : Conversation) : Conversation :=
  { c with index := .null, lastIndent := .null, lastRequest := .null, bindings := c.bindings.copied }

def Entry.bare : Entry → Entry
  | .conversation c => .conversation c.bare
  | .foreign v => .foreign v

def Manager.bare (m : Manager) : Manager :=
  { m with stack := m.stack.map Entry.bare }

/-- Sessions that differ as speaking and branching in the script of the user make them differ. -/
structure Session.Alike (user : Value) (s t : Session) : Prop where
  host : t.host = s.host
  root : t.root = s.root
  clock : t.clock = s.clock
  awaiting : t.awaiting = s.awaiting
  reads : t.reads = s.reads
  initialized : t.initialized = s.initialized
  message : t.message.map Message.bare = s.message.map Message.bare
  manager : (managerIn t.active user).map Manager.bare = (managerIn s.active user).map Manager.bare

namespace Session.Alike

variable {user : Value} {s t u : Session}

theorem refl (user : Value) (s : Session) : Alike user s s :=
  ⟨rfl, rfl, rfl, rfl, rfl, rfl, rfl, rfl⟩

theorem trans (h : Alike user s t) (h' : Alike user t u) : Alike user s u where
  host := h'.host.trans h.host
  root := h'.root.trans h.root
  clock := h'.clock.trans h.clock
  awaiting := h'.awaiting.trans h.awaiting
  reads := h'.reads.trans h.reads
  initialized := h'.initialized.trans h.initialized
  message := h'.message.trans h.message
  manager := h'.manager.trans h.manager

theorem running (h : Alike user s t) (hm : managerIn s.active user = some m)
    (hstack : m.stack = .conversation c :: below) :
    ∃ m' c' below', managerIn t.active user = some m' ∧ m'.stack = .conversation c' :: below' ∧
      below'.length = below.length ∧ m'.scope = m.scope ∧ c'.bare = c.bare := by
  have hmanager := h.manager
  rw [hm] at hmanager
  obtain ⟨m', hm', hbare⟩ := Option.map_eq_some_iff.1 hmanager
  have hscope := congrArg Manager.scope hbare
  have hentries : m'.stack.map Entry.bare = .conversation c.bare :: below.map Entry.bare := by
    simpa [Manager.bare, hstack, Entry.bare] using congrArg Manager.stack hbare
  obtain ⟨e, below', hstack', hc, hbelow⟩ := map_eq_cons_iff.1 hentries
  have hlength : below'.length = below.length := by simpa using congrArg List.length hbelow
  cases e with
  | foreign v => cases hc
  | conversation c' =>
    exact ⟨m', c', below', hm', hstack', hlength, hscope, Entry.conversation.inj hc⟩

theorem current (h : Alike user s t) (hm : managerIn s.active user = some m)
    (hstack : m.stack = [.conversation c]) :
    ∃ m' c', managerIn t.active user = some m' ∧ m'.stack = [.conversation c'] ∧
      m'.scope = m.scope ∧ c'.bare = c.bare := by
  obtain ⟨m', c', below', hm', hstack', hlength, hscope, hbare⟩ := h.running hm hstack
  obtain rfl := length_eq_zero_iff.1 hlength
  exact ⟨m', c', hm', hstack', hscope, hbare⟩

end Session.Alike

namespace Entries

theorem erase_insert (key : String) (value : Value) (entries : Entries) :
    (entries.insert key value).erase key = entries.erase key := by
  induction entries with
  | nil => simp [insert, erase, Value.str_same]
  | cons e rest ih =>
    obtain ⟨k, v⟩ := e
    simp only [erase, insert] at ih ⊢
    split
    · rename_i hk
      simp [hk]
    · rename_i hk
      simp [hk, ih]

theorem find?_erase {key name : String} (h : name ≠ key) (entries : Entries) :
    find? name (entries.erase key) = find? name entries := by
  induction entries with
  | nil => rfl
  | cons e rest ih =>
    obtain ⟨k, v⟩ := e
    simp only [erase] at ih ⊢
    cases hk : k.same (.str key) with
    | true =>
      have hname : (str key).same (.str name) = false := by simp [Value.str_same, Ne.symm h]
      obtain rfl := same_str hk
      simp [hk, find?, hname, ih]
    | false => simp [hk, find?, ih]

theorem find?_copied (key : Value) (entries : Entries) :
    find? key (copiedEntries entries) = (find? key entries).map copied := by
  induction entries with
  | nil => rfl
  | cons e rest ih =>
    obtain ⟨k, v⟩ := e
    simp only [copiedEntries, find?]
    split <;> simp [ih]

theorem has_insert {key : String} (h : entries.has key = true) (value : Value) (word : String) :
    (entries.insert key value).has word = entries.has word := by
  by_cases hword : word = key
  · rw [hword, has, find?_insert_self, h]
    rfl
  · rw [has, find?_insert_ne (Ne.symm hword), has]

theorem find?_changed (change : Value.Change) (key : Value) (entries : Entries) :
    find? key (Value.changedEntries change entries) = (find? key entries).map (·.changed change) := by
  induction entries with
  | nil => rfl
  | cons e rest ih =>
    obtain ⟨k, v⟩ := e
    simp only [Value.changedEntries, find?]
    split <;> simp [ih]

theorem has_copied (entries : Entries) (word : String) :
    has (copiedEntries entries) word = entries.has word := by
  rw [has, find?_copied, Option.isSome_map, has]

end Entries

/-! ### Stages -/

/-- A message whose words can be noted, if it has any. -/
def Message.Notable (m : Message) : Prop :=
  let heard := (Entries.find? "utterances" m.data).getD .null
  heard.truthy = true → ∃ words, heard.item (.int 0) = .ok words

/-- A conversation with the given lines and variables that is at the line `i`. -/
structure Conversation.At (lines : List Value) (names : Entries) (i : Nat) (c : Conversation) :
    Prop where
  lines : ∃ number, c.lines = .list lines number
  bindings : c.bindings.copied = .table names
  index : c.index = .int i
  lastIndent : ∃ indent : Int, c.lastIndent = .int indent

theorem Edit.read_apply (draft : Draft) : read draft = .ok draft.conversation draft := rfl

theorem Value.get_of_table (h : v = .table entries) (name : String) :
    v.get (.str name) = .ok ((entries.find? name).getD .null) := by
  rw [h]
  rfl

theorem Conversation.bindings_changed (h : c.bindings = .table entries) (change : Value.Change) :
    (c.changed change).bindings = .table (Value.changedEntries change entries) := by
  simp only [Conversation.changed, h, Value.changed]

theorem Edit.readVariable_apply {name : String} {value : Value}
    (h : draft.conversation.bindings = .table entries) (hfind : entries.find? name = some value) :
    readVariable (.str name) draft = .ok value draft := by
  have hitem : (table entries).item (.str name) = .ok value := by
    simp only [item, hfind]
    rfl
  rw [readVariable, bind_of_ok (read_apply _), h, hitem]
  exact lift_ok_apply _ _

theorem Edit.writeVariable_apply (h : draft.conversation.bindings = .table entries) (name : String)
    (value : Value) :
    writeVariable (.str name) value draft = .ok () { draft with conversation :=
      { draft.conversation with bindings := .table (entries.insert name value) } } := by
  rw [writeVariable, bind_of_ok (read_apply _), h]
  rfl

theorem Edit.step_apply {i : Int} (h : draft.conversation.index = .int i) (n : Int) :
    step n draft = .ok () { draft with conversation :=
      { draft.conversation with index := .int (i + n) } } := by
  rw [step, bind_of_ok (read_apply _), h]
  rfl

theorem Conversation.At.step {lines : List Value} {names : Entries} {i : Nat}
    (h : c.At lines names i) :
    step 1 { conversation := c } =
      .ok () { conversation := { c with index := .int (i + 1) } } :=
  step_apply h.index 1

/-- A session in which the only script of the user is at the line `i` and can go on: the user is not
waited for, the host speaks, and there is a message and a transcript to write to. -/
structure Stage (user : Value) (lines : List Value) (names : Entries) (i : Nat) (s : Session) :
    Prop where
  isKey : user.isKey = true
  initialized : s.initialized = true
  canSpeak : s.host.canSpeak = true
  awaiting : s.awaiting.any (·.same user) = false
  message : ∃ m, s.message = some m ∧ m.Notable
  current : ∃ m c place, Session.managerIn s.active user = some m ∧ m.stack = [.conversation c] ∧
    c.At lines names i ∧ s.files.Writes s.root (Session.transcriptPath s.root c) place

/-- A session in which the running script of the user is at the line `i` and can go on, whatever
called it. -/
structure Standing (user : Value) (lines : List Value) (names : Entries) (i : Nat) (s : Session) :
    Prop where
  isKey : user.isKey = true
  initialized : s.initialized = true
  canSpeak : s.host.canSpeak = true
  awaiting : s.awaiting.any (·.same user) = false
  message : ∃ m, s.message = some m ∧ m.Notable
  current : ∃ m c below place, Session.managerIn s.active user = some m ∧
    m.stack = .conversation c :: below ∧ c.At lines names i ∧
      s.files.Writes s.root (Session.transcriptPath s.root c) place

/-- What holds of the running script of the user. -/
def Session.Top (user : Value) (P : Conversation → Prop) (s : Session) : Prop :=
  ∀ m c below, managerIn s.active user = some m → m.stack = .conversation c :: below → P c

theorem Session.Top.of_active {user : Value} {P : Conversation → Prop} (h : s.Top user P)
    (hactive : t.active = s.active) : t.Top user P := by
  intro m c below hm hstack
  rw [hactive] at hm
  exact h m c below hm hstack

theorem Session.Top.edit {α : Type} {user : Value} {body : Edit α} {a : α}
    {P Q : Conversation → Prop} (h : s.Top user P) (hedit : Session.edit user body s = .ok a t)
    (hbody : ∀ c draft next, P c → body { conversation := c } = .ok a draft → Q (settled next draft))
    : t.Top user Q := by
  obtain ⟨fault, herror⟩ | ⟨m, c, below, hkey, hm, hstack, -⟩ := current_cases user s
  · rw [Session.edit, bind_of_error herror] at hedit
    cases hedit
  rw [edit_eq hkey hm hstack] at hedit
  cases hrun : body { conversation := c } with
  | error fault draft =>
    rw [hrun] at hedit
    cases hedit
  | ok a' draft =>
    rw [hrun] at hedit
    cases hedit
    intro m' c' below' hm' hstack'
    rw [managerIn_kept_self draft hm] at hm'
    obtain rfl := Option.some.inj hm'
    obtain ⟨rfl, -⟩ : settled s.lists draft = c' ∧ _ := by simpa [Manager.setTop] using hstack'
    exact hbody c draft s.lists (h m c below hm hstack) hrun

theorem Message.bare_notable {m m' : Message} (h : m'.bare = m.bare) (hm : m.Notable) :
    m'.Notable := by
  have hfind : Entries.find? "utterances" m'.data = Entries.find? "utterances" m.data := by
    have hname : "utterances" ≠ "parser_data" := by decide
    rw [← find?_erase hname m.data, ← find?_erase hname m'.data]
    exact congrArg (fun m => Entries.find? "utterances" m.data) h
  rw [Notable, hfind]
  exact hm

theorem Conversation.of_bare_eq {c' : Conversation} (h : c'.bare = c.bare) :
    c'.lines = c.lines ∧ c'.bindings.copied = c.bindings.copied ∧
      ∀ root, Session.transcriptPath root c' = Session.transcriptPath root c :=
  ⟨(congrArg lines h :), (congrArg bindings h :),
    fun root => (congrArg (Session.transcriptPath root) h :)⟩

theorem Session.hostAfter_canSpeak (changes : List Value.Change) (host : Host) :
    (hostAfter changes host).canSpeak = host.canSpeak := by
  induction changes with
  | nil => rfl
  | cons change rest ih => exact ih

namespace Standing

open Session

variable {user : Value} {lines : List Value} {names : Entries} {i j : Nat} {s t : Session}

theorem alike (h : Standing user lines names i s) (halike : Alike user s t)
    (hplace : ∀ m c below, managerIn t.active user = some m → m.stack = .conversation c :: below →
      c.index = .int j ∧ ∃ indent : Int, c.lastIndent = .int indent)
    (hfiles : ∀ path place, s.files.Writes s.root path place → t.files.Writes s.root path place) :
    Standing user lines names j t := by
  refine ⟨h.isKey, halike.initialized.trans h.initialized, by rw [halike.host, h.canSpeak],
    by rw [halike.awaiting, h.awaiting], ?_, ?_⟩
  · obtain ⟨m, hm, hnotable⟩ := h.message
    have hmessage := halike.message
    rw [hm] at hmessage
    obtain ⟨m', hm', heq⟩ := Option.map_eq_some_iff.1 hmessage
    exact ⟨m', hm', Message.bare_notable heq hnotable⟩
  · obtain ⟨m, c, below, place, hm, hstack, hat, hwrites⟩ := h.current
    obtain ⟨m', c', below', hm', hstack', -, -, hbare⟩ := halike.running hm hstack
    obtain ⟨hindex, hindent⟩ := hplace m' c' below' hm' hstack'
    obtain ⟨hlines, hbindings, hpath⟩ := Conversation.of_bare_eq hbare
    refine ⟨m', c', below', place, hm', hstack',
      ⟨hlines ▸ hat.lines, hbindings ▸ hat.bindings, hindex, hindent⟩, ?_⟩
    rw [halike.root, hpath]
    exact hfiles _ _ hwrites

theorem of_kept (h : Standing user lines names i s) (hm : managerIn s.active user = some m)
    (hstack : m.stack = .conversation c :: below) {names' : Entries}
    (hat : draft.conversation.At lines names' j)
    (hpath : ∀ root, transcriptPath root draft.conversation = transcriptPath root c) :
    Standing user lines names' j (Session.kept user m draft s) := by
  obtain ⟨m₁, c₁, below₁, place, hm₁, hstack₁, -, hwrites⟩ := h.current
  obtain rfl := Option.some.inj (hm₁.symm.trans hm)
  obtain ⟨rfl, rfl⟩ : c₁ = c ∧ below₁ = below := by simpa using hstack₁.symm.trans hstack
  have hfields : Session.kept user m₁ draft s = { Session.kept user m₁ draft s with
      awaiting := s.awaiting, initialized := s.initialized, message := s.message, root := s.root,
      files := s.files } := by
    simp only [Session.kept, withChanges_eq]
  rw [hfields]
  refine ⟨h.isKey, h.initialized, ?_, h.awaiting, h.message, ?_⟩
  · rw [kept_host, hostAfter_canSpeak, h.canSpeak]
  · refine ⟨_, _, _, place, managerIn_kept_self draft hm, rfl, ⟨hat.lines, ?_, hat.index,
      hat.lastIndent⟩, ?_⟩
    · rw [← hat.bindings]
      exact copied_numbered _ _
    · exact (hpath s.root).symm ▸ hwrites

theorem edit {α : Type} (h : Standing user lines names i s) {body : Edit α} {a : α}
    (hbody : ∀ c : Conversation, c.At lines names i → ∃ c' : Conversation,
      body { conversation := c } = .ok a { conversation := c' } ∧ c'.bare = c.bare ∧
        c'.index = .int j ∧ ∃ indent : Int, c'.lastIndent = .int indent) :
    ∃ t, Session.edit user body s = .ok a t ∧ Standing user lines names j t ∧ Alike user s t ∧
      t.message = s.message ∧ t.events = s.events ∧ t.files = s.files := by
  obtain ⟨m, c, below, -, hm, hstack, hat, -⟩ := h.current
  obtain ⟨c', hrun, hbare, hindex, hindent⟩ := hbody c hat
  obtain ⟨hlines, hbindings, hpath⟩ := Conversation.of_bare_eq hbare
  have hsettled : (settled s.lists { conversation := c' }).bare = c.bare := by
    rw [← hbare]
    simp only [settled, Conversation.bare, copied_numbered]
  have halike : Alike user s (Session.kept user m { conversation := c' } s) := by
    refine ⟨rfl, rfl, rfl, rfl, rfl, rfl, rfl, ?_⟩
    rw [managerIn_kept_self { conversation := c' } hm, hm]
    simp [Manager.bare, Manager.setTop, Manager.changedBy, hstack, Entry.bare, hsettled]
  have hat' : c'.At lines names j :=
    ⟨hlines ▸ hat.lines, hbindings ▸ hat.bindings, hindex, hindent⟩
  refine ⟨Session.kept user m { conversation := c' } s, ?_, h.of_kept hm hstack hat' hpath, halike,
    rfl, rfl, rfl⟩
  rw [edit_eq h.isKey hm hstack, hrun]

end Standing

/-! ### Lines -/

def lineOf (command : String) (indent : Nat) (text : String) (number data : Value) : Value :=
  .object [("command", .str command), ("text", .str text), ("indent", .int indent),
    ("line_number", number), ("data", data), ("parent_case_indents", .ofItems [])]

section

variable (command : String) (indent : Nat) (text : String) (number data : Value)

@[simp] theorem lineOf_command :
    (lineOf command indent text number data).item "command" = .ok (.str command) := by
  simp [lineOf, item_object]

@[simp] theorem lineOf_text :
    (lineOf command indent text number data).item "text" = .ok (.str text) := by
  simp [lineOf, item_object]

@[simp] theorem lineOf_indent :
    (lineOf command indent text number data).item "indent" = .ok (.int indent) := by
  simp [lineOf, item_object]

@[simp] theorem lineOf_number :
    (lineOf command indent text number data).item "line_number" = .ok number := by
  simp [lineOf, item_object]

@[simp] theorem lineOf_cases :
    (lineOf command indent text number data).item "parent_case_indents" = .ok (.ofItems []) := by
  simp [lineOf, item_object]

@[simp] theorem lineOf_data :
    (lineOf command indent text number data).get "data" = .ok data := by
  simp [lineOf, get_object]

end

/-- A line that stands in no case, by its parts. -/
structure Value.IsLine (line : Value) (command text : String) (indent : Int) (data : Value) :
    Prop where
  command : line.item "command" = .ok (.str command)
  text : line.item "text" = .ok (.str text)
  indent : line.item "indent" = .ok (.int indent)
  cases : ∃ parents, line.item "parent_case_indents" = .ok parents ∧ parents.elements = .ok []
  data : line.get "data" = .ok data

theorem lineOf_isLine (command : String) (indent : Nat) (text : String) (number data : Value) :
    (lineOf command indent text number data).IsLine command text indent data :=
  ⟨lineOf_command _ _ _ _ _, lineOf_text _ _ _ _ _, lineOf_indent _ _ _ _ _,
    ⟨_, lineOf_cases _ _ _ _ _, rfl⟩, lineOf_data _ _ _ _ _⟩

/-- A line by its parts, with the indents of the cases that it stands in, the outermost first. -/
structure Value.HasParts (line : Value) (command text : String) (indent : Int)
    (parents : List Value) (data : Value) : Prop where
  command : line.item "command" = .ok (.str command)
  text : line.item "text" = .ok (.str text)
  indent : line.item "indent" = .ok (.int indent)
  cases : ∃ v, line.item "parent_case_indents" = .ok v ∧ v.elements = .ok parents
  data : line.get "data" = .ok data

theorem Value.IsLine.hasParts {line : Value} (h : line.IsLine command text indent data) :
    line.HasParts command text indent [] data :=
  ⟨h.command, h.text, h.indent, h.cases, h.data⟩

/-- What the indent of a line means behind a line with the indent `last`. -/
def Execution.placed (indent last : Int) (parents : List Value) : Except Fault Outdent :=
  if indent < last then outdent (.int indent) parents.reverse else .ok .inside

theorem Execution.placed_nil (indent last : Int) : placed indent last [] = .ok .inside := by
  unfold placed
  split <;> rfl

theorem Keyword.ofName?_name (k : Keyword) : ofName? k.name = some k := by
  cases k <;> decide

theorem Value.str_of_copied (h : v.copied = .str text) : v = .str text := by
  cases v <;> simp only [copied] at h
  case str => exact h
  all_goals cases h

theorem Value.copied_table (entries : Entries) :
    (table entries).copied = .table (copiedEntries entries) := by
  rw [copied]

theorem Value.copiedItems_eq (items : List Value) : copiedItems items = items.map copied := by
  induction items with
  | nil => rfl
  | cons x rest ih => rw [copiedItems, ih, map_cons]

theorem Value.list_of_copied {values : List Value} (h : v.copied = .list values none) :
    ∃ items number, v = .list items number ∧ items.map copied = values := by
  cases v <;> simp only [copied] at h
  case list items number =>
    rw [copiedItems_eq] at h
    exact ⟨items, number, rfl, (list.inj h).1⟩
  all_goals cases h

theorem Value.table_of_copied {names : Entries} (h : v.copied = .table names) :
    ∃ entries, v = .table entries ∧ copiedEntries entries = names := by
  cases v <;> simp only [copied] at h
  case table entries => exact ⟨entries, rfl, table.inj h⟩
  all_goals cases h

namespace Execution

open Session

variable {user : Value} {lines : List Value} {names : Entries} {i : Nat} {s t : Session}
  {line : Value} {c : Conversation}

theorem advance_eq_runNext (hkey : user.isKey = true)
    (hawaiting : s.awaiting.any (·.same user) = false) (hm : managerIn s.active user = some m)
    (hstack : m.stack = .conversation c :: below) (hlines : ∃ number, c.lines = .list lines number)
    (hindex : c.index = .int i) (hline : lines[i]? = some line) :
    advance user s = runNext c user s := by
  obtain ⟨listNumber, hlines⟩ := hlines
  obtain ⟨hlt, -⟩ := List.getElem?_eq_some_iff.1 hline
  have hinside : c.index.compare .atLeast (.int lines.length) = .ok false := by
    rw [hindex, compare_int]
    simpa using hlt
  have htruthy : c.lines.truthy = true := by
    cases lines with
    | nil => simp at hlt
    | cons first rest => simp [hlines, truthy]
  have hwaits : isAwaiting user s = .ok false s := by
    simp only [isAwaiting, bind_apply, get_apply, pure_apply, hawaiting]
  have hsize : c.lines.size = .ok lines.length := by rw [hlines, size]
  rw [advance, bind_of_ok (currentOf_of_stack hkey hm hstack), bind_of_ok hwaits]
  simp only [htruthy, Bool.not_true, Bool.false_eq_true, if_false]
  rw [hsize, bind_of_ok (lift_ok_apply _ _), hinside, bind_of_ok (lift_ok_apply _ _),
    if_neg Bool.false_ne_true]

theorem runNext_eq {last : Int} {place : Outdent} (hat : c.At lines names i)
    (hline : lines[i]? = some line) (hparts : line.HasParts command text indent parents data)
    (hedit : edit user (Edit.update fun c => { c with lastIndent := .int indent }) s = .ok () t)
    (hlast : c.lastIndent = .int last) (hplace : placed indent last parents = .ok place) :
    runNext c user s = (match place with
      | .otherOption parent => do
        leaveCase user parent
        return true
      | .inside => runLine c user line (.str command) (.str text)) t := by
  obtain ⟨listNumber, hlines⟩ := hat.lines
  have hitem : c.lines.item c.index = .ok line := by
    simp only [hlines, hat.index, item, asInt?, itemAt_nat hline]
  obtain ⟨v, hparents, helements⟩ := hparts.cases
  rw [runNext, hitem, bind_of_ok (lift_ok_apply _ _), hparts.indent,
    bind_of_ok (lift_ok_apply _ _), bind_of_ok hedit, hparts.command,
    bind_of_ok (lift_ok_apply _ _), hparts.text, bind_of_ok (lift_ok_apply _ _), hlast,
    compare_int, bind_of_ok (lift_ok_apply _ _)]
  dsimp only
  unfold placed at hplace
  split at hplace
  · rename_i hless
    rw [if_pos (decide_eq_true hless), hparents, bind_of_ok (lift_ok_apply _ _), helements,
      bind_of_ok (lift_ok_apply _ _), hplace]
    exact (bind_of_ok (lift_ok_apply _ _)).trans (by cases place <;> rfl)
  · rename_i hless
    cases hplace
    rw [if_neg (by simpa using hless)]
    rfl

end Execution

namespace Standing

open Session Execution

variable {user : Value} {lines : List Value} {names : Entries} {i j : Nat} {s t : Session}
  {line : Value}

variable (h : Standing user lines names i s)

include h

theorem advance_eq (hline : lines[i]? = some line) :
    ∃ m c below, managerIn s.active user = some m ∧ m.stack = .conversation c :: below ∧
      c.At lines names i ∧ advance user s = runNext c user s := by
  obtain ⟨m, c, below, place, hm, hstack, hat, -⟩ := h.current
  exact ⟨m, c, below, hm, hstack, hat,
    advance_eq_runNext h.isKey h.awaiting hm hstack hat.lines hat.index hline⟩

theorem advance_placed (hline : lines[i]? = some line)
    (hparts : line.HasParts command text indent parents data) {place : Outdent}
    (htop : s.Top user fun c => ∃ last : Int, c.lastIndent = .int last ∧ placed indent last parents = .ok place)
    : ∃ c t, c.At lines names i ∧ (∃ below, s.stackOf user = .conversation c :: below) ∧
      Session.edit user (Edit.update fun c => { c with lastIndent := .int indent }) s = .ok () t ∧
      Standing user lines names i t ∧ t.Top user (·.lastIndent = .int indent) ∧ Alike user s t ∧
      t.events = s.events ∧ advance user s = (match place with
        | .otherOption parent => do
          leaveCase user parent
          return true
        | .inside => runLine c user line (.str command) (.str text)) t := by
  obtain ⟨m, c, below, hm, hstack, hat, hadvance⟩ := h.advance_eq hline
  obtain ⟨last, hlast, hplace⟩ := htop m c below hm hstack
  obtain ⟨t, hedit, hstage, halike, -, hevents, -⟩ :
      ∃ t, Session.edit user (Edit.update fun c => { c with lastIndent := .int indent }) s =
        .ok () t ∧ Standing user lines names i t ∧ Alike user s t ∧ t.message = s.message ∧
          t.events = s.events ∧ t.files = s.files :=
    h.edit fun c hc => ⟨_, rfl, rfl, hc.index, indent, rfl⟩
  refine ⟨c, t, hat, ⟨below, by rw [stackOf_eq hm, hstack]⟩, hedit, hstage,
    htop.edit hedit fun c draft next _ hrun => ?_, halike, hevents, ?_⟩
  · cases hrun
    rfl
  · rw [hadvance, runNext_eq hat hline hparts hedit hlast hplace]

theorem top_placed_nil (indent : Int) :
    s.Top user fun c => ∃ last : Int, c.lastIndent = .int last ∧
      placed indent last [] = .ok .inside := by
  intro m c below hm hstack
  obtain ⟨m', c', below', -, hm', hstack', hat, -⟩ := h.current
  obtain rfl := Option.some.inj (hm.symm.trans hm')
  obtain ⟨rfl, rfl⟩ : c = c' ∧ below = below' := by simpa using hstack.symm.trans hstack'
  obtain ⟨last, hlast⟩ := hat.lastIndent
  exact ⟨last, hlast, placed_nil indent last⟩

theorem advance_runLine (hline : lines[i]? = some line)
    (hparts : line.IsLine command text indent data) :
    ∃ c t, c.At lines names i ∧ Standing user lines names i t ∧ Alike user s t ∧
      t.events = s.events ∧
        advance user s = runLine c user line (.str command) (.str text) t := by
  obtain ⟨c, t, hat, -, -, hstage, -, halike, hevents, hadvance⟩ :=
    h.advance_placed hline hparts.hasParts (h.top_placed_nil indent)
  exact ⟨c, t, hat, hstage, halike, hevents, hadvance⟩

theorem advance_command_in (hline : lines[i]? = some line)
    (hparts : line.HasParts k.name text indent parents data)
    (hplace : s.Top user fun c => ∃ last : Int, c.lastIndent = .int last ∧ placed indent last parents = .ok .inside)
    : ∃ t, Standing user lines names i t ∧ t.Top user (·.lastIndent = .int indent) ∧
      Alike user s t ∧ t.events = s.events ∧
      ∀ text', commandText k user (.str text) t = .ok text' t →
        advance user s = (do
          passData k user line
          k.perform user text'
          return (← manager? user).isSome) t := by
  obtain ⟨c, t, -, -, -, hstage, hlast, halike, hevents, hadvance⟩ :=
    h.advance_placed hline hparts hplace
  refine ⟨t, hstage, hlast, halike, hevents, fun text' htext => ?_⟩
  have hknown : Keyword.known? (.str k.name) t = .ok (some k) t := by
    simp [Keyword.known?, bind_apply, hstage.initialized, Keyword.ofName?_name]
  rw [hadvance]
  dsimp only
  rw [runLine, bind_of_ok hknown]
  exact bind_of_ok htext

theorem advance_command (hline : lines[i]? = some line)
    (hparts : line.IsLine k.name text indent data) :
    ∃ t, Standing user lines names i t ∧ Alike user s t ∧ t.events = s.events ∧
      ∀ text', commandText k user (.str text) t = .ok text' t →
        advance user s = (do
          passData k user line
          k.perform user text'
          return (← manager? user).isSome) t := by
  obtain ⟨t, hstage, -, halike, hevents, hadvance⟩ :=
    h.advance_command_in hline hparts.hasParts (h.top_placed_nil indent)
  exact ⟨t, hstage, halike, hevents, hadvance⟩

theorem advance_line {indent : Nat} {number : Value}
    (hline : lines[i]? = some (lineOf k.name indent text number data)) (hplain : Plain names text) :
    ∃ t text', Standing user lines names i t ∧ Alike user s t ∧ t.events = s.events ∧
      advance user s = (do
        passData k user (lineOf k.name indent text number data)
        k.perform user text'
        return (← manager? user).isSome) t := by
  obtain ⟨t, hstage, halike, hevents, hadvance⟩ :=
    h.advance_command hline (lineOf_isLine _ _ _ _ _)
  obtain ⟨m', c', below', -, hm', hstack', hat', -⟩ := hstage.current
  obtain ⟨entries, hentries, rfl⟩ := table_of_copied hat'.bindings
  have hplain' := hplain.congr fun word => (has_copied entries word).symm
  obtain ⟨text', htext⟩ := hplain'.commandText_ok k hstage.isKey hm' hstack' hentries
  exact ⟨t, text', hstage, halike, hevents, hadvance text' htext⟩

end Standing

namespace Stage

open Session

variable {user : Value} {lines : List Value} {names : Entries} {i j : Nat} {s t : Session}

theorem standing (h : Stage user lines names i s) : Standing user lines names i s := by
  obtain ⟨m, c, place, hm, hstack, hrest⟩ := h.current
  exact ⟨h.isKey, h.initialized, h.canSpeak, h.awaiting, h.message, m, c, [], place, hm, hstack, hrest⟩

theorem of_standing (h : Stage user lines names i s) (hnext : Standing user lines names j t)
    (halike : Alike user s t) : Stage user lines names j t := by
  obtain ⟨m, c, place, hm, hstack, -⟩ := h.current
  obtain ⟨m', c', below, place', hm', hstack', hrest⟩ := hnext.current
  obtain ⟨m₁, c₁, hm₁, hstack₁, -⟩ := halike.current hm hstack
  obtain rfl := Option.some.inj (hm₁.symm.trans hm')
  obtain rfl : [] = below := (List.cons.inj (hstack₁.symm.trans hstack')).2
  exact ⟨hnext.isKey, hnext.initialized, hnext.canSpeak, hnext.awaiting, hnext.message,
    m₁, c', place', hm', hstack', hrest⟩

end Stage

end Colloquy
