import Colloquy.Proofs.History
import Colloquy.Proofs.Spelling
import Colloquy.Proofs.Standstill

/-! Tags.  A script can be started at a tag, and a line of it can jump to one.  Both look into the
same table, which has the line number of each tag.  A jump goes to the first line of that number.
The start takes the first tag of the table that occurs in what the user said, and goes to the line
whose index is the number.  Lines are counted from one and indices from zero, so this is another
line. -/

namespace Colloquy

open Session Value Text Library List

variable {user v : Value} {n : Int} {s : Session} {c : Conversation} {below : List Entry}

/-! ### Cutting at a text -/

namespace Text

variable {sep rest : String}

theorem split_self (hsep : sep ≠ "") (hrest : contains rest sep = false) :
    split sep (sep ++ rest) = ["", rest] := by
  rw [split_of_cut? hsep (cut?_self sep hsep rest), split_of_cut?_none (cut?_eq_none_iff.2 hrest)]

end Text

/-! ### Tables of tags -/

theorem mem_toOption {α : Type} {x : Except Fault α} {a : α} : a ∈ x.toOption ↔ x = .ok a := by
  cases x <;> simp [Except.toOption]

theorem Entries.mem_of_find? {entries : Entries} {key : String} {value : Value}
    (h : entries.find? (.str key) = some value) : (.str key, value) ∈ entries := by
  induction entries with
  | nil => cases h
  | cons entry rest ih =>
    obtain ⟨key', value'⟩ := entry
    rw [Entries.find?] at h
    split at h
    · rename_i hsame
      obtain rfl := same_str hsame
      obtain rfl := Option.some.inj h
      exact mem_cons_self
    · exact mem_cons_of_mem _ (ih h)

namespace Value

def int? : Value → Option Int
  | int n => some n
  | _ => none

theorem mem_int? : n ∈ v.int? ↔ v = .int n := by
  cases v <;> simp [int?, eq_comm]

theorem isStr_iff : v.isStr = true ↔ ∃ s, v = .str s := by
  cases v <;> simp [isStr]

def table? : Value → Option Entries
  | table entries => some entries
  | _ => none

theorem mem_table? {entries : Entries} : entries ∈ v.table? ↔ v = .table entries := by
  cases v <;> simp [table?, eq_comm]

theorem eq_some_of_bind_int? {value? : Option Value} (h : value?.bind int? = some n) :
    value? = some (.int n) := by
  obtain ⟨v, rfl, hn⟩ := Option.bind_eq_some_iff.1 h
  rw [mem_int?.1 hn]

def lineNumber? (line : Value) : Option Int :=
  (line.item "line_number").toOption.bind int?

theorem mem_lineNumber? {line : Value} :
    n ∈ line.lineNumber? ↔ line.item "line_number" = .ok (.int n) := by
  rw [lineNumber?, Option.mem_def, Option.bind_eq_some_iff]
  constructor
  · rintro ⟨v, hv, hn⟩
    rw [mem_toOption.1 hv, mem_int?.1 hn]
  · exact fun h => ⟨.int n, mem_toOption.2 h, rfl⟩

end Value

/-- The lines and the tags of a compiled script.  The lines have numbers, counted from one, and
indents, and each tag stands for the number of a line. -/
structure Tagged (lines : List Value) (tags : Entries) : Prop where
  numbered : ∀ line ∈ lines, (∃ n ∈ line.lineNumber?, 0 < n) ∧ (line.item "indent").isOk = true
  tags : ∀ entry ∈ tags, entry.1.isStr = true ∧
    ∃ n ∈ entry.2.int?, ∃ line ∈ lines, line.lineNumber? = some n

instance (lines : List Value) (tags : Entries) : Decidable (Tagged lines tags) :=
  decidable_of_iff (_ ∧ _) ⟨fun h => ⟨h.1, h.2⟩, fun h => ⟨h.numbered, h.tags⟩⟩

namespace Tagged

variable {lines : List Value} {tags : Entries} {entry : Value × Value} {n : Int}

theorem exists_line (h : Tagged lines tags) (hentry : entry ∈ tags) (hn : entry.2 = .int n) :
    ∃ line ∈ lines, line.lineNumber? = some n := by
  obtain ⟨-, n', hn', hline⟩ := h.tags entry hentry
  rw [hn, mem_int?, int.injEq] at hn'
  rwa [hn']

theorem pos (h : Tagged lines tags) (hentry : entry ∈ tags) (hn : entry.2 = .int n) : 0 < n := by
  obtain ⟨line, hmem, hline⟩ := h.exists_line hentry hn
  obtain ⟨⟨n', hn', hpos⟩, -⟩ := h.numbered line hmem
  rw [hline, Option.mem_some] at hn'
  rwa [hn']

theorem exists_index (h : Tagged lines tags) (hentry : entry ∈ tags) (hn : entry.2 = .int n) :
    ∃ i, lines.findIdx? (·.lineNumber? == some n) = some i := by
  obtain ⟨line, hmem, hline⟩ := h.exists_line hentry hn
  rw [← Option.isSome_iff_exists, findIdx?_isSome, any_eq_true]
  exact ⟨line, hmem, by simp [hline]⟩

end Tagged

/-- Lines each of which has a higher number than those before it. -/
def Rising (lines : List Value) : Prop :=
  lines.Pairwise fun line line' => ∀ m ∈ line.lineNumber?, ∀ n ∈ line'.lineNumber?, m < n

instance (lines : List Value) : Decidable (Rising lines) :=
  inferInstanceAs (Decidable (lines.Pairwise _))

def Launch.occursIn (place : String) : Value → Bool
  | .str tag => Text.contains place tag
  | _ => false

/-- The first tag that occurs in a place, with its line number. -/
def Launch.tagAt (place : String) (tags : Entries) : Option (Value × Value) :=
  List.find? (fun entry => occursIn place entry.1) tags

namespace Launch

variable {tags : Entries} {place name tag : String} {value : Value}

theorem tagIn_eq (htags : ∀ entry ∈ tags, entry.1.isStr = true) :
    tagIn place (Entries.keys tags) = .ok ((tagAt place tags).map (·.1)) := by
  induction tags with
  | nil => rfl
  | cons entry rest ih =>
    obtain ⟨hentry, hrest⟩ := forall_mem_cons.1 htags
    obtain ⟨key, value⟩ := entry
    obtain ⟨tag, rfl⟩ := isStr_iff.1 hentry
    have hkeys : Entries.keys ((.str tag, value) :: rest) = .str tag :: Entries.keys rest := rfl
    rw [hkeys, tagIn, tagAt, find?_cons]
    simp only [occursIn, needle, bind, Except.bind]
    cases contains place tag with
    | true => rfl
    | false => exact ih hrest

theorem find?_of_tagAt (h : tagAt place tags = some (.str tag, value)) :
    Entries.find? (.str tag) tags = some value := by
  have hoccurs : occursIn place (.str tag) = true := by
    rw [tagAt] at h
    simpa using find?_some h
  induction tags with
  | nil => cases h
  | cons entry rest ih =>
    obtain ⟨key, value'⟩ := entry
    by_cases hsame : key.same (.str tag) = true
    · obtain rfl := same_str hsame
      obtain rfl : value' = value := by
        simpa [tagAt, hoccurs] using h
      simp [Entries.find?, str_same]
    · rw [Entries.find?, if_neg hsame]
      refine ih ?_
      rw [tagAt, find?_cons] at h
      split at h
      · cases h
        simp [str_same] at hsame
      · exact h

theorem startIndex_eq (htags : ∀ entry ∈ tags, entry.1.isStr = true) (hname : name ≠ "")
    (hplace : contains (" at " ++ place) name = false) :
    startIndex (.table tags) (.str (name ++ " at " ++ place)) name =
      .ok (((tagAt (Text.replace " " "_" place) tags).map (·.2)).getD .null) := by
  have hsplit : split name (name ++ " at " ++ place) = ["", " at " ++ place] := by
    rw [String.append_assoc]
    exact split_self hname hplace
  have hne : name.isEmpty = false := String.isEmpty_eq_false_iff.2 hname
  simp only [startIndex, Value.text, hne, hsplit, cut?_self " at " (by decide), tagNames,
    tagIn_eq htags, bind, Except.bind, pure, Except.pure, Bool.false_eq_true, if_false]
  cases hfound : tagAt (Text.replace " " "_" place) tags with
  | none => rfl
  | some entry =>
    have hentry := htags entry (mem_of_find?_eq_some hfound)
    obtain ⟨key, value⟩ := entry
    obtain ⟨tag, rfl⟩ := isStr_iff.1 hentry
    simp only [Option.map_some, Option.getD_some, Value.item, Value.isKey, if_true,
      find?_of_tagAt hfound]

theorem exists_tagAt (hfind : Entries.find? (.str tag) tags = some value) :
    ∃ entry ∈ tags, tagAt tag tags = some entry := by
  have hsome : (tagAt tag tags).isSome = true := by
    rw [tagAt, find?_isSome]
    exact ⟨_, Entries.mem_of_find? hfind, Text.contains_iff_infix.2 List.infix_rfl⟩
  obtain ⟨entry, hentry⟩ := Option.isSome_iff_exists.1 hsome
  exact ⟨entry, mem_of_find?_eq_some hentry, hentry⟩

end Launch

/-! ### Opening a script -/

theorem Session.edit_top {α : Type} {m : Manager} {c' : Conversation} {body : Edit α} {a : α}
    (hkey : user.isKey = true) (hm : managerIn s.active user = some m)
    (hstack : m.stack = .conversation c :: below)
    (hbody : body { conversation := c } = .ok a { conversation := c' }) :
    ∃ t m', edit user body s = .ok a t ∧ t.message = s.message ∧
      managerIn t.active user = some m' ∧
      m'.stack = .conversation (settled s.lists { conversation := c' }) :: below := by
  refine ⟨kept user m { conversation := c' } s,
    m.setTop (settled s.lists { conversation := c' }), ?_, kept_message .., ?_, ?_⟩
  · rw [edit_eq hkey hm hstack, hbody]
  · rw [kept_of_unchanged]
    exact managerIn_withManager_self hm
  · simp [Manager.setTop, hstack]

namespace Launch

/-- A message asks for a compiled script, which is stored and can be read, and of whose run a
transcript can be written. -/
structure Ready (s : Session) (message : Message) (name : String) (script : Value) : Prop where
  arrived : s.message = some message
  isKey : message.user.isKey = true
  same : message.user.same message.user = true
  asked : Entries.find? "file_to_run" message.data = some (.str name)
  reads : s.host.failingRead = none
  parts : script.isScript = true
  compiled : (Library.metaOf script >>= (·.get "cversion")).toOption.any Value.truthy = true
  stored : ∃ files time t, s.files.makeFolder transcriptFolder = .ok files ∧
    Library.hasScript (.str (filenameOf name)) { s with files } = .ok true { s with files } ∧
    Library.stored { s with files } (filenameOf name ++ Library.compiledExtension) = .ok script ∧
    Clock.wholeSeconds s.clock = .ok time ∧
    addTranscript (.str ("RUNNING SCRIPT " ++ filenameOf name ++ "\n")) (.str (filenameOf name))
      (.int time) { s with files } = .ok () t

variable {s t : Session} {user script : Value} {message : Message} {name filename : String}
  {time : Int}

theorem isCompiled_of_stored (hreads : s.host.failingRead = none)
    (hstored : Library.stored s filename = .ok script)
    (hcompiled : (metaOf script >>= (·.get "cversion")).toOption.any Value.truthy = true) :
    Library.isCompiled (.str filename) s = .ok true { s with reads := s.reads + 1 } := by
  cases hmeta : metaOf script with
  | error fault => simp [hmeta, bind, Except.bind, Except.toOption] at hcompiled
  | ok scriptMeta =>
    cases hget : scriptMeta.get "cversion" with
    | error fault => simp [hmeta, bind, Except.bind, hget, Except.toOption] at hcompiled
    | ok version =>
      have htruthy : version.truthy = true := by
        simpa [hmeta, bind, Except.bind, hget, Except.toOption] using hcompiled
      have hfound : (do (← metaOf (← load filename)).get "cversion" : Run Value) s =
          .ok version { s with reads := s.reads + 1 } := by
        rw [bind_of_ok (load_of_stored hreads hstored), hmeta,
          bind_of_ok (lift_ok_apply _ _), hget]
        rfl
      rw [Library.isCompiled]
      refine rescue_of_ok ?_
      rw [bind_of_ok hfound, htruthy]
      rfl

theorem read_of_stored (hreads : s.host.failingRead = none)
    (hstored : Library.stored s filename = .ok script) (handler : Fault → Run (Option Value)) :
    rescue (do return some (← load filename)) handler s =
      .ok (some script) { s with reads := s.reads + 1 } :=
  rescue_of_ok (bind_of_ok (load_of_stored hreads hstored))

theorem beginScript_ok (hkey : user.isKey = true) (hself : user.same user = true)
    (hscript : script.isScript = true) (htime : Clock.wholeSeconds s.clock = .ok time)
    (hnote : addTranscript (.str ("RUNNING SCRIPT " ++ filename ++ "\n")) (.str filename)
      (.int time) s = .ok () t) :
    ∃ t m c, beginScript user filename (some script) s = .ok () t ∧ t.message = s.message ∧
      managerIn t.active user = some m ∧ m.stack = .conversation c :: s.stackOf user ∧
      script.item (.int 0) = .ok c.lines ∧ script.item (.int 4) = .ok c.tags := by
  obtain ⟨scriptMeta, hbeginScript⟩ := exists_beginScript user filename (some script)
  let first := Conversation.start scriptMeta filename time
  let n := ((managerIn s.active user).getD { user }).push first
  have hbegin : begin user scriptMeta filename s = .ok () (replaced user n s) := by
    rw [begin, bind_of_ok (manager?_of_isKey hkey s), bind_of_ok (get_apply s), htime,
      bind_of_ok (lift_ok_apply _ _)]
    rfl
  have hfound : managerIn (replaced user n s).active user = some n :=
    (managerIn_withManager s.active user n).resolve_right fun h => by simp [hself] at h
  have hstack : n.stack = .conversation first :: s.stackOf user := by
    cases hm : managerIn s.active user <;> simp [n, hm, stackOf, Manager.push]
  obtain ⟨files, hnoted⟩ : ∃ files, addTranscript (.str ("RUNNING SCRIPT " ++ filename ++ "\n"))
      (.str filename) (.int time) (replaced user n s) = .ok () { replaced user n s with files } :=
    addTranscript_ok_of_files hnote rfl rfl
  obtain ⟨c, hfill, -, -, hlines, htags⟩ := Command.fill_parts hscript first
  have hfilling : filling (some script) { conversation := first } =
      .ok () { conversation := { c with lastIndent := .int 0 } } := bind_of_ok (rescue_of_ok hfill)
  obtain ⟨t, m, hedit, hmessage, hm, htop⟩ := edit_top (s := { replaced user n s with files }) hkey
    (by exact hfound) hstack hfilling
  refine ⟨t, m, _, ?_, hmessage, hm, htop, hlines, htags⟩
  rw [hbeginScript, bind_of_ok hbegin, bind_of_ok (current_of_stack hkey hfound hstack),
    show first.startTime = time from rfl, bind_of_ok hnoted, hedit]

namespace Ready

theorem start_eq (h : Ready s message name script) : ∃ files,
    start s = running message.user name (filenameOf name) (some script)
      { s with files, reads := s.reads + 1 + 1 } ∧
    ∃ time t, Clock.wholeSeconds s.clock = .ok time ∧
      addTranscript (.str ("RUNNING SCRIPT " ++ filenameOf name ++ "\n")) (.str (filenameOf name))
        (.int time) { s with files } = .ok () t := by
  obtain ⟨files, time, t, hfiles, hfound, hstored, htime, hnote⟩ := h.stored
  refine ⟨files, ?_, time, t, htime, hnote⟩
  have hname : datum "file_to_run" .null s = .ok (.str name) s := by
    simp [datum, bind_apply, theMessage_of_some h.arrived, h.asked]
  have hcompiled : Library.isCompiled (.str (filenameOf name ++ Library.compiledExtension))
      { s with files } = .ok true { s with files, reads := s.reads + 1 } :=
    isCompiled_of_stored (by exact h.reads) hstored h.compiled
  have hagain : Library.stored { s with files, reads := s.reads + 1 }
      (filenameOf name ++ Library.compiledExtension) = .ok script := by
    have hsame : ({ s with files, reads := s.reads + 1 } : Session).files =
      ({ s with files } : Session).files := rfl
    rw [Library.stored_congr hsame rfl, hstored]
  rw [start, bind_of_ok (theMessage_of_some h.arrived), bind_of_ok hname]
  dsimp only
  rw [Value.text, bind_of_ok (lift_ok_apply _ _), bind_of_ok (get_apply _), hfiles,
    bind_of_ok (lift_ok_apply _ _), bind_of_ok (modify_apply _ _)]
  have hfilename : Text.replace "-" "_" (Text.replace " " "_" (Text.trimEnd name)) =
      filenameOf name := rfl
  rw [hfilename, bind_of_ok hfound, if_neg (by decide), bind_of_ok hcompiled, if_pos rfl,
    bind_of_ok (read_of_stored (by exact h.reads) hagain _)]
  rfl

theorem start_at (h : Ready s message name script) {listed : Value} {tags : Entries}
    {place : String} (hlines : script.item (.int 0) = .ok listed)
    (htags : script.item (.int 4) = .ok (.table tags))
    (hkeys : ∀ entry ∈ tags, entry.1.isStr = true)
    (hutterance : Entries.find? "utterance" message.data = some (.str (name ++ " at " ++ place)))
    (hname : name ≠ "") (hplace : contains (" at " ++ place) name = false) {tag : Value}
    (hfound : tagAt (Text.replace " " "_" place) tags = some (tag, .int n)) (hn : n ≠ 0) :
    ∃ t c, start s = Execution.resume message.user t ∧ t.message = some message ∧
      t.stackOf message.user = .conversation c :: s.stackOf message.user ∧
      c.lines = listed ∧ c.tags = .table tags ∧ c.index = .int n := by
  obtain ⟨files, hstart, time, t', htime, hnote⟩ := h.start_eq
  let found : Session := { s with files, reads := s.reads + 1 + 1 }
  obtain ⟨_, hnote'⟩ : ∃ files,
      addTranscript (.str ("RUNNING SCRIPT " ++ filenameOf name ++ "\n")) (.str (filenameOf name))
        (.int time) found = .ok () { found with files } := addTranscript_ok_of_files hnote rfl rfl
  obtain ⟨u, m, c, hbegin, hmessage, hm, hstack, hlines', htags'⟩ :=
    beginScript_ok (s := found) h.isKey h.same h.parts htime hnote'
  obtain rfl : listed = c.lines := Except.ok.inj (hlines.symm.trans hlines')
  have hc : c.tags = .table tags := Except.ok.inj (htags'.symm.trans htags)
  have harrived : u.message = some message := hmessage.trans h.arrived
  have hdatum : datum "utterance" .null u = .ok (.str (name ++ " at " ++ place)) u := by
    simp [datum, bind_apply, theMessage_of_some harrived, hutterance]
  have hbody : (do
        let start ← startIndex (← Edit.read).tags (.str (name ++ " at " ++ place)) name
        enter start : Edit Unit) { conversation := c } =
      .ok () { conversation := { c with index := .int n } } := by
    have hread : Edit.read { conversation := c } = .ok c { conversation := c } := rfl
    have hindex : startIndex c.tags (.str (name ++ " at " ++ place)) name = .ok (.int n) := by
      rw [hc, startIndex_eq hkeys hname hplace, hfound]
      rfl
    have htruthy : (int n).truthy = true := by simpa [Value.truthy] using hn
    rw [bind_of_ok hread, hindex, bind_of_ok (lift_ok_apply _ _), enter, if_pos htruthy]
    rfl
  obtain ⟨t, m', hedit, hmessage', hm', hstack'⟩ := edit_top h.isKey hm hstack hbody
  refine ⟨t, _, ?_, hmessage'.trans harrived, (stackOf_eq hm').trans hstack', rfl, hc, rfl⟩
  rw [hstart, running, bind_of_ok hbegin, bind_of_ok hdatum, bind_of_ok hedit]

end Ready

end Launch

/-! ### Jumping to a tag -/

/-- A line jumps to a tag: the compiler found that it goes there, or else the text of the line is
the tag, and not a number. -/
inductive Aims (data text : Value) (tag : String) : Prop
  | found (hdata : data.truthy = true) (htag : data.get "destination" = .ok (.str tag))
      (hne : tag ≠ "")
  | named (hdata : data.truthy = false ∨ ∃ v, data.get "destination" = .ok v ∧ v.truthy = false)
      (htext : text = .str tag) (hnumeric : Text.isNumeric tag = false)

/-- A line of the running script of the user, which has the lines and the tags given, jumps to a
tag. -/
structure Jumps (s : Session) (user text listed : Value) (tags : Entries) (tag : String) :
    Prop where
  isKey : user.isKey = true
  running : ∃ c below, s.stackOf user = .conversation c :: below ∧ c.lines = listed ∧
    c.tags = .table tags
  aims : ∃ message, s.message = some message ∧ Aims message.lineData text tag

namespace Command

variable {lines : List Value} {tags : Entries} {tag : String} {number : Int} {i : Nat}
  {data text : Value}

theorem goal_of_aims (haims : Aims data text tag) (htags : c.tags = .table tags)
    (hfind : Entries.find? (.str tag) tags = some (.int number)) :
    goal c data text = .ok (.int number) := by
  have hget : (Value.table tags).get (.str tag) (.str tag) = .ok (.int number) := by
    simp [Value.get, Value.isKey, hfind]
  cases haims with
  | found hdata htag hne =>
    have htruthy : (Value.str tag).truthy = true := by simpa [Value.truthy] using hne
    simp only [goal, hdata, if_true, htag, bind, Except.bind, htruthy, htags, hget]
  | named hdata htext hnumeric =>
    have hmember : Value.member (.str tag) (.table tags) = .ok true := by
      simp [Value.member, Value.isKey, Entries.has, hfind]
    have hitem : (Value.table tags).item (.str tag) = .ok (.int number) := by
      simp [Value.item, Value.isKey, hfind]
    have hdisplay : (Value.str tag).display = tag := rfl
    unfold goal
    extract_lets rest
    have hrest (given : Value) (hgiven : given.truthy = false) :
        rest given = .ok (.int number) := by
      simp only [rest, hgiven, Bool.false_eq_true, if_false, htext, hdisplay, hnumeric, htags,
        hmember, bind, Except.bind, if_true, hitem, Value.toInt, pure, Except.pure]
    split
    · rename_i htruthy
      rcases hdata with hfalsy | ⟨given, hdestination, hgiven⟩
      · rw [hfalsy] at htruthy
        cases htruthy
      · rw [hdestination]
        exact hrest given hgiven
    · exact hrest .null rfl

theorem jump_eq (hlines : ∀ line ∈ lines, (∃ n ∈ line.lineNumber?, 0 < n) ∧
      (line.item "indent").isOk = true)
    (hindex : lines.findIdx? (·.lineNumber? == some number) = some i) (position : Nat)
    (c : Conversation) :
    ∃ indent, jump (.int number) position lines { conversation := c } = .ok () { conversation :=
      { c with index := .int (position + i : Nat), lastIndent := indent } } := by
  induction lines generalizing position i with
  | nil => cases hindex
  | cons line rest ih =>
    obtain ⟨⟨⟨n, hn, -⟩, hindent⟩, hrest⟩ := forall_mem_cons.1 hlines
    obtain ⟨indent, hindent⟩ : ∃ indent, line.item "indent" = .ok indent := by
      cases h : line.item "indent" with
      | ok indent => exact ⟨indent, rfl⟩
      | error fault => simp [h, Except.isOk, Except.toBool] at hindent
    rw [findIdx?_cons, Option.mem_def.1 hn] at hindex
    rw [jump, mem_lineNumber?.1 hn, bind_of_ok (lift_ok_apply _ _), Value.toInt,
      bind_of_ok (lift_ok_apply _ _), same_int]
    by_cases hsame : n = number
    · obtain rfl : 0 = i := by simpa [hsame] using hindex
      refine ⟨indent, ?_⟩
      rw [if_pos (by simpa using hsame), hindent]
      rfl
    · obtain ⟨i', hi', rfl⟩ : ∃ i', rest.findIdx? (·.lineNumber? == some number) = some i' ∧
          i' + 1 = i := by simpa [hsame] using hindex
      rw [if_neg (by simpa using hsame)]
      obtain ⟨indent', hjump⟩ := ih hrest hi' (position + 1)
      refine ⟨indent', ?_⟩
      rw [hjump, Nat.add_assoc, Nat.add_comm 1 i']

theorem goto_of_goal {message : Message} (hkey : user.isKey = true)
    (hstack : s.stackOf user = .conversation c :: below) (hmessage : s.message = some message)
    (hgoal : goal c message.lineData text = .ok (.int number))
    (hlisted : c.lines.elements = .ok lines)
    (hlines : ∀ line ∈ lines, (∃ n ∈ line.lineNumber?, 0 < n) ∧ (line.item "indent").isOk = true)
    (hindex : lines.findIdx? (·.lineNumber? == some number) = some i) :
    ∃ t c', goto user text s = .ok () t ∧ t.stackOf user = .conversation c' :: below ∧
      c'.index = .int i ∧ c'.lines = c.lines ∧ t.message = s.message ∧
      t.awaiting = s.awaiting ∧ t.events = s.events := by
  obtain ⟨m, hm, hm'⟩ := exists_managerIn_of_stackOf hstack
  obtain ⟨indent, hjump⟩ := jump_eq hlines hindex 0 c
  have hbody : (do jump (.int number) 0 (← c.lines.elements) : Edit Unit) { conversation := c } =
      .ok () { conversation := { c with index := .int i, lastIndent := indent } } := by
    rw [hlisted, bind_of_ok (lift_ok_apply _ _), hjump, Nat.zero_add]
  obtain ⟨t, m', hedit, hmessage', htop, htop'⟩ := edit_top hkey hm hm' hbody
  have hawaiting := after_edit_awaiting user (do jump (.int number) 0 (← c.lines.elements)) s
  have hevents := after_edit_events user (do jump (.int number) 0 (← c.lines.elements)) s
  rw [after_of_ok hedit] at hawaiting hevents
  refine ⟨t, _, ?_, (stackOf_eq htop).trans htop', rfl, rfl, hmessage', hawaiting, hevents⟩
  have htruthy : (int number).truthy = true := by
    obtain ⟨hlt, hline, -⟩ := findIdx?_eq_some_iff_getElem.1 hindex
    obtain ⟨⟨n, hn, hpos⟩, -⟩ := hlines _ (getElem_mem hlt)
    obtain rfl : number = n := Option.some.inj ((by simpa using hline : _ = _).symm.trans hn)
    simpa [Value.truthy] using Int.ne_of_gt hpos
  have hcurrent : currentAt user s = .ok (some c) s := by
    rw [currentAt, bind_of_ok (managerAt_of_some hkey hm), top_of_stack hm']
  have hdata : lineData s = .ok message.lineData s := lineData_apply hmessage
  rw [goto, bind_of_ok hcurrent, bind_of_ok hdata, destination_some, hgoal,
    bind_of_ok (lift_ok_apply _ _), bind_of_ok (show present (some c) s = .ok c s from rfl),
    if_pos htruthy, hedit]

theorem goto_at {listed : Value} (hjumps : Jumps s user text listed tags tag)
    (hlisted : listed.elements = .ok lines) (htagged : Tagged lines tags)
    (hfind : Entries.find? (.str tag) tags = some (.int number))
    (hindex : lines.findIdx? (·.lineNumber? == some number) = some i) :
    ∃ t c, goto user text s = .ok () t ∧ t.stackOf user = .conversation c :: (s.stackOf user).tail ∧
      c.index = .int i := by
  obtain ⟨c, below, hstack, rfl, htags⟩ := hjumps.running
  obtain ⟨message, hmessage, haims⟩ := hjumps.aims
  obtain ⟨t, c', hgoto, htop, hat, -⟩ := goto_of_goal hjumps.isKey hstack hmessage
    (goal_of_aims haims htags hfind) hlisted htagged.numbered hindex
  exact ⟨t, c', hgoto, by rw [htop, hstack]; rfl, hat⟩

end Command

/-! ### Starting and jumping -/

theorem Rising.index_lt {lines : List Value} (h : Rising lines) {k : Int}
    (hlines : ∀ line ∈ lines, ∃ n ∈ line.lineNumber?, k < n) {i : Nat} {line : Value}
    (hline : lines[i]? = some line) (hn : n ∈ line.lineNumber?) : k + i < n := by
  induction lines generalizing i k with
  | nil => cases hline
  | cons first rest ih =>
    obtain ⟨hfirst, hrest⟩ := pairwise_cons.1 h
    obtain ⟨⟨m, hm, hpos⟩, hnext⟩ := forall_mem_cons.1 hlines
    cases i with
    | zero =>
      obtain rfl : first = line := by simpa using hline
      obtain rfl : m = n := Option.mem_unique hm hn
      simpa using hpos
    | succ i =>
      have hhigher : ∀ line ∈ rest, ∃ n ∈ line.lineNumber?, m < n := fun line hmem => by
        obtain ⟨n, hn, -⟩ := hnext line hmem
        exact ⟨n, hn, hfirst line hmem m hm n hn⟩
      have hlt := ih hrest hhigher (by simpa using hline)
      omega

/-- A request names a script and a tag of it.  Then the script starts at the index that is the
number of the first tag that occurs in the one that was named, with its blanks written as
underscores.  There is such a tag if the one that was named has no blanks; it may be that one.  A
jump to the tag goes to the first line of its number.  If the numbers of the lines rise from one on,
the index of this line is less than the number. -/
theorem Launch.Ready.start_and_goto {s : Session} {message : Message} {name tag : String}
    {script listed : Value} {lines : List Value} {tags : Entries} {number : Int}
    (h : Ready s message name script) (hscript : script.item (.int 0) = .ok listed)
    (hlisted : listed.elements = .ok lines) (htags : script.item (.int 4) = .ok (.table tags))
    (htagged : Tagged lines tags)
    (hutterance : Entries.find? "utterance" message.data = some (.str (name ++ " at " ++ tag)))
    (hname : name ≠ "") (hplace : Text.contains (" at " ++ tag) name = false)
    (hnumber : Entries.find? (.str tag) tags = some (.int number)) :
    (∀ first n, tagAt (Text.replace " " "_" tag) tags = some (first, .int n) →
      (first = .str tag → n = number) ∧
      ∃ t c, start s = Execution.resume message.user t ∧ t.message = some message ∧
        t.stackOf message.user = .conversation c :: s.stackOf message.user ∧
        c.lines = listed ∧ c.tags = .table tags ∧ c.index = .int n) ∧
    (' ' ∉ tag.toList → ∃ first n, tagAt (Text.replace " " "_" tag) tags = some (first, .int n)) ∧
    ∃ i, lines.findIdx? (·.lineNumber? == some number) = some i ∧
      (∀ u user text, Jumps u user text listed tags tag →
        ∃ t c, Command.goto user text u = .ok () t ∧
          t.stackOf user = .conversation c :: (u.stackOf user).tail ∧ c.index = .int i) ∧
      (Rising lines → i < number) := by
  have hkeys : ∀ entry ∈ tags, entry.1.isStr = true := fun entry hmem => (htagged.tags entry hmem).1
  refine ⟨fun first n hfirst => ⟨?_, ?_⟩, fun hblank => ?_, ?_⟩
  · rintro rfl
    have hsame := (find?_of_tagAt hfirst).symm.trans hnumber
    simpa using hsame
  · have hpos := htagged.pos (List.mem_of_find?_eq_some hfirst) rfl
    exact h.start_at hscript htags hkeys hutterance hname hplace hfirst (Int.ne_of_gt hpos)
  · rw [Text.replace_of_contains_eq_false "_" (by decide) (Text.contains_eq_false " " rfl hblank)]
    obtain ⟨⟨first, value⟩, hmem, hfirst⟩ := exists_tagAt hnumber
    obtain ⟨-, n, hn, -⟩ := htagged.tags _ hmem
    obtain rfl := Value.mem_int?.1 hn
    exact ⟨first, n, hfirst⟩
  · obtain ⟨i, hi⟩ := htagged.exists_index (Entries.mem_of_find? hnumber) rfl
    refine ⟨i, hi, fun u user text hjumps => Command.goto_at hjumps hlisted htagged hnumber hi, ?_⟩
    intro hrising
    obtain ⟨hlt, hline, -⟩ := List.findIdx?_eq_some_iff_getElem.1 hi
    have hindex := hrising.index_lt (fun line hmem => (htagged.numbered line hmem).1)
      (List.getElem?_eq_getElem hlt) (by simpa using hline)
    simpa using hindex

def scroll : String :=
  "[[\x7b\"line_number\":1,\"indent\":0\x7d,\x7b\"line_number\":2,\"indent\":0\x7d],0,\x7b\x7d,0,
    \x7b\"end\":2,\"the_end\":1\x7d,0,0,0,0,\x7b\"cversion\":1\x7d]"

def shelf : Files where
  files := [(scriptFolder ++ ["demo.ncs"], scroll)]
  folders := Files.ways scriptFolder

def asking (tag : String) : Message where
  data := [("file_to_run", "demo"), ("utterance", .str ("demo" ++ " at " ++ tag))]
  context := [("user", "ann")]

def porch (tag : String) : Session :=
  { message := some (asking tag), files := shelf }

def scrollRead : Except Fault Value :=
  Json.read (String.ofList (Files.unifyLines scroll.toList))

theorem porch_stored (tag : String) :
    Library.stored { porch tag with files := shelf.addFolder transcriptFolder } "demo.ncs" =
      scrollRead := by
  have hresolve : (shelf.addFolder transcriptFolder).resolve "" []
      (joinPath (join "/" ("" :: scriptFolder)) "demo.ncs") =
        .ok (.inside (scriptFolder ++ ["demo.ncs"])) := mem_toOption.1 (by decide)
  have hraw : (shelf.addFolder transcriptFolder).raw? (scriptFolder ++ ["demo.ncs"]) =
      some scroll := by simp [Files.raw?, Files.addFolder, shelf]
  have hread : (shelf.addFolder transcriptFolder).readTarget
      (.inside (scriptFolder ++ ["demo.ncs"])) =
        .ok (String.ofList (Files.unifyLines scroll.toList)) := by
    rw [Files.readTarget, Files.read, Files.contentsAt, hraw]
    rfl
  rw [Library.stored]
  simp only [path, show (porch tag).root = "" from rfl, hresolve, bind, Except.bind, hread]
  rfl

set_option synthInstance.maxSize 1000 in
theorem scroll_parts : ∃ script ∈ scrollRead.toOption, script.isScript = true ∧
    (metaOf script >>= (·.get "cversion")).toOption.any Value.truthy = true ∧
    ∃ listed ∈ (script.item (.int 0)).toOption, ∃ lines ∈ listed.elements.toOption,
    ∃ tags ∈ (script.item (.int 4)).toOption.bind table?, Tagged lines tags ∧
      (Entries.find? "end" tags).bind int? = some 2 ∧
      (Entries.find? "the_end" tags).bind int? = some 1 ∧
      lines.findIdx? (·.lineNumber? == some 2) = some 1 ∧
      lines.findIdx? (·.lineNumber? == some 1) = some 0 ∧
      ∀ tag ∈ ["end", "the_end"],
        (Launch.tagAt (Text.replace " " "_" tag) tags).bind (·.2.int?) = some 2 := by
  rw [scrollRead, Json.read, String.toList_ofList, show scroll.toList = _ from String.toList_ofList]
  decide +kernel

theorem asking_user (tag : String) : (asking tag).user = "ann" := by
  simp [asking, Message.user, Entries.find?, str_same]

theorem asking_utterance (tag : String) :
    Entries.find? "utterance" (asking tag).data = some (.str ("demo" ++ " at " ++ tag)) := by
  simp [asking, Entries.find?, str_same]

/-- While the request is handled, a line whose text is the tag jumps to it, unless that is a
number. -/
theorem asking_jumps {t : Session} {tag : String} {tags : Entries}
    (hmessage : t.message = some (asking tag)) (hstack : t.stackOf "ann" = .conversation c :: below)
    (htags : c.tags = .table tags) (hnumeric : isNumeric tag = false) :
    Jumps t "ann" (.str tag) c.lines tags tag where
  isKey := rfl
  running := ⟨c, below, hstack, rfl, htags⟩
  aims := by
    refine ⟨asking tag, hmessage, .named (.inl ?_) rfl hnumeric⟩
    simp [Message.lineData, asking, Entries.find?, str_same, Value.truthy]

theorem porch_ready {tag : String} (htag : tag ∈ ["end", "the_end"]) {script : Value}
    (hscript : script ∈ scrollRead.toOption) (hparts : script.isScript = true)
    (hcompiled : (metaOf script >>= (·.get "cversion")).toOption.any Value.truthy = true) :
    Launch.Ready (porch tag) (asking tag) "demo" script where
  arrived := rfl
  isKey := by rw [asking_user]; rfl
  same := by rw [asking_user, str_same]; rfl
  asked := by simp [asking, Entries.find?, str_same]
  reads := rfl
  parts := hparts
  compiled := hcompiled
  stored := by
    have hname : Launch.filenameOf "demo" = "demo" := by decide
    have hfound : ∀ tag ∈ ["end", "the_end"], Running.returned (hasScript "demo")
        { porch tag with files := shelf.addFolder transcriptFolder } = some true := by
      decide
    have hnoted : ∀ tag ∈ ["end", "the_end"], Running.returned
        (addTranscript (.str ("RUNNING SCRIPT " ++ "demo" ++ "\n")) "demo" (.int 1000000))
        { porch tag with files := shelf.addFolder transcriptFolder } = some () := by
      decide
    have hfolder : shelf.makeFolder transcriptFolder = .ok (shelf.addFolder transcriptFolder) := by
      rw [Files.makeFolder, if_neg (by decide), if_neg (by decide)]
    have htime : Clock.wholeSeconds 0 = .ok 1000000 := mem_toOption.1 (by decide)
    have hlook := Running.eq_ok_of_returned (hfound tag htag)
    rw [Looks.hasScript] at hlook
    rw [hname]
    exact ⟨_, _, _, hfolder, hlook, (porch_stored tag).trans (mem_toOption.1 hscript), htime,
      Running.eq_ok_of_returned (hnoted tag htag)⟩

theorem exists_scroll : ∃ script listed lines tags, (∀ tag ∈ ["end", "the_end"],
      Launch.Ready (porch tag) (asking tag) "demo" script ∧
      ∃ first, Launch.tagAt (Text.replace " " "_" tag) tags = some (first, .int 2)) ∧
    script.item (.int 0) = .ok listed ∧ listed.elements = .ok lines ∧
    script.item (.int 4) = .ok (.table tags) ∧ Tagged lines tags ∧
    Entries.find? "end" tags = some (.int 2) ∧ Entries.find? "the_end" tags = some (.int 1) ∧
    lines.findIdx? (·.lineNumber? == some 2) = some 1 ∧
    lines.findIdx? (·.lineNumber? == some 1) = some 0 := by
  obtain ⟨script, hscript, hparts, hcompiled, listed, hlisted, lines, hlines, tags, htags, htagged,
    hend, htheEnd, hsecond, hfirst, htag⟩ := scroll_parts
  obtain ⟨value, hvalue, htable⟩ := Option.bind_eq_some_iff.1 htags
  rw [← Option.mem_def, mem_table?] at htable
  refine ⟨script, listed, lines, tags,
    fun tag hmem => ⟨porch_ready hmem hscript hparts hcompiled, ?_⟩, mem_toOption.1 hlisted,
    mem_toOption.1 hlines, htable ▸ mem_toOption.1 hvalue, htagged,
    eq_some_of_bind_int? hend, eq_some_of_bind_int? htheEnd, hsecond, hfirst⟩
  obtain ⟨⟨first, number⟩, hfound, hnumber⟩ := Option.bind_eq_some_iff.1 (htag tag hmem)
  rw [← Option.mem_def, mem_int?] at hnumber
  exact ⟨first, by rw [hfound, ← hnumber]⟩

/-- The script starts behind its last line, and a jump to the tag that was named goes to the first
line. -/
theorem Launch.Ready.start_and_goto_shelf :
    ∃ t c u c', Launch.start (porch "the_end") = Execution.resume "ann" t ∧
      t.stackOf "ann" = [.conversation c] ∧ c.index = .int 2 ∧
      Command.goto "ann" "the_end" t = .ok () u ∧ u.stackOf "ann" = [.conversation c'] ∧
      c'.index = .int 0 := by
  obtain ⟨script, listed, lines, tags, hready, hlisted, hlines, htags, htagged, -, hnumber, -,
    hindex⟩ := exists_scroll
  obtain ⟨hready, first, hfirst⟩ := hready "the_end" (by decide)
  obtain ⟨hstart, -, i, hi, hgoto, -⟩ := start_and_goto hready hlisted hlines htags htagged
    (asking_utterance _) (by decide) (by decide) hnumber
  obtain rfl : 0 = i := Option.some.inj (hindex.symm.trans hi)
  obtain ⟨-, t, c, hrun, hmessage, hstack, rfl, htags', hc⟩ := hstart first 2 hfirst
  rw [asking_user] at hrun hstack
  obtain ⟨u, c', hjump, hstack', hc'⟩ := hgoto t "ann" "the_end"
    (asking_jumps hmessage hstack htags' (by decide))
  rw [hstack] at hstack'
  exact ⟨t, c, u, c', hrun, hstack, hc, hjump, hstack', hc'⟩

/-- Also a tag in which no other occurs is started at another index than a jump goes to. -/
theorem Launch.Ready.start_and_goto_apart :
    ∃ t c u c', Launch.start (porch "end") = Execution.resume "ann" t ∧
      t.stackOf "ann" = [.conversation c] ∧ c.index = .int 2 ∧
      Command.goto "ann" "end" t = .ok () u ∧ u.stackOf "ann" = [.conversation c'] ∧
      c'.index = .int 1 := by
  obtain ⟨script, listed, lines, tags, hready, hlisted, hlines, htags, htagged, hnumber, -, hindex,
    -⟩ := exists_scroll
  obtain ⟨hready, first, hfirst⟩ := hready "end" (by decide)
  obtain ⟨t, c, hrun, hmessage, hstack, rfl, htags', hc⟩ := hready.start_at hlisted htags
    (fun entry hmem => (htagged.tags entry hmem).1) (asking_utterance _) (by decide) (by decide)
    hfirst (by decide)
  rw [asking_user] at hrun hstack
  obtain ⟨u, c', hjump, hstack', hc'⟩ := Command.goto_at
    (asking_jumps hmessage hstack htags' (by decide)) hlines htagged hnumber hindex
  rw [hstack] at hstack'
  exact ⟨t, c, u, c', hrun, hstack, hc, hjump, hstack', hc'⟩

end Colloquy
