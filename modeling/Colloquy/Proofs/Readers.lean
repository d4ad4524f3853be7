import Colloquy.Proofs.Loops

/-! What the readers of a variable take from it.  A variable holds a text, or a list of texts with the
newest in front.  A reference in a line takes the newest text in both cases.  The end of a loop and
the replacing of words take the first part of what is held, which for a text is its first character,
and responses are looked for to a text only. -/

namespace Colloquy

open Session Command Value Text

/-! ### What a variable holds -/

/-- A value that stands for a text: the text itself, or a list of texts that begins with it. -/
inductive Value.Means (w : String) : Value → Prop
  | text : Means w (.str w)
  | list (older : List String) (number : Option Nat) :
      Means w (.list (.str w :: older.map .str) number)

def Value.lead : Value → String
  | .str text => String.ofList (text.toList.take 1)
  | .list (.str first :: _) _ => first
  | _ => ""

namespace Value.Means

variable {w : String} {value : Value}

theorem truthy (h : value.Means w) (hw : w ≠ "") : value.truthy = true := by
  cases h with
  | text => simpa [truthy] using hw
  | list older number => rfl

theorem item_zero (h : value.Means w) (hw : w ≠ "") :
    value.item (.int 0) = .ok (.str value.lead) := by
  cases h with
  | list older number => exact itemAt_nat (i := 0) rfl
  | text =>
    cases hchars : w.toList with
    | nil =>
      have hempty : w = "" := by simpa using hchars
      exact absurd hempty hw
    | cons first rest =>
      have hitem : itemAt (characters w) 0 = .ok (.str first.toString) :=
        itemAt_nat (i := 0) (by simp [characters, hchars])
      rw [lead, hchars]
      exact hitem

theorem lead_eq_iff (h : value.Means w) (hw : w ≠ "") :
    value.lead = w ↔ value ≠ .str w ∨ w.length = 1 := by
  cases h with
  | list older number => simp [lead]
  | text =>
    have hpos : 0 < w.length := by
      rw [Nat.pos_iff_ne_zero, ne_eq, String.length_eq_zero_iff]
      exact hw
    constructor
    · intro hlead
      right
      have hlength := congrArg String.length hlead
      simp only [lead, String.length_ofList, List.length_take, String.length_toList] at hlength
      omega
    · rintro (hne | hone)
      · exact absurd rfl hne
      · have hchars : w.toList.length ≤ 1 := by
          rw [String.length_toList]
          omega
        rw [lead, List.take_of_length_le hchars, String.ofList_toList]

end Value.Means

/-! ### Texts that are put into a line as they are -/

namespace Text

variable {w s old : String}

/-- A text without blanks and quotes around it, in which no items of a list are quoted. -/
structure Bare (w : String) : Prop where
  nonempty : w ≠ ""
  trimmed : trim w = w
  opens : startsWith w "\"" = false
  closes : endsWith w "\"" = false
  items : contains w "\", \"" = false

theorem trimStartOf_quote (h : startsWith w "\"" = false) : trimStartOf "\"" w = w := by
  rw [trimStartOf, dropStart]
  cases hchars : w.toList with
  | nil => exact (String.toList_eq_nil_iff.1 hchars).symm
  | cons first rest =>
    have hne : first ≠ '"' := by
      rintro rfl
      simp [startsWith, hchars] at h
    rw [List.dropWhile_cons_of_neg (by simpa using hne), ← hchars, String.ofList_toList]

theorem trimEndOf_eq_self {set : String} (h : ∀ last ∈ w.toList.getLast?, last ∉ set.toList) :
    trimEndOf set w = w := by
  rw [trimEndOf, dropEnd]
  cases hchars : w.toList.reverse with
  | nil => exact (String.toList_eq_nil_iff.1 (List.reverse_eq_nil_iff.1 hchars)).symm
  | cons last rest =>
    have hlast : last ∉ set.toList := by
      apply h
      rw [List.getLast?_eq_head?_reverse, hchars]
      rfl
    rw [List.dropWhile_cons_of_neg (by simpa using hlast), ← hchars, List.reverse_reverse,
      String.ofList_toList]

theorem trimEndOf_quote (h : endsWith w "\"" = false) : trimEndOf "\"" w = w := by
  apply trimEndOf_eq_self
  intro last hlast hquote
  obtain rfl : last = '"' := by simpa using hquote
  obtain ⟨rest, hrest⟩ := List.getLast?_eq_some_iff.1 hlast
  have hsuffix : "\"".toList <:+ w.toList := ⟨rest, hrest.symm⟩
  rw [endsWith, List.isSuffixOf_iff_suffix.2 hsuffix] at h
  cases h

def inQuotes (inner : String) : String :=
  "\"" ++ inner ++ "\""

theorem toList_inQuotes (inner : String) : (inQuotes inner).toList = '"' :: (inner.toList ++ ['"']) := by
  simp [inQuotes, String.toList_append]

theorem trim_inQuotes (inner : String) : trim (inQuotes inner) = inQuotes inner := by
  have hstart : dropStart isBlank (inQuotes inner).toList = (inQuotes inner).toList := by
    rw [toList_inQuotes]
    exact List.dropWhile_cons_of_neg (by decide)
  have hends : dropEnd isBlank (inQuotes inner).toList = (inQuotes inner).toList := by
    rw [toList_inQuotes, dropEnd, ← List.cons_append, List.reverse_append, List.reverse_singleton,
      List.singleton_append, List.dropWhile_cons_of_neg (by decide), List.reverse_cons,
      List.reverse_reverse]
  rw [trim, hstart, hends, String.ofList_toList]

end Text

/-! ### References -/

/-- A message that does not ask for a list. -/
def Message.Single (m : Message) : Prop :=
  ∃ flag, ((Entries.find? "cc_data" m.data).getD .emptyTable).get "return_list" (.bool false) =
    .ok flag ∧ flag.truthy = false

namespace Substitution

variable {user : Value} {c : Conversation} {bindings : Entries} {s : Session} {name w : String}
  {value : Value}

theorem tidy_of_bare (hw : Bare w) :
    tidy (trimOf "\"" (Text.trim w)) = w := by
  rw [hw.trimmed, trimOf, trimStartOf_quote hw.opens, trimEndOf_quote hw.closes, tidy,
    trimStartOf_quote hw.opens, trimEndOf_quote hw.closes]
  exact replace_of_contains_eq_false ", " (by decide) hw.items

theorem wordOf_list {message : Message} (hmessage : s.message = some message)
    (hsingle : message.Single) (bindings : Value) (name w : String) (items : List Value)
    (number : Option Nat) : wordOf bindings name (.list (.str w :: items) number) s =
      .ok (trimOf "\"" (Text.trim w)) s := by
  obtain ⟨flag, hflag, hfalse⟩ := hsingle
  have hdatum : datum "cc_data" .emptyTable s =
      .ok ((Entries.find? "cc_data" message.data).getD .emptyTable) s := by
    rw [datum, bind_of_ok (theMessage_of_some hmessage), pure_apply]
  have hfirst : itemAt (.str w :: items) 0 = .ok (.str w) := itemAt_nat (i := 0) rfl
  have hbare : (do
      let item ← itemAt (.str w :: items) 0
      return trimOf "\"" (Text.trim item.display) : Run String) s =
        .ok (trimOf "\"" (Text.trim w)) s := by
    rw [hfirst, bind_of_ok (lift_ok_apply _ _)]
    rfl
  rw [wordOf]
  split
  · rw [bind_of_ok hdatum, hflag, bind_of_ok (lift_ok_apply _ _), hfalse]
    exact hbare
  · exact hbare

theorem variableWord_of_means {message : Message} (hmessage : s.message = some message)
    (hsingle : message.Single) (hname : Referable name) (hbindings : c.bindings = .table bindings)
    (hfind : Entries.find? name bindings = some value) (hmeans : value.Means w) (hw : Bare w)
    (line : String) : variableWord user c line name s = .ok w s := by
  have hwordOf := wordOf_list hmessage hsingle c.bindings name w
  rw [← congrArg (EStateM.Result.ok · s) (tidy_of_bare hw)]
  have htruthy := hmeans.truthy hw.nonempty
  cases hmeans with
  | text => exact variableWord_eq hname hbindings hfind htruthy rfl (hwordOf [] none)
  | list older number =>
    exact variableWord_eq hname hbindings hfind htruthy rfl (hwordOf (older.map .str) number)

def quoting (before name after : String) : String :=
  "\"" ++ before ++ braced name ++ (after ++ "\"")

variable {before after : String}

theorem isQuoted_inQuotes (inner : String) : isQuoted (inQuotes inner) = true := by
  have hprefix : "\"".toList <+: (inQuotes inner).toList :=
    ⟨inner.toList ++ ['"'], by rw [Text.toList_inQuotes]; rfl⟩
  have hsuffix : "\"".toList <:+ (inQuotes inner).toList :=
    ⟨'"' :: inner.toList, by rw [Text.toList_inQuotes]; rfl⟩
  simp only [isQuoted, Text.startsWith, Text.endsWith, List.isPrefixOf_iff_prefix.2 hprefix,
    List.isSuffixOf_iff_suffix.2 hsuffix, Bool.and_self, Bool.true_or]

theorem quoting_eq (before name after : String) :
    quoting before name after = Text.inQuotes (before ++ braced name ++ after) := by
  simp only [quoting, Text.inQuotes, String.append_assoc]

theorem trim_quoting (before name after : String) :
    Text.trim (quoting before name after) = quoting before name after := by
  rw [quoting_eq, Text.trim_inQuotes]

theorem isQuoted_quoting (before name after : String) :
    isQuoted (quoting before name after) = true := by
  rw [quoting_eq, isQuoted_inQuotes]

theorem tokens_quoting (hbefore : '\x7b' ∉ before.toList) (hafter : '\x7b' ∉ after.toList)
    (hname : Referable name) (bindings : Value) (functions : List Function) :
    tokens bindings functions (quoting before name after) =
      .ok (["\"" ++ before, braced name, after ++ "\""], "") := by
  have hfirst : '\x7b' ∉ ("\"" ++ before).toList := by
    rw [String.toList_append, List.mem_append, not_or]
    exact ⟨by decide, hbefore⟩
  have hlast : '\x7b' ∉ (after ++ "\"").toList := by
    rw [String.toList_append, List.mem_append, not_or]
    exact ⟨hafter, by decide⟩
  have hline : quoting before name after =
      "\"" ++ before ++ "\x7b" ++ (name ++ "\x7d" ++ (after ++ "\"")) := by
    simp only [quoting, braced, String.append_assoc]
  have hline' : quoting before name after =
      "\"" ++ before ++ "\x7b" ++ name ++ "\x7d" ++ (after ++ "\"") := by
    simp only [quoting, braced, String.append_assoc]
  have hopens : contains (quoting before name after) "\x7b" = true := by
    rw [hline]
    exact contains_append _ _ _
  have hcloses : contains (quoting before name after) "\x7d" = true := by
    rw [hline']
    exact contains_append _ _ _
  have hrest (fuel : Nat) : quotedTokens fuel (after ++ "\"") = .ok [after ++ "\""] := by
    cases fuel with
    | zero => rfl
    | succ fuel =>
      have hcut : cut? "\x7b" (after ++ "\"") = none := cut?_eq_none "\x7b" rfl hlast
      simp only [quotedTokens, hcut]
  have hpieces : quotedTokens ((quoting before name after).length + 1) (quoting before name after) =
      .ok ["\"" ++ before, braced name, after ++ "\""] := by
    rw [quotedTokens, hline, cut?_append "\x7b" rfl hfirst]
    simp only [cut?_append "\x7d" rfl hname.closes, hrest]
    rfl
  simp only [tokens, isQuoted_quoting, hopens, hcloses, hpieces, Bool.not_true, Bool.false_eq_true,
    if_false, Bool.and_self, if_true]
  rfl

theorem substitute_quoting {m : Manager} {below : List Entry} (hkey : user.isKey = true)
    (hinitialized : s.initialized = true) (hm : managerIn s.active user = some m)
    (hstack : m.stack = .conversation c :: below) (hbindings : c.bindings = .table bindings)
    (hbefore : '\x7b' ∉ before.toList) (hafter : '\x7b' ∉ after.toList) (hname : Referable name)
    (hword : ∀ line, variableWord user c line name s = .ok w s) :
    substitute user (.str (quoting before name after)) false s =
      .ok ("\"" ++ before ++ w ++ (after ++ "\"")) s := by
  have hfirst : startsWith ("\"" ++ before) "\x7b" = false := by
    rw [startsWith, String.toList_append]
    rfl
  have hlast : endsWith (after ++ "\"") "\x7d" = false := by
    rw [endsWith, ← Bool.not_eq_true, List.isSuffixOf_iff_suffix, String.toList_append]
    rintro ⟨inner, hinner⟩
    have hends := congrArg List.getLast? hinner
    simp at hends
  have htokens := tokens_quoting hbefore hafter hname (.table bindings) Function.all
  rw [← trim_quoting] at htokens
  apply substitute_of_tokens hkey hinitialized hm hstack hbindings htokens
  have hpieces : ∀ piece ∈ ["\"" ++ before],
      (startsWith piece "\x7b" && endsWith piece "\x7d") = false := by
    simp [hfirst]
  have hpieces' : ∀ piece ∈ [after ++ "\""],
      (startsWith piece "\x7b" && endsWith piece "\x7d") = false := by
    simp [hlast]
  rw [trim_quoting]
  refine (replaceFrom_pieces hpieces hpieces' hname hword).trans ?_
  simp [join, String.append_assoc]

end Substitution

/-! ### The readers -/

/-- The running script of a user with its variables. -/
structure Running (user : Value) (c : Conversation) (bindings : Entries) (s : Session) : Prop where
  isKey : user.isKey = true
  initialized : s.initialized = true
  running : ∃ m below, managerIn s.active user = some m ∧ m.stack = .conversation c :: below
  bindings : c.bindings = .table bindings
  message : ∃ message, s.message = some message

/-- The line ends a loop that goes back to an index until a variable has the final value. -/
structure EndsLoop (c : Conversation) (line name final : String) (index : Nat) : Prop where
  ends : (Text.contains line "END" || Text.contains line "UNTIL") = true
  loop : ∃ first loop rest entry start lines, Text.split " " line = first :: loop :: rest ∧
    c.loops.item loop = .ok entry ∧ entry.item "start" = .ok start ∧
    c.lines.elements = .ok lines ∧ lineIndex start lines = .ok index ∧
    ∃ reference given, entry.get "end_variable" = .ok (.str reference) ∧
      Text.replace "\x7d" "" (Text.replace "\x7b" "" reference) = name ∧
      entry.get "end_value" = .ok (.str given) ∧
      Text.replace "'" "" (Text.replace "\"" "" given) = final
  nonempty : final ≠ ""

/-- The line names a variable to rephrase, as it is written there, and a table to do it by. -/
structure Rephrases (bindings : Entries) (line name target : String) (table : Value) : Prop where
  names : ∃ list, Text.split "," (argument line) = [target, list] ∧
    bindings.find? (Text.trim list) = some table
  target : Text.trim target = name

/-- What is done with the response to the text of a variable. -/
def Command.give (user : Value) (name : String) : Option String → Run Unit
  | none => throw .missingOperation
  | some response => do
    let depth := (← managerAt user).depth
    let c ← current user
    let output ← Substitution.substitute user response true
    editSince user depth c do
      Pattern.prepend name (Text.trim output)
      Edit.step 1

namespace Running

variable {user value : Value} {c : Conversation} {bindings : Entries} {s : Session}
  {name w line target list : String}

theorem edit_congr {α : Type} {body body' : Edit α} (h : Running user c bindings s)
    (hbody : body { conversation := c } = body' { conversation := c }) :
    edit user body s = edit user body' s := by
  obtain ⟨m, below, hm, hstack⟩ := h.running
  rw [edit_eq h.isKey hm hstack, edit_eq h.isKey hm hstack, hbody]

theorem edit_error_bind {α β : Type} {body : Edit α} {fault : Fault} (h : Running user c bindings s)
    (hbody : body { conversation := c } = .error fault { conversation := c }) (f : α → Run β) :
    (edit user body >>= f) s = edit user (throw fault) s := by
  obtain ⟨m, below, hm, hstack⟩ := h.running
  have hthrow : edit user (throw fault : Edit β) s =
      .error fault (kept user m { conversation := c } s) := edit_eq h.isKey hm hstack _
  have hedit : edit user body s = .error fault (kept user m { conversation := c } s) := by
    rw [edit_eq h.isKey hm hstack, hbody]
  rw [bind_of_error hedit, hthrow]

theorem readVariable (h : Running user c bindings s) (hfind : bindings.find? name = some value) :
    Edit.readVariable (.str name) { conversation := c } = .ok value { conversation := c } :=
  Edit.readVariable_apply h.bindings hfind

theorem loop_eq (h : Running user c bindings s) (hfind : bindings.find? name = some value)
    (hmeans : value.Means w) (hw : w ≠ "") {final : String} {index : Nat}
    (hends : EndsLoop c line name final index) :
    loop user (.str line) s =
      edit user (if value.lead = final then Edit.step 1 else Edit.goTo (.int index)) s := by
  obtain ⟨m, below, hm, hstack⟩ := h.running
  obtain ⟨message, hmessage⟩ := h.message
  obtain ⟨first, loop, rest, entry, start, lines, hsplit, hentry, hstart, hlines, hindex,
    reference, given, hvariable, hname, hvalue, hfinal⟩ := hends.loop
  have hdone := loopDone_of_item hvariable hname hvalue hfinal hends.nonempty hfind
    (hmeans.truthy hw) (hmeans.item_zero hw)
  rw [loop_apply h.isKey hm hstack hmessage, hends.ends, if_pos rfl, hsplit]
  apply h.edit_congr
  rw [endLoop, bind_of_ok (Edit.read_apply _)]
  simp only [h.bindings]
  rw [hentry, bind_of_ok (lift_ok_apply _ _), hstart, bind_of_ok (lift_ok_apply _ _), hdone,
    bind_of_ok (lift_ok_apply _ _)]
  by_cases hlead : value.lead = final
  · rw [if_pos (beq_iff_eq.2 hlead), if_pos hlead]
  · rw [if_neg (fun h => hlead (beq_iff_eq.1 h)), if_neg hlead, hlines,
      bind_of_ok (lift_ok_apply _ _), hindex, bind_of_ok (lift_ok_apply _ _)]

theorem currentAt (h : Running user c bindings s) : Session.currentAt user s = .ok (some c) s := by
  obtain ⟨m, below, hm, hstack⟩ := h.running
  rw [Session.currentAt, bind_of_ok (managerAt_of_some h.isKey hm), top_of_stack hstack]

theorem rephraseNames (h : Text.split "," (argument line) = [target, list]) :
    Command.rephraseNames (some c) (.str line) s = .ok (target, list) s := by
  have hmember (part : String) : member (.str part) (.str line) =
      .ok (contains line part) := rfl
  have htext : (Value.str line).text = .ok line := rfl
  cases hbrace : contains line "\x7b" <;> cases hparen : contains line "(" <;>
    simp [Command.rephraseNames, hmember, hbrace, hparen, htext, h, bind_apply, present]

theorem replaceValues_of_item (h : Running user c bindings s)
    (hfind : bindings.find? name = some value) {first : String}
    (hfirst : value.item (.int 0) = .ok (.str first)) {table : Value}
    (hline : Rephrases bindings line name target table) {pairs : List Value}
    (hpairs : table.elements = .ok pairs) :
    replaceValues user (.str line) s = edit user (do
      let output ← replaceWords (" " ++ lower first ++ " ") pairs
      Edit.writeVariable target (.str (Text.trim output))
      Edit.step 1) s := by
  obtain ⟨list, hnames, htable⟩ := hline.names
  rw [replaceValues, bind_of_ok h.currentAt, bind_of_ok (rephraseNames hnames)]
  apply h.edit_congr
  rw [hline.target, bind_of_ok (h.readVariable hfind), hfirst, bind_of_ok (lift_ok_apply _ _)]
  simp only [text]
  rw [bind_of_ok (lift_ok_apply _ _), bind_of_ok (h.readVariable htable), hpairs,
    bind_of_ok (lift_ok_apply _ _)]

theorem replaceValues_eq (h : Running user c bindings s) (hfind : bindings.find? name = some value)
    (hmeans : value.Means w) (hw : w ≠ "")
    {table : Value} (hline : Rephrases bindings line name target table) {pairs : List Value}
    (hpairs : table.elements = .ok pairs) :
    replaceValues user (.str line) s = edit user (do
      let output ← replaceWords (" " ++ lower value.lead ++ " ") pairs
      Edit.writeVariable target (.str (Text.trim output))
      Edit.step 1) s :=
  h.replaceValues_of_item hfind (hmeans.item_zero hw) hline hpairs

theorem answerPattern_eq (h : Running user c bindings s) (hfind : bindings.find? name = some value)
    {table : Value} (hline : Rephrases bindings line name target table) {size : Nat}
    (hsize : table.size = .ok size) :
    answerPattern user (.str line) s = (do
      let response? ← edit user do
        let input ← value.needle
        Pattern.firstResponse (" " ++ input ++ " ") table (size + Pattern.extraEntries) 0
      give user target response?) s := by
  obtain ⟨list, hnames, htable⟩ := hline.names
  have hinput : edit user (do
      let input ← (← Edit.readVariable (.str (Text.trim target))).needle
      let entries ← Edit.readVariable (.str (Text.trim list))
      let size ← entries.size
      Pattern.firstResponse (" " ++ input ++ " ") entries (size + Pattern.extraEntries) 0) s =
      edit user (do
        let input ← value.needle
        Pattern.firstResponse (" " ++ input ++ " ") table (size + Pattern.extraEntries) 0) s := by
    apply h.edit_congr
    rw [hline.target, bind_of_ok (h.readVariable hfind)]
    cases value.needle with
    | error fault => rfl
    | ok input =>
      rw [bind_of_ok (lift_ok_apply _ _), bind_of_ok (h.readVariable htable), hsize,
        bind_of_ok (lift_ok_apply _ _), bind_of_ok (lift_ok_apply _ _)]
  rw [answerPattern, bind_of_ok h.currentAt, bind_of_ok (rephraseNames hnames)]
  dsimp only
  rw [bind_apply, hinput, bind_apply]
  rfl

/-- The readers of a variable that holds a text, as such or in front of a list.  A reference in any
line is replaced by the text.  The end of a loop compares the first part of what is held, and the
replacing of words starts from it: this is the text, unless the text is held as such and has other
characters.  Responses are looked for to the text if it is held as such, and else that fails. -/
theorem readers_eq (h : Running user c bindings s) {message : Message}
    (hmessage : s.message = some message) (hsingle : message.Single)
    (hname : Substitution.Referable name) (hfind : bindings.find? name = some value)
    (hmeans : value.Means w) (hw : Text.Bare w) :
    (∀ line, Substitution.variableWord user c line name s = .ok w s) ∧
    (∀ before after : String, '\x7b' ∉ before.toList → '\x7b' ∉ after.toList →
      Substitution.substitute user (.str (Substitution.quoting before name after)) false s =
        .ok ("\"" ++ before ++ w ++ (after ++ "\"")) s) ∧
    (∀ line final index, EndsLoop c line name final index →
      Command.loop user (.str line) s =
        edit user (if value.lead = final then Edit.step 1 else Edit.goTo (.int index)) s) ∧
    (∀ line target table, Rephrases bindings line name target table →
      (∀ pairs, table.elements = .ok pairs →
        replaceValues user (.str line) s = edit user (do
          let output ← replaceWords (" " ++ Text.lower value.lead ++ " ") pairs
          Edit.writeVariable target (.str (Text.trim output))
          Edit.step 1) s) ∧
      ∀ size, table.size = .ok size →
        (value = .str w → answerPattern user (.str line) s = (do
          let response? ← edit user
            (Pattern.firstResponse (" " ++ w ++ " ") table (size + Pattern.extraEntries) 0)
          give user target response?) s) ∧
        (value ≠ .str w → answerPattern user (.str line) s = edit user (throw .wrongKind) s)) ∧
    (value.lead = w ↔ value ≠ .str w ∨ w.length = 1) := by
  obtain ⟨m, below, hm, hstack⟩ := h.running
  have hword (line : String) : Substitution.variableWord user c line name s = .ok w s :=
    Substitution.variableWord_of_means hmessage hsingle hname h.bindings hfind hmeans hw line
  refine ⟨hword, ?_, ?_, ?_, hmeans.lead_eq_iff hw.nonempty⟩
  · intro before after hbefore hafter
    exact Substitution.substitute_quoting h.isKey h.initialized hm hstack h.bindings hbefore hafter
      hname hword
  · intro line final index hends
    exact h.loop_eq hfind hmeans hw.nonempty hends
  · intro line target table hline
    refine ⟨fun pairs hpairs => h.replaceValues_eq hfind hmeans hw.nonempty hline hpairs, ?_⟩
    intro size hsize
    have hanswer := h.answerPattern_eq hfind hline hsize
    constructor
    · rintro rfl
      exact hanswer
    · intro hlist
      cases hmeans with
      | text => exact absurd rfl hlist
      | list older number =>
        rw [hanswer]
        exact h.edit_error_bind rfl _

def painting (color : Value) : Conversation :=
  { scriptMeta := .emptyTable, filename := "paint", startTime := 0
    bindings := .object [("color", color), ("words", .ofItems ["red rose"])]
    loops := .object [("L", .object
      [("start", .int 1), ("end_variable", "color"), ("end_value", "red")])]
    lines := .ofItems [lineOf "loop" 0 "LOOP L" (.int 1) .null,
      lineOf "loop" 0 "LOOP L UNTIL color == red" (.int 2) .null]
    index := .int 1 }

def studio (color : Value) : Session :=
  { root := "/home", initialized := true, message := some {}
    active := [("ann", { user := "ann", stack := [.conversation (painting color)] })] }

theorem studio_running (color : Value) : Running "ann" (painting color)
    [("color", color), ("words", .ofItems ["red rose"])] (studio color) where
  isKey := rfl
  initialized := rfl
  running := ⟨{ user := "ann", stack := [.conversation (painting color)] }, [], by
    simp [managerIn, studio, Value.str_same], rfl⟩
  bindings := rfl
  message := ⟨{}, rfl⟩

theorem painting_endsLoop (color : Value) :
    EndsLoop (painting color) "LOOP L UNTIL color == red" "color" "red" 0 where
  ends := by decide
  loop := by
    refine ⟨"LOOP", "L", ["UNTIL", "color", "==", "red"], .object
      [("start", .int 1), ("end_variable", "color"), ("end_value", "red")], .int 1, _, by decide,
      ?_, ?_, rfl, ?_, "color", "red", ?_, by decide, ?_, by decide⟩
    · simp [painting, Value.item_object]
    · simp [Value.item_object]
    · exact lineIndex_eq ⟨_, _, rfl, lineOf_number _ _ _ _ _, by simp [same_int]⟩ (by omega)
    · simp [Value.get_object]
    · simp [Value.get_object]
  nonempty := by decide

theorem studio_rephrases (color : Value) : Rephrases
    [("color", color), ("words", .ofItems ["red rose"])] "words\x7bcolor, words\x7d" "color" "color"
      (.ofItems ["red rose"]) where
  names := by
    have htrim : Text.trim " words" = "words" := by decide
    exact ⟨" words", by decide, by simp [htrim, Entries.find?, Value.str_same]⟩
  target := by decide

theorem single_empty : Message.Single {} :=
  ⟨.bool false, rfl, rfl⟩

theorem bare_red : Bare "red" :=
  ⟨by decide, by decide, by decide, by decide, by decide⟩

theorem referable_color : Substitution.Referable "color" :=
  ⟨by decide, by decide, by decide, by decide⟩

/-- The newest of two colors in a list is what is referred to, what ends the loop and what words are
replaced in; responses to a color are looked for if it is held as a text. -/
theorem readers_of_red :
    let colors : Value := .ofItems ["red", "blue"]
    (Substitution.substitute "ann" "\"It is \x7bcolor\x7d.\"" false (studio colors) =
      .ok "\"It is red.\"" (studio colors)) ∧
    Command.loop "ann" "LOOP L UNTIL color == red" (studio colors) =
      edit "ann" (Edit.step 1) (studio colors) ∧
    replaceValues "ann" "words\x7bcolor, words\x7d" (studio colors) = edit "ann" (do
      let output ← replaceWords " red " ["red rose"]
      Edit.writeVariable "color" (.str (Text.trim output))
      Edit.step 1) (studio colors) ∧
    answerPattern "ann" "words\x7bcolor, words\x7d" (studio "red") = (do
      let response? ← edit "ann"
        (Pattern.firstResponse " red " (.ofItems ["red rose"]) (1 + Pattern.extraEntries) 0)
      give "ann" "color" response?) (studio "red") := by
  intro colors
  have hfind (color : Value) :
      Entries.find? "color" [("color", color), ("words", .ofItems ["red rose"])] = some color := by
    simp [Entries.find?, Value.str_same]
  obtain ⟨-, hword, hloop, hrephrase, -⟩ := readers_eq (studio_running colors) rfl
    single_empty referable_color (hfind colors) (.list ["blue"] none) bare_red
  obtain ⟨-, -, -, hrespond, -⟩ := readers_eq (studio_running "red") rfl single_empty
    referable_color (hfind "red") .text bare_red
  have hinput : " " ++ Text.lower colors.lead ++ " " = " red " := by decide
  have hreplace := (hrephrase _ _ _ (studio_rephrases colors)).1 ["red rose"] rfl
  rw [hinput] at hreplace
  have hresponse := ((hrespond _ _ _ (studio_rephrases "red")).2 1 rfl).1 rfl
  exact ⟨hword "It is " "." (by decide) (by decide), hloop _ _ _ (painting_endsLoop colors),
    hreplace, hresponse⟩

def places (s : Session) : List (List (Option Int)) :=
  s.active.map fun (_, m) => m.stack.map fun
    | .conversation c => c.index.asInt?
    | .foreign _ => none

/-- A color that is held as a text does not end the loop. -/
theorem text_passes_loop :
    Command.loop "ann" "LOOP L UNTIL color == red" (studio "red") ≠
      edit "ann" (Edit.step 1) (studio "red") := by
  intro hsame
  have hafter : after (Command.loop "ann" "LOOP L UNTIL color == red") (studio "red") =
      after (edit "ann" (Edit.step 1)) (studio "red") := by
    rw [after, hsame, after]
  have hindex := congrArg places hafter
  revert hindex
  decide +kernel

end Running

end Colloquy
