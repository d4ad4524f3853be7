import Colloquy.Proofs.Containment

/-! Lines that ask the user for words.  A line that calls the function for this asks and lets its
script wait, and does not fail after it has asked.  Lines with commands may ask as well, by a
reference to the function or by a value that calls it; those that do not ask change nothing in who
waits. -/

namespace Colloquy

open Session Execution Value Text Edit List

variable {α β : Type}

/-! ### Lines that do not ask -/

theorem Stable.awaiting {r : Role} (hasks : ¬ r.asks) (waiting : List Value) :
    Stable r (·.awaiting = waiting) where
  calm h hcalm := hcalm.awaiting.trans h
  transcript {s} text filename startTime h := by
    obtain ⟨files, hafter⟩ := after_addTranscript text filename startTime s
    rw [hafter]
    exact h
  edit _ _ _ h := by rwa [kept_awaiting]
  share _ h := by rwa [withChanges_eq]
  leave hleaves h := hleaves.awaiting_eq.trans h
  call _ _ _ hcalls h := by
    cases hcalls with
    | stay => exact h
    | missing => exact (after_edit_awaiting _ _ _).trans h
    | run => exact (after_edit_awaiting _ _ _).trans h
  await h := absurd h hasks
  stopAwaiting h := absurd h hasks

/-- What a computation can rely on that answers a message and asks for no words. -/
def Role.unasking (user : Value) (message : Option Message) : Role :=
  { Role.ofMessage user message with asks := False }

theorem Stable.of_unasking {user : Value} {s : Session} {m : Run α} {Q : α → Prop}
    {I : Session → Prop} (hI : Stable (.unasking user s.message) I)
    (hm : Acts (.unasking user s.message) m Q) (h : I s) : I (s.after m) := by
  have haware : Aware (.unasking user s.message) s :=
    { Aware.ofMessage user s with stack := fun _ _ => ⟨nofun, nofun⟩ }
  exact (hm.after_keeps hI (fun _ => id) haware h).2

theorem Acts.awaiting_eq {user : Value} {s : Session} {m : Run α} {Q : α → Prop}
    (h : Acts (.unasking user s.message) m Q) : (s.after m).awaiting = s.awaiting :=
  (Stable.awaiting id s.awaiting).of_unasking h rfl

/-- A line that does not ask the user for words if it has a command, whether or not it fails. -/
def Value.AsksNothing (line : Value) : Prop :=
  ∀ (k : Keyword) (user text : Value) (s : Session), line.item "command" = .ok (.str k.name) →
    line.item "text" = .ok text → (s.after (runCommand k user line text)).awaiting = s.awaiting

/-! ### Texts without calls -/

namespace Substitution

variable {bindings : Value} {functions : List Function}

theorem not_mem_braced {word : String} (h : '(' ∉ word.toList) : '(' ∉ (braced word).toList := by
  simpa [braced] using h

theorem not_mem_openTokens {fuel : Nat} {rest : String} {pieces : List String}
    (hrest : '(' ∉ rest.toList) (h : openTokens bindings functions fuel rest = .ok pieces) :
    ∀ piece ∈ pieces, '(' ∉ piece.toList := by
  induction fuel generalizing rest pieces with
  | zero =>
    cases h
    simpa using hrest
  | succ fuel ih =>
    cases hcut : cut? " " rest with
    | none =>
      simp only [openTokens, hcut] at h
      obtain ⟨named, -, h⟩ := except_bind_ok_iff.1 h
      cases h
      intro piece hpiece
      rw [mem_singleton.1 hpiece]
      split
      · exact not_mem_braced hrest
      · exact hrest
    | some cut =>
      obtain ⟨word, more⟩ := cut
      rw [toList_of_cut? " " rfl hcut] at hrest
      simp only [mem_append, mem_cons, not_or] at hrest
      simp only [openTokens, hcut, contains_eq_false "(" rfl hrest.1, Bool.false_and,
        Bool.false_eq_true, if_false] at h
      obtain ⟨⟨word', more'⟩, hpair, h⟩ := except_bind_ok_iff.1 h
      cases hpair
      obtain ⟨named, -, h⟩ := except_bind_ok_iff.1 h
      obtain ⟨others, hothers, h⟩ := except_bind_ok_iff.1 h
      cases h
      -- A word without a parenthesis is a piece of its own, in braces if it names a variable.
      refine forall_mem_cons.2 ⟨?_, ih hrest.2.2 hothers⟩
      split
      · exact not_mem_braced hrest.1
      · exact hrest.1

theorem not_mem_quotedTokens {fuel : Nat} {rest : String} {pieces : List String}
    (hrest : '(' ∉ rest.toList) (h : quotedTokens fuel rest = .ok pieces) :
    ∀ piece ∈ pieces, '(' ∉ piece.toList := by
  induction fuel generalizing rest pieces with
  | zero =>
    cases h
    simpa using hrest
  | succ fuel ih =>
    cases hopen : cut? "\x7b" rest with
    | none =>
      simp only [quotedTokens, hopen] at h
      cases h
      simpa using hrest
    | some cut =>
      obtain ⟨before, inside⟩ := cut
      rw [toList_of_cut? "\x7b" rfl hopen] at hrest
      simp only [mem_append, mem_cons, not_or] at hrest
      simp only [quotedTokens, hopen] at h
      cases hclose : cut? "\x7d" inside with
      | none =>
        rw [hclose] at h
        cases h
      | some cut =>
        obtain ⟨key, behind⟩ := cut
        rw [toList_of_cut? "\x7d" rfl hclose] at hrest
        simp only [mem_append, mem_cons, not_or] at hrest
        rw [hclose] at h
        obtain ⟨others, hothers, h⟩ := except_bind_ok_iff.1 h
        cases h
        exact forall_mem_cons.2 ⟨hrest.1,
          forall_mem_cons.2 ⟨not_mem_braced hrest.2.2.1, ih hrest.2.2.2.2 hothers⟩⟩

theorem not_mem_tokens {line gap : String} {pieces : List String} (hline : '(' ∉ line.toList)
    (h : tokens bindings functions line = .ok (pieces, gap)) :
    ∀ piece ∈ pieces, '(' ∉ piece.toList := by
  unfold tokens at h
  split at h
  · obtain ⟨found, hfound, h⟩ := except_bind_ok_iff.1 h
    cases h
    exact not_mem_openTokens hline hfound
  split at h
  · obtain ⟨found, hfound, h⟩ := except_bind_ok_iff.1 h
    cases h
    exact not_mem_quotedTokens hline hfound
  · cases h
    simpa using hline

theorem not_calls {piece : String} (h : '(' ∉ piece.toList) (f : Function) : ¬ Calls piece f := by
  rintro ⟨arguments, hcut⟩
  have hmem := toList_of_cut? (c := '(') "(" rfl hcut
  have hdrop {p : Char → Bool} {cs : List Char} (h : '(' ∈ cs.dropWhile p) : '(' ∈ cs :=
    (dropWhile_sublist p).mem h
  have hparen : '(' ∈ (trimEndOf "\x7d" (trimStartOf "\x7b" piece)).toList := by
    rw [hmem]
    simp
  simp only [trimEndOf, trimStartOf, dropEnd, dropStart, String.toList_ofList,
    mem_reverse] at hparen
  exact h (hdrop (mem_reverse.1 (hdrop hparen)))

end Substitution

theorem Acts.substitute_of_not_mem {r : Role} {text : Value}
    (h : ∀ s, text = .str s → '(' ∉ s.toList) :
    Acts r (Substitution.substitute r.user text false) := by
  refine substitute_of fun s bindings functions pieces gap hs htokens piece hpiece f hcalls => ?_
  have htext : text = .str s := by
    cases text with
    | str s' => exact congrArg _ (Except.ok.inj hs)
    | _ => cases hs
  have hline : '(' ∉ (trim s).toList := fun hmem => h s htext (mem_trim hmem)
  exact absurd hcalls (Substitution.not_calls (Substitution.not_mem_tokens hline htokens piece hpiece) f)

def Value.opensNothing : Value → Bool
  | .str s => !s.toList.contains '('
  | _ => true

theorem Value.not_mem_of_opensNothing {v : Value} (h : v.opensNothing = true) (s : String)
    (hv : v = .str s) : '(' ∉ s.toList := by
  subst hv
  simpa [opensNothing] using h

/-- Commands that find no function to call other than in references. -/
def Keyword.readsOnly : Keyword → Bool
  | declare | set | subKey | branch => false
  | _ => true

/-- Whether a line has no command, or one that finds no function to call. -/
def Value.callsNothing (line : Value) : Bool :=
  match line.item "command", line.item "text" with
  | .ok (.str name), .ok text => (Keyword.ofName? name).all fun k =>
      k.readsOnly && text.opensNothing &&
        match line.get "data" >>= Value.entries with
        | .ok entries => entries.all fun (_, value) => value.opensNothing
        | .error _ => true
  | _, _ => true

theorem Value.asksNothing_of_callsNothing {line : Value} (h : line.callsNothing = true) :
    line.AsksNothing := by
  intro k user text s hcommand htext
  simp only [callsNothing, hcommand, htext, Keyword.ofName?_name, Option.all_some,
    Bool.and_eq_true] at h
  obtain ⟨⟨hreads, hopens⟩, hdata⟩ := h
  have hfits : k.Fits (.unasking user s.message) := by
    cases k with
    | declare | set | subKey | branch => cases hreads
    | execute => exact ⟨_, rfl⟩
    | language => exact fun _ _ => trivial
    | reconvey | nameReconvey => exact fun _ _ _ _ _ => trivial
    | run | loop | formula | speak | neonSpeak | nameSpeak | case | exit | otherwise | goto | subValues
    | email => trivial
  have hbranch : (k == .branch) = false := by
    cases k with
    | branch => cases hreads
    | _ => rfl
  have hspelled (text' : Value) (htext' : spelled k text = .ok text') : text' = text := by
    rw [spelled, hbranch] at htext'
    exact (Except.ok.inj htext').symm
  have hcommandText : Acts (.unasking user s.message) (commandText k user text) := by
    refine .commandText fun text' htext' => .substitute_of_not_mem ?_
    rw [hspelled text' htext']
    exact not_mem_of_opensNothing hopens
  have hpassData : Acts (.unasking user s.message) (passData k user line) := by
    refine .passData k nofun fun data entries key text hline hentries hmem => ?_
    have hfound : (line.get "data" >>= Value.entries) = .ok entries :=
      except_bind_ok_iff.2 ⟨data, hline, hentries⟩
    rw [hfound] at hdata
    exact .substitute_of_not_mem (not_mem_of_opensNothing (all_eq_true.1 hdata _ hmem))
  exact (Acts.runCommand hcommandText hpassData fun text => .perform hfits text).awaiting_eq

def Value.AskByLines (lines : Value) : Prop :=
  ∀ index line, lines.item index = .ok line → line.AsksNothing

/-- All scripts on a stack ask for words only by lines of their own. -/
def Entry.AskByLines (stack : List Entry) : Prop :=
  ∀ c, .conversation c ∈ stack → c.lines.AskByLines

/-- If a script was read, it asks for words only by lines of their own. -/
def Library.AsksByLines (read : Except Fault Value) : Prop :=
  ∀ script lines, read = .ok script → script.item (.int 0) = .ok lines → lines.AskByLines

theorem Value.askByLines_list {items : List Value} (h : ∀ line ∈ items, line.AsksNothing)
    (number : Option Nat) : (list items number).AskByLines := by
  intro index line hline
  simp only [item] at hline
  split at hline
  · exact h line (mem_of_itemAt hline)
  · cases hline

theorem Value.askByLines_nil : (ofItems []).AskByLines :=
  askByLines_list (by simp) none

/-- Whether the lines of a script with commands find no function to call. -/
def Library.callsNothing (script : Value) : Bool :=
  match script.item (.int 0) with
  | .ok (.list items _) => items.all (·.callsNothing)
  | .ok _ => false
  | .error _ => true

theorem Library.asksByLines_of_callsNothing {read : Except Fault Value}
    (h : read.toOption.all callsNothing = true) : AsksByLines read := by
  intro script lines hread hlines
  rw [hread] at h
  simp only [Except.toOption, Option.all_some, callsNothing, hlines] at h
  split at h
  · rename_i items number hitems
    obtain rfl := Except.ok.inj hitems
    refine askByLines_list (fun line hline => ?_) number
    exact asksNothing_of_callsNothing (all_eq_true.1 h line hline)
  · cases h
  · rename_i herror
    cases herror

namespace Entry.AskByLines

variable {c c' : Conversation} {rest stack : List Entry}

theorem cons (hc : c.lines.AskByLines) (h : AskByLines rest) : AskByLines (.conversation c :: rest) := by
  intro c' hc'
  rcases mem_cons.1 hc' with heq | hrest
  · rwa [Entry.conversation.inj heq]
  · exact h c' hrest

theorem tail {e : Entry} (h : AskByLines (e :: rest)) : AskByLines rest :=
  fun c hc => h c (mem_cons_of_mem _ hc)

theorem changedBy (h : AskByLines stack) (changes : List Change) :
    AskByLines (stack.map (Entry.changedBy changes)) := by
  intro c hc
  obtain ⟨c', hc', rfl⟩ := Entry.exists_of_mem_changedBy hc
  rw [(c'.like_changedBy (.bare .null) changes).lines]
  exact h c' hc'

theorem launchLaw : LaunchLaw AskByLines Library.AsksByLines where
  stack _ :=
    { share := fun changes h => h.changedBy changes
      edit := fun {c c' rest} changes hlike h =>
        cons (by rw [hlike.lines]; exact h c mem_cons_self) (h.tail.changedBy changes)
      pop := tail
      call := fun {c rest script caller scriptMeta} filename time _ _ hscript h => by
        have hlines {d : Draft} (hfilled : Draft.Filled script
            { conversation := Conversation.start scriptMeta filename time } d) :
            d.conversation.lines.AskByLines := by
          rcases hfilled.lines with hsame | hnew
          · rw [hsame]
            exact askByLines_nil
          · exact hscript script _ rfl hnew
        rcases Command.calling_filled script caller
            { conversation := Conversation.start scriptMeta filename time } with
          hfilled | ⟨d, hfilled, heq⟩
        · exact cons (hlines hfilled) h
        · rw [heq]
          exact cons (hlines (d := d) hfilled) h }
  nil := nofun
  begin _ _ _ h := cons askByLines_nil h
  load {c c' rest script?} hloaded hscript h := by
    refine cons ?_ h.tail
    rcases hloaded.lines with hsame | hnone | ⟨script, hmem, hnew⟩
    · rw [hsame]
      exact h c mem_cons_self
    · rw [hnone]
      exact askByLines_nil
    · exact hscript script hmem script _ rfl hnew

end Entry.AskByLines

/-! ### Lines that ask -/

theorem Value.exists_addInt_of_compare {v : Value} {relation : Comparison} {n : Int} {holds : Bool}
    (h : v.compare relation (.int n) = .ok holds) : ∃ w, v.addInt 1 = .ok w := by
  cases v with
  | int m => exact ⟨_, rfl⟩
  | bool b => exact ⟨_, rfl⟩
  | float x =>
    have hone : (Number.ofInt? 1).isSome = true := by decide
    obtain ⟨y, hy⟩ := Option.isSome_iff_exists.1 hone
    exact ⟨.float (x + y), by simp [addInt, hy]⟩
  | _ => simp [compare, worth?] at h

def Stays (body : Edit α) : Prop :=
  Fixes (·.conversation.index) body

def Session.IsAt (user index : Value) (s : Session) : Prop :=
  ∃ m c rest, managerIn s.active user = some m ∧ m.stack = .conversation c :: rest ∧ c.index = index

namespace Session.IsAt

variable {user index : Value} {s : Session}

theorem after_edit (h : IsAt user index s) (body : Edit α) (hbody : Stays body) :
    IsAt user index (s.after (edit user body)) := by
  obtain ⟨m, c, rest, hm, hstack, hindex⟩ := h
  obtain hsame | ⟨m', c', rest', hm', hstack', hkept⟩ := Session.after_edit user body s
  · rw [hsame]
    exact ⟨m, c, rest, hm, hstack, hindex⟩
  · obtain rfl := Option.some.inj (hm.symm.trans hm')
    obtain ⟨hc, -⟩ := List.cons.inj (hstack.symm.trans hstack')
    obtain rfl := Entry.conversation.inj hc
    rw [hkept]
    exact ⟨_, _, _, managerIn_kept_self _ hm, rfl, (hbody { conversation := c }).trans hindex⟩

theorem edit_ok (h : IsAt user index s) (hkey : user.isKey = true) (body : Edit α)
    (hbody : ∀ c : Conversation, c.index = index → ∃ a d, body { conversation := c } = .ok a d) :
    ∃ a t, edit user body s = .ok a t := by
  obtain ⟨m, c, rest, hm, hstack, hindex⟩ := h
  obtain ⟨a, d, hrun⟩ := hbody c hindex
  exact ⟨a, _, by rw [edit_eq hkey hm hstack, hrun]⟩

end Session.IsAt

section

variable {user : Value} {s : Session} {c : Conversation} {next : Value}

theorem Function.voiceInput_ok (hkey : user.isKey = true) {index : Value} (h : s.IsAt user index)
    (key : String) :
    ∃ t, Function.voiceInput.call (.str key) user s = .ok .null t ∧ t.IsAt user index := by
  let asked : Session := { s with awaiting := s.awaiting ++ [user] }
  have hat : asked.IsAt user index := h
  have hedit (name : Value) : ∃ t, (do
      edit user (update fun c => { c with awaited := name })
      return null : Run Value) asked = .ok .null t ∧ t.IsAt user index := by
    obtain ⟨_, t, ht⟩ := hat.edit_ok hkey (update fun c => { c with awaited := name })
      fun _ _ => ⟨_, _, rfl⟩
    have hstays := hat.after_edit (update fun c => { c with awaited := name }) fun _ => rfl
    rw [after_of_ok ht] at hstays
    exact ⟨t, bind_of_ok ht, hstays⟩
  have hmember : member "," (.str key) = .ok (contains key ",") := rfl
  simp only [call, runVoiceInput, await]
  rw [bind_of_ok (modify_apply _ _), hmember, bind_of_ok (lift_ok_apply _ _)]
  split
  · exact hedit _
  · exact hedit _

theorem Session.editSince_ok (hkey : user.isKey = true) (h : s.IsAt user c.index)
    (hnext : c.index.addInt 1 = .ok next) (depth : Nat) :
    ∃ t, editSince user depth c (step 1) s = .ok () t ∧
      (managerIn t.active user).isSome = true := by
  have hleft : ∃ t, editLeft c (step 1) s = .ok () t ∧
      (managerIn t.active user).isSome = true := by
    obtain ⟨m, _, _, hm, -⟩ := h
    rw [editLeft, step_ok hnext]
    refine ⟨_, rfl, ?_⟩
    rw [managerIn_withChanges, hm]
    rfl
  obtain ⟨m, c', rest, hm, hstack, hindex⟩ := h
  rw [editSince, bind_of_ok (manager?_of_isKey hkey s), hm]
  by_cases hdepth : m.depth == depth
  · simp only [hdepth, if_true]
    rw [edit_eq hkey hm hstack, step_ok (hindex ▸ hnext)]
    refine ⟨_, rfl, ?_⟩
    rw [managerIn_kept_self _ hm]
    rfl
  · simpa only [hdepth, Bool.false_eq_true, if_false] using hleft

def Execution.declaring (key : String) : Edit Unit := do
  let name := (Text.split "," key).headD ""
  if !(← Value.member name (← Edit.read).bindings) then Edit.writeVariable name (.ofItems [])

theorem Execution.declaring_stays (key : String) : Stays (declaring key) := by
  refine .bind .read fun _ => .bind (.lift _) fun _ => ite ?_ (.pure ())
  exact .bind .read fun _ => .bind (.lift _) fun _ => .update fun _ => rfl

theorem Execution.runFunction_of_argument {key : String} {text : Value}
    (h : functionArgument text = .ok (some key)) (f : Function) (c : Conversation)
    (user line : Value) :
    runFunction f c user line text = (do
      edit user (declaring key)
      let depth := (← managerAt user).depth
      let _ ← f.call (.str key) user
      editSince user depth c (step 1)) := by
  rw [runFunction, h]
  rfl

theorem Execution.after_runFunction_awaiting {text : Value}
    (h : ∀ key, functionArgument text ≠ .ok (some key)) (f : Function) (c : Conversation)
    (user line : Value) (s : Session) :
    (s.after (runFunction f c user line text)).awaiting = s.awaiting := by
  refine (Looks.lift _).bind_after (T := fun t => t.awaiting = s.awaiting) rfl fun key? hkey? => ?_
  cases key? with
  | some key => exact absurd (lift_ok_iff.1 hkey?).1 (h key)
  | none =>
    refine (Looks.lift _).bind_after (T := fun t => t.awaiting = s.awaiting) rfl fun _ _ => ?_
    refine (Looks.lift _).bind_after (T := fun t => t.awaiting = s.awaiting) rfl fun _ _ => ?_
    exact (Looks.lift _).bind_after (T := fun t => t.awaiting = s.awaiting) rfl fun _ _ => rfl

theorem Execution.runFunction_voiceInput (hkey : user.isKey = true) (h : s.IsAt user c.index)
    (hnext : c.index.addInt 1 = .ok next) {key : String} {text : Value}
    (hargument : functionArgument text = .ok (some key)) (line : Value) :
    (∃ fault t, runFunction .voiceInput c user line text s = .error fault t ∧
        t.awaiting = s.awaiting) ∨
      ∃ t, runFunction .voiceInput c user line text s = .ok () t ∧
        t.awaiting = s.awaiting ++ [user] ∧ (managerIn t.active user).isSome = true := by
  have hstays := h.after_edit (declaring key) (declaring_stays key)
  have hawaiting := after_edit_awaiting user (declaring key) s
  cases hdeclare : edit user (declaring key) s with
  | error fault t =>
    rw [after_of_error hdeclare] at hawaiting
    refine .inl ⟨fault, t, ?_, hawaiting⟩
    rw [runFunction_of_argument hargument, bind_of_error hdeclare]
  | ok _ t =>
    -- From here on nothing fails: the script stays where it is, and its place has a next one.
    rw [after_of_ok hdeclare] at hstays
    obtain ⟨u, hcall, hat⟩ := Function.voiceInput_ok hkey hstays key
    obtain ⟨m, _, _, hm, -⟩ := hstays
    obtain ⟨v, hstep, hentry⟩ := editSince_ok hkey hat hnext m.depth
    have hrun : runFunction .voiceInput c user line text s = .ok () v := by
      rw [runFunction_of_argument hargument, bind_of_ok hdeclare,
        bind_of_ok (managerAt_of_some hkey hm), bind_of_ok hcall, hstep]
    exact .inr ⟨v, hrun, runFunction_awaiting (by simp [hargument]) hrun, hentry⟩

/-- What becomes of who waits when a line is run: nothing, or the script does not go on and waits for
its user, who has an entry. -/
def Execution.Waits (user : Value) (waiting : List Value) : EStateM.Result Fault Session Bool → Prop
  | .ok goes t => t.awaiting = waiting ∨
      goes = false ∧ t.awaiting = waiting ++ [user] ∧ (managerIn t.active user).isSome = true
  | .error _ t => t.awaiting = waiting

namespace Execution.Waits

variable {waiting : List Value}

theorem of_after {m : Run Bool} (h : (s.after m).awaiting = waiting) : Waits user waiting (m s) := by
  cases hrun : m s with
  | ok goes t =>
    rw [after_of_ok hrun] at h
    exact .inl h
  | error fault t =>
    rw [after_of_error hrun] at h
    exact h

theorem bind {m : Run α} {f : α → Run Bool} (hm : (s.after m).awaiting = waiting)
    (hf : ∀ a t, m s = .ok a t → t.awaiting = waiting → Waits user waiting (f a t)) :
    Waits user waiting ((m >>= f) s) := by
  cases hrun : m s with
  | ok a t =>
    rw [after_of_ok hrun] at hm
    rw [bind_of_ok hrun]
    exact hf a t hrun hm
  | error fault t =>
    rw [after_of_error hrun] at hm
    rw [bind_of_error hrun]
    exact hm

theorem look {m : Run α} {f : α → Run Bool} (hm : Looks m)
    (hf : ∀ a, m s = .ok a s → Waits user s.awaiting (f a s)) :
    Waits user s.awaiting ((m >>= f) s) := by
  refine bind (by rw [hm s]) fun a t hrun _ => ?_
  obtain rfl : t = s := (after_of_ok hrun).symm.trans (hm s)
  exact hf a hrun

theorem runFunction (hkey : user.isKey = true) (h : s.IsAt user c.index)
    (hnext : c.index.addInt 1 = .ok next) (f : Function) (line text : Value) :
    Waits user s.awaiting
      ((do runFunction f c user line text; return false : Run Bool) s) := by
  by_cases hf : f = .voiceInput
  · subst hf
    by_cases hargument : ∃ key, functionArgument text = .ok (some key)
    · obtain ⟨key, hargument⟩ := hargument
      obtain ⟨fault, t, hrun, ht⟩ | ⟨t, hrun, ht⟩ := runFunction_voiceInput hkey h hnext hargument line
      · rw [bind_of_error hrun]
        exact ht
      · rw [bind_of_ok hrun]
        exact .inr ⟨rfl, ht⟩
    · exact bind (after_runFunction_awaiting (not_exists.1 hargument) ..) fun _ t _ ht => .inl ht
  · have hfits : f.Fits (.unasking user s.message) := fun heq => absurd heq hf
    exact bind (Acts.awaiting_eq (.runFunction hfits c line text)) fun _ t _ ht => .inl ht

theorem runLine (hkey : user.isKey = true) (h : s.IsAt user c.index)
    (hnext : c.index.addInt 1 = .ok next) {line command text : Value}
    (hline : line.AsksNothing) (hcommand : line.item "command" = .ok command)
    (htext : line.item "text" = .ok text) :
    Waits user s.awaiting (runLine c user line command text s) := by
  refine look (Looks.known? command) fun k? hknown => ?_
  cases k? with
  | some k =>
    obtain rfl := known?_ok hknown
    exact of_after (hline k user text s hcommand htext)
  | none =>
    refine look (.bind .get fun _ => .pure _) fun functions _ => ?_
    cases functions.find? fun f => command.same f.name with
    | some f => exact runFunction hkey h hnext f line text
    | none => exact bind (after_edit_awaiting user _ s) fun _ t _ ht => .inl ht

theorem runNext (hkey : user.isKey = true) (h : s.IsAt user c.index)
    (hnext : c.index.addInt 1 = .ok next) (hlines : c.lines.AskByLines) :
    Waits user s.awaiting (runNext c user s) := by
  refine look (.lift _) fun line hline => look (.lift _) fun indent _ => ?_
  refine bind (after_edit_awaiting user _ s) fun _ t hedit ht => ?_
  have hat : t.IsAt user c.index := by
    have hstays := h.after_edit (update fun c => { c with lastIndent := indent }) fun _ => rfl
    rwa [after_of_ok hedit] at hstays
  rw [← ht]
  refine look (.lift _) fun command hcommand => look (.lift _) fun text htext => ?_
  have hinside := runLine hkey hat hnext (hlines _ line (lift_ok_iff.1 hline).1)
    (lift_ok_iff.1 hcommand).1 (lift_ok_iff.1 htext).1
  refine look (.lift _) fun outside _ => ?_
  cases outside with
  | false => exact hinside
  | true =>
    refine look (.lift _) fun _ _ => look (.lift _) fun _ _ => look (.lift _) fun place _ => ?_
    cases place with
    | otherOption parent =>
      exact bind (Acts.awaiting_eq (.leaveCase parent)) fun _ _ _ hu => .inl hu
    | inside => exact hinside

theorem advance (hlines : Entry.AskByLines (s.stackOf user)) :
    Waits user s.awaiting (advance user s) := by
  refine look (.currentOf user) fun c? hcurrent => look (.isAwaiting user) fun awaits _ => ?_
  split
  · exact .inl rfl
  cases c? with
  | none => exact .inl rfl
  | some c =>
    obtain ⟨-, hkey, m, rest, hm, hstack⟩ := currentOf_ok hcurrent
    rw [stackOf_eq hm, hstack] at hlines
    simp only
    split
    · exact .inl rfl
    refine look (.lift _) fun size _ => look (.lift _) fun atEnd hatEnd => ?_
    -- The place was compared with the number of lines, so it is a number.
    obtain ⟨next, hnext⟩ := exists_addInt_of_compare (lift_ok_iff.1 hatEnd).1
    split
    · refine bind rfl fun _ t _ ht => bind ?_ fun _ _ _ hu => .inl hu
      exact (exitScript_leaves user t).awaiting_eq.trans ht
    · exact runNext hkey ⟨m, c, rest, hm, hstack, rfl⟩ hnext (hlines c mem_cons_self)

end Execution.Waits

end

end Colloquy
