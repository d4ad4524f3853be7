import Colloquy.Proofs.Commands
import Colloquy.Proofs.Hearing

/-! Running the lines of a script, and what is done with the words and the silence of the user, is
put together as `Acts` says. -/

namespace Colloquy

open Session Execution Listening

variable {r : Role}

/-! ### The text and the data of a line -/

/-- The text of a line before its references are replaced. -/
def Execution.spelled (k : Keyword) (text : Value) : Except Fault Value := do
  if k == .branch then return .str (← spellOut (← text.text)) else return text

theorem Session.setDatum_lineData {α : Type} (data : Value) (f : Value → Run α)
    (handler : Fault → Run α) :
    (do
      setDatum "parser_data" data
      rescue (lineData >>= f) handler) =
    (do
      setDatum "parser_data" data
      rescue (f data) handler) := by
  funext s
  cases hm : s.message with
  | none => simp only [setDatum, theMessage, bind_apply, get_apply, hm, throw_apply]
  | some m =>
    simp only [setDatum, theMessage, bind_apply, get_apply, hm, pure_apply, modify_apply]
    refine rescue_congr ?_ handler
    simp only [lineData, datum, theMessage, bind_apply, get_apply, pure_apply,
      Entries.find?_insert_self, Option.getD_some]

namespace Acts

theorem known? (command : Value) :
    Acts r (Keyword.known? command) fun k? => ∀ k ∈ k?, command = .str k.name := by
  unfold Keyword.known?
  split
  · rename_i name
    refine look (fun _ _ h => by rw [h.initialized]) fun _ _ => pure fun k hk => ?_
    split at hk
    · have hname : k.name = name := by simpa using List.find?_some hk
      rw [hname]
    · cases hk
  · exact ite (pure nofun) (throw _)

theorem commandText {k : Keyword} {text : Value}
    (h : ∀ s, spelled k text = .ok s →
      Acts r (Substitution.substitute r.user s false)) :
    Acts r (Execution.commandText k r.user text) := by
  refine ite (pure trivial) ?_
  extract_lets rest
  have hrest : ∀ s, spelled k text = .ok s → Acts r (rest s) :=
    fun s hs => seq (h s hs) fun _ => pure trivial
  clear_value rest
  unfold spelled at hrest
  split
  · rename_i hbranch
    rw [if_pos hbranch] at hrest
    refine bind (lift _) fun s hs => bind (lift _) fun s' hs' => pure_bind (hrest _ ?_)
    exact except_bind_ok_iff.2 ⟨s, hs, except_bind_ok_iff.2 ⟨s', hs', rfl⟩⟩
  · rename_i hbranch
    rw [if_neg hbranch] at hrest
    exact pure_bind (hrest text rfl)

theorem fillData {entries : Entries}
    (h : ∀ key s, (key, .str s) ∈ entries → Acts r (Substitution.substitute r.user (.str s) false)) :
    Acts r (fillData r.user entries) := by
  induction entries with
  | nil => exact pure trivial
  | cons entry rest ih =>
    obtain ⟨key, value⟩ := entry
    have hrest := ih fun key s hs => h key s (List.mem_cons_of_mem _ hs)
    cases value with
    | str s =>
      have hs := h key s List.mem_cons_self
      refine ite (seq hs fun filled => bind lineData fun data hdata => ?_) hrest
      exact bind (lift _) fun _ hput =>
        seq (setDatum _ (hdata.put (.str filled) hput)) fun _ => hrest
    | _ => exact hrest

theorem passData (k : Keyword) {line : Value} (hline : r.Plain line)
    (h : ∀ data entries key s, line.get "data" = .ok data → data.entries = .ok entries →
      (key, .str s) ∈ entries → Acts r (Substitution.substitute r.user (.str s) false)) :
    Acts r (Execution.passData k r.user line) := by
  refine bind (lift _) fun data hdata => ?_
  extract_lets fill
  simp only [fill, setDatum_lineData]
  refine seq (setDatum _ (hline.get .null hdata)) fun _ => ?_
  refine rescue (ite ?_ (pure trivial)) fun _ => pure trivial
  exact bind (lift _) fun entries hentries => fillData fun key s => h data entries key s hdata hentries

theorem runCommand {k : Keyword} {line text : Value}
    (htext : Acts r (Execution.commandText k r.user text))
    (hdata : Acts r (Execution.passData k r.user line))
    (hperform : ∀ text, Acts r (k.perform r.user text)) :
    Acts r (Execution.runCommand k r.user line text) :=
  seq htext fun text => seq hdata fun _ => seq (hperform text) fun _ =>
    seq manager? fun _ => pure trivial

/-! ### Lines -/

theorem runFunction {f : Function} (hf : f.Fits r) (c : Conversation) (line text : Value) :
    Acts r (runFunction f c r.user line text) := by
  refine seq (lift _) fun argument => ?_
  cases argument with
  | none => exact seq (lift _) fun _ => seq (lift _) fun _ => seq (lift _) fun _ => law.tellError _ _
  | some key =>
    have hdeclare : Amends r (do
        if !(← Value.member (.str ((Text.split "," key).headD "")) (← Edit.read).bindings) then
          Edit.writeVariable (.str ((Text.split "," key).headD "")) (.ofItems [])) :=
      .bind .read fun _ => .bind (.lift _) fun _ => Colloquy.ite (.writeVariable _ _) (.pure _)
    refine seq (edit hdeclare) fun _ => seq managerAt fun m => seq (callFunction hf _) fun _ => ?_
    exact editSince m.depth c (.step 1)

theorem leaveCase (indent : Value) : Acts r (leaveCase r.user indent) := by
  have hseek : Amends r (do Command.seekOutdent indent (← Command.linesLeft (← Edit.read))) :=
    .bind .read fun _ => .bind (.lift _) fun _ => Amends.law.steps.seekOutdent _ _
  exact seq (edit hseek) fun atEnd => ite exitScript (pure trivial)

theorem runLine (c : Conversation) {line command text : Value}
    (hcommand : ∀ k : Keyword, command = .str k.name →
      Acts r (Execution.runCommand k r.user line text))
    (hfunction : ∀ f : Function, command.same (.str f.name) = true → f.Fits r) :
    Acts r (Execution.runLine c r.user line command text) := by
  refine bind (known? command) fun k? hk => ?_
  cases k? with
  | some k => exact hcommand k (hk k rfl)
  | none =>
    refine seq law.known fun functions => ?_
    split
    · rename_i f hf
      exact seq (runFunction (hfunction f (by simpa using List.find?_some hf)) c line text)
        fun _ => pure trivial
    · exact seq step fun _ => pure trivial

theorem runNext {c : Conversation}
    (h : ∀ line command text, c.lines.item c.index = .ok line →
      line.item "command" = .ok command → line.item "text" = .ok text →
      Acts r (Execution.runLine c r.user line command text)) :
    Acts r (runNext c r.user) :=
  law.runNext (fun _ => edit (.update fun _ => .same rfl)) leaveCase h

section Lines

variable (hfree : r.Free)

include hfree

theorem anyLine (c : Conversation) {line : Value} (hline : r.Plain line) (command text : Value) :
    Acts r (Execution.runLine c r.user line command text) :=
  runLine c
    (fun k _ => runCommand (commandText fun _ _ => substitute hfree.asks _ _)
      (passData k hline fun _ _ _ _ _ _ _ => substitute hfree.asks _ _)
      fun text => perform (hfree.keyword k) text)
    fun _ _ _ => hfree.asks

theorem advance : Acts r (Execution.advance r.user) := by
  refine bind currentOf fun c? hc => seq law.isAwaiting fun awaits => ite (pure trivial) ?_
  cases c? with
  | none => exact pure trivial
  | some c =>
    refine ite (pure trivial) (seq (lift _) fun _ => seq (lift _) fun atEnd => ite ?_ ?_)
    · exact seq (law.tellError _ _) fun _ => seq exitScript fun _ => pure trivial
    · refine runNext fun line command text hline _ _ => ?_
      exact anyLine hfree c ((hc c rfl).lines.item hline) command text

theorem resume : Acts r (resume r.user) :=
  law.proceed exitScript (advance hfree) _

end Lines

/-! ### The scripts on disk -/

theorem load (filename : Value) : Acts r (Library.load filename) := by
  refine seq countRead fun _ => ?_
  refine look (fun _ _ h => by simp only [h.host, h.reads, h.files, h.root]) fun s _ => ?_
  refine ite (throw_bind _) (seq (lift _) fun name => ?_)
  have hpath : Acts r (Library.scriptPath name) :=
    look (fun _ _ h => by simp only [path, h.root]) fun _ _ => pure trivial
  refine seq hpath fun path => ?_
  split
  · exact lift_any _
  · exact throw _
  · exact pure trivial

end Acts

/-! ### Answers -/

namespace Amends

theorem keepAnswer (answer : String) : Amends r (keepAnswer answer) := by
  refine bind read fun c => bind (readVariable _) fun old => ?_
  split
  · exact bind (changeList _ _) fun _ => writeVariable _ _
  · exact writeVariable _ _

theorem keepRecording (file : String) : Amends r (keepRecording file) := by
  refine bind read fun c => bind (lift _) fun old => ?_
  extract_lets first files
  clear_value files
  exact bind (lift _) fun recordings => update fun _ => .same rfl

end Amends

namespace Acts

section Messages

variable (hfree : r.Free)

include hfree

theorem hear (m : Message) (c : Conversation) : Acts r (hear r.user m c) :=
  law.hear exitScript (.stopAwaiting hfree.asks) (resume hfree) (.await hfree.asks)
    (fun _ _ => edit (.update fun _ => .same rfl)) (fun _ => edit (.keepAnswer _))
    (fun _ => edit (.keepRecording _)) m c

/-! ### Messages of the user -/

variable (huser : ∀ user, r.hears user → user = r.user)

include huser

theorem respond : Acts r respond := by
  refine bind theMessage fun m hm => ?_
  rw [huser m.user (hm.2.1 hfree.hears)]
  refine bind manager? fun m? hm => ?_
  cases m? with
  | none => exact pure trivial
  | some manager =>
    refine seq (top fun c => hm manager c rfl) fun c? => seq (present c?) fun c => ?_
    exact ite (hear hfree m c) (pure trivial)

theorem converse : Acts r converse := by
  refine bind theMessage fun m hm => seq (datum _ .null) fun utterances => ?_
  rw [huser m.user (hm.2.1 hfree.hears)]
  refine ite (pure trivial) (seq (lift _) fun words => ite (pure trivial) ?_)
  extract_lets origin
  clear_value origin
  refine seq (lift _) fun _ => ite (pure trivial) (bind manager? fun m? hm => ?_)
  cases m? with
  | none => exact pure trivial
  | some manager =>
    refine seq (top fun c => hm manager c rfl) fun c? => ?_
    cases c? with
    | none => exact throw _
    | some c =>
      refine seq (lift _) fun _ => ite (pure trivial) ?_
      refine seq (respond hfree huser) fun consumed => ?_
      exact ite (seq law.restartTimeout fun _ => pure trivial) (pure trivial)

theorem timeOut : Acts r timeOut := by
  refine look (fun _ _ h => by rw [h.message]) fun s hs => ?_
  rw [huser _ (hs.heard hfree.hears)]
  refine seq current fun c => ite (ite (seq law.isAwaiting fun awaits => ?_) ?_) (pure trivial)
  · exact ite (seq (stopAwaiting hfree.asks) fun _ => goto _) (goto _)
  · exact seq (tell _) fun _ => exitScript

end Messages

end Acts

end Colloquy
