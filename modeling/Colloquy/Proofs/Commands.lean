import Colloquy.Proofs.Acts
import Colloquy.Proofs.Requests

/-! The functions and the commands of scripts are put together as `Acts` says: each of them only
looks at what its user has part in, and amends the user's running script. -/

namespace Colloquy

open Session Substitution Command

variable {r : Role}

/-! ### Functions -/

namespace Acts

theorem compose (kind : String) (text voice : Value) :
    Acts r (Function.compose kind text voice) fun m =>
      (∃ user, r.hears user) → r.hears m.user := by
  refine look (fun _ _ h => by rw [h.message]) fun s hs => ?_
  cases hm : s.message with
  | none =>
    refine pure fun hhears => ?_
    have hheard := hs.heard hhears
    rwa [hm] at hheard
  | some m =>
    refine pure fun hhears => ?_
    have hheard := hs.heard hhears
    rwa [hm] at hheard

end Acts

/-- What a role has to allow for a function to be called. -/
def Function.Fits (r : Role) (f : Function) : Prop :=
  f = voiceInput → r.asks

namespace Acts

theorem callFunction {f : Function} (h : f.Fits r) (key : Value) : Acts r (f.call key r.user) :=
  law.call law.tell exitScript
    (fun hf => ⟨await (h hf), fun _ => edit (.update fun _ => .same rfl)⟩) key

theorem callQuietly (hasks : r.asks) (f : Function) (key : String) :
    Acts r (callQuietly f key r.user) :=
  handlingNone (callFunction (r := r.deaf) (fun _ => hasks) _)

theorem substitute_of {line : Value} {wildcards : Bool}
    (h : ∀ s bindings functions pieces gap, line.text = .ok s →
      tokens bindings functions (if wildcards then
        withWildcards (Text.trim s) else Text.trim s) = .ok (pieces, gap) →
      ∀ piece ∈ pieces, ∀ f, Calls piece f → f.Fits r) :
    Acts r (substitute r.user line wildcards) :=
  law.substitute law.tell fun s bindings functions pieces gap hs htokens piece hpiece f hcalls =>
    callFunction (h s bindings functions pieces gap hs htokens piece hpiece f hcalls)

theorem substitute (hasks : r.asks) (line : Value) (wildcards : Bool) :
    Acts r (substitute r.user line wildcards) :=
  substitute_of fun _ _ _ _ _ _ _ _ _ _ _ _ => hasks

end Acts

/-! ### Assignments -/

namespace Amends

theorem law : Edit.WorkLaw fun {_} body => Amends r body where
  toBaseLaw := baseLaw r
  writeVariable := .writeVariable
  changeList := .changeList
  goTo := .goTo
  indent _ := .update fun _ => .same rfl

end Amends

namespace Acts

theorem setVariable (hasks : r.asks) (text : Value) :
    Acts r (setVariable r.user text) := by
  refine seq currentAt fun c? => seq lineData fun data => ?_
  refine seq (lift _) fun (name, value) => seq (present c?) fun c => seq (lift _) fun old => ?_
  refine seq (law.assignedValue (callQuietly hasks) value) fun new => edit ?_
  refine .bind (Amends.law.pushValue _ _) fun pushed => .bind (.writeVariable _ _) fun _ => ?_
  exact .bind (.lift _) fun _ => .step 1

theorem variableLine (hasks : r.asks) (text : Value) :
    Acts r (variableLine r.user text) := by
  refine seq currentAt fun c? => seq lineData fun data => seq (lift _) fun (name, value) => ?_
  dsimp -zeta only
  extract_lets last
  have hlast : ∀ u, Acts r (last u) := fun _ => step
  clear_value last
  refine ite (seq (lift _) fun text => ?_) (hlast ())
  extract_lets name rest
  have hrest : ∀ s, Acts r (rest s) := fun s =>
    seq (law.declaredValue (callQuietly hasks) s) fun v =>
      seq (edit (Amends.law.addValues name v)) hlast
  clear_value rest
  exact ite (seq (lift _) fun _ => pure_bind (hrest _)) (pure_bind (hrest ""))

theorem runFormula : ∀ name formula, Acts r (runFormula r.user name formula) := by
  refine law.runFormula (fun formula => reckon (Formula.evaluate formula) fun s => ?_)
    fun _ _ => edit (.writeVariable _ _)
  obtain ⟨result, clock⟩ := Formula.evaluate formula s.clock
  cases result <;> rfl

theorem compute (text : Value) : Acts r (compute r.user text) :=
  law.compute runFormula text

end Acts

/-! ### Patterns -/

theorem Amends.responses : Edit.ResponseLaw (fun _ => True) fun {_} body => Amends r body where
  toCaptureLaw := law.captures
  count _ := update fun _ => .same rfl

namespace Acts

theorem replaceValues (text : Value) : Acts r (replaceValues r.user text) := by
  refine seq currentAt fun c? => seq (law.rephraseNames c? text) fun (name, list) => edit ?_
  refine .bind (.readVariable _) fun _ => .bind (.lift _) fun first => .bind (.lift _) fun input => ?_
  refine .bind (.readVariable _) fun _ => .bind (.lift _) fun pairs => .bind (.lift _) fun _ => ?_
  exact .bind (.writeVariable _ _) fun _ => .step 1

theorem answerPattern (hasks : r.asks) (text : Value) :
    Acts r (answerPattern r.user text) := by
  refine seq currentAt fun c? => seq (law.rephraseNames c? text) fun (name, list) => ?_
  have hrespond : Amends r (do
      let input ← (← Edit.readVariable (.str (Text.trim name))).needle
      let entries ← Edit.readVariable (.str (Text.trim list))
      let fuel := (← entries.size) + Pattern.extraEntries
      Pattern.firstResponse (" " ++ input ++ " ") entries fuel 0) := by
    refine .bind (.readVariable _) fun _ => .bind (.lift _) fun input => ?_
    refine .bind (.readVariable _) fun entries => .bind (.lift _) fun size => ?_
    exact Amends.responses.firstResponse (fun _ => trivial) _ _ _ _
  refine seq (edit hrespond) fun response? => ?_
  cases response? with
  | none => exact throw _
  | some response =>
    refine seq managerAt fun m => seq current fun c => seq (substitute hasks _ _) fun output => ?_
    exact editSince _ _ (.bind (Amends.law.prepend _ _) fun _ => .step 1)

/-! ### The voice -/

theorem reconveyedOfData (c? : Option Conversation) (data text : Value) :
    Acts r (reconveyedOfData c? data text) fun what => r.Plain what.name := by
  refine seq (lift _) fun source => seq (lift _) fun name => ?_
  have hname : r.Plain (cleanQuotes name) := by
    cases name <;> exact fun _ => trivial
  extract_lets name rest
  have hrest : ∀ isQuoted, Acts r (rest isQuoted) fun what => r.Plain what.name := by
    intro isQuoted
    simp -zeta only [rest]
    extract_lets withText
    have hwithText : ∀ text, Acts r (withText text) fun what => r.Plain what.name := by
      refine fun text => seq (lift _) fun file => ite ?_ (pure hname)
      extract_lets withAudio
      have hwithAudio : ∀ audio, Acts r (withAudio audio) fun what => r.Plain what.name :=
        fun _ => seq (law.recordingOf c? _ _) fun _ => pure hname
      clear_value withAudio
      refine ite (pure_bind (hwithAudio _)) ?_
      exact seq (present c?) fun _ => seq (lift _) fun _ => seq (lift _) hwithAudio
    clear_value withText
    refine ite (pure_bind (hwithText _)) ?_
    exact seq (present c?) fun _ => seq (lift _) fun _ => seq (lift _) hwithText
  clear_value rest
  exact seq (lift _) fun inQuotes => ite (pure_bind (hrest _)) (seq (lift _) hrest)

theorem reconveyedOfVariable (c : Conversation) (source : Value) :
    Acts r (reconveyedOfVariable c source) fun what => r.Plain what.name := by
  refine seq (lift _) fun recordings => ite ?_ ?_
  · refine seq (lift _) fun _ => seq (lift _) fun _ => seq (lift _) fun _ => seq (lift _) fun _ => ?_
    exact pure (.str "Neon")
  · refine seq (lift _) fun _ => seq (lift _) fun _ => ?_
    exact seq (rescue (law.say _ _) fun _ => pure trivial) fun _ => pure (.str "Neon")

theorem reconvey (hnames : r.chats → ∀ v name w, Value.put v "name" name = .ok w → r.voices v w)
    (text : Value) : Acts r (reconvey r.user text) := by
  refine seq lineData fun data => seq currentAt fun c? => ?_
  extract_lets last rest
  have hlast : ∀ u, Acts r (last u) := fun _ => step
  clear_value last
  have hrest : ∀ what, r.Plain what.name → Acts r (rest what) := by
    refine fun what hname => bind theMessage fun m ⟨_, _, hchats⟩ => ?_
    by_cases hchat : m.isChat = true
    · rw [if_pos (by exact hchat)]
      refine ite (seq (tell _) hlast) (seq (edit (.revoice ?_ ?_)) fun _ => ?_)
      · exact fun c voice hc hvoice => hc.speaker.put hname hvoice
      · exact fun c voice hvoice => hnames (hchats hchat) _ _ _ hvoice
      · exact seq current fun _ => seq (law.say _ _) hlast
    · rw [if_neg (by exact hchat)]
      refine ite (seq (law.isFile _) fun found => ite ?_ (seq (law.say _ _) hlast)) (hlast ())
      refine seq (tell _) fun _ => seq (tell _) fun _ => ?_
      exact look (fun _ _ h => by rw [h.host]) fun _ _ => seq (sleep _) hlast
  clear_value rest
  refine ite (bind (reconveyedOfData c? _ _) hrest) ?_
  exact seq (present c?) fun c => bind (reconveyedOfVariable c _) hrest

end Acts

theorem Amends.speakIn (hvoices : ∀ v w, r.voices v w) {language gender : Value} (hlanguage : r.Plain language)
    (hgender : r.Plain gender) :
    Amends r (do
      let speaker ← (← Edit.read).speaker.put "language" language
      Edit.update fun c => { c with speaker }
      let speaker ← speaker.put "gender" gender
      Edit.update fun c => { c with speaker }) := by
  intro d
  simp only [Draft.after, Edit.read, Edit.update, bind_apply, get_apply, pure_apply]
  cases hput : d.conversation.speaker.put "language" language with
  | error fault => exact .refl r d.conversation
  | ok voice =>
    simp only [lift_ok_apply, modify_apply]
    cases hput' : voice.put "gender" gender with
    | error fault =>
      exact ⟨rfl, rfl, rfl, id, fun h => ⟨h.lines, h.speaker.put hlanguage hput⟩,
        .set .refl (hvoices _ _)⟩
    | ok voice' =>
      exact ⟨rfl, rfl, rfl, id, fun h =>
        ⟨h.lines, (h.speaker.put hlanguage hput).put hgender hput'⟩, .set .refl (hvoices _ _)⟩

namespace Acts

theorem preferredGender : Acts r preferredGender r.Plain := by
  refine rescue (look (fun _ _ h => by rw [h.host]) fun s hs => ?_) fun _ => pure (.str "female")
  exact bind (lift _) fun speech hspeech =>
    lift_of fun gender => (hs.preferences.item hspeech).get (.str "female")

theorem languageOfData (hvoices : ∀ v w, r.voices v w) {data : Value} (hdata : r.Plain data) :
    Acts r (Command.languageOfData r.user data) := by
  unfold Command.languageOfData
  extract_lets speech
  have hspeech : Acts r speech r.Plain :=
    look (fun _ _ h => by rw [h.host]) fun s hs => lift_of fun _ h => hs.preferences.item h
  clear_value speech
  refine bind hspeech fun _ hpart => bind (lift _) fun preferred hpreferred => ?_
  refine bind (lift _) fun language hlanguage => ?_
  refine bind hspeech fun _ hpart' => bind (lift _) fun preferred' hpreferred' => ?_
  refine bind (lift _) fun gender hgender => edit (.update fun c => ?_)
  refine ⟨rfl, rfl, rfl, id, fun h => ⟨h.1, ?_⟩, .set .refl (hvoices _ _)⟩
  have hlanguage' := hdata.get (hpart.item hpreferred) hlanguage
  have hgender' := hdata.get (hpart'.get .null hpreferred') hgender
  intro hp
  simpa [Value.object] using ⟨hlanguage' hp, hgender' hp⟩

theorem genderIn (words : List String) :
    Acts r (genderIn words) fun found => r.Plain found.1 :=
  ite (pure (.str "male")) (ite (pure (.str "female"))
    (bind preferredGender fun _ h => pure h))

theorem languageOfText (hvoices : ∀ v w, r.voices v w) (content : Value) :
    Acts r (Command.languageOfText r.user content) := by
  refine bind (genderIn _) fun (gender, words) hgender => ?_
  dsimp -zeta only
  split
  · extract_lets word rest
    have hrest : ∀ language, r.Plain language → Acts r (rest language) := by
      refine fun language hlanguage => edit (.bind (.update fun c => ?_) fun _ => ?_)
      · refine ⟨rfl, rfl, rfl, id, fun h => ⟨h.1, ?_⟩, .set .refl (hvoices _ _)⟩
        show r.Plain (if c.speaker.truthy then c.speaker else Value.emptyTable)
        split
        · exact h.2
        · exact fun _ => Value.listsIn_emptyTable
      · exact .speakIn hvoices hlanguage hgender
    clear_value rest word
    refine ite (look (fun _ _ h => by rw [h.host]) fun s hs => ?_) (pure_bind (hrest _ (.str _)))
    exact bind (lift _) fun language h => hrest language (hs.preferences.item h)
  · exact throw _

theorem language (hvoices : ∀ v w, r.voices v w) (content : Value) :
    Acts r (language r.user content) := by
  refine seq currentAt fun c? => bind lineData fun data hdata => ?_
  extract_lets last rest
  have hlast : ∀ u, Acts r (last u) := fun _ => step
  clear_value last
  have hrest : ∀ given, Acts r (rest given) := fun _ =>
    ite (seq (languageOfData hvoices hdata) hlast) (seq (languageOfText hvoices content) hlast)
  clear_value rest
  refine ite ?_ (pure_bind (hrest _))
  exact seq (lift _) fun _ => seq (lift _) fun _ => pure_bind (hrest _)

/-! ### Requests to others -/

theorem emitRequest {request : Message} (huser : (∃ user, r.hears user) → r.hears request.user)
    (hhears : ∃ user, r.hears user) (text : String) :
    Acts r (emitRequest request text) := by
  refine seq (send _) fun _ => look (fun _ _ h => by rw [h.host]) fun s _ => ?_
  split
  · exact pure trivial
  · refine hearAnswer ?_
    have hsame : ("cc_data" : String) ≠ "user" := by decide
    simpa [Message.userOf, Message.user, Entries.find?_insert_ne hsame] using huser hhears

theorem execute (hhears : ∃ user, r.hears user) (text : Value) :
    Acts r (execute r.user text) := by
  refine seq currentOf fun c? => seq lineData fun data => ?_
  extract_lets rest
  have hrest : ∀ text, Acts r (rest text) := by
    refine fun text => ite step (seq (lift _) fun text => ?_)
    extract_lets text
    clear_value text
    refine seq (present c?) fun c => bind (compose _ _ _) fun request hrequest => ?_
    refine seq (edit (.update fun _ => .same rfl)) fun _ => ?_
    refine seq (emitRequest hrequest hhears text) fun _ => ?_
    exact seq step fun _ => seq law.seconds fun _ => law.waitForAnswer _ _ _
  clear_value rest
  exact ite (seq (lift _) hrest) (pure_bind (hrest _))

theorem goto (text : Value) : Acts r (goto r.user text) :=
  law.goto (fun _ _ => edit (.bind (.lift _) fun _ => Amends.law.jump _ _ _)) step text

end Acts

/-! ### All commands -/

/-- What a role has to allow for a command to be run. -/
def Keyword.Fits (r : Role) : Keyword → Prop
  | execute => ∃ user, r.hears user
  | run => r.calls
  | declare | set | subKey => r.asks
  | language => ∀ v w, r.voices v w
  | reconvey | nameReconvey =>
    r.chats → ∀ v name w, Value.put v "name" name = .ok w → r.voices v w
  | loop | formula | speak | neonSpeak | nameSpeak | case | exit | branch | otherwise | goto
  | subValues | email => True

theorem Role.Free.keyword (h : r.Free) (k : Keyword) : k.Fits r := by
  cases k with
  | execute => exact h.hears
  | run => exact h.calls
  | declare | set | subKey => exact h.asks
  | language => exact h.voices
  | reconvey | nameReconvey => exact fun _ v _ w _ => h.voices v w
  | loop | formula | speak | neonSpeak | nameSpeak | case | exit | branch | otherwise | goto
  | subValues | email => trivial

theorem Acts.perform {k : Keyword} (h : k.Fits r) (text : Value) :
    Acts r (k.perform r.user text) := by
  cases k with
  | declare => exact variableLine h text
  | execute => exact execute h text
  | loop => exact law.loop (fun _ => edit (Amends.law.endLoop _)) step text
  | formula => exact compute text
  | speak => exact law.speak text
  | neonSpeak => exact law.speak text
  | nameSpeak => exact law.nameSpeak text
  | case =>
    exact law.case (fun _ => edit (Amends.law.chooseCase _)) (edit (.step _)) exitScript text
  | exit => exact exitScript
  | branch => exact law.branch (fun _ => edit (Amends.law.steps.enterIf _)) text
  | otherwise => exact law.otherwise (edit Amends.law.steps.passElse) exitScript
  | goto => exact goto text
  | subValues => exact replaceValues text
  | subKey => exact answerPattern h text
  | set => exact setVariable h text
  | reconvey => exact reconvey h text
  | nameReconvey => exact reconvey h text
  | email => exact law.email text
  | language => exact language h text
  | run => exact call h text

end Colloquy
