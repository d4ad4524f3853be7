import Colloquy.Proofs.Utterances

/-! Questions with options.  A script can name a list of options when it asks the user, but only the
name of the variable is kept until the user answers.  So any words are an answer, whatever the
options are, and only empty words are none. -/

namespace Colloquy

open Session Colloquy.Function

namespace Listening

variable {user : Value} {c : Conversation} {s : Session} {m : Message} {name words : String}

theorem answer?_of_plain (hawaited : c.awaited = .str name) (hcomma : ',' ∉ name.toList) :
    answer? c words = .ok (if words = "" then none else some words) := by
  by_cases hwords : words = ""
  · have hmember : Value.member "," c.awaited = .ok false := by
      rw [hawaited]
      exact congrArg Except.ok (Text.contains_eq_false "," rfl hcomma)
    simp [answer?, hmember, bind, Except.bind, pure, Except.pure, hwords]
  · rw [if_neg hwords, answer?_eq hawaited hcomma hwords]

theorem settle_none (user : Value) (m : Message) (s : Session) :
    settle user m none s = .ok false { s with awaiting := s.awaiting ++ [user] } := rfl

theorem settle_some_ne_false (user : Value) (m : Message) (answer : String) (s t : Session) :
    settle user m (some answer) s ≠ .ok false t := by
  intro h
  obtain ⟨_, _, -, hreturn⟩ := bind_ok_iff.1 h
  cases hreturn

end Listening

namespace Running

variable {user : Value} {c : Conversation} {bindings : Entries} {s : Session} {name list : String}

/-- A question keeps the name of the variable that the answer is for, and nothing of what stands
behind a comma. -/
theorem voiceInput (h : Running user c bindings s) (hname : ',' ∉ name.toList) (list : String) :
    ∃ t next names, voiceInput.call (.str (name ++ "," ++ list)) user s = .ok .null t ∧
      Running user (settled next { conversation := { c with awaited := .str name } }) names t ∧
      t.awaiting = s.awaiting ++ [user] ∧ ∀ word, t.held user word = s.held user word := by
  let s' : Session := { s with awaiting := s.awaiting ++ [user] }
  have h' : Running user c bindings s' := ⟨h.isKey, h.initialized, h.running, h.bindings, h.message⟩
  have hbody : Edit.update (fun c => { c with awaited := .str name }) { conversation := c } =
      .ok () { conversation := { c with awaited := .str name } } := rfl
  obtain ⟨t, next, names, hedit, ht, hheld, -⟩ := h'.edits hbody h.bindings
  have hmember : Value.member "," (.str (name ++ "," ++ list)) = .ok true :=
    congrArg Except.ok (Text.contains_append name "," list)
  have hcut : Text.cut? "," (name ++ "," ++ list) = some (name, list) :=
    Text.cut?_append "," rfl hname list
  refine ⟨t, next, names, ?_, ht, ?_, fun word => ?_⟩
  · rw [call, runVoiceInput, await, bind_of_ok (modify_apply _ _), hmember,
      bind_of_ok (lift_ok_apply _ _), if_pos rfl, Value.text, bind_of_ok (lift_ok_apply _ _),
      Text.splitOnce, hcut]
    exact bind_of_ok hedit
  · rw [← after_of_ok hedit]
    exact after_edit_awaiting user _ s'
  · rw [hheld, h.held]

end Running

theorem Request.function_voiceInput {s t : Session} {key user : Value} (message : Option Message)
    (hinitialized : s.initialized = true)
    (h : voiceInput.call key user { s with message, events := [] } = .ok .null t) :
    (Request.function "voice_input" key user).run message s = (.ok .null, t) := by
  have hknown : known { s with message, events := [] } =
      .ok all { s with message, events := [] } := by
    simp only [known, bind_apply, get_apply, hinitialized, pure_apply, if_true]
  have hfind : all.find? (fun f => Value.same "voice_input" f.name) = some .voiceInput := by
    simp [all, Value.str_same, name]
  have hserve : (Request.function "voice_input" key user).serve { s with message, events := [] } =
      .ok .null t := by
    refine (bind_of_ok hknown).trans ?_
    rw [hfind]
    exact h
  simp only [run, hserve]

theorem Request.respond_run_ok {m : Message} {s t : Session} {used : Bool}
    (h : Listening.respond { s with message := some m, events := [] } = .ok used t) :
    Request.respond.run (some m) s = (.ok (.bool used), t) := by
  have hserve : Request.respond.serve { s with message := some m, events := [] } =
      .ok (.bool used) t := bind_of_ok h
  simp only [run, hserve]

theorem Request.respond_run_false {m : Message} {s t : Session}
    (h : Request.respond.run (some m) s = (.ok (.bool false), t)) :
    Listening.respond { s with message := some m, events := [] } = .ok false t := by
  unfold run at h
  split at h
  · rename_i hserve
    obtain ⟨hvalue, rfl⟩ := Prod.mk.inj h
    obtain ⟨used, u, hrespond, hreturn⟩ := bind_ok_iff.1 hserve
    cases hreturn
    cases Except.ok.inj hvalue
    exact hrespond
  · cases h

/-- Whatever list of options a question names, any words of the user that are not empty are kept as
the answer, and the script goes on.  Only for empty words does it wait on, with all as it was. -/
theorem Running.respond_takes_any_words {user : Value} {c : Conversation} {bindings : Entries}
    {s : Session} {name : String} {values : List Value}
    (h : Running user c bindings s) (hself : user.same user = true)
    (hfilename : c.filename.truthy = true) (hrecordings : ∃ entries, c.recordings = .table entries)
    (hname : ',' ∉ name.toList) (hvalues : s.held user name = some (.list values none))
    (message : Message) (list : String) :
    ∃ t, (Request.function "voice_input" (.str (name ++ "," ++ list)) user).run (some message) s =
        (.ok .null, t) ∧
      ∀ m words, m.Voices user words →
        ((∃ u, Request.respond.run (some m) t = (.ok (.bool false), u)) ↔ words = "") ∧
        (words = "" → ∃ u, Request.respond.run (some m) t = (.ok (.bool false), u) ∧
          u.active = t.active ∧ u.awaiting.any (·.same user) = true) ∧
        (words ≠ "" → ∀ file?, m.Records file? → ∃ u,
          (∀ answer, u.held user name = some (.list (.str answer :: values) none) ↔
            answer = Text.trim words) ∧
          Request.respond.run (some m) t = match Execution.resume user u with
            | .ok _ v => (.ok (.bool true), v)
            | .error fault v => (.error fault, v)) := by
  have h₀ : Running user c bindings { s with message := some message, events := [] } :=
    ⟨h.isKey, h.initialized, h.running, h.bindings, message, rfl⟩
  obtain ⟨t, next, names, hcall, ht, hawaiting, hheld⟩ := h₀.voiceInput hname list
  refine ⟨t, Request.function_voiceInput (some message) h.initialized hcall, ?_⟩
  intro m words hvoices
  obtain ⟨manager, below, hm, hstack⟩ := ht.running
  have ht' : Running user (settled next { conversation := { c with awaited := .str name } }) names
      { t with message := some m, events := [] } :=
    ⟨ht.isKey, ht.initialized, ht.running, ht.bindings, m, rfl⟩
  have hawaits : t.awaiting.any (·.same user) = true := by
    rw [hawaiting]
    simp [hself]
  have hresponds := Listening.respond_settles (s := { t with message := some m, events := [] })
    ht.isKey rfl hm hstack hfilename hawaits hvoices (Listening.answer?_of_plain rfl hname)
  by_cases hwords : words = ""
  · rw [if_pos hwords, Listening.settle_none] at hresponds
    have hrun := Request.respond_run_ok hresponds
    exact ⟨iff_of_true ⟨_, hrun⟩ hwords, fun _ => ⟨_, hrun, rfl, by simp [hself]⟩,
      fun hne => absurd hwords hne⟩
  · rw [if_neg hwords] at hresponds
    refine ⟨⟨?_, fun hempty => absurd hempty hwords⟩, fun hempty => absurd hempty hwords, ?_⟩
    · rintro ⟨u, hrun⟩
      rw [Request.respond_run_false hrun] at hresponds
      exact absurd hresponds.symm (Listening.settle_some_ne_false _ _ _ _ _)
    · intro _ file? hrecords
      obtain ⟨u, hgoes, hkept, -⟩ := ht'.respond_held ⟨hfilename, rfl, hawaits, hrecordings⟩ rfl hvoices
        (Listening.answer?_eq rfl hname hwords) hrecords ((hheld name).trans hvalues)
      refine ⟨u, fun answer => ?_, ?_⟩
      · rw [hkept]
        simp [Value.behind, Value.items?, eq_comm]
      · simp only [Request.run, Request.serve]
        rw [bind_apply, hgoes, bind_apply]
        cases Execution.resume user u <;> rfl

def Session.offering : Session :=
  { ofAnswer "" "" [] with awaiting := [] }

/-- None of the drinks is in the words of the user, which are kept all the same. -/
theorem Running.respond_takes_water :
    ["tea", "milk"].find? (Text.contains "water" ·) = none ∧
    ∃ t u,
      (Request.function "voice_input" "y,drinks" "ann").run (some {}) offering = (.ok .null, t) ∧
      (∀ answer, u.held "ann" "y" = some (.list [.str answer] none) ↔ answer = Text.trim "water") ∧
      Request.respond.run (some (.saying "water")) t = match Execution.resume "ann" u with
        | .ok _ v => (.ok (.bool true), v)
        | .error fault v => (.error fault, v) := by
  have hrunning : Running "ann" (.ofAnswer "" [])
      [("y", .ofItems []), ("drinks", .ofItems ["tea", "milk"])] offering :=
    ⟨rfl, rfl, ⟨{ user := "ann", stack := [.conversation (.ofAnswer "" [])] }, [],
      by simp [offering, ofAnswer, managerIn, Value.str_same], rfl⟩, rfl, _, rfl⟩
  have hvalues : offering.held "ann" "y" = some (.list [] none) := by
    rw [hrunning.held]
    simp [Entries.find?, Value.str_same, Value.ofItems, Value.copied, Value.copiedItems_eq]
  have hvoices : (Message.saying "water").Voices "ann" "water" :=
    ⟨Message.user_saying _, ⟨.ofItems ["water"], "water",
      by simp [Message.saying, Entries.find?, Value.str_same], rfl, rfl⟩, by decide⟩
  have hrecords : (Message.saying "water").Records none :=
    .none (by simp [Message.saying, Entries.find?, Value.str_same, Value.truthy])
  obtain ⟨t, hcall, hwords⟩ := hrunning.respond_takes_any_words (by simp [Value.str_same]) rfl
    ⟨[], rfl⟩ (by decide : ',' ∉ "y".toList) hvalues {} "drinks"
  obtain ⟨u, hkept, hgoes⟩ := (hwords _ _ hvoices).2.2 (by decide) none hrecords
  exact ⟨by decide, t, u, hcall, hkept, hgoes⟩

/-- Words without any of the options are of use to the script, which does not wait any more. -/
theorem Listening.respond_accepts_water :
    ["tea", "milk"].find? (Text.contains "water" ·) = none ∧
      Running.returned respond { offering.after (Function.voiceInput.call "y,drinks" "ann") with
        message := some (.saying "water") } = some true := by
  decide +kernel

end Colloquy
