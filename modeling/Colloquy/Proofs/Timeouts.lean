import Colloquy.Proofs.Tags
import Colloquy.Proofs.Utterances

/-! Timeouts.  A script can name a line for the case that the user does not answer in time.  If this
happens, then the script waits for the user once less than before, and the line is the next one of
the script, but it is not run.  Someone else has to go on with the script. -/

namespace Colloquy

open Session Execution

/-- The line that is run if the user does not answer in time has the number `k`: it is named by a tag
of the script, or by the number. -/
inductive Conversation.TimesOutTo (c : Conversation) (k : Int) : Prop
  | tag {tag : String} {tags : Entries} (haction : c.timeoutAction = .str tag)
      (hnumeric : Text.isNumeric tag = false) (htags : c.tags = .table tags)
      (hfind : Entries.find? (.str tag) tags = some (.int k))
  | number (hnumeric : Text.isNumeric c.timeoutAction.display = true)
      (hnumber : c.timeoutAction.toInt = .ok k)

namespace Listening

/-- The user who the message is from has not answered the script `c` in time, which has a line for
this case, the one at the index `i`. -/
structure TimesOut (s : Session) (message : Message) (c : Conversation) (below : List Entry)
    (lines : List Value) (i : Nat) : Prop where
  arrived : s.message = some message
  bare : Entries.find? "parser_data" message.data = none
  isKey : message.user.isKey = true
  stack : s.stackOf message.user = .conversation c :: below
  named : c.filename.truthy = true
  armed : c.timeoutAction.truthy = true
  listed : ∃ number, c.lines = .list lines number
  numbered : ∀ line ∈ lines, (∃ n ∈ line.lineNumber?, 0 < n) ∧ (line.item "indent").isOk = true
  goal : ∃ k, c.TimesOutTo k ∧ lines.findIdx? (·.lineNumber? == some k) = some i

theorem goal_of_timesOutTo {c : Conversation} {k : Int} (h : c.TimesOutTo k) :
    Command.goal c .null c.timeoutAction = .ok (.int k) := by
  cases h with
  | tag haction hnumeric htags hfind =>
    exact Command.goal_of_aims (.named (.inl rfl) haction hnumeric) htags hfind
  | number hnumeric hnumber =>
    simp only [Command.goal, Value.truthy, Bool.false_eq_true, if_false, hnumeric, if_true, hnumber,
      bind, Except.bind, pure, Except.pure]

theorem dropFirst_of_not_any {user : Value} {users : List Value}
    (h : users.any (·.same user) = false) : dropFirst user users = users := by
  induction users with
  | nil => rfl
  | cons u rest ih =>
    obtain ⟨hu, hrest⟩ : u.same user = false ∧ rest.any (·.same user) = false := by simpa using h
    rw [dropFirst, hu, if_neg Bool.false_ne_true, ih hrest]

theorem any_dropFirst (user : Value) (users : List Value) :
    (dropFirst user users).any (·.same user) = decide (2 ≤ users.countP (·.same user)) := by
  induction users with
  | nil => rfl
  | cons u rest ih =>
    by_cases hu : u.same user = true
    · rw [dropFirst, if_pos hu, List.countP_cons, if_pos hu, Bool.eq_iff_iff, List.any_eq_true,
        ← List.countP_pos_iff, decide_eq_true_iff]
      omega
    · rw [dropFirst, if_neg hu, List.any_cons, ih, List.countP_cons, if_neg hu]
      simp [hu]

theorem resume_of_awaiting {user : Value} {s : Session} {c : Conversation} {rest : List Entry}
    (hkey : user.isKey = true) (hmessage : s.message.isSome = true)
    (hstack : s.stackOf user = .conversation c :: rest)
    (hwaits : s.awaiting.any (·.same user) = true) : resume user s = .ok () s := by
  rw [resume, lineLimit, proceed_succ hmessage]
  refine rescue_of_ok ?_
  rw [bind_of_ok (advance_of_awaiting hkey hstack hwaits)]
  rfl

namespace TimesOut

variable {s : Session} {message : Message} {c : Conversation} {below : List Entry}
  {lines : List Value} {i : Nat}

theorem timeOut_eq (h : TimesOut s message c below lines i) :
    timeOut s = Command.goto message.user c.timeoutAction
      { s with awaiting := dropFirst message.user s.awaiting } := by
  obtain ⟨m, hm, htop⟩ := exists_managerIn_of_stackOf h.stack
  have huser : Message.userOf s.message = message.user := by rw [h.arrived]; rfl
  unfold timeOut
  rw [bind_of_ok (get_apply s), huser, bind_of_ok (current_of_stack h.isKey hm htop),
    if_pos h.named, if_pos h.armed, bind_of_ok (isAwaiting_apply message.user s)]
  cases hwaits : s.awaiting.any (·.same message.user) with
  | true => rw [if_pos rfl, stopAwaiting, bind_of_ok (modify_apply _ _)]
  | false =>
    rw [if_neg Bool.false_ne_true, dropFirst_of_not_any hwaits]

/-- When the time is over, the script waits for the user once less, and its next line is the one for
this case.  The script does not go on.  If it did, then nothing would change if it was waiting for the
user twice; else this line would be run. -/
theorem timeOut_stays_at_line (h : TimesOut s message c below lines i) :
    ∃ t c', timeOut s = .ok () t ∧ t.stackOf message.user = .conversation c' :: below ∧
      c'.index = .int i ∧ c'.lines = c.lines ∧
      t.awaiting = dropFirst message.user s.awaiting ∧ t.events = s.events ∧
      (do
        stopAwaiting message.user
        Command.goto message.user c.timeoutAction
        resume message.user) s = resume message.user t ∧
      (2 ≤ s.awaiting.countP (·.same message.user) → resume message.user t = timeOut s) ∧
      (s.awaiting.countP (·.same message.user) < 2 →
        advance message.user t = runNext c' message.user t) := by
  obtain ⟨number, hlines⟩ := h.listed
  obtain ⟨k, hto, hindex⟩ := h.goal
  have hdata : message.lineData = .null := by rw [Message.lineData, h.bare]; rfl
  obtain ⟨t, c', hgoto, hstack, hat, hsame, hmessage, hawaiting, hevents⟩ :=
    Command.goto_of_goal (s := { s with awaiting := dropFirst message.user s.awaiting }) h.isKey
      h.stack h.arrived (by rw [hdata]; exact goal_of_timesOutTo hto)
      (by rw [hlines]; rfl) h.numbered hindex
  have htimeOut : timeOut s = .ok () t := h.timeOut_eq.trans hgoto
  have hwaits : t.awaiting.any (·.same message.user) =
      decide (2 ≤ s.awaiting.countP (·.same message.user)) := by
    rw [hawaiting]
    exact any_dropFirst _ _
  refine ⟨t, c', htimeOut, hstack, hat, hsame, hawaiting, hevents, ?_, fun htwice => ?_,
    fun honce => ?_⟩
  · rw [stopAwaiting, bind_of_ok (modify_apply _ _), bind_of_ok hgoto]
  · rw [htimeOut]
    refine resume_of_awaiting h.isKey ?_ hstack (hwaits.trans (decide_eq_true htwice))
    rw [hmessage, h.arrived]
    rfl
  · obtain ⟨m, hm, htop⟩ := exists_managerIn_of_stackOf hstack
    obtain ⟨hlt, -⟩ := List.findIdx?_eq_some_iff_getElem.1 hindex
    exact advance_eq_runNext h.isKey (hwaits.trans (decide_eq_false (Nat.not_le.2 honce))) hm htop
      ⟨number, hsame.trans hlines⟩ hat (List.getElem?_eq_getElem hlt)

end TimesOut

end Listening

def Conversation.overdue : Conversation :=
  { ofLines [] with
    lines := .ofItems [lineOf "" 0 "Script: demo" (.int 1) .null,
      lineOf "voice_input" 0 "voice_input(y)" (.int 2) .null, lineOf "exit" 0 "exit" (.int 3) .null]
    index := .int 1
    timeoutAction := "later"
    tags := .object [("later", .int 3)] }

def Session.overdue (awaiting : List Value) : Session :=
  { initialized := true
    root := "/skill"
    message := some { context := [("user", "ann")] }
    active := [("ann", { user := "ann", stack := [.conversation .overdue] })]
    awaiting
    lists := 1 }

/-- The script is at the line that leaves it. -/
theorem Listening.TimesOut.timeOut_stays_at_line_overdue :
    ∃ t c', Listening.timeOut (.overdue ["ann"]) = .ok () t ∧
      t.stackOf "ann" = [.conversation c'] ∧ c'.index = .int 2 ∧ t.awaiting = [] ∧ t.events = [] ∧
      advance "ann" t = runNext c' "ann" t := by
  have huser : ({ context := [("user", "ann")] } : Message).user = "ann" := by
    simp [Message.user, Entries.find?, Value.str_same]
  have hout : Listening.TimesOut (.overdue ["ann"]) { context := [("user", "ann")] } .overdue []
      [lineOf "" 0 "Script: demo" (.int 1) .null,
        lineOf "voice_input" 0 "voice_input(y)" (.int 2) .null,
        lineOf "exit" 0 "exit" (.int 3) .null] 2 := by
    refine ⟨rfl, rfl, by rw [huser]; rfl, ?_, rfl, by decide, ⟨none, rfl⟩, ?_, 3, ?_, ?_⟩
    · simp [huser, stackOf, Session.overdue, managerIn, Value.str_same]
    · decide +kernel
    · exact .tag rfl (by decide) rfl (by simp [Entries.find?, Value.str_same])
    · decide +kernel
  obtain ⟨t, c', hrun, hstack, hindex, -, hawaiting, hevents, -, -, hnext⟩ :=
    hout.timeOut_stays_at_line
  rw [huser] at hstack hawaiting hnext
  refine ⟨t, c', hrun, hstack, hindex, ?_, hevents, hnext ?_⟩
  · simpa [Session.overdue, dropFirst, Value.str_same] using hawaiting
  · simp [Session.overdue, Value.str_same]

/-- The script is still there, though the line that it is at leaves it. -/
theorem Listening.timeOut_waits_overdue :
    ((Session.overdue ["ann"]).after Listening.timeOut).depthOf "ann" = 1 ∧
      ((Session.overdue ["ann"]).after do
        stopAwaiting "ann"
        Command.goto "ann" "later"
        resume "ann").depthOf "ann" = 0 := by
  decide +kernel

end Colloquy
