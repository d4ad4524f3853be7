import Colloquy.Proofs.Asking

/-! Who waits.  A script that asks its user for words waits for them, and goes on when they come.  As
long as scripts ask only by lines of their own, no user is waited for twice, and each one who is waited
for has a script.  What takes a script away from a user without a look at whether the user is waited
for is the end of the time to answer, and a request for a script that is not compiled. -/

namespace Colloquy

open Session Execution Value Listening Launch List

variable {α β : Type}

/-! ### Other users -/

/-- Users who are told apart by their names. -/
structure Users (U : Value → Prop) : Prop where
  self : ∀ {x}, U x → x.same x = true
  apart : ∀ {x y}, U x → U y → x = y ∨ x.Apart y

theorem Users.texts : Users fun x => ∃ name, x = .str name where
  self := by
    rintro x ⟨name, rfl⟩
    simp [str_same]
  apart := by
    rintro x y ⟨name, rfl⟩ ⟨other, rfl⟩
    by_cases h : name = other
    · exact .inl (by rw [h])
    · exact .inr (str_apart (by simp [str_same, h]))

section

variable {r : Remit} {other : Value} {moves : Bool} {s t : Session}

theorem Step.isSome_other (hstep : Step r moves s t) (h : r.Spares other) :
    (managerIn t.active other).isSome = (managerIn s.active other).isSome := by
  have hkept {m : Manager} (draft : Draft) : (managerIn (kept r.user m draft s).active other).isSome =
      (managerIn s.active other).isSome := by
    simp only [kept]
    rw [managerIn_withManager_of_apart h.user.names h.user.self, managerIn_withChanges,
      Option.isSome_map]
  cases hstep with
  | quiet hactive => rw [hactive]
  | await | release => rfl
  | edit => exact hkept _
  | answer _ hhears =>
    obtain rfl := h.hears _ hhears
    exact hkept _
  | share => rw [managerIn_withChanges, Option.isSome_map]
  | push | pop | publish =>
    exact congrArg _ (managerIn_withManager_of_apart h.user.names h.user.self _ _)
  | drop => exact congrArg _ (managerIn_filter_of_apart h.user.names _)

theorem Path.isSome_other (hpath : Path r moves s t) (h : r.Spares other) :
    (managerIn t.active other).isSome = (managerIn s.active other).isSome := by
  induction hpath with
  | refl => rfl
  | step hstep _ _ ih => rw [ih, hstep.isSome_other h]

theorem Session.mem_of_mem_dropFirst {user x : Value} {users : List Value}
    (h : x ∈ dropFirst user users) : x ∈ users := by
  induction users with
  | nil => exact h
  | cons y rest ih =>
    simp only [dropFirst] at h
    split at h
    · exact mem_cons_of_mem _ h
    · rcases mem_cons.1 h with rfl | hrest
      · exact mem_cons_self
      · exact mem_cons_of_mem _ (ih hrest)

theorem Step.mem_awaiting (hstep : Step r moves s t) {x : Value} (hx : x ∈ t.awaiting) :
    x ∈ s.awaiting ∨ x = r.user := by
  cases hstep with
  | quiet _ hawaiting => exact .inl (hawaiting ▸ hx)
  | await => simpa using hx
  | release => exact .inl (mem_of_mem_dropFirst hx)
  | edit | answer => exact .inl (by rwa [kept_awaiting] at hx)
  | share => exact .inl (by rwa [withChanges_eq] at hx)
  | push | pop | publish | drop => exact .inl hx

theorem Path.mem_awaiting (hpath : Path r moves s t) {x : Value} (hx : x ∈ t.awaiting) :
    x ∈ s.awaiting ∨ x = r.user := by
  induction hpath with
  | refl => exact .inl hx
  | step hstep _ _ ih =>
    rcases ih hx with hmem | huser
    · exact hstep.mem_awaiting hmem
    · exact .inr huser

end

theorem Session.reaches_all (user : Value) (s : Session) : s.Reaches user fun _ => True :=
  ⟨⟨fun _ _ => trivial, listsIn_all _, entriesIn_all _, entriesIn_all _⟩,
    fun _ _ => listsIn_all _⟩

/-! ### Runs -/

/-- A user is waited for at most once, and only if there is an entry for the user. -/
structure Session.Settled (user : Value) (s : Session) : Prop where
  once : s.awaiting.countP (·.same user) ≤ 1
  entry : 0 < s.awaiting.countP (·.same user) → (managerIn s.active user).isSome = true

/-- A user is not waited for, and all scripts ask for words only by lines of their own. -/
structure Session.Clear (user : Value) (s : Session) : Prop where
  obeys : s.Obeys Entry.AskByLines Library.AsksByLines
  count : s.awaiting.countP (·.same user) = 0

section

variable {user : Value} {s t : Session}

theorem Session.settled_of_count (h : s.awaiting.countP (·.same user) = 0) : s.Settled user :=
  ⟨by omega, by omega⟩

theorem Session.settled_of_asked (huser : user.same user = true) {waiting : List Value}
    (hwaiting : waiting.countP (·.same user) = 0) (ht : t.awaiting = waiting ++ [user])
    (hentry : (managerIn t.active user).isSome = true) : t.Settled user := by
  refine ⟨?_, fun _ => hentry⟩
  rw [ht, countP_append, hwaiting, countP_singleton, huser]
  decide

theorem Session.Clear.of_acts {m : Run α} {Q : α → Prop} (h : s.Clear user)
    (hm : Acts (.unasking user s.message) m Q) : (s.after m).Clear user :=
  ⟨(Entry.AskByLines.launchLaw.stack _).stable.of_unasking hm h.obeys,
    by rw [hm.awaiting_eq]; exact h.count⟩

/-- The end of a computation after which a user is waited for as a script says, and not at all if it
fails. -/
def Session.Settles (user : Value) : EStateM.Result Fault Session α → Prop
  | .ok _ t => t.Settled user
  | .error _ t => t.awaiting.countP (·.same user) = 0

namespace Session.Settles

theorem after {m : Run α} (h : Settles user (m s)) : (s.after m).Settled user := by
  rw [Session.after]
  cases hrun : m s with
  | ok a t =>
    rw [hrun] at h
    exact h
  | error fault t =>
    rw [hrun] at h
    exact settled_of_count h

theorem of_count {m : Run α} (h : (s.after m).awaiting.countP (·.same user) = 0) :
    Settles user (m s) := by
  cases hrun : m s with
  | ok a t =>
    rw [after_of_ok hrun] at h
    exact settled_of_count h
  | error fault t =>
    rw [after_of_error hrun] at h
    exact h

theorem bind {m : Run α} {f : α → Run β} {Q : α → Prop} (h : s.Clear user)
    (hm : Acts (.unasking user s.message) m Q)
    (hf : ∀ a t, t.Clear user → Settles user (f a t)) : Settles user ((m >>= f) s) := by
  have hafter := h.of_acts hm
  cases hrun : m s with
  | ok a t =>
    rw [after_of_ok hrun] at hafter
    rw [bind_of_ok hrun]
    exact hf a t hafter
  | error fault t =>
    rw [after_of_error hrun] at hafter
    rw [bind_of_error hrun]
    exact hafter.count

theorem rescue {m : Run α} {handler : Fault → Run α} (hm : Settles user (m s))
    (hhandler : ∀ fault t, t.awaiting.countP (·.same user) = 0 → Settles user (handler fault t)) :
    Settles user (rescue m handler s) := by
  obtain hsame | ⟨fault, t, hrun, hrescue⟩ := rescue_cases m handler s
  · rwa [hsame]
  · rw [hrun] at hm
    rw [hrescue]
    exact hhandler fault t hm

theorem giveUp (report : Report) (h : s.awaiting.countP (·.same user) = 0) :
    Settles user (giveUp user report s) := by
  have hacts : Acts (.unasking user s.message) (Colloquy.giveUp user report) :=
    .seq (Acts.law.tellError _ _) fun _ => .exitScript
  refine of_count ?_
  rw [hacts.awaiting_eq]
  exact h

theorem proceed (huser : user.same user = true) (budget : Nat) (h : s.Clear user) :
    Settles user (proceed budget user s) := by
  induction budget generalizing s with
  | zero => exact h.count
  | succ budget ih =>
    -- A line that has asked does not go on, so the next one is run with nobody waited for.
    cases hmessage : s.message with
    | none =>
      have hnone : theMessage s = .error .missingOperation s := by
        simp [theMessage, bind_apply, hmessage]
      rw [proceed, bind_of_error hnone]
      exact h.count
    | some message =>
      rw [proceed_succ (by rw [hmessage]; rfl)]
      refine rescue ?_ fun _ t ht => giveUp _ ht
      have hwaits := Waits.advance (h.obeys.stackOf (fun c hc => by cases hc) user)
      have hobeys : (s.after (advance user)).Obeys Entry.AskByLines Library.AsksByLines :=
        (Entry.AskByLines.launchLaw.stack _).stable.of_acts
          (.advance (Role.free_ofMessage user s.message)) h.obeys
      cases hline : advance user s with
      | error fault t =>
        rw [hline] at hwaits
        rw [bind_of_error hline]
        exact (congrArg (countP _) hwaits).trans h.count
      | ok goes t =>
        rw [hline] at hwaits
        rw [after_of_ok hline] at hobeys
        rw [bind_of_ok hline]
        have hsame (hawaiting : t.awaiting = s.awaiting) : t.awaiting.countP (·.same user) = 0 := by
          rw [hawaiting]
          exact h.count
        obtain hawaiting | ⟨rfl, hasked, hentry⟩ := hwaits
        · cases goes with
          | false => exact settled_of_count (hsame hawaiting)
          | true => exact ih ⟨hobeys, hsame hawaiting⟩
        · exact settled_of_asked huser h.count hasked hentry

end Session.Settles

/-! ### What the user says -/

theorem Session.any_same_iff : s.awaiting.any (·.same user) = true ↔
    0 < s.awaiting.countP (·.same user) := by
  rw [countP_pos_iff, any_eq_true]

theorem Session.isAwaiting_apply (user : Value) (s : Session) :
    isAwaiting user s = .ok (s.awaiting.any (·.same user)) s :=
  rfl

/-- A user is waited for at most once, and all scripts ask for words only by lines of their own. -/
structure Session.Attended (user : Value) (s : Session) : Prop extends s.Settled user where
  obeys : s.Obeys Entry.AskByLines Library.AsksByLines

namespace Session.Attended

theorem stopAwaiting (h : s.Attended user) :
    Clear user { s with awaiting := dropFirst user s.awaiting } := by
  refine ⟨⟨h.obeys.managers, h.obeys.scripts⟩, ?_⟩
  have hcount := countP_dropFirst_self user s.awaiting
  have honce := h.once
  show (dropFirst user s.awaiting).countP (·.same user) = 0
  omega

theorem clear (h : s.Attended user) (hwaits : ¬ s.awaiting.any (·.same user) = true) :
    s.Clear user := by
  rw [any_same_iff] at hwaits
  exact ⟨h.obeys, by omega⟩

end Session.Attended

namespace Session.Settles

variable (huser : user.same user = true)

include huser

theorem leaveLoop (c : Conversation) (h : s.Attended user) :
    Settles user (Listening.leaveLoop user c s) := by
  unfold Listening.leaveLoop
  extract_lets rest
  have hscript (t : Session) (ht : t.awaiting.countP (·.same user) = 0) :
      Settles user (leaveScript user t) := by
    refine of_count ?_
    have hacts : Acts (.unasking user t.message) (leaveScript user) :=
      Acts.law.leaveScript .exitScript
    rw [hacts.awaiting_eq]
    exact ht
  have hrest (u : PUnit) (t : Session) (ht : t.Clear user) : Settles user (rest u t) := by
    refine bind ht (.lift_any _) fun place? v hv => ?_
    cases place? with
    | none => exact hscript v hv.count
    | some place =>
      refine bind hv (.edit (.update fun _ => ?_)) fun _ w hw => ?_
      · exact .same rfl
      · exact bind hw Acts.law.confirm fun _ _ hx => proceed huser _ hx
  refine rescue ?_ fun _ t ht => hscript t ht
  rw [bind_of_ok (isAwaiting_apply user s)]
  split
  · exact hrest () _ h.stopAwaiting
  · rename_i hwaits
    exact hrest () _ (h.clear hwaits)

theorem takeAnswer (m : Message) (answer : String) (h : s.Clear user) :
    Settles user (takeAnswer user m answer s) := by
  have hrest (t : Session) (ht : t.Clear user) : Settles user ((do
      confirm
      sleep 1000
      resume user : Run Unit) t) :=
    bind ht Acts.law.confirm fun _ v hv => bind hv (.sleep _) fun _ w hw => proceed huser _ hw
  refine bind h (.edit (.keepAnswer _)) fun _ t ht => ?_
  dsimp only
  split
  · refine bind ht (.lift_any _) fun _ v hv => ?_
    exact bind hv (.edit (.keepRecording _)) fun _ w hw => hrest w hw
  · exact hrest t ht

theorem hear (m : Message) (c : Conversation) (h : s.Attended user) :
    (s.after (hear user m c)).Settled user := by
  have hstay : s.Settled user := h.toSettled
  refine (Looks.datum _ _).bind_after hstay fun utterances _ => ?_
  refine (Looks.lift _).bind_after hstay fun utterance _ => ?_
  refine (Looks.lift _).bind_after hstay fun words _ => ?_
  split
  · rw [after_bind_of_looks fun _ => .pure _]
    exact (leaveLoop huser c h).after
  rw [after_bind_of_ok (isAwaiting_apply user s)]
  split
  · rename_i hwaits
    have hclear := h.stopAwaiting
    rw [stopAwaiting, after_bind_of_ok (modify_apply _ _)]
    refine (Looks.lift _).bind_after (settled_of_count hclear.count) fun answer? _ => ?_
    cases answer? with
    | some answer =>
      rw [after_bind_of_looks fun _ => .pure _]
      exact (takeAnswer huser m answer hclear).after
    | none => exact settled_of_asked huser hclear.count rfl (h.entry (any_same_iff.1 hwaits))
  · exact hstay

end Session.Settles

/-- The user of the message is waited for as the scripts say. -/
def Session.Heeds (s : Session) : Prop :=
  s.Attended (Message.userOf s.message)

theorem Session.Heeds.respond (h : s.Heeds)
    (huser : (Message.userOf s.message).same (Message.userOf s.message) = true) :
    (s.after respond).Settled (Message.userOf s.message) := by
  have hstay : s.Settled (Message.userOf s.message) := h.toSettled
  refine Looks.theMessage.bind_after hstay fun m hm => ?_
  have hm : Message.userOf s.message = m.user := by
    rw [theMessage_ok hm]
    rfl
  refine (Looks.manager? _).bind_after hstay fun manager? _ => ?_
  cases manager? with
  | none => exact hstay
  | some manager =>
    refine (Looks.lift _).bind_after hstay fun c? _ => ?_
    refine (Looks.present c?).bind_after hstay fun c _ => ?_
    split
    · rw [← hm]
      exact Settles.hear huser m c h
    · exact hstay

theorem Session.Settled.of_same (h : s.Settled user) (hactive : t.active = s.active)
    (hawaiting : t.awaiting = s.awaiting) : t.Settled user := by
  refine ⟨?_, ?_⟩
  · rw [hawaiting]
    exact h.once
  · rw [hawaiting, hactive]
    exact h.entry

theorem Session.Heeds.converse (h : s.Heeds)
    (huser : (Message.userOf s.message).same (Message.userOf s.message) = true) :
    (s.after converse).Settled (Message.userOf s.message) := by
  have hstay : s.Settled (Message.userOf s.message) := h.toSettled
  have hrestart {t : Session} (ht : t.Settled (Message.userOf s.message)) (x : Value) :
      (t.after (restartTimeout x)).Settled (Message.userOf s.message) := by
    refine (Looks.current x).bind_after ht fun c _ => (Looks.lift _).bind_after ht fun timed _ => ?_
    split
    · refine (Looks.lift _).bind_after ht fun _ _ => Looks.theMessage.bind_after ht fun _ _ => ?_
      exact ht.of_same rfl rfl
    · exact ht
  refine Looks.theMessage.bind_after hstay fun m _ => ?_
  refine (Looks.datum _ _).bind_after hstay fun utterances _ => ?_
  split
  · exact hstay
  refine (Looks.lift _).bind_after hstay fun words _ => ?_
  split
  · exact hstay
  extract_lets origin
  clear_value origin
  refine (Looks.lift _).bind_after hstay fun _ _ => ?_
  split
  · exact hstay
  refine (Looks.manager? _).bind_after hstay fun manager? _ => ?_
  cases manager? with
  | none => exact hstay
  | some manager =>
    refine (Looks.lift _).bind_after hstay fun c? _ => ?_
    cases c? with
    | none => exact hstay
    | some c =>
      refine (Looks.lift _).bind_after hstay fun _ _ => ?_
      split
      · exact hstay
      refine after_bind (h.respond huser) fun consumed t _ ht => ?_
      split
      · rw [after_bind_of_looks fun _ => .pure _]
        exact hrestart ht _
      · exact ht

/-- Whether an event tells of scripts that are taken away from their user, whether or not the user is
waited for. -/
def Event.takesAway : Event → Bool
  | .dialog name _ _ _ => name == "TimeoutExit" || name == "ProblemInFile"
  | _ => false

/-- In the second session the user is waited for as the scripts say, unless a script was taken away
from the user who was waited for in the first one. -/
def Session.Follows (user : Value) (s t : Session) : Prop :=
  (s.awaiting.any (·.same user) = true → ∀ e ∈ t.events, e.takesAway = false) → t.Settled user

theorem Session.Heeds.timeOut (h : s.Heeds) :
    Follows (Message.userOf s.message) s (s.after Listening.timeOut) := by
  have hstay : Follows (Message.userOf s.message) s s := fun _ => h.toSettled
  unfold Heeds at h
  unfold Listening.timeOut
  rw [after_bind_of_ok (get_apply s)]
  generalize Message.userOf s.message = user at h hstay ⊢
  have hgoto (action : Value) {t : Session} (ht : t.Clear user) :
      Follows user s (t.after (Command.goto user action)) :=
    fun _ => settled_of_count (ht.of_acts (.goto action)).count
  refine (Looks.current user).bind_after hstay fun c _ => ?_
  split
  · split
    · rw [after_bind_of_ok (isAwaiting_apply user s)]
      split
      · exact hgoto _ h.stopAwaiting
      · rename_i hwaits
        exact hgoto _ (h.clear hwaits)
    · rw [tell, after_bind_of_ok (modify_apply _ _)]
      intro htakes
      by_cases hwaits : s.awaiting.any (·.same user) = true
      · -- The user was told that the time has ended, which the condition on the events excludes.
        cases htakes hwaits (.dialog "TimeoutExit" (.object [("duration", c.timeout)]) true c.speaker)
          ((Records.exitScript user _).subset mem_cons_self)
      · refine settled_of_count ?_
        rw [(exitScript_leaves user _).awaiting_eq]
        exact (h.clear hwaits).count
  · exact hstay

theorem Launch.after_beginScript_awaiting (user : Value) (filename : String) (script? : Option Value)
    (s : Session) : (s.after (beginScript user filename script?)).awaiting = s.awaiting := by
  obtain ⟨scriptMeta, hscript?⟩ := exists_beginScript user filename script?
  rw [hscript?]
  obtain ⟨fault, herror⟩ | ⟨time, -, -, hbegin⟩ := begin_cases user scriptMeta filename s
  · rw [after_bind_of_error herror]
  rw [after_bind_of_ok hbegin]
  refine (Looks.current user).bind_after (T := fun t => t.awaiting = s.awaiting) rfl fun c _ => ?_
  refine after_bind (T := fun t => t.awaiting = s.awaiting) ?_ fun _ t _ ht =>
    (after_edit_awaiting user _ t).trans ht
  obtain ⟨files, hafter⟩ := after_addTranscript (.str ("RUNNING SCRIPT " ++ filename ++ "\n"))
    filename (.int c.startTime) (replaced user _ s)
  rw [hafter]
  rfl

theorem Session.Settles.running (huser : user.same user = true) (h : s.Clear user)
    (name filename : String) {script? : Option Value}
    (hscript : ∀ script ∈ script?, Library.AsksByLines (.ok script)) :
    Settles user (Launch.running user name filename script? s) := by
  have hbegun : (s.after (beginScript user filename script?)).Clear user :=
    ⟨Entry.AskByLines.launchLaw.beginScript h.obeys user filename hscript,
      by rw [after_beginScript_awaiting]; exact h.count⟩
  unfold Launch.running
  cases hbegin : beginScript user filename script? s with
  | error fault t =>
    rw [after_of_error hbegin] at hbegun
    rw [bind_of_error hbegin]
    exact hbegun.count
  | ok _ t =>
    rw [after_of_ok hbegin] at hbegun
    rw [bind_of_ok hbegin]
    refine bind hbegun (.datum _ .null) fun utterance u hu => ?_
    exact bind hu (.edit (Amends.law.enter utterance name)) fun _ v hv => proceed huser _ hv

theorem Session.Heeds.start (h : s.Heeds)
    (huser : (Message.userOf s.message).same (Message.userOf s.message) = true) :
    Follows (Message.userOf s.message) s (s.after Launch.start) := by
  have hscripts := h.obeys.scripts
  refine Launch.after_start (fun _ => h.toSettled) (fun _ _ _ _ _ => h.toSettled.of_same rfl rfl)
    (fun files reads filename _ => ?_) fun files reads name script? hfound => ?_
  all_goals
    unfold Heeds at h
    generalize Message.userOf s.message = user at h huser ⊢
    intro htakes
  · by_cases hwaits : s.awaiting.any (·.same user) = true
    · cases htakes hwaits (problem filename) mem_cons_self
    · exact settled_of_count (h.clear hwaits).count
  · by_cases hwaits : s.awaiting.any (·.same user) = true
    · -- The script is put on top of the one that waits, and is not run.
      obtain ⟨m, hm⟩ := Option.isSome_iff_exists.1 (h.entry (any_same_iff.1 hwaits))
      obtain hsame | hrun := running_interrupts (s := { s with files, reads }) hm hwaits name
        (filenameOf name) script?
      · rw [hsame]
        exact h.toSettled.of_same rfl rfl
      · obtain ⟨c, hstack⟩ := hrun.stack
        obtain ⟨m', hm', -⟩ := exists_managerIn_of_stackOf hstack
        exact ⟨by rw [hrun.awaiting]; exact h.once, fun _ => by rw [hm']; rfl⟩
    · have hclear := h.clear hwaits
      have hs : Clear user { s with files, reads } :=
        ⟨⟨hclear.obeys.managers, hscripts.makeFolder hfound.folder⟩, hclear.count⟩
      exact (Settles.running huser hs name (filenameOf name) (hfound.holds hscripts)).after

theorem Session.Heeds.hearAnswer (h : s.Heeds) :
    (s.after (Command.hearAnswer s.message)).Settled (Message.userOf s.message) := by
  obtain hsame | ⟨m, c, rest, hm, -, hkept⟩ := Command.after_hearAnswer s.message s
  · rw [hsame]
    exact h.toSettled
  · rw [hkept]
    refine ⟨?_, fun _ => ?_⟩
    · rw [kept_awaiting]
      exact h.once
    · rw [managerIn_kept_self _ hm]
      rfl

end

/-! ### Requests -/

/-- The requests by which scripts are started, heard and ended. -/
inductive Request.Attends : Request → Prop
  | start : Attends .start
  | converse : Attends .converse
  | respond : Attends .respond
  | hearAnswer : Attends .hearAnswer
  | timeOut : Attends .timeOut

theorem Request.Attends.for {request : Request} (h : request.Attends) (user : Value) :
    request.For user := by
  cases h with
  | start => exact .start
  | converse => exact .converse
  | respond => exact .respond
  | hearAnswer => exact .hearAnswer
  | timeOut => exact .timeOut

theorem Session.Heeds.serve {s : Session} (h : s.Heeds)
    (huser : (Message.userOf s.message).same (Message.userOf s.message) = true) {request : Request}
    (hattends : request.Attends) : Follows (Message.userOf s.message) s (s.after request.serve) := by
  cases hattends with
  | start =>
    rw [Request.serve, Request.silently, after_bind_of_looks fun _ => .pure _]
    exact h.start huser
  | converse =>
    rw [Request.serve, after_bind_of_looks fun _ => .pure _]
    exact fun _ => h.converse huser
  | respond =>
    rw [Request.serve, after_bind_of_looks fun _ => .pure _]
    exact fun _ => h.respond huser
  | hearAnswer =>
    rw [Request.serve, after_bind_of_ok (get_apply s), Request.silently,
      after_bind_of_looks fun _ => .pure _]
    exact fun _ => h.hearAnswer
  | timeOut =>
    rw [Request.serve, Request.silently, after_bind_of_looks fun _ => .pure _]
    exact h.timeOut

/-- Requests of users by which no script is taken away from a user who is waited for. -/
structure Session.Attends (U : Value → Prop) (s : Session) (request : Request)
    (message : Option Message) : Prop where
  attends : request.Attends
  user : U (Message.userOf message)
  keeps : s.awaiting.any (·.same (Message.userOf message)) = true →
    ∀ e ∈ (request.run message s).2.events, e.takesAway = false

theorem Request.Attends.settled_other {request : Request} (h : request.Attends)
    {message : Option Message} {s : Session} {other : Value}
    (hother : (Message.userOf message).Apart other) (hs : s.Settled other) :
    (request.run message s).2.Settled other := by
  have hpath := (h.for _).path rfl (s.reaches_all (Message.userOf message))
  have hspares : (Remit.ofUser (Message.userOf message) fun _ => True).Spares other :=
    ⟨hother, fun _ h => h⟩
  have hcount := hpath.awaiting_other hspares
  have hentry := hpath.isSome_other hspares
  refine ⟨?_, ?_⟩
  · rw [hcount]
    exact hs.once
  · rw [hcount, hentry]
    exact hs.entry

/-- If scripts ask for words only by lines of their own, then in all sessions that come about from one
without users by starting scripts, by what users say and by the end of the time to answer, each user
who is waited for is so once, and has an entry.  No script may be taken away from a user who is
waited for, as it is when the time to answer ends without anything to do then, and by a request for a
script that is not compiled. -/
theorem Session.Reachable.awaits_running {U : Value → Prop} (hU : Users U) {s t : Session}
    (h : Reachable (Session.Attends U) s t) (hactive : s.active = []) (hawaiting : s.awaiting = [])
    (hscripts : s.files.Hold Library.AsksByLines) {x : Value} (hx : x ∈ t.awaiting) :
    U x ∧ t.awaiting.countP (·.same x) = 1 ∧ (managerIn t.active x).isSome = true := by
  have hstart : s.Obeys Entry.AskByLines Library.AsksByLines :=
    ⟨by simp [hactive], hscripts⟩
  have hsettled : (∀ x ∈ t.awaiting, U x) ∧ ∀ x, U x → t.Settled x := by
    clear hx
    induction h with
    | refl =>
      rw [hawaiting]
      exact ⟨nofun, fun x _ => settled_of_count (by rw [hawaiting]; rfl)⟩
    | @request t request message hreachable hattends ih =>
      have hobeys := Entry.AskByLines.launchLaw.of_reachable
        (fun _ _ _ h => ⟨.null, h.attends.for _⟩) hreachable hstart
      refine ⟨fun x hx => ?_, fun x hx => ?_⟩
      · have hpath := (hattends.attends.for _).path rfl (t.reaches_all (Message.userOf message))
        rcases hpath.mem_awaiting hx with hold | rfl
        · exact ih.1 x hold
        · exact hattends.user
      -- The user who sends the request is served as above, and the others are not concerned.
      rcases hU.apart hattends.user hx with rfl | hapart
      · have hheeds : Session.Heeds { t with message, events := [] } :=
          ⟨(ih.2 _ hx).of_same rfl rfl, ⟨hobeys.managers, hobeys.scripts⟩⟩
        have hkeeps := hattends.keeps
        rw [Request.run_eq_after] at hkeeps ⊢
        exact hheeds.serve (hU.self hx) hattends.attends hkeeps
      · exact hattends.attends.settled_other hapart (ih.2 x hx)
    | wait _ clock ih => exact ⟨ih.1, fun x hx => (ih.2 x hx).of_same rfl rfl⟩
  have hUx := hsettled.1 x hx
  have hs := hsettled.2 x hUx
  have hpos : 0 < t.awaiting.countP (·.same x) := List.countP_pos_iff.2 ⟨x, hx, hU.self hUx⟩
  have honce := hs.once
  exact ⟨hUx, by omega, hs.entry hpos⟩

def Session.ofScript (script : String) : Session :=
  { initialized := true
    root := "/skill"
    files := Files.addFile {} (scriptFolder ++ ["demo.ncs"]) script }

def Session.requested (request : Request) (data : Entries) (s : Session) : Session :=
  (request.run (some { data, context := [("user", "ann")] }) s).2

section

variable {s t : Session} {request : Request}

theorem Session.reachable_requested (h : Reachable (fun _ request _ => request.Attends) s t)
    (hattends : request.Attends) (data : Entries) :
    Reachable (fun _ request _ => request.Attends) s (t.requested request data) :=
  .request h hattends

theorem Session.attends_requested (h : Reachable (Attends fun x => ∃ name, x = .str name) s t)
    (hattends : request.Attends) (data : Entries)
    (hkeeps : t.awaiting.any (·.same "ann") = true →
      ((t.requested request data).events.all fun e => !e.takesAway) = true) :
    Reachable (Attends fun x => ∃ name, x = .str name) s (t.requested request data) := by
  have huser : Message.userOf (some { data, context := [("user", "ann")] }) = "ann" := by
    simp [Message.userOf, Message.user, Entries.find?, str_same]
  refine .request h ⟨hattends, ⟨"ann", huser⟩, fun hwaits e he => ?_⟩
  rw [huser] at hwaits
  simpa using all_eq_true.1 (hkeeps hwaits) e he

end

def Session.startDemo (s : Session) : Session :=
  s.requested .start [("file_to_run", "demo"), ("utterance", "run demo")]

def Session.ofQuestion : Session :=
  ofScript "[[0,\x7b\"command\":\"voice_input\",\"text\":\"voice_input(y)\",\"indent\":0\x7d],\x7b\x7d,\x7b\x7d,\x7b\x7d,\x7b\x7d,-1,\"\",0,0,\x7b\"cversion\":1\x7d]"

def Session.afterSilence : Session :=
  ofQuestion.startDemo.requested .respond [("utterances", .ofItems [""])]

def Session.afterTimeOut : Session :=
  ofQuestion.startDemo.requested .timeOut []

def Session.strands (user : Value) (s : Session) : Bool :=
  s.awaiting.any (·.same user) && (managerIn s.active user).isNone

def Session.ofLastQuestion : Session :=
  ofScript "[[0,\x7b\"command\":\"exit\",\"text\":\"\x7bvoice_input(y)\x7d\",\"indent\":0\x7d],\x7b\x7d,\x7b\x7d,\x7b\x7d,\x7b\x7d,-1,\"\",0,0,\x7b\"cversion\":1\x7d]"

theorem Session.questions_wait : (afterSilence.awaiting.any (·.same "ann") = true ∧
      (afterSilence.events.all fun e => !e.takesAway) = true) ∧
    afterTimeOut.strands "ann" = true ∧ ofLastQuestion.startDemo.strands "ann" = true := by
  decide +kernel

/-- The user who has said nothing is waited for again. -/
theorem Session.awaits_running_afterSilence :
    .str "ann" ∈ afterSilence.awaiting ∧ afterSilence.awaiting.countP (·.same "ann") = 1 ∧
      (managerIn afterSilence.active "ann").isSome = true := by
  have hscripts : ofQuestion.files.Hold Library.AsksByLines := by
    have hall : (ofQuestion.files.files.all fun file =>
        (Json.read (String.ofList (Files.unifyLines file.2.toList))).toOption.all
          Library.callsNothing) = true := by
      simp only [Json.read, String.toList_ofList]
      decide +kernel
    intro place text hmem _
    have htext := List.all_eq_true.1 hall _ hmem
    exact Library.asksByLines_of_callsNothing htext
  obtain ⟨⟨hwaits, hevents⟩, -⟩ := questions_wait
  have hstarted : Reachable (Session.Attends fun x => ∃ name, x = .str name) ofQuestion
      ofQuestion.startDemo := attends_requested .refl .start _ fun h => absurd h (by decide)
  have hreachable := attends_requested hstarted .respond _ fun _ => hevents
  obtain ⟨x, hmem, hx⟩ := List.any_eq_true.1 hwaits
  obtain rfl := Value.same_str hx
  obtain ⟨-, hrunning⟩ := hreachable.awaits_running .texts rfl rfl hscripts hmem
  exact ⟨hmem, hrunning⟩

/-- The user is still waited for when the time to answer has ended, and when the script that has asked
is left by the same line. -/
theorem Session.Reachable.strands_user :
    (∃ t, Reachable (fun _ request _ => request.Attends) ofQuestion t ∧ t.strands "ann" = true) ∧
      ∃ t, Reachable (fun _ request _ => request.Attends) ofLastQuestion t ∧
        t.strands "ann" = true := by
  have hstarted (s : Session) : Reachable (fun _ request _ => request.Attends) s s.startDemo :=
    reachable_requested .refl .start _
  obtain ⟨-, htimeOut, hlast⟩ := questions_wait
  refine ⟨⟨afterTimeOut, ?_, htimeOut⟩, ofLastQuestion.startDemo, hstarted _, hlast⟩
  exact reachable_requested (hstarted _) .timeOut _

end Colloquy
