import Colloquy.Proofs.Laws
import Colloquy.Proofs.Resting

/-! A script that is started while another one waits for the user.  The waiting mark is that of the
user and not of a script, so no line of the new script is run as long as the other one waits.  When
the new script is left, the other one is taken on by a line like the caller of a script that ends. -/

namespace Colloquy

open Session Execution Message

variable {user : Value} {rest : List Entry} {s : Session} {e : Entry}

variable {α β : Type}

/-! ### Work that leaves a part alone -/

/-- Work on a conversation that leaves a part of the draft alone, whether or not it fails. -/
def Fixes {γ : Type} (part : Draft → γ) (body : Edit α) : Prop :=
  ∀ d : Draft, part (d.after body) = part d

namespace Fixes

variable {γ : Type} {part : Draft → γ} {body : Edit α} {f : α → Edit β}

theorem baseLaw (part : Draft → γ) : Edit.BaseLaw fun {_} body => Fixes part body :=
  .of_relation (R := fun d d' => part d' = part d) (fun _ => rfl) fun h h' => h'.trans h

theorem pure (a : α) : Fixes part (pure a) :=
  (baseLaw part).pure a

theorem lift (x : Except Fault α) : Fixes part (liftM x) :=
  (baseLaw part).lift x

theorem read : Fixes part Edit.read :=
  (baseLaw part).read

theorem update {g : Conversation → Conversation}
    (hg : ∀ d, part { d with conversation := g d.conversation } = part d) :
    Fixes part (Edit.update g) :=
  hg

theorem bind (hbody : Fixes part body) (hf : ∀ a, Fixes part (f a)) : Fixes part (body >>= f) :=
  (baseLaw part).bind hbody hf

end Fixes

/-- Work on a conversation that changes no list in place. -/
def Spares (body : Edit α) : Prop :=
  Fixes Draft.changes body

theorem Spares.places : Edit.PlaceLaw fun {_} body => Spares body where
  toBaseLaw := Fixes.baseLaw _
  goTo _ := .update fun _ => rfl
  indent _ := .update fun _ => rfl

theorem Session.after_edit_stackOf {c : Conversation} {body : Edit α} (hbody : Spares body)
    (hstack : s.stackOf user = .conversation c :: rest) :
    ∃ c', (s.after (edit user body)).stackOf user = .conversation c' :: rest := by
  obtain hsame | ⟨m, c₀, rest₀, hm, hm', hkept⟩ := after_edit user body s
  · exact ⟨c, by rw [hsame, hstack]⟩
  · rw [stackOf_eq hm, hm', List.cons.injEq] at hstack
    obtain ⟨-, rfl⟩ := hstack
    refine ⟨settled s.lists (Draft.after body { conversation := c₀ }), ?_⟩
    rw [hkept, stackOf_kept_self _ hm hm', hbody]
    exact congrArg _ (List.map_id rest₀)

/-! ### Waiting -/

section

variable {user : Value} {s : Session} {c : Conversation} {rest : List Entry}

theorem Session.exists_managerIn_of_stackOf (h : s.stackOf user = e :: rest) :
    ∃ m, managerIn s.active user = some m ∧ m.stack = e :: rest := by
  cases hm : managerIn s.active user with
  | none => simp [stackOf, hm] at h
  | some m => exact ⟨m, rfl, by rwa [stackOf_eq hm] at h⟩

theorem Execution.advance_of_awaiting (hkey : user.isKey = true)
    (hstack : s.stackOf user = .conversation c :: rest)
    (hwaits : s.awaiting.any (·.same user) = true) : advance user s = .ok false s := by
  obtain ⟨m, hm, htop⟩ := exists_managerIn_of_stackOf hstack
  have hawaits : isAwaiting user s = .ok true s := by
    rw [isAwaiting, bind_of_ok (get_apply s), hwaits]
    rfl
  rw [advance, bind_of_ok (currentOf_of_stack hkey hm htop), bind_of_ok hawaits]
  rfl

theorem Execution.after_proceed_of_awaiting (hkey : user.isKey = true)
    (hstack : s.stackOf user = .conversation c :: rest)
    (hwaits : s.awaiting.any (·.same user) = true) (budget : Nat) :
    s.after (proceed budget user) = s := by
  cases budget with
  | zero => rfl
  | succ budget =>
    unfold proceed
    refine Looks.theMessage.bind_after (T := (· = s)) rfl fun _ _ => ?_
    rw [after_bind_of_ok (get_apply s)]
    refine after_of_ok (rescue_of_ok (a := ()) ?_)
    rw [bind_of_ok (advance_of_awaiting hkey hstack hwaits)]
    rfl

end

/-- A script is on top of the ones that a user had, and nothing else has happened that the host or a
user could notice. -/
structure Session.Interrupted (user : Value) (s t : Session) : Prop where
  key : user.isKey = true
  stack : ∃ c, t.stackOf user = .conversation c :: s.stackOf user
  awaiting : t.awaiting = s.awaiting
  events : t.events = s.events

namespace Session.Interrupted

variable {user : Value} {s t : Session}

theorem after_edit (h : Interrupted user s t) {body : Edit α} (hbody : Spares body) :
    Interrupted user s (t.after (edit user body)) := by
  obtain ⟨c, hstack⟩ := h.stack
  exact ⟨h.key, after_edit_stackOf hbody hstack, (after_edit_awaiting user body t).trans h.awaiting,
    (after_edit_events user body t).trans h.events⟩

end Session.Interrupted

theorem Launch.beginScript_interrupts {m : Manager} (hm : managerIn s.active user = some m)
    (filename : String) (script? : Option Value) :
    (∃ fault, beginScript user filename script? s = .error fault s) ∨
      Interrupted user s (s.after (beginScript user filename script?)) := by
  obtain ⟨scriptMeta, hscript?⟩ := exists_beginScript user filename script?
  rw [hscript?]
  obtain ⟨fault, herror⟩ | ⟨time, hkey, -, hbegin⟩ := begin_cases user scriptMeta filename s
  · exact .inl ⟨fault, bind_of_error herror⟩
  refine .inr ?_
  rw [after_bind_of_ok hbegin]
  have hbegun : Interrupted user s (replaced user (((managerIn s.active user).getD { user }).push
      (Conversation.start scriptMeta filename time)) s) := by
    refine ⟨hkey, ⟨Conversation.start scriptMeta filename time, ?_⟩, rfl, rfl⟩
    simp [hm, stackOf_replaced_self hm, stackOf_eq hm, Manager.push]
  refine (Looks.current user).bind_after hbegun fun c _ => ?_
  -- Filling the new script changes no list, so the scripts below stay as they are.
  refine after_bind ?_ fun _ t _ ht => ht.after_edit fun d => (filling_loaded script? d).1
  obtain ⟨files, hafter⟩ := after_addTranscript (.str ("RUNNING SCRIPT " ++ filename ++ "\n"))
    filename (.int c.startTime) (replaced user _ s)
  rw [hafter]
  exact ⟨hkey, hbegun.stack, hbegun.awaiting, hbegun.events⟩

theorem Launch.running_interrupts {m : Manager} (hm : managerIn s.active user = some m)
    (hwaits : s.awaiting.any (·.same user) = true) (name filename : String) (script? : Option Value)
    : s.after (running user name filename script?) = s ∨
      Interrupted user s (s.after (running user name filename script?)) := by
  unfold running
  obtain ⟨fault, herror⟩ | hbegun := beginScript_interrupts hm filename script?
  · exact .inl (after_bind_of_error herror)
  refine .inr (after_bind hbegun fun _ t _ ht => ?_)
  refine (Looks.datum _ _).bind_after ht fun utterance _ => ?_
  refine after_bind (ht.after_edit (Spares.places.enter utterance name)) fun _ u _ hu => ?_
  obtain ⟨c, htop⟩ := hu.stack
  rw [resume, after_proceed_of_awaiting hu.key htop (by rw [hu.awaiting]; exact hwaits)]
  exact hu

/-- What a request for a script comes to while a script of the user waits: there is a new script on
top, or no more scripts than before. -/
theorem Launch.start_interrupts (hstack : s.stackOf (userOf s.message) ≠ [])
    (hwaits : s.awaiting.any (·.same (userOf s.message)) = true) :
    (s.after start).depthOf (userOf s.message) ≤ s.depthOf (userOf s.message) ∨
      Interrupted (userOf s.message) s (s.after start) := by
  obtain ⟨m, hm⟩ : ∃ m, managerIn s.active (userOf s.message) = some m := by
    refine Option.ne_none_iff_exists'.1 fun hnone => hstack ?_
    simp [stackOf, hnone]
  refine after_start (D := fun t => t.depthOf (userOf s.message) ≤
    s.depthOf (userOf s.message) ∨ Interrupted (userOf s.message) s t)
    (.inl (Nat.le_refl _)) (fun _ _ _ _ => .inl (Nat.le_refl _)) (fun _ _ _ _ => ?_)
    fun files reads name script? _ => ?_
  · simp [depthOf, stackOf, managerIn_filter_self]
  · obtain hsame | hrun := running_interrupts (s := { s with files, reads }) hm hwaits name
      (filenameOf name) script?
    · rw [hsame]
      exact .inl (Nat.le_refl _)
    · exact .inr ⟨hrun.key, hrun.stack, hrun.awaiting, hrun.events⟩

/-! ### Leaving the script -/

theorem Leaves.awaiting_eq {t : Session} (h : Leaves user s t) : t.awaiting = s.awaiting := by
  cases h with
  | stay | idle | stuck | last => rfl
  | back => exact after_edit_awaiting user (Edit.step 1) _

theorem Session.after_edit_depthOf (user other : Value) (body : Edit α) (s : Session) :
    (s.after (edit user body)).depthOf other = s.depthOf other := by
  obtain hsame | ⟨m, c, rest, hm, hstack, hkept⟩ := after_edit user body s
  · rw [hsame]
  · rw [hkept, depthOf_kept _ hm hstack]

theorem Leaves.depthOf_pos {t : Session} (h : Leaves user s t) {e' : Entry}
    (hstack : s.stackOf user = e :: e' :: rest) : 0 < t.depthOf user := by
  have htail {m : Manager} {c : Conversation} {below : List Entry}
      (hm : managerIn s.active user = some m) (hm' : m.stack = .conversation c :: below) :
      below = e' :: rest := by
    rw [stackOf_eq hm, hm', List.cons.injEq] at hstack
    exact hstack.2
  cases h with
  | stay | idle =>
    show 0 < s.depthOf user
    simp [depthOf, hstack]
  | stuck events hm hm' =>
    rw [depthOf, stackOf_replaced_self (by exact hm)]
    simp [htail hm hm']
  | back events scope hm hm' =>
    rw [after_edit_depthOf, depthOf, stackOf_replaced_self (by exact hm)]
    simp [htail hm hm']
  | last events hm hm' => cases htail hm hm'

theorem exitScript_below {t : Session} (h : exitScript user s = .ok () t) {c : Conversation}
    (hstack : s.stackOf user = e :: .conversation c :: rest) :
    ∃ index bindings, c.index.addInt 1 = .ok index ∧ bindings.copied = c.bindings.copied ∧
      t.stackOf user = .conversation { c with index, bindings } :: rest ∧
      t.awaiting = s.awaiting := by
  have hleaves := exitScript_leaves user s
  rw [after_of_ok h] at hleaves
  obtain ⟨e', c', rest', index, bindings, hold, hindex, hbindings, hnew⟩ :=
    exitScript_ok h (hleaves.depthOf_pos hstack)
  rw [hstack] at hold
  obtain ⟨-, hbelow⟩ := List.cons.inj hold
  obtain ⟨htop, rfl⟩ := List.cons.inj hbelow
  obtain rfl := Entry.conversation.inj htop
  exact ⟨index, bindings, hindex, hbindings, hnew, hleaves.awaiting_eq⟩

theorem Request.run_start (message : Option Message) (s : Session) :
    (Request.run .start message s).2 =
      after Launch.start { s with message, events := [] } := by
  rw [run_eq_after, serve, silently, after_bind_of_looks fun _ => .pure _]

/-- If a script is started for a user whose script waits for words, it is put on top of that script
and no line of it is run as long as the user waits.  When the script on top of the waiting one is
left, be it at once or later, that one is as it was but for its place, which is one line on, and who
waits does not change. -/
theorem Request.start_over_waiting {user : Value} {message : Option Message} {s t : Session}
    {c : Conversation} {rest : List Entry} (huser : Message.userOf message = user)
    (hstack : s.stackOf user = .conversation c :: rest)
    (hwaits : s.awaiting.any (·.same user) = true) (ht : (Request.run .start message s).2 = t)
    (hstarted : s.depthOf user < t.depthOf user) :
    (∃ c', t.stackOf user = .conversation c' :: .conversation c :: rest) ∧
      t.awaiting = s.awaiting ∧ t.events = [] ∧ advance user t = .ok false t ∧
      ∀ {u u' e}, u.stackOf user = e :: .conversation c :: rest → exitScript user u = .ok () u' →
        ∃ index bindings, c.index.addInt 1 = .ok index ∧ bindings.copied = c.bindings.copied ∧
          u'.stackOf user = .conversation { c with index, bindings } :: rest ∧
          u'.awaiting = u.awaiting := by
  have hserved : Message.userOf { s with message, events := [] }.message = user := huser
  have hinterrupts := Launch.start_interrupts (s := { s with message, events := [] })
    (by rw [hserved]; show s.stackOf user ≠ []; simp [hstack]) (by rw [hserved]; exact hwaits)
  rw [← run_start, hserved, ht] at hinterrupts
  obtain hle | h := hinterrupts
  · exact absurd hstarted (Nat.not_lt.2 hle)
  obtain ⟨c', htop⟩ := h.stack
  refine ⟨⟨c', htop.trans (congrArg _ hstack)⟩, h.awaiting, h.events, ?_,
    fun hu hexit => exitScript_below hexit hu⟩
  exact advance_of_awaiting h.key htop (by rw [h.awaiting]; exact hwaits)

def Session.ofWaiting : Session :=
  let other := "[[0,\x7b\"command\":\"exit\",\"text\":\"\",\"indent\":0\x7d],\x7b\x7d,\x7b\x7d,\x7b\x7d,\x7b\x7d,-1,\"\",0,0,\x7b\"cversion\":1\x7d]"
  { ofRun other with awaiting := ["ann"] }

def Session.startOther (s : Session) : Session :=
  (Request.run .start (some { data := [("file_to_run", "other"), ("utterance", "run other")],
                              context := [("user", "ann")] }) s).2

def Entry.place : Entry → Option Int
  | .conversation c => c.index.asInt?
  | .foreign _ => none

theorem Session.startOther_stays : ofWaiting.startOther.depthOf "ann" = 2 ∧
    ((commanded "exit" .null ofWaiting.startOther).stackOf "ann").map Entry.place = [some 2] := by
  decide +kernel

/-- The other script is started while the first one waits. -/
theorem Request.start_over_waiting_other : ∃ c rest,
    ofWaiting.stackOf "ann" = .conversation c :: rest ∧
      (∃ c', ofWaiting.startOther.stackOf "ann" = .conversation c' :: .conversation c :: rest) ∧
      ofWaiting.startOther.awaiting = ofWaiting.awaiting ∧ ofWaiting.startOther.events = [] ∧
      advance "ann" ofWaiting.startOther = .ok false ofWaiting.startOther ∧
      ∀ {u u' e}, u.stackOf "ann" = e :: .conversation c :: rest → exitScript "ann" u = .ok () u' →
        ∃ index bindings, c.index.addInt 1 = .ok index ∧ bindings.copied = c.bindings.copied ∧
          u'.stackOf "ann" = .conversation { c with index, bindings } :: rest ∧
          u'.awaiting = u.awaiting := by
  have hstack : ∃ c rest, ofWaiting.stackOf "ann" = .conversation c :: rest := by
    simp [stackOf, managerIn, ofWaiting, ofRun, Value.str_same]
  obtain ⟨c, rest, hstack⟩ := hstack
  have hstarted : ofWaiting.depthOf "ann" < ofWaiting.startOther.depthOf "ann" := by
    rw [startOther_stays.1]
    simp [depthOf, stackOf, managerIn, ofWaiting, ofRun, Value.str_same]
  refine ⟨c, rest, hstack, start_over_waiting ?_ hstack ?_ (by rw [startOther]) hstarted⟩
  · simp [Message.userOf, Message.user, Entries.find?, Value.str_same]
  · simp [ofWaiting, Value.str_same]

/-- Without the first script the other one is run and left.  While the first one waits it is not, and
leaving it takes the first one from its place. -/
theorem Request.start_over_waiting_displaces :
    (startOther { ofWaiting with active := [], awaiting := [] }).depthOf "ann" = 0 ∧
      ofWaiting.startOther.depthOf "ann" = 2 ∧
      (ofWaiting.stackOf "ann").map Entry.place = [some 1] ∧
      ((commanded "exit" .null ofWaiting.startOther).stackOf "ann").map Entry.place = [some 2] := by
  refine ⟨by decide +kernel, startOther_stays.1, ?_, startOther_stays.2⟩
  simp [stackOf, managerIn, ofWaiting, ofRun, Value.str_same, Entry.place, Value.asInt?]

end Colloquy
