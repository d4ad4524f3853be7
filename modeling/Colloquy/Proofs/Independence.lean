import Colloquy.Proofs.Dialogue
import Colloquy.Proofs.Isolation

/-! What a user asks for does not depend on the other users.  Of two sessions that are the same as
far as the user is concerned, a request of the user makes two that are so again, and it has the same
answer or fault and asks the same of the host. -/

namespace Colloquy

open Session Message

variable {α β : Type} {user : Value} {κ : Value → Prop} {Q : α → Prop} {R : β → Prop}

/-! ### Sessions that are the same for a user -/

namespace Session.SameFor

variable {s t : Session}

theorem congr (h : SameFor user s t) (g : Session → Session) (hg : ∀ active awaiting x,
    g { x with active, awaiting } = { g x with active, awaiting }) :
    SameFor user (g s) (g t) := by
  have hactive (x : Session) : (g x).active = x.active ∧ (g x).awaiting = x.awaiting := by
    have hx := hg x.active x.awaiting x
    exact ⟨(congrArg Session.active hx :), (congrArg Session.awaiting hx :)⟩
  refine ⟨?_, ?_, ?_⟩
  · rw [← hg, ← hg, h.rest]
  · rw [(hactive t).1, (hactive s).1, h.manager]
  · rw [(hactive t).2, (hactive s).2, h.awaiting]

theorem replaced (h : SameFor user s t) (m : Manager) :
    SameFor user (replaced user m s) (replaced user m t) := by
  refine ⟨h.rest, ?_, h.awaiting⟩
  cases hm : managerIn s.active user with
  | some n =>
    rw [managerIn_replaced_self hm, managerIn_replaced_self (h.manager.trans hm)]
  | none =>
    simp only [Session.replaced]
    rw [managerIn_withManager_of_none m hm, managerIn_withManager_of_none m (h.manager.trans hm)]

theorem withChanges (h : SameFor user s t) (changes : List Value.Change) :
    SameFor user (withChanges changes s) (withChanges changes t) := by
  have hmanager : managerIn (Session.withChanges changes t).active user =
      managerIn (Session.withChanges changes s).active user := by
    rw [managerIn_withChanges, managerIn_withChanges, h.manager]
  rw [withChanges_eq, withChanges_eq] at hmanager ⊢
  have hrest := congrArg (fun x => { x with host := hostAfter changes x.host }) h.rest
  exact ⟨hrest, hmanager, h.awaiting⟩

theorem kept (h : SameFor user s t) {m : Manager} (hm : managerIn s.active user = some m)
    (draft : Draft) : SameFor user (kept user m draft s) (kept user m draft t) := by
  have hchanges := h.withChanges draft.changes
  refine ⟨?_, ?_, hchanges.awaiting⟩
  · have hrest := congrArg
      (fun x => { x with lists := (draft.conversation.bindings.numbered s.lists).2 }) hchanges.rest
    simp only [Session.kept, h.lists]
    exact hrest
  · rw [managerIn_kept_self draft hm, managerIn_kept_self draft (h.manager.trans hm), h.lists]

theorem dropped (h : SameFor user s t) :
    SameFor user { s with active := s.active.filter fun (x, _) => !x.same user }
      { t with active := t.active.filter fun (x, _) => !x.same user } :=
  ⟨h.rest, by simp only [managerIn_filter_self], h.awaiting⟩

end Session.SameFor

/-! ### Computations that do not depend on other users -/

/-- Two ends of a computation that was started in `s` and in a session that is the same for the
user: the same result as in `Q` or the same fault, and sessions that are the same for the user. -/
def Matches (user : Value) (s : Session) (Q : α → Prop) :
    EStateM.Result Fault Session α → EStateM.Result Fault Session α → Prop
  | .ok a s', .ok b t' =>
    (b = a ∧ Q a) ∧ SameFor user s' t' ∧ Message.userOf s'.message = Message.userOf s.message
  | .error fault s', .error fault' t' =>
    fault' = fault ∧ SameFor user s' t' ∧ Message.userOf s'.message = Message.userOf s.message
  | _, _ => False

theorem Matches.cases {s : Session} {x y : EStateM.Result Fault Session α}
    (h : Matches user s Q x y) :
    (∃ a s' t', x = .ok a s' ∧ y = .ok a t' ∧ Q a ∧ SameFor user s' t' ∧
      userOf s'.message = userOf s.message) ∨
    ∃ fault s' t', x = .error fault s' ∧ y = .error fault t' ∧ SameFor user s' t' ∧
      userOf s'.message = userOf s.message := by
  cases x <;> cases y
  · obtain ⟨⟨rfl, ha⟩, hrest⟩ := h
    exact .inl ⟨_, _, _, rfl, rfl, ha, hrest⟩
  · exact h.elim
  · exact h.elim
  · obtain ⟨rfl, hrest⟩ := h
    exact .inr ⟨_, _, _, rfl, rfl, hrest⟩

/-- A computation that cannot tell apart sessions that are the same for the user, if the user of the
message is as in `κ`. -/
def Independent (user : Value) (κ : Value → Prop) (m : Run α)
    (Q : α → Prop := fun _ => True) : Prop :=
  ∀ s t, κ (Message.userOf s.message) → SameFor user s t → Matches user s Q (m s) (m t)

namespace Independent

variable {m : Run α} {f : α → Run β}

theorem mono {κ' : Value → Prop} {Q' : α → Prop} (h : Independent user κ m Q) (hκ : ∀ v, κ' v → κ v)
    (hQ : ∀ a, Q a → Q' a) : Independent user κ' m Q' := by
  intro s t hs hsame
  obtain ⟨a, s', t', hs', ht', ha, hrest⟩ | ⟨fault, s', t', hs', ht', hrest⟩ :=
    (h s t (hκ _ hs) hsame).cases
  · rw [hs', ht']
    exact ⟨⟨rfl, hQ a ha⟩, hrest⟩
  · rw [hs', ht']
    exact ⟨rfl, hrest⟩

theorem pure {a : α} (h : Q a) : Independent user κ (pure a) Q :=
  fun _ _ _ hsame => ⟨⟨rfl, h⟩, hsame, rfl⟩

theorem throw (fault : Fault) : Independent user κ (throw fault : Run α) Q :=
  fun _ _ _ hsame => ⟨rfl, hsame, rfl⟩

theorem bind (hm : Independent user κ m Q) (hf : ∀ a, Q a → Independent user κ (f a) R) :
    Independent user κ (m >>= f) R := by
  intro s t hs hsame
  obtain ⟨a, s', t', hrun, hrun', ha, hsame', huser⟩ | ⟨fault, s', t', hrun, hrun', hrest⟩ :=
    (hm s t hs hsame).cases
  · rw [bind_of_ok hrun, bind_of_ok hrun']
    have hnext := hf a ha s' t' (by rwa [huser]) hsame'
    simp only [Matches, huser] at hnext ⊢
    exact hnext
  · rw [bind_of_error hrun, bind_of_error hrun']
    exact ⟨rfl, hrest⟩

theorem seq (hm : Independent user κ m Q) (hf : ∀ a, Independent user κ (f a) R) :
    Independent user κ (m >>= f) R :=
  hm.bind fun a _ => hf a

theorem rescue {handler : Fault → Run α} (hm : Independent user κ m Q)
    (hhandler : ∀ fault, Independent user κ (handler fault) Q) :
    Independent user κ (rescue m handler) Q := by
  intro s t hs hsame
  obtain ⟨a, s', t', hrun, hrun', ha, hrest⟩ | ⟨fault, s', t', hrun, hrun', hsame', huser⟩ :=
    (hm s t hs hsame).cases
  · rw [rescue_of_ok hrun, rescue_of_ok hrun']
    exact ⟨⟨rfl, ha⟩, hrest⟩
  · by_cases hfault : fault = .stepLimit
    · simp only [Colloquy.rescue, hrun, hrun', hfault]
      exact ⟨rfl, hsame', huser⟩
    · rw [rescue_of_error hrun hfault, rescue_of_error hrun' hfault]
      have hnext := hhandler fault s' t' (by rwa [huser]) hsame'
      simp only [Matches, huser] at hnext ⊢
      exact hnext

theorem ite {c : Prop} [Decidable c] {m' : Run α} (h : Independent user κ m Q)
    (h' : Independent user κ m' Q) : Independent user κ (if c then m else m') Q := by
  split
  · exact h
  · exact h'

theorem look {f : Session → Run α} (hf : ∀ s t, SameFor user s t → f t = f s)
    (h : ∀ s, κ (userOf s.message) → Independent user κ (f s) Q) :
    Independent user κ (get >>= f) Q := by
  intro s t hs hsame
  rw [bind_of_ok (get_apply s), bind_of_ok (get_apply t), hf s t hsame]
  exact h s hs s t hs hsame

theorem modify {g : Session → Session} (hg : ∀ s t, SameFor user s t → SameFor user (g s) (g t))
    (hmessage : ∀ s, userOf (g s).message = userOf s.message) :
    Independent user κ (modify g) :=
  fun s t _ hsame => ⟨⟨rfl, trivial⟩, hg s t hsame, hmessage s⟩

theorem note (g : Session → Session)
    (hg : ∀ active awaiting x, g { x with active, awaiting } = { g x with active, awaiting })
    (hmessage : ∀ s, userOf (g s).message = userOf s.message) :
    Independent user κ (MonadStateOf.modifyGet fun s => ((), g s) : Run Unit) :=
  modify (fun _ _ h => h.congr g hg) hmessage

/-! ### The session -/

theorem tell (event : Event) : Independent user κ (tell event) :=
  note (fun s => { s with events := event :: s.events }) (fun _ _ _ => rfl) fun _ => rfl

theorem setDatum (name : String) (value : Value) : Independent user κ (setDatum name value) := by
  intro s t _ h
  cases hm : s.message with
  | none =>
    simp only [Session.setDatum, Session.theMessage, bind_apply, get_apply, h.message, hm,
      throw_apply]
    exact ⟨rfl, h, rfl⟩
  | some m =>
    simp only [Session.setDatum, Session.theMessage, bind_apply, get_apply, h.message, hm,
      pure_apply, modify_apply]
    refine ⟨⟨rfl, trivial⟩, h.congr (fun x => { x with message := _ }) fun _ _ _ => rfl, ?_⟩
    rw [hm]
    rfl

theorem handling_none {m : Run α} (h : Independent user (fun _ => True) m Q) :
    Independent user κ (handling none m) Q := by
  intro s t _ hsame
  have hnone : SameFor user { s with message := none } { t with message := none } :=
    hsame.congr (fun x => { x with message := none }) fun _ _ _ => rfl
  have hback {s' t' : Session} (h' : SameFor user s' t') :
      SameFor user { s' with message := s.message } { t' with message := t.message } := by
    rw [hsame.message]
    exact h'.congr (fun x => { x with message := s.message }) fun _ _ _ => rfl
  obtain ⟨a, s', t', hrun, hrun', ha, h', -⟩ | ⟨fault, s', t', hrun, hrun', h', -⟩ :=
    (h _ _ trivial hnone).cases
  · simp only [handling, hrun, hrun']
    exact ⟨⟨rfl, ha⟩, hback h', rfl⟩
  · simp only [handling, hrun, hrun']
    exact ⟨rfl, hback h', rfl⟩

theorem reckon {m : Run α} (f : Nat → Option α × Nat)
    (hm : ∀ s, m s = match f s.clock with
      | (some a, clock) => .ok a { s with clock }
      | (none, clock) => .error .badValue { s with clock }) : Independent user κ m := by
  intro s t _ h
  have hnow (clock : Nat) : SameFor user { s with clock } { t with clock } :=
    h.congr (fun x => { x with clock }) fun _ _ _ => rfl
  rw [hm, hm, h.clock]
  cases f s.clock with
  | mk result clock =>
    cases result with
    | none => exact ⟨rfl, hnow clock, rfl⟩
    | some a => exact ⟨⟨rfl, trivial⟩, hnow clock, rfl⟩

theorem addTranscript (text filename startTime : Value) :
    Independent user κ (addTranscript text filename startTime) := by
  intro s t _ h
  have hnow (files : Files) : SameFor user { s with files } { t with files } :=
    h.congr (fun x => { x with files }) fun _ _ _ => rfl
  simp only [Colloquy.addTranscript, bind_apply, get_apply, path]
  generalize hplace : s.files.resolve s.root [] _ = place
  rw [← h.files, ← h.root] at hplace
  rw [hplace]
  cases place with
  | error fault => exact ⟨rfl, h, rfl⟩
  | ok target =>
    simp only [lift_ok_apply]
    rw [h.files]
    cases s.files.appendTarget "" target with
    | error fault => exact ⟨rfl, h, rfl⟩
    | ok files =>
      simp only [lift_ok_apply, set_apply]
      cases text.needle with
      | error fault => exact ⟨rfl, hnow files, rfl⟩
      | ok added =>
        simp only [lift_ok_apply]
        cases files.appendTarget added target with
        | error fault => exact ⟨rfl, hnow files, rfl⟩
        | ok files' => exact ⟨⟨rfl, trivial⟩, hnow files', rfl⟩

theorem await : Independent user κ (await user) :=
  modify (fun _ _ h => ⟨h.rest, h.manager, by simp only [List.countP_append, h.awaiting]⟩)
    fun _ => rfl

theorem stopAwaiting : Independent user κ (stopAwaiting user) :=
  modify (fun _ _ h => ⟨h.rest, h.manager,
    by simp only [countP_dropFirst_self, h.awaiting]⟩) fun _ => rfl

/-! ### The conversations of the user -/

theorem setManager (m : Manager) : Independent user κ (setManager user m) :=
  modify (fun _ _ h => h.replaced m) fun _ => rfl

theorem law : Run.LookLaw user fun {_} m => Independent user κ m :=
  ⟨fun _ => pure trivial, throw, seq, rescue, fun hf h => look hf fun s _ => h s⟩

theorem edit (body : Edit α) : Independent user κ (edit user body) := by
  intro s t hs h
  obtain ⟨fault, herror⟩ | ⟨m, c, rest, hkey, hm, hstack, -⟩ := current_cases user s
  · obtain ⟨c, s', t', hrun, -⟩ | ⟨fault', s', t', hrun, hrun', hrest⟩ :=
      ((law (κ := fun _ => True)).current s t trivial h).cases
    · simp [herror] at hrun
    · rw [Session.edit, bind_of_error hrun, bind_of_error hrun']
      exact ⟨rfl, hrest⟩
  · rw [edit_eq hkey hm hstack, edit_eq hkey (h.manager.trans hm) hstack]
    cases body { conversation := c } with
    | ok a draft => exact ⟨⟨rfl, trivial⟩, h.kept hm draft, by rw [kept_message]⟩
    | error fault draft => exact ⟨rfl, h.kept hm draft, by rw [kept_message]⟩

theorem editLeft (c : Conversation) (body : Edit α) : Independent user κ (editLeft c body) := by
  have hchanges (changes : List Value.Change) :
      Independent user κ (MonadState.modifyGet fun s => ((), withChanges changes s) : Run Unit) :=
    modify (fun _ _ h => h.withChanges changes) fun s => by rw [withChanges_eq]
  unfold Session.editLeft
  cases body { conversation := c } with
  | ok a draft => exact seq (hchanges _) fun _ => pure trivial
  | error fault draft => exact seq (hchanges _) fun _ => throw fault

theorem dropManager (hkey : user.isKey = true) : Independent user κ (dropManager user) := by
  intro s t _ h
  have hnone (x : Session) (hx : managerIn x.active user = none) :
      Session.dropManager user x = .error .missingEntry x := by
    rw [Session.dropManager, bind_of_ok (get_apply x)]
    split
    · rfl
    · simp only [Session.managerAt, Session.manager?, hkey, if_true, bind_apply, get_apply,
        pure_apply, hx, throw_apply]
  cases hm : managerIn s.active user with
  | none =>
    rw [hnone s hm, hnone t (h.manager.trans hm)]
    exact ⟨rfl, h, rfl⟩
  | some m =>
    rw [dropManager_of_some hkey hm, dropManager_of_some hkey (h.manager.trans hm)]
    exact ⟨⟨rfl, trivial⟩, h.dropped, rfl⟩

theorem exitScript (hkey : user.isKey = true) : Independent user κ (exitScript user) :=
  law.exit setDatum (fun event _ => tell event) setManager edit (dropManager hkey)

theorem begin (scriptMeta filename : Value) :
    Independent user κ (begin user scriptMeta filename) := by
  refine seq law.manager? fun m? => look (fun _ _ h => by rw [h.clock]) fun s _ => ?_
  exact seq (law.lift _) fun _ => setManager _

end Independent

/-! ### Acts -/

/-- The part of a user who takes no requests for answered and runs no other scripts. -/
def Role.alone (user : Value) : Role :=
  { user, hears := fun _ => False, plain := False, calls := False }

def Role.ofUser (user : Value) : Role :=
  { user, hears := (· = user), plain := False, calls := True }

theorem Role.free_ofUser (user : Value) : (Role.ofUser user).Free :=
  ⟨⟨user, rfl⟩, trivial, trivial, fun _ _ => trivial⟩

theorem Acts.independent {r : Role} {m : Run α} (h : Acts r m Q) (hopen : ¬ r.plain ∧ r.chats)
    (hkey : r.user.isKey = true)
    (hhears : ∀ message, r.hears (userOf message) →
      Independent r.user (fun _ => True) (Command.hearAnswer message))
    (hcalls : r.calls → ∀ text, Independent r.user (fun _ => True) (Command.call r.user text)) :
    Independent r.user (fun v => (∃ user, r.hears user) → r.hears v) m Q := by
  induction h with
  | pure h => exact .pure h
  | throw fault => exact .throw fault
  | bind _ _ ihm ihf =>
    exact (ihm hopen hkey hhears hcalls).bind fun a ha => ihf a ha hopen hkey hhears hcalls
  | rescue _ _ ihm ihhandler =>
    exact (ihm hopen hkey hhears hcalls).rescue fun fault =>
      ihhandler fault hopen hkey hhears hcalls
  | look hsame _ ih =>
    refine .look hsame fun s hs => ih s ⟨hs, ?_, ?_, ?_, fun _ _ _ => hopen.2⟩ hopen hkey hhears hcalls
    · exact fun _ _ hp => (hopen.1 hp).elim
    · exact fun hp => (hopen.1 hp).elim
    · exact fun _ _ => ⟨fun hp => (hopen.1 hp).elim, fun hp => (hopen.1 hp).elim⟩
  | tell event => exact .tell event
  | sleep milliseconds =>
    exact .note (fun s => { s with clock := s.clock + milliseconds }) (fun _ _ _ => rfl)
      fun _ => rfl
  | countRead =>
    exact .note (fun s => { s with reads := s.reads + 1 }) (fun _ _ _ => rfl) fun _ => rfl
  | setDatum name _ => exact .setDatum name _
  | reckon f hm => exact .reckon f hm
  | addTranscript text filename startTime => exact .addTranscript text filename startTime
  | handlingNone _ ih =>
    exact .handling_none ((ih hopen hkey (fun _ h => h.elim) hcalls).mono
      (fun _ _ h => h.elim fun _ hx => hx) fun _ => id)
  | await => exact .await
  | stopAwaiting => exact .stopAwaiting
  | edit _ => exact .edit _
  | editLeft c body => exact .editLeft c body
  | exitScript => exact .exitScript hkey
  | hearAnswer h => exact (hhears _ h).mono (fun _ _ => trivial) fun _ => id
  | call h text => exact (hcalls h text).mono (fun _ _ => trivial) fun _ => id

theorem Acts.independent_alone {m : Run α} (h : Acts (Role.alone user) m Q)
    (hkey : user.isKey = true) : Independent user κ m Q :=
  (h.independent ⟨id, trivial⟩ hkey (fun _ h => h.elim) fun h => h.elim).mono
    (fun _ _ h => h.elim fun _ hx => hx.elim) fun _ => id

namespace Independent

variable (hkey : user.isKey = true)

include hkey

theorem hearAnswer {message : Option Message} (huser : userOf message = user) :
    Independent user κ (Command.hearAnswer message) := by
  subst huser
  refine Acts.independent_alone (.rescue ?_ fun fault => ?_) hkey
  · refine .seq (.manager? (r := Role.alone _)) fun m? => ?_
    cases m? with
    | none => exact .pure trivial
    | some m =>
      refine .seq (.lift_any _) fun c? => ?_
      cases message with
      | none => exact .throw _
      | some message =>
        refine .seq (.lift _) fun request => .ite (.seq (.present c?) fun c => ?_) (.pure trivial)
        unfold Command.noteAnswer
        extract_lets answer
        clear_value answer
        refine .ite (.seq (.lift _) fun signal => .ite ?_ (.pure trivial)) (.pure trivial)
        refine .seq (.lift _) fun request => .seq (.lift _) fun _ => ?_
        refine .seq (Acts.law (r := Role.alone _)).isAwaiting fun waits => .ite ?_ (.pure trivial)
        exact .edit (r := Role.alone _) (.update fun _ => .same rfl)
  · split
    · exact .pure trivial
    · exact .throw _

theorem call (text : Value) : Independent user κ (Command.call user text) := by
  refine seq (law.lift _) fun name => ?_
  extract_lets name filename
  clear_value filename name
  refine seq ((Acts.law.hasScript _).independent_alone hkey) fun found => ite ?_ ?_
  · refine seq ((Acts.load _).independent_alone hkey) fun script => ?_
    refine seq law.current fun c => seq (law.lift _) fun caller => seq (law.lift _) fun info => ?_
    exact seq (begin _ _) fun _ => edit _
  · exact seq (tell _) fun _ => edit _

/-- What a user does, also in answer to messages of the user, does not depend on the others. -/
theorem of_acts {m : Run α} (h : Acts (Role.ofUser user) m Q) : Independent user (· = user) m Q :=
  (h.independent ⟨id, trivial⟩ hkey (fun _ h => hearAnswer hkey h) fun _ text => call hkey text).mono
    (fun _ h _ => h) fun _ => id

omit hkey in
theorem beginScript (filename : String) (script? : Option Value) :
    Independent user κ (Launch.beginScript user filename script?) := by
  unfold Launch.beginScript
  extract_lets scriptMeta
  clear_value scriptMeta
  exact seq (begin _ _) fun _ => seq law.current fun c => seq (addTranscript _ _ _) fun _ => edit _

theorem start : Independent user (· = user) Launch.start := by
  refine bind (of_acts hkey .theMessage) fun m hm => ?_
  rw [show m.user = user from hm.2.1 ⟨user, rfl⟩]
  refine seq (of_acts hkey (.datum _ .null)) fun asked => seq (law.lift _) fun name => ?_
  extract_lets filename file
  clear_value file filename
  refine look (fun _ _ h => by rw [h.files]) fun s _ => seq (law.lift _) fun files => ?_
  refine seq (note (fun s => { s with files }) (fun _ _ _ => rfl) fun _ => rfl) fun _ => ?_
  refine seq (of_acts hkey (Acts.law.hasScript _)) fun found => ite (of_acts hkey (.dialog _ _)) ?_
  refine seq (of_acts hkey (Acts.law.isCompiled (.load _))) fun compiled => ite ?_ ?_
  · have hload : Acts (Role.ofUser user)
        (Colloquy.rescue (do return some (← Library.load file)) fun _ => return none) :=
      .rescue (.seq (.load file) fun _ => .pure trivial) fun _ => .pure trivial
    refine seq (of_acts hkey hload) fun script? => seq (beginScript _ _) fun _ => ?_
    refine seq (of_acts hkey (.datum _ .null)) fun utterance => seq (edit _) fun _ => ?_
    exact of_acts hkey (.resume (Role.free_ofUser user))
  · exact seq (of_acts hkey (.dialog _ _)) fun _ => dropManager hkey

theorem serve {request : Request} (h : request.For user) :
    Independent user (· = user) request.serve := by
  have hsilent {body : Run Unit} (hbody : Independent user (· = user) body) :
      Independent user (· = user) (Request.silently body) :=
    seq hbody fun _ => pure trivial
  have hfree := Role.free_ofUser user
  have hself : ∀ x, (Role.ofUser user).hears x → x = user := fun _ h => h
  cases h with
  | start => exact hsilent (start hkey)
  | converse =>
    exact seq (of_acts hkey (.converse hfree hself)) fun _ => pure trivial
  | respond =>
    exact seq (of_acts hkey (.respond hfree hself)) fun _ => pure trivial
  | hearAnswer =>
    refine look (fun _ _ h => by rw [h.message]) fun s hs => hsilent (hearAnswer hkey hs)
  | timeOut => exact hsilent (of_acts hkey (.timeOut hfree hself))
  | resume => exact hsilent (of_acts hkey (.resume hfree))
  | command name text =>
    refine hsilent (seq (of_acts hkey (.known? name)) fun k? => ?_)
    cases k? with
    | none => exact throw _
    | some k =>
      exact of_acts hkey (.perform (hfree.keyword k) text)

end Independent

/-! ### Independence -/

/-- A request of a user who can have an entry has the same answer or fault in two sessions that are
the same for the user, and leaves two that are so again: they have the same files and the same
record of what was asked of the host, the same entry for the user, and wait for the user equally
often. -/
theorem Request.run_of_sameFor {request : Request} {user : Value} {message : Option Message}
    {s t : Session} (hrequest : request.For user) (hmessage : Message.userOf message = user)
    (hkey : user.isKey = true)
    (hsame : SameFor user { s with message, events := [] } { t with message, events := [] }) :
    (request.run message t).1 = (request.run message s).1 ∧
      SameFor user (request.run message s).2 (request.run message t).2 := by
  have hserve := Independent.serve hkey hrequest _ _ hmessage hsame
  simp only [Request.run]
  cases hs : request.serve { s with message, events := [] } with
  | ok v s' =>
    cases ht : request.serve { t with message, events := [] } with
    | error fault t' =>
      rw [hs, ht] at hserve
      exact hserve.elim
    | ok w t' =>
      rw [hs, ht] at hserve
      exact ⟨congrArg Except.ok hserve.1.1, hserve.2.1⟩
  | error fault s' =>
    cases ht : request.serve { t with message, events := [] } with
    | ok w t' =>
      rw [hs, ht] at hserve
      exact hserve.elim
    | error fault' t' =>
      rw [hs, ht] at hserve
      exact ⟨congrArg Except.error hserve.1, hserve.2.1⟩

def Session.ofOne : Session :=
  { ofTwo 2 with active := (ofTwo 2).active.take 1, awaiting := ["bob"] }

/-- It makes no difference to the first user whether the second has a script. -/
theorem Request.takeLanguages_of_one :
    managerIn (takeLanguages ofOne).active "ann" =
      managerIn (takeLanguages (ofTwo 2)).active "ann" := by
  have hmessage : Message.userOf (some { context := [("user", "ann")] }) = .str "ann" := by
    simp [Message.userOf, Message.user, Entries.find?, Value.str_same]
  have hsame (message : Option Message) : SameFor "ann"
      { ofTwo 2 with message, events := [] } { ofOne with message, events := [] } := by
    refine ⟨rfl, ?_, ?_⟩
    · simp [ofOne, ofTwo, managerIn, Value.str_same]
    · simp [ofOne, ofTwo, Value.str_same]
  exact (run_of_sameFor (.command _ _) hmessage rfl (hsame _)).2.manager

def Session.ofUncompiled (active : List (Value × Manager)) : Session :=
  { files := { files := [(scriptFolder ++ ["demo.nct"], "Script: demo")]
               folders := Files.ways scriptFolder }
    active }

def Request.startDemo (user : Value) (s : Session) : Option Fault :=
  let message := { data := [("file_to_run", "demo")], context := [("user", user)] }
  match (run .start (some message) s).1 with
  | .ok _ => none
  | .error fault => some fault

/-- For a user who cannot have an entry it does make a difference whether another one has one. -/
theorem Request.startDemo_of_list :
    SameFor (.ofItems ["ann"]) (ofUncompiled []) (ofUncompiled (ofTwo 2).active) ∧
      startDemo (.ofItems ["ann"]) (ofUncompiled []) = some .missingEntry ∧
      startDemo (.ofItems ["ann"]) (ofUncompiled (ofTwo 2).active) = some .wrongKind := by
  refine ⟨⟨rfl, ?_, rfl⟩, by decide +kernel, by decide +kernel⟩
  simp [ofUncompiled, ofTwo, managerIn, Value.ofItems, Value.same, Value.sameLeaf, Value.worth?]

end Colloquy
