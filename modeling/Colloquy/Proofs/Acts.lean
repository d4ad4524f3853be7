import Colloquy.Proofs.Computations
import Colloquy.Proofs.Drafts
import Colloquy.Proofs.Remit

/-! What the computations for a user are put together from.  `Acts` is closed under sequence,
handlers and looks at the session, and what it starts from is a short list: telling the host, work
on the user's running script that amends it, leaving it, running another one.  What holds of these
and is kept by putting them together holds of all commands and requests. -/

namespace Colloquy

open Session Value

variable {α β : Type}

/-- For whom a computation works, what it may do and what it can rely on. -/
structure Role where
  user : Value
  /-- The users whose requests it may take for answered. -/
  hears : Value → Prop
  /-- Whether messages, lines, voices and preferences hold no list that can stand in several
  places. -/
  plain : Prop
  calls : Prop
  /-- Whether it may wait for the user, or stop waiting. -/
  asks : Prop := True
  /-- Whether there is a message, where that is known. -/
  message : Option Bool := none
  /-- The voices that it may set in place of a voice. -/
  voices : Value → Value → Prop := fun _ _ => True
  /-- Whether its messages may come from a chat. -/
  chats : Prop := True

/-- The role that may do nothing but work on the user's running script. -/
def Role.bare (user : Value) : Role :=
  { user, hears := fun _ => False, plain := False, calls := False, asks := False }

/-- The role while no message is handled, so that no request is taken for answered. -/
def Role.deaf (r : Role) : Role :=
  { r with hears := fun _ => False, message := some false }

/-- A role that may do whatever a line of a script does. -/
structure Role.Free (r : Role) : Prop where
  hears : ∃ user, r.hears user
  calls : r.calls
  asks : r.asks
  voices : ∀ v w, r.voices v w

/-! ### Plain values -/

/-- A value that holds no list that can stand in several places, if the role relies on that. -/
def Role.Plain (r : Role) (v : Value) : Prop :=
  r.plain → v.ListsIn fun _ => False

namespace Role.Plain

variable {r : Role} {v w key : Value}

theorem str (s : String) : r.Plain (.str s) :=
  fun _ => listsIn_str s

theorem null : r.Plain .null :=
  fun _ => listsIn_null

theorem item (h : r.Plain v) (hitem : v.item key = .ok w) : r.Plain w :=
  fun hp => item_listsIn (h hp) hitem

theorem get {default : Value} (h : r.Plain v) (hdefault : r.Plain default)
    (hget : v.get key default = .ok w) : r.Plain w :=
  fun hp => get_listsIn (h hp) (hdefault hp) hget

theorem put {value : Value} (h : r.Plain v) (hvalue : r.Plain value)
    (hput : v.put key value = .ok w) : r.Plain w :=
  fun hp => put_listsIn (h hp) (hvalue hp) hput

theorem changed (h : r.Plain v) (change : Change) : r.Plain (v.changed change) := by
  intro hp
  rw [ListsIn.changed_eq (fun h => h) _ (h hp)]
  exact h hp

theorem changedBy (h : r.Plain v) (changes : List Change) :
    r.Plain (v.changedBy changes) := by
  induction changes with
  | nil => exact h
  | cons change changes ih => exact ih.changed change

theorem find? {entries : Entries} (h : r.Plain (.table entries))
    (hfind : Entries.find? key entries = some v) : r.Plain v :=
  fun hp => find?_listsIn (listsIn_table.1 (h hp)) hfind

theorem insert {entries : Entries} {name : String} (h : r.Plain (.table entries)) (hv : r.Plain v) :
    r.Plain (.table (entries.insert name v)) := by
  intro hp
  exact listsIn_table.2
    (insert_listsIn (listsIn_str name) (hv hp) (listsIn_table.1 (h hp)))

end Role.Plain

structure Conversation.Plain (r : Role) (c : Conversation) : Prop where
  lines : r.Plain c.lines
  speaker : r.Plain c.speaker

/-! ### Work on a conversation -/

/-- What becomes of a voice where lists are changed and other voices are set. -/
inductive Value.Revoiced (voices : Value → Value → Prop) (v : Value) : Value → Prop
  | refl : Revoiced voices v v
  | changed {w : Value} (change : Change) (h : Revoiced voices v w) :
      Revoiced voices v (w.changed change)
  | set {w x : Value} (h : Revoiced voices v w) (hset : voices w x) : Revoiced voices v x

theorem Value.Revoiced.trans {voices : Value → Value → Prop} {v w x : Value}
    (h : Revoiced voices v w) (h' : Revoiced voices w x) : Revoiced voices v x := by
  induction h' with
  | refl => exact h
  | changed change _ ih => exact ih.changed change
  | set _ hset ih => exact ih.set hset

/-- What amending a conversation leaves alone. -/
structure Conversation.Like (r : Role) (c c' : Conversation) : Prop where
  pending : c'.pending = c.pending
  extras : c'.extras = c.extras
  lines : c'.lines = c.lines
  table : c.bindings.isTable = true → c'.bindings.isTable = true
  plain : c.Plain r → c'.Plain r
  voice : Value.Revoiced r.voices c.speaker c'.speaker

namespace Conversation.Like

variable {r : Role} {c c' c'' : Conversation}

theorem same (hparts : (c'.pending, c'.extras, c'.lines, c'.bindings, c'.speaker) =
    (c.pending, c.extras, c.lines, c.bindings, c.speaker)) : Like r c c' := by
  obtain ⟨hpending, hextras, hlines, hbindings, hspeaker⟩ := by simpa using hparts
  refine ⟨hpending, hextras, hlines, ?_, fun h => ⟨hlines ▸ h.lines, hspeaker ▸ h.speaker⟩, ?_⟩
  · rw [hbindings]
    exact id
  · rw [hspeaker]
    exact .refl

theorem refl (r : Role) (c : Conversation) : Like r c c :=
  same rfl

theorem trans (h : Like r c c') (h' : Like r c' c'') : Like r c c'' where
  pending := h'.pending.trans h.pending
  extras := h'.extras.trans h.extras
  lines := h'.lines.trans h.lines
  table := h'.table ∘ h.table
  plain := h'.plain ∘ h.plain
  voice := h.voice.trans h'.voice

end Conversation.Like

theorem Value.isTable_changed (v : Value) (change : Change) :
    (v.changed change).isTable = v.isTable := by
  cases v with
  | list items number =>
    simp only [changed]
    split <;> rfl
  | null | bool _ | int _ | float _ | str _ | tuple _ | table _ | set _ | record _ =>
    simp only [changed, isTable]

theorem Value.isTable_numbered (v : Value) (next : Nat) :
    (v.numbered next).1.isTable = v.isTable := by
  cases v with
  | list items number => cases number <;> rfl
  | null | bool _ | int _ | float _ | str _ | tuple _ | table _ | set _ | record _ =>
    simp only [numbered, isTable]

theorem Value.isTable_put {v key value w : Value} (h : v.put key value = .ok w)
    (hv : v.isTable = true) : w.isTable = true := by
  cases v with
  | table entries =>
    simp only [put] at h
    split at h
    · cases h
      rfl
    · cases h
  | null | bool _ | int _ | float _ | str _ | list _ _ | tuple _ | set _ | record _ => cases hv

theorem Conversation.like_changed (r : Role) (c : Conversation) (change : Change) :
    c.Like r (c.changed change) := by
  refine ⟨rfl, rfl, rfl, fun h => ?_, fun h => ⟨h.lines, h.speaker.changed change⟩,
    .changed change .refl⟩
  exact (isTable_changed _ _).trans h

theorem Conversation.like_changedBy (r : Role) (c : Conversation) (changes : List Change) :
    c.Like r (c.changedBy changes) := by
  induction changes with
  | nil => exact .refl r c
  | cons change changes ih => exact ih.trans (like_changed r _ change)

def Amends (r : Role) (body : Edit α) : Prop :=
  ∀ d : Draft, d.conversation.Like r (d.after body).conversation

namespace Amends

variable {r : Role} {body : Edit α} {f : α → Edit β}

theorem baseLaw (r : Role) : Edit.BaseLaw fun {_} body => Amends r body :=
  .of_relation (R := fun d d' => d.conversation.Like r d'.conversation)
    (fun d => .refl r d.conversation) fun h h' => h.trans h'

theorem pure (a : α) : Amends r (pure a) :=
  (baseLaw r).pure a

theorem lift (x : Except Fault α) : Amends r (liftM x) :=
  (baseLaw r).lift x

theorem bind (hbody : Amends r body) (hf : ∀ a, Amends r (f a)) : Amends r (body >>= f) :=
  (baseLaw r).bind hbody hf

theorem read : Amends r Edit.read :=
  (baseLaw r).read

theorem update {g : Conversation → Conversation} (hg : ∀ c, Conversation.Like r c (g c)) :
    Amends r (Edit.update g) :=
  fun d => hg d.conversation

theorem step (n : Int) : Amends r (Edit.step n) := by
  intro d
  simp only [Draft.after, Edit.step, Edit.read, bind_apply, get_apply, pure_apply]
  cases d.conversation.index.addInt n with
  | error fault => exact .refl r d.conversation
  | ok index => exact .same rfl

theorem goTo (index : Value) : Amends r (Edit.goTo index) :=
  update fun _ => .same rfl

theorem readVariable (name : Value) : Amends r (Edit.readVariable name) :=
  bind read fun _ => lift _

theorem writeVariable (name value : Value) : Amends r (Edit.writeVariable name value) := by
  intro d
  simp only [Draft.after, Edit.writeVariable, Edit.read, bind_apply, get_apply, pure_apply]
  cases hput : d.conversation.bindings.put name value with
  | error fault => exact .refl r d.conversation
  | ok bindings =>
    exact ⟨rfl, rfl, rfl, Value.isTable_put hput, fun h => ⟨h.lines, h.speaker⟩, .refl⟩

theorem changeList (number : Option Nat) (items : List Value) :
    Amends r (Edit.changeList number items) := by
  intro d
  cases number with
  | none => exact .refl r d.conversation
  | some n => exact Conversation.like_changed r d.conversation { number := n, items }

theorem revoice {g : Conversation → Except Fault Value}
    (hg : ∀ c voice, c.Plain r → g c = .ok voice → r.Plain voice)
    (hset : ∀ c voice, g c = .ok voice → r.voices c.speaker voice) :
    Amends r (do
      let speaker ← g (← Edit.read)
      Edit.update fun c => { c with speaker }) := by
  intro d
  simp only [Draft.after, Edit.read, bind_apply, get_apply, pure_apply]
  cases hvoice : g d.conversation with
  | error fault => exact .refl r d.conversation
  | ok voice =>
    exact ⟨rfl, rfl, rfl, id, fun h => ⟨h.lines, hg _ voice h hvoice⟩,
      .set .refl (hset _ voice hvoice)⟩

end Amends

/-! ### What a computation finds -/

def Message.isChat (m : Message) : Bool :=
  ((Entries.find? "klat_data" m.context).getD .null).truthy

/-- What a computation knows of every session that it finds. -/
structure Knows (r : Role) (s : Session) : Prop where
  heard : (∃ user, r.hears user) → r.hears (Message.userOf s.message)
  data : ∀ m, s.message = some m → r.Plain (.table m.data)
  preferences : r.Plain s.host.preferences
  stack : ∀ c, .conversation c ∈ s.stackOf r.user → c.Plain r
  chats : ∀ m, s.message = some m → m.isChat = true → r.chats

/-! ### Computations for a user -/

/-- A computation in a role, which gives a result as in `Q` if it ends well. -/
inductive Acts : (r : Role) → {α : Type} → (m : Run α) → (Q : α → Prop := fun _ => True) → Prop
  | pure {r : Role} {α : Type} {a : α} {Q : α → Prop} (h : Q a) : Acts r (pure a) Q
  | throw {r : Role} {α : Type} {Q : α → Prop} (fault : Fault) : Acts r (throw fault : Run α) Q
  | bind {r : Role} {α β : Type} {m : Run α} {f : α → Run β} {Q : α → Prop} {R : β → Prop}
      (hm : Acts r m Q) (hf : ∀ a, Q a → Acts r (f a) R) : Acts r (m >>= f) R
  | rescue {r : Role} {α : Type} {m : Run α} {handler : Fault → Run α} {Q : α → Prop}
      (hm : Acts r m Q) (hhandler : ∀ fault, Acts r (handler fault) Q) :
      Acts r (rescue m handler) Q
  /-- What is done next depends on what the user has part in. -/
  | look {r : Role} {α : Type} {f : Session → Run α} {Q : α → Prop}
      (hsame : ∀ s t, SameFor r.user s t → f t = f s) (hf : ∀ s, Knows r s → Acts r (f s) Q) :
      Acts r (get >>= f) Q
  | tell {r : Role} (event : Event) : Acts r (tell event)
  | sleep {r : Role} (milliseconds : Nat) : Acts r (sleep milliseconds)
  | countRead {r : Role} : Acts r (modify fun s => { s with reads := s.reads + 1 })
  | setDatum {r : Role} (name : String) {value : Value} (h : r.Plain value) :
      Acts r (setDatum name value)
  /-- A computation that takes time. -/
  | reckon {r : Role} {α : Type} {m : Run α} (f : Nat → Option α × Nat)
      (hm : ∀ s, m s = match f s.clock with
        | (some a, clock) => .ok a { s with clock }
        | (none, clock) => .error .badValue { s with clock }) : Acts r m
  | addTranscript {r : Role} (text filename startTime : Value) :
      Acts r (addTranscript text filename startTime)
  | handlingNone {r : Role} {α : Type} {m : Run α} {Q : α → Prop} (hm : Acts r.deaf m Q) :
      Acts r (handling none m) Q
  | await {r : Role} (h : r.asks) : Acts r (await r.user)
  | stopAwaiting {r : Role} (h : r.asks) : Acts r (stopAwaiting r.user)
  | edit {r : Role} {α : Type} {body : Edit α} (h : Amends r body) : Acts r (edit r.user body)
  | editLeft {r : Role} {α : Type} (c : Conversation) (body : Edit α) : Acts r (editLeft c body)
  | exitScript {r : Role} : Acts r (exitScript r.user)
  | hearAnswer {r : Role} {message : Option Message} (h : r.hears (Message.userOf message)) :
      Acts r (Command.hearAnswer message)
  | call {r : Role} (h : r.calls) (text : Value) : Acts r (Command.call r.user text)

namespace Acts

variable {r : Role} {m : Run α} {f : α → Run β} {Q : α → Prop} {R : β → Prop}

theorem seq (hm : Acts r m Q) (hf : ∀ a, Acts r (f a) R) : Acts r (m >>= f) R :=
  .bind hm fun a _ => hf a

theorem pure_bind {a : α} (h : Acts r (f a) R) : Acts r (Pure.pure a >>= f) R :=
  h

theorem throw_bind (fault : Fault) : Acts r (MonadExcept.throw fault >>= f) R :=
  throw fault

theorem lift_of {x : Except Fault α} (h : ∀ a, x = .ok a → Q a) : Acts r (liftM x) Q := by
  cases x with
  | ok a => exact .pure (h a rfl)
  | error fault => exact .throw fault

theorem lift (x : Except Fault α) : Acts r (liftM x) (x = .ok ·) :=
  lift_of fun _ h => h

theorem lift_any (x : Except Fault α) : Acts r (liftM x) :=
  lift_of fun _ _ => trivial

theorem ite {c : Prop} [Decidable c] {m' : Run α} (h : Acts r m Q) (h' : Acts r m' Q) :
    Acts r (if c then m else m') Q := by
  split
  · exact h
  · exact h'

/-! ### The session -/

theorem send (m : Message) : Acts r (send m) :=
  tell _

theorem dialog (name : String) (data : Value) : Acts r (dialog name data) :=
  tell _

theorem theMessage : Acts r theMessage fun m => r.Plain (.table m.data) ∧
    ((∃ user, r.hears user) → r.hears m.user) ∧ (m.isChat = true → r.chats) := by
  refine look (fun _ _ h => by rw [h.message]) fun s hs => ?_
  cases hm : s.message with
  | none => exact throw _
  | some m =>
    refine pure ⟨hs.data m hm, fun hhears => ?_, hs.chats m hm⟩
    have hheard := hs.heard hhears
    rwa [hm] at hheard

theorem datum (name : String) {default : Value} (hdefault : r.Plain default) :
    Acts r (datum name default) r.Plain := by
  refine bind theMessage fun m hm => pure ?_
  cases hfind : Entries.find? name m.data with
  | none => exact hdefault
  | some v => exact hm.1.find? hfind

theorem lineData : Acts r lineData r.Plain :=
  datum _ .null

/-! ### The conversations of the user -/

theorem manager? : Acts r (manager? r.user) fun m? =>
    ∀ m c, m? = some m → .conversation c ∈ m.stack → c.Plain r := by
  refine ite (look (fun _ _ h => by rw [h.manager]) fun s hs => pure fun m c hm hc => ?_) (throw _)
  rw [← stackOf_eq hm] at hc
  exact hs.stack c hc

theorem managerAt : Acts r (managerAt r.user) fun m =>
    ∀ c, .conversation c ∈ m.stack → c.Plain r := by
  refine bind manager? fun m? hm => ?_
  cases m? with
  | none => exact throw _
  | some m => exact pure fun c => hm m c rfl

theorem managerOf : Acts r (managerOf r.user) fun m =>
    ∀ c, .conversation c ∈ m.stack → c.Plain r := by
  refine bind manager? fun m? hm => ?_
  cases m? with
  | none => exact throw _
  | some m => exact pure fun c => hm m c rfl

theorem top {m : Manager} (hm : ∀ c, .conversation c ∈ m.stack → c.Plain r) :
    Acts r (top m) fun c? => ∀ c, c? = some c → c.Plain r := by
  simp only [Session.top, Manager.current?]
  cases hstack : m.stack with
  | nil => exact pure fun c hc => by cases hc
  | cons e rest =>
    cases e with
    | foreign v => exact throw _
    | conversation c =>
      refine pure fun c' hc' => ?_
      rw [← Option.some.inj hc']
      exact hm c (by simp [hstack])

theorem currentAt : Acts r (currentAt r.user) fun c? => ∀ c, c? = some c → c.Plain r :=
  bind managerAt fun _ hm => top hm

theorem currentOf : Acts r (currentOf r.user) fun c? => ∀ c, c? = some c → c.Plain r :=
  bind managerOf fun _ hm => top hm

theorem present (c? : Option Conversation) : Acts r (present c?) (c? = some ·) := by
  cases c? with
  | none => exact throw _
  | some c => exact pure rfl

theorem current : Acts r (current r.user) fun c => c.Plain r := by
  refine bind currentAt fun c? hc => ?_
  cases c? with
  | none => exact throw _
  | some c => exact pure (hc c rfl)

theorem editSince (depth : Nat) (c : Conversation) {body : Edit α} (h : Amends r body) :
    Acts r (editSince r.user depth c body) := by
  refine seq manager? fun m? => ?_
  cases m? with
  | none => exact editLeft c body
  | some m => exact ite (edit h) (editLeft c body)

theorem step : Acts r (Session.edit r.user (Edit.step 1)) :=
  edit (.step 1)

theorem law : Run.Law r.user (fun {_} m => Acts r m) (fun {_} m => Acts r m) where
  pure _ := pure trivial
  throw := throw
  bind := seq
  rescue := rescue
  look hsame hf := look hsame fun s _ => hf s
  tell := tell
  sleep := sleep
  addTranscript := addTranscript
  ask _ := edit (.update fun _ => .same rfl)
  step := step
  stepAsking _ := edit (.bind (.step 1) fun _ => .update fun _ => .same rfl)
  before := seq
  after := seq
  lookAfter hsame hf := look hsame fun s _ => hf s

end Acts

end Colloquy
