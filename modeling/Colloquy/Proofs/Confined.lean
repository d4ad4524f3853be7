import Colloquy.Proofs.Computations
import Colloquy.Proofs.Drafts
import Colloquy.Proofs.Remit

/-! Computations that keep within a remit.  `Confined` says it of computations on the session and
`Edits` of work on one conversation.  Both are closed under everything that computations are put
together from, so that a computation is within its remit if its parts are. -/

namespace Colloquy

open Session

variable {b : Bool} {s : Session} {c : Conversation}

variable {α β : Type} {r : Remit} {P : Prop} {p q : Bool} {Q : α → Prop} {R : β → Prop}

/-! ### Work on a conversation -/

/-- Work on a conversation within a remit.  It moves on, if it `moves` and ends well, and gives a
result as in `Q`. -/
def Edits (r : Remit) (body : Edit α) (moves : Bool := false) (Q : α → Prop := fun _ => True) :
    Prop :=
  ∀ d : Draft, r.Holds d.conversation → match body d with
    | .ok a d' => Revision r moves d d' ∧ r.Holds d'.conversation ∧ Q a
    | .error _ d' => Revision r false d d' ∧ r.Holds d'.conversation

namespace Edits

variable {body : Edit α} {f : α → Edit β}

theorem mono {Q' : α → Prop} (h : Edits r body p Q) (hq : q = true → p = true)
    (hQ : ∀ a, Q a → Q' a) : Edits r body q Q' := by
  intro d hd
  have hbody := h d hd
  cases hrun : body d with
  | ok a d' =>
    rw [hrun] at hbody
    exact ⟨hbody.1.weaken hq, hbody.2.1, hQ a hbody.2.2⟩
  | error fault d' =>
    rw [hrun] at hbody
    exact hbody

theorem forget (h : Edits r body p Q) : Edits r body :=
  h.mono (by simp) fun _ _ => trivial

theorem pure {a : α} (h : Q a) : Edits r (pure a) false Q :=
  fun d hd => ⟨.refl r d, hd, h⟩

theorem throw (fault : Fault) : Edits r (throw fault : Edit α) p Q :=
  fun d hd => ⟨.refl r d, hd⟩

theorem lift_of {x : Except Fault α} (h : ∀ a, x = .ok a → Q a) :
    Edits r (liftM x) false Q := by
  intro d hd
  cases x with
  | ok a => exact ⟨.refl r d, hd, h a rfl⟩
  | error fault => exact ⟨.refl r d, hd⟩

theorem lift (x : Except Fault α) : Edits r (liftM x) false (x = .ok ·) :=
  lift_of fun _ h => h

theorem bind_either (hbody : Edits r body p Q) (hf : ∀ a, Q a → Edits r (f a) q R)
    (hb : b = true → p = true ∨ q = true) : Edits r (body >>= f) b R := by
  intro d hd
  have h := hbody d hd
  rw [bind_apply]
  cases hrun : body d with
  | error fault d' =>
    rw [hrun] at h
    exact h
  | ok a d' =>
    rw [hrun] at h
    obtain ⟨hrevision, hd', ha⟩ := h
    have h' := hf a ha d' hd'
    cases hrest : f a d' with
    | ok b d'' =>
      simp only [hrest] at h' ⊢
      exact ⟨hrevision.trans h'.1 hb, h'.2⟩
    | error fault d'' =>
      simp only [hrest] at h' ⊢
      exact ⟨hrevision.trans h'.1 (by simp), h'.2⟩

theorem bind (hbody : Edits r body false Q) (hf : ∀ a, Q a → Edits r (f a) q R) :
    Edits r (body >>= f) q R :=
  hbody.bind_either hf .inr

theorem bind_left (hbody : Edits r body p Q) (hf : ∀ a, Q a → Edits r (f a) false R) :
    Edits r (body >>= f) p R :=
  hbody.bind_either hf .inl

theorem rescue {handler : Fault → Edit α} (hbody : Edits r body p Q)
    (hhandler : ∀ fault, Edits r (handler fault) p Q) :
    Edits r (rescue body handler) p Q := by
  intro d hd
  have h := hbody d hd
  obtain hsame | ⟨fault, d', hrun, hrescue⟩ := rescue_cases body handler d
  · rwa [hsame]
  · rw [hrun] at h
    rw [hrescue]
    have h' := hhandler fault d' h.2
    cases hrest : handler fault d' with
    | ok b d'' =>
      simp only [hrest] at h' ⊢
      exact ⟨h.1.trans h'.1 .inr, h'.2⟩
    | error fault' d'' =>
      simp only [hrest] at h' ⊢
      exact ⟨h.1.trans h'.1 (by simp), h'.2⟩

theorem ite {c : Prop} [Decidable c] {body' : Edit α} (h : Edits r body p Q)
    (h' : Edits r body' p Q) : Edits r (if c then body else body') p Q := by
  split
  · exact h
  · exact h'

theorem read : Edits r Edit.read false r.Holds :=
  fun d hd => ⟨.refl r d, hd, hd⟩

theorem update {g : Conversation → Conversation}
    (hg : ∀ c, (g c).bindings = c.bindings ∧ (g c).lines = c.lines ∧ (g c).index = c.index) :
    Edits r (Edit.update g) := by
  intro d hd
  obtain ⟨hbindings, hlines, hindex⟩ := hg d.conversation
  refine ⟨⟨⟨[], rfl, by simp [Remit.Allows]⟩, fun _ => hlines, fun _ => ?_⟩, ?_, trivial⟩
  · show Ahead false d.conversation.index (g d.conversation).index
    rw [hindex]
    exact Ahead.refl _
  · show (g d.conversation).bindings.ListsIn r.lists
    rw [hbindings]
    exact hd

theorem update_of_jumps (hjumps : r.jumps) {g : Conversation → Conversation}
    (hg : ∀ c, r.Holds c → r.Holds (g c)) : Edits r (Edit.update g) p :=
  fun d hd => ⟨⟨⟨[], rfl, by simp [Remit.Allows]⟩, fun hj => absurd hjumps hj,
    fun hj => absurd hjumps hj⟩, hg _ hd, trivial⟩

theorem goTo (hjumps : r.jumps) (index : Value) : Edits r (Edit.goTo index) p :=
  update_of_jumps hjumps fun _ h => h

theorem step_of_jumps (hjumps : r.jumps) (n : Int) : Edits r (Edit.step n) p :=
  bind read fun _ _ => bind (lift _) fun _ _ => update_of_jumps hjumps fun _ h => h

theorem step {n : Int} (hn : 0 < n) : Edits r (Edit.step n) p := by
  intro d hd
  cases hindex : d.conversation.index.addInt n with
  | error fault =>
    simp only [Edit.step, Edit.read, bind_apply, get_apply, pure_apply, hindex, lift_error_apply]
    exact ⟨.refl r d, hd⟩
  | ok index =>
    simp only [Edit.step, Edit.read, Edit.update, bind_apply, get_apply, pure_apply, hindex,
      lift_ok_apply, modify_apply]
    refine ⟨⟨⟨[], rfl, by simp [Remit.Allows]⟩, fun _ => rfl, fun _ m hm => ?_⟩, hd, trivial⟩
    rw [hm] at hindex
    simp only [Value.addInt, Value.asInt?, Except.ok.injEq] at hindex
    refine ⟨n.toNat, ?_, fun _ => by omega⟩
    rw [← hindex, Int.toNat_of_nonneg (by omega)]

theorem here (name : String) : Edits r (Edit.here name) :=
  bind read fun _ _ => bind (lift _) fun _ _ => (lift _).forget

theorem readVariable_isKey (name : Value) :
    Edits r (Edit.readVariable name) false fun v => v.ListsIn r.lists ∧ name.isKey = true :=
  bind read fun _ hc => (lift _).mono id fun _ hitem =>
    ⟨Value.item_listsIn hc hitem, Value.isKey_of_item hitem⟩

theorem readVariable (name : Value) :
    Edits r (Edit.readVariable name) false fun v => v.ListsIn r.lists :=
  (readVariable_isKey name).mono id fun _ h => h.1

theorem writeVariable {value : Value} (name : Value) (hvalue : value.ListsIn r.lists) :
    Edits r (Edit.writeVariable name value) := by
  intro d hd
  cases hput : d.conversation.bindings.put name value with
  | error fault =>
    simp only [Edit.writeVariable, Edit.read, bind_apply, get_apply, pure_apply, hput,
      lift_error_apply]
    exact ⟨.refl r d, hd⟩
  | ok bindings =>
    simp only [Edit.writeVariable, Edit.read, Edit.update, bind_apply, get_apply, pure_apply, hput,
      lift_ok_apply, modify_apply]
    exact ⟨⟨⟨[], rfl, by simp [Remit.Allows]⟩, fun _ => rfl, fun _ => Ahead.refl _⟩,
      Value.put_listsIn hd hvalue hput, trivial⟩

theorem changeList {number : Option Nat} {items : List Value}
    (hlist : (Value.list items number).ListsIn r.lists) :
    Edits r (Edit.changeList number items) false fun v => v.ListsIn r.lists := by
  obtain ⟨hnumber, hitems⟩ := Value.listsIn_list.1 hlist
  intro d hd
  cases number with
  | none =>
    simp only [Edit.changeList, pure_apply]
    exact ⟨.refl r d, hd, hlist⟩
  | some n =>
    simp only [Edit.changeList, bind_apply, modify_apply, pure_apply]
    refine ⟨⟨⟨[{ number := n, items }], rfl, ?_⟩, fun _ => rfl, fun _ => Ahead.refl _⟩, ?_, hlist⟩
    · simpa [Remit.Allows] using ⟨hnumber n rfl, hitems⟩
    · exact Value.ListsIn.changed hitems _ hd

theorem baseLaw : Edit.BaseLaw fun {_} body => Edits r body where
  pure _ := pure trivial
  lift x := (lift x).forget
  bind hbody hf := bind hbody fun a _ => hf a
  rescue := rescue
  read := read.forget
  itemsNow number items d hd := by
    simp only [Edit.itemsNow, bind_apply, get_apply]
    cases d.changes.find? fun change => number == some change.number with
    | none => exact ⟨.refl r d, hd, trivial⟩
    | some change => exact ⟨.refl r d, hd, trivial⟩

end Edits

/-! ### Computations on the session -/

/-- What is required, provided `P`, of the end of a computation that starts in `s`. -/
def Ends (r : Remit) (P : Prop) (s : Session) (moves : Bool) (Q : α → Prop) :
    EStateM.Result Fault Session α → Prop
  | .ok a t => Steady r s t ∧ (P → Owned r s → Heard r s → Live r t → Path r moves s t ∧ Q a)
  | .error _ t => Steady r s t ∧ (P → Owned r s → Heard r s → Live r t → Path r false s t)

/-- A computation within a remit, provided `P`.  What it does is a path of steps, which moves if the
computation `moves` and ends well, and it gives a result as in `Q`. -/
def Confined (r : Remit) (P : Prop) (m : Run α) (moves : Bool := false)
    (Q : α → Prop := fun _ => True) : Prop :=
  ∀ s, Ends r P s moves Q (m s)

namespace Confined

variable {m : Run α} {f : α → Run β}

theorem after {P' : Prop} (h : Confined r P' m p Q) {t : Session} (hsteady : Steady r s t)
    (hpath : P → Owned r s → Heard r s → Live r t → Path r q s t ∧ P')
    (hb : b = true → q = true ∨ p = true) : Ends r P s b Q (m t) := by
  have hm := h t
  cases hrun : m t with
  | ok a u =>
    rw [hrun] at hm
    refine ⟨hsteady.trans hm.1, fun hP howned hheard hlive => ?_⟩
    obtain ⟨hfirst, hP'⟩ := hpath hP howned hheard (hm.1.live hlive)
    obtain ⟨hrest, ha⟩ := hm.2 hP' (howned.path hfirst) (hsteady.heard hheard) hlive
    exact ⟨hfirst.trans hrest hb, ha⟩
  | error fault u =>
    rw [hrun] at hm
    refine ⟨hsteady.trans hm.1, fun hP howned hheard hlive => ?_⟩
    obtain ⟨hfirst, hP'⟩ := hpath hP howned hheard (hm.1.live hlive)
    exact hfirst.trans (hm.2 hP' (howned.path hfirst) (hsteady.heard hheard) hlive) (by simp)

theorem mono {P' : Prop} {Q' : α → Prop} (h : Confined r P m p Q) (hP : P' → P)
    (hq : q = true → p = true) (hQ : ∀ a, Q a → Q' a) : Confined r P' m q Q' := by
  intro s
  have hm := h s
  cases hrun : m s with
  | ok a t =>
    rw [hrun] at hm
    refine ⟨hm.1, fun hP' howned hheard hlive => ?_⟩
    obtain ⟨hpath, ha⟩ := hm.2 (hP hP') howned hheard hlive
    exact ⟨hpath.weaken hq, hQ a ha⟩
  | error fault t =>
    rw [hrun] at hm
    exact ⟨hm.1, fun hP' => hm.2 (hP hP')⟩

theorem forget (h : Confined r P m p Q) : Confined r P m :=
  h.mono id (by simp) fun _ _ => trivial

theorem pure {a : α} (h : P → Q a) : Confined r P (pure a) false Q :=
  fun s => ⟨Steady.refl r s, fun hP _ _ _ => ⟨.refl s, h hP⟩⟩

theorem throw (fault : Fault) : Confined r P (throw fault : Run α) p Q :=
  fun s => ⟨Steady.refl r s, fun _ _ _ _ => .refl s⟩

theorem pure_bind {a : α} (h : Confined r P (f a) q R) : Confined r P (Pure.pure a >>= f) q R :=
  h

theorem throw_bind (fault : Fault) : Confined r P (MonadExcept.throw fault >>= f) q R :=
  fun s => ⟨.refl r s, fun _ _ _ _ => .refl s⟩

theorem lift_of {x : Except Fault α} (h : P → ∀ a, x = .ok a → Q a) :
    Confined r P (liftM x) false Q := by
  intro s
  cases x with
  | ok a => exact ⟨Steady.refl r s, fun hP _ _ _ => ⟨.refl s, h hP a rfl⟩⟩
  | error fault => exact ⟨Steady.refl r s, fun _ _ _ _ => .refl s⟩

theorem lift (x : Except Fault α) : Confined r P (liftM x) false (x = .ok ·) :=
  lift_of fun _ _ h => h

theorem get : Confined r P (get : Run Session) false (Owned r) :=
  fun s => ⟨Steady.refl r s, fun _ howned _ _ => ⟨.refl s, howned⟩⟩

theorem bind_either (hm : Confined r P m p Q) (hf : ∀ a, Confined r (P ∧ Q a) (f a) q R)
    (hb : b = true → p = true ∨ q = true) : Confined r P (m >>= f) b R := by
  intro s
  have h := hm s
  cases hrun : m s with
  | error fault t =>
    rw [bind_of_error hrun]
    rwa [hrun] at h
  | ok a t =>
    rw [bind_of_ok hrun]
    rw [hrun] at h
    refine (hf a).after h.1 (fun hP howned hheard hlive => ?_) hb
    obtain ⟨hpath, ha⟩ := h.2 hP howned hheard hlive
    exact ⟨hpath, hP, ha⟩

theorem bind (hm : Confined r P m false Q) (hf : ∀ a, Confined r (P ∧ Q a) (f a) q R) :
    Confined r P (m >>= f) q R :=
  hm.bind_either hf .inr

theorem seq (hm : Confined r P m false Q) (hf : ∀ a, Confined r P (f a) q R) :
    Confined r P (m >>= f) q R :=
  hm.bind_either (fun a => (hf a).mono And.left id fun _ => id) .inr

theorem seq_left (hm : Confined r P m p Q) (hf : ∀ a, Confined r P (f a) false R) :
    Confined r P (m >>= f) p R :=
  hm.bind_either (fun a => (hf a).mono And.left id fun _ => id) .inl

theorem rescue {handler : Fault → Run α} (hm : Confined r P m p Q)
    (hhandler : ∀ fault, Confined r P (handler fault) p Q) :
    Confined r P (rescue m handler) p Q := by
  intro s
  have h := hm s
  obtain hsame | ⟨fault, t, hrun, hrescue⟩ := rescue_cases m handler s
  · rwa [hsame]
  · rw [hrun] at h
    rw [hrescue]
    exact (hhandler fault).after h.1
      (fun hP howned hheard hlive => ⟨h.2 hP howned hheard hlive, hP⟩) .inr

theorem ite {c : Prop} [Decidable c] {m' : Run α} (h : Confined r P m p Q)
    (h' : Confined r P m' p Q) : Confined r P (if c then m else m') p Q := by
  split
  · exact h
  · exact h'

end Confined

/-! ### The session -/

/-- A change to the session that conversations, waiting users and the host have no part in. -/
structure Quiet (s t : Session) : Prop where
  active : t.active = s.active
  awaiting : t.awaiting = s.awaiting
  host : t.host = s.host
  lists : t.lists = s.lists
  message : Message.userOf t.message = Message.userOf s.message

namespace Quiet

variable {s t u : Session}

theorem refl (s : Session) : Quiet s s :=
  ⟨rfl, rfl, rfl, rfl, rfl⟩

theorem steady (h : Quiet s t) : Steady r s t :=
  ⟨fun _ => by simp [depthOf, stackOf, h.active], h.message⟩

theorem path (h : Quiet s t) : Path r false s t :=
  .single (.quiet h.active h.awaiting h.host h.lists)

theorem trans (h : Quiet s t) (h' : Quiet t u) : Quiet s u :=
  ⟨h'.active.trans h.active, h'.awaiting.trans h.awaiting, h'.host.trans h.host,
    h'.lists.trans h.lists, h'.message.trans h.message⟩

end Quiet

/-- A computation that makes only quiet changes and gives a result as in `Q`. -/
def Still (m : Run α) (Q : α → Prop := fun _ => True) : Prop :=
  ∀ s, match m s with
    | .ok a t => Quiet s t ∧ Q a
    | .error _ t => Quiet s t

namespace Still

variable {m : Run α} {f : α → Run β}

theorem pure {a : α} (h : Q a) : Still (pure a) Q :=
  fun s => ⟨.refl s, h⟩

theorem throw (fault : Fault) : Still (throw fault : Run α) Q :=
  fun s => Quiet.refl s

theorem lift (x : Except Fault α) : Still (liftM x) (x = .ok ·) := by
  intro s
  cases x with
  | error fault => exact Quiet.refl s
  | ok a => exact ⟨.refl s, rfl⟩

theorem throw_bind (fault : Fault) : Still (MonadExcept.throw fault >>= f) R :=
  throw fault

theorem get : Still (get : Run Session) :=
  fun s => ⟨.refl s, trivial⟩

theorem modify {g : Session → Session} (h : ∀ s, Quiet s (g s)) : Still (modify g) :=
  fun s => ⟨h s, trivial⟩

theorem bind (hm : Still m Q) (hf : ∀ a, Q a → Still (f a) R) : Still (m >>= f) R := by
  intro s
  have hfirst := hm s
  cases hrun : m s with
  | error fault t =>
    rw [hrun] at hfirst
    rw [bind_of_error hrun]
    exact hfirst
  | ok a t =>
    rw [hrun] at hfirst
    rw [bind_of_ok hrun]
    have hrest := hf a hfirst.2 t
    cases hrun' : f a t with
    | ok b u =>
      rw [hrun'] at hrest
      exact ⟨hfirst.1.trans hrest.1, hrest.2⟩
    | error fault u =>
      rw [hrun'] at hrest
      exact hfirst.1.trans hrest

theorem ite {c : Prop} [Decidable c] {m' : Run α} (h : Still m Q) (h' : Still m' Q) :
    Still (if c then m else m') Q := by
  split
  · exact h
  · exact h'

theorem quiet_of_ok (h : Still m Q) {t : Session} {a : α} (hrun : m s = .ok a t) : Quiet s t := by
  have hm := h s
  rw [hrun] at hm
  exact hm.1

theorem tell (event : Event) : Still (tell event) :=
  modify fun _ => ⟨rfl, rfl, rfl, rfl, rfl⟩

theorem setDatum (name : String) (value : Value) : Still (setDatum name value) := by
  intro s
  cases hm : s.message with
  | none =>
    simp only [Session.setDatum, Session.theMessage, bind_apply, get_apply, hm, throw_apply]
    exact Quiet.refl s
  | some m =>
    simp only [Session.setDatum, Session.theMessage, bind_apply, get_apply, hm, pure_apply,
      modify_apply]
    exact ⟨⟨rfl, rfl, rfl, rfl, by rw [hm]; rfl⟩, trivial⟩

theorem of_looks (h : Looks m) : Still m := by
  intro s
  have hsame := h s
  cases hrun : m s with
  | ok a t =>
    rw [after_of_ok hrun] at hsame
    exact ⟨hsame ▸ .refl s, trivial⟩
  | error fault t =>
    rw [after_of_error hrun] at hsame
    exact hsame ▸ Quiet.refl s

end Still

namespace Confined

theorem of_still {m : Run α} (h : Still m Q) : Confined r P m false Q := by
  intro s
  have hm := h s
  cases hrun : m s with
  | ok a t =>
    rw [hrun] at hm
    exact ⟨hm.1.steady, fun _ _ _ _ => ⟨hm.1.path, hm.2⟩⟩
  | error fault t =>
    rw [hrun] at hm
    exact ⟨hm.steady, fun _ _ _ _ => hm.path⟩

theorem modify {g : Session → Session} (h : ∀ s, Quiet s (g s)) : Confined r P (modify g) :=
  of_still (.modify h)

theorem tell (event : Event) : Confined r P (tell event) :=
  of_still (.tell event)

theorem send (m : Message) : Confined r P (send m) :=
  tell _

theorem dialog (name : String) (data : Value) : Confined r P (dialog name data) :=
  tell _

theorem sleep (milliseconds : Nat) : Confined r P (sleep milliseconds) :=
  modify fun _ => ⟨rfl, rfl, rfl, rfl, rfl⟩

theorem of_looks {m : Run α} (h : Looks m) : Confined r P m :=
  of_still (.of_looks h)

theorem get_heard (hhears : ∃ user, r.hears user) :
    Confined r P (MonadState.get : Run Session) false fun s =>
      r.hears (Message.userOf s.message) :=
  fun s => ⟨.refl r s, fun _ _ hheard _ => ⟨.refl s, hheard hhears⟩⟩

theorem theMessage_heard (hhears : ∃ user, r.hears user) :
    Confined r P Session.theMessage false fun m => r.hears m.user := by
  refine bind (get_heard hhears) fun s => ?_
  cases s.message with
  | none => exact throw _
  | some m => exact pure fun h => h.2

theorem forUser {body : Value → Run α} (hspared : r.spared = 0)
    (user : Value) (huser : P → user = r.user)
    (h : ∀ user, Confined { r with user } P (body user) p Q) : Confined r P (body user) p Q := by
  by_cases hsame : user = r.user
  case pos =>
    subst hsame
    exact h r.user
  case neg =>
    intro s
    have hrun := h user s
    have hsteady {t : Session} (ht : Steady { r with user } s t) : Steady r s t :=
      ⟨fun hne => absurd hspared hne, ht.message⟩
    cases hresult : body user s with
    | ok a t =>
      rw [hresult] at hrun
      exact ⟨hsteady hrun.1, fun hP => absurd (huser hP) hsame⟩
    | error fault t =>
      rw [hresult] at hrun
      exact ⟨hsteady hrun.1, fun hP => absurd (huser hP) hsame⟩

theorem datum (name : String) (default : Value) : Confined r P (datum name default) :=
  of_looks (.datum name default)

theorem lineData : Confined r P lineData :=
  datum _ _

theorem setDatum (name : String) (value : Value) : Confined r P (setDatum name value) :=
  of_still (.setDatum name value)

theorem handling_none {m : Run α} (h : Confined r.deaf P m p Q) :
    Confined r P (handling none m) p Q := by
  intro s
  have hm := h { s with message := none }
  have hstart : Path r false s { s with message := none } := .single (.quiet rfl rfl rfl rfl)
  have hend (t : Session) : Path r false t { t with message := s.message } :=
    .single (.quiet rfl rfl rfl rfl)
  have hdeaf : Heard r.deaf { s with message := none } := fun ⟨_, hhears⟩ => hhears.elim
  cases hrun : m { s with message := none } with
  | ok a t =>
    rw [hrun] at hm
    simp only [handling, hrun]
    refine ⟨⟨hm.1.depth, rfl⟩, fun hP howned hheard hlive => ?_⟩
    obtain ⟨hpath, ha⟩ := hm.2 hP (howned.path hstart).deaf hdeaf hlive
    exact ⟨(hstart.trans hpath.of_deaf .inr).trans (hend t) .inl, ha⟩
  | error fault t =>
    rw [hrun] at hm
    simp only [handling, hrun]
    refine ⟨⟨hm.1.depth, rfl⟩, fun hP howned hheard hlive => ?_⟩
    have hpath := hm.2 hP (howned.path hstart).deaf hdeaf hlive
    exact (hstart.trans hpath.of_deaf .inr).trans (hend t) .inl

/-! ### The conversations of the user -/

theorem holds_top {m : Manager} {rest : List Entry} (howned : Owned r s) (hlive : Live r s)
    (hm : managerIn s.active r.user = some m) (hstack : m.stack = .conversation c :: rest) :
    r.Holds c := by
  refine (howned.stack_eq hm hstack).head ?_
  obtain hzero | hlt := hlive
  · omega
  · rwa [depthOf, stackOf_eq hm, hstack, List.length_cons] at hlt

def HoldsTop (r : Remit) (m : Manager) : Prop :=
  ∀ c rest, m.stack = .conversation c :: rest → r.Holds c

theorem manager?_any (user : Value) : Confined r P (manager? user) :=
  of_looks (.manager? user)

theorem manager? :
    Confined r P (manager? r.user) false fun m? => ∀ m, m? = some m → HoldsTop r m := by
  refine ite (fun s => ?_) (throw _)
  refine ⟨.refl r s, fun _ howned _ hlive => ⟨.refl s, fun m hm c rest hstack => ?_⟩⟩
  exact holds_top howned hlive hm hstack

theorem managerAt : Confined r P (managerAt r.user) false (HoldsTop r) := by
  refine bind manager? fun m? => ?_
  cases m? with
  | none => exact throw _
  | some m => exact pure fun ⟨_, hm⟩ => hm m rfl

theorem managerOf : Confined r P (managerOf r.user) false (HoldsTop r) := by
  refine bind manager? fun m? => ?_
  cases m? with
  | none => exact throw _
  | some m => exact pure fun ⟨_, hm⟩ => hm m rfl

theorem top (m : Manager) (hm : P → HoldsTop r m) :
    Confined r P (top m) false fun c? => ∀ c, c? = some c → r.Holds c := by
  simp only [Session.top, Manager.current?]
  cases hstack : m.stack with
  | nil => exact pure fun _ => by simp
  | cons e rest =>
    cases e with
    | foreign v => exact throw _
    | conversation c =>
      refine pure fun hP c' hc' => ?_
      rw [← Option.some.inj hc']
      exact hm hP c rest hstack

theorem top_any (m : Manager) : Confined r P (Session.top m) :=
  (lift _).forget

theorem currentAt :
    Confined r P (currentAt r.user) false fun c? => ∀ c, c? = some c → r.Holds c :=
  bind managerAt fun m => top m And.right

theorem currentOf :
    Confined r P (currentOf r.user) false fun c? => ∀ c, c? = some c → r.Holds c :=
  bind managerOf fun m => top m And.right

theorem present (c? : Option Conversation) : Confined r P (present c?) false (c? = some ·) := by
  cases c? with
  | none => exact throw _
  | some c => exact pure fun _ => rfl

theorem current : Confined r P (current r.user) false r.Holds := by
  refine bind currentAt fun c? => ?_
  cases c? with
  | none => exact throw _
  | some c => exact pure fun ⟨_, hc⟩ => hc c rfl

theorem steady_kept {user : Value} {m : Manager} {e : Entry} {rest : List Entry} (draft : Draft)
    (hm : managerIn s.active user = some m) (hstack : m.stack = e :: rest) :
    Steady r s (kept user m draft s) :=
  ⟨fun _ => Nat.le_of_eq (depthOf_kept draft hm hstack r.user), by rw [kept_message]⟩

theorem edit {body : Edit α} (h : P → Edits r body p Q) : Confined r P (edit r.user body) p Q := by
  intro s
  obtain ⟨fault, herror⟩ | ⟨m, c, rest, hkey, hm, hstack, -⟩ := current_cases r.user s
  · simp only [Session.edit, bind_of_error herror]
    exact ⟨.refl r s, fun _ _ _ _ => .refl s⟩
  · rw [edit_eq hkey hm hstack]
    cases hrun : body { conversation := c } with
    | ok a draft =>
      refine ⟨steady_kept draft hm hstack, fun hP howned _ hlive => ?_⟩
      have hlive' := (steady_kept draft hm hstack).live hlive
      have hbody := h hP { conversation := c } (holds_top howned hlive' hm hstack)
      rw [hrun] at hbody
      exact ⟨.single (.edit hlive' hm hstack hbody.1 hbody.2.1), hbody.2.2⟩
    | error fault draft =>
      refine ⟨steady_kept draft hm hstack, fun hP howned _ hlive => ?_⟩
      have hlive' := (steady_kept draft hm hstack).live hlive
      have hbody := h hP { conversation := c } (holds_top howned hlive' hm hstack)
      rw [hrun] at hbody
      exact .single (.edit hlive' hm hstack hbody.1 hbody.2)

theorem edit_answered {user : Value} (huser : P → r.hears user) :
    Confined r P (Session.edit user (Edit.update fun c => { c with lastRequest := "" })) := by
  intro s
  obtain ⟨fault, herror⟩ | ⟨m, c, rest, hkey, hm, hstack, -⟩ := current_cases user s
  · simp only [Session.edit, bind_of_error herror]
    exact ⟨.refl r s, fun _ _ _ _ => .refl s⟩
  · rw [edit_eq hkey hm hstack]
    refine ⟨steady_kept _ hm hstack, fun hP _ _ hlive => ⟨.single ?_, trivial⟩⟩
    exact .answer ((steady_kept _ hm hstack).live hlive) (huser hP) hm hstack

theorem steady_withChanges (changes : List Value.Change) (s : Session) :
    Steady r s (withChanges changes s) :=
  ⟨fun _ => by simp [depthOf, stackOf_withChanges], by rw [withChanges_eq]⟩

theorem editLeft {body : Edit α} (hc : P → r.Holds c) (h : P → Edits r body p Q) :
    Confined r P (editLeft c body) false Q := by
  intro s
  have hpath : ∀ {draft : Draft} {moves : Bool}, Revision r moves { conversation := c } draft →
      Path r false s (withChanges draft.changes s) := by
    intro draft moves hrevision
    obtain ⟨new, hnew, hallows⟩ := hrevision.changes
    rw [List.append_nil] at hnew
    exact .single (.share (hnew ▸ hallows) s)
  cases hrun : body { conversation := c } with
  | ok a draft =>
    simp only [Session.editLeft, hrun, bind_apply, modify_apply, pure_apply]
    refine ⟨steady_withChanges _ s, fun hP _ _ _ => ?_⟩
    have hbody := h hP { conversation := c } (hc hP)
    rw [hrun] at hbody
    exact ⟨hpath hbody.1, hbody.2.2⟩
  | error fault draft =>
    simp only [Session.editLeft, hrun, bind_apply, modify_apply, throw_apply]
    refine ⟨steady_withChanges _ s, fun hP _ _ _ => ?_⟩
    have hbody := h hP { conversation := c } (hc hP)
    rw [hrun] at hbody
    exact hpath hbody.1

theorem editSince {body : Edit α} (depth : Nat) (hc : P → r.Holds c) (h : P → Edits r body false Q)
    : Confined r P (editSince r.user depth c body) false Q := by
  refine seq manager? fun m? => ?_
  cases m? with
  | none => exact editLeft hc h
  | some m => exact ite (edit h) (editLeft hc h)

/-- Work on the conversation that was running before a computation, which may have left it.  If it
was left, that was a move. -/
theorem since {m : Run α} {body : α → Edit β} (hm : Confined r P m)
    (hbody : ∀ a, Edits r (body a) q R) (hq : q = true → ¬ r.jumps) :
    Confined r P (do
      let depth := (← Session.managerAt r.user).depth
      let c ← Session.current r.user
      let a ← m
      Session.editSince r.user depth c (body a)) q R := by
  intro s
  obtain ⟨fault, herror⟩ | ⟨n, hkey, hn, hat⟩ := managerAt_cases r.user s
  · rw [bind_of_error herror]
    exact ⟨.refl r s, fun _ _ _ _ => .refl s⟩
  rw [bind_of_ok hat]
  obtain ⟨fault, herror⟩ | ⟨n', c, rest, -, hn', hstack, hcurrent⟩ := current_cases r.user s
  · rw [bind_of_error herror]
    exact ⟨.refl r s, fun _ _ _ _ => .refl s⟩
  obtain rfl : n = n' := Option.some.inj (hn.symm.trans hn')
  rw [bind_of_ok hcurrent]
  have hrun := hm s
  cases hresult : m s with
  | error fault t =>
    rw [hresult] at hrun
    rw [bind_of_error hresult]
    exact hrun
  | ok a t =>
    rw [hresult] at hrun
    rw [bind_of_ok hresult]
    have hdepth : n.depth = s.depthOf r.user := by rw [depthOf, stackOf_eq hn, Manager.depth]
    have hpath : P → Owned r s → Heard r s → Live r t → Path r false s t ∧ r.Holds c :=
      fun hP howned hheard hlive => ⟨(hrun.2 hP howned hheard hlive).1,
        holds_top howned (hrun.1.live hlive) hn hstack⟩
    have hleft (hne : t.depthOf r.user ≠ s.depthOf r.user) :
        Ends r P s q R (Session.editLeft c (body a) t) := by
      have hmoved (h : Path r false s t) : Path r q s t := by
        cases q with
        | false => exact h
        | true => exact h.moves_of_depth (hq rfl) hne
      refine (editLeft (P := r.Holds c) id fun _ => hbody a).after hrun.1
        (fun hP howned hheard hlive => ?_) .inl
      obtain ⟨hfirst, hc⟩ := hpath hP howned hheard hlive
      exact ⟨hmoved hfirst, hc⟩
    rw [Session.editSince]
    cases hnow : managerIn t.active r.user with
    | none =>
      rw [bind_of_ok (manager?_of_isKey hkey t)]
      simp only [hnow]
      refine hleft ?_
      rw [← hdepth, depthOf, stackOf, hnow, Manager.depth, hstack]
      simp
    | some n' =>
      rw [bind_of_ok (manager?_of_isKey hkey t)]
      simp only [hnow]
      split
      · exact (edit fun _ => hbody a).after hrun.1 hpath .inr
      · rename_i hne
        refine hleft ?_
        rw [← hdepth, depthOf, stackOf_eq hnow]
        simpa [Manager.depth] using hne

theorem begin (hjumps : r.jumps) (hspared : r.spared = 0) (scriptMeta filename : Value) :
    Confined r P (begin r.user scriptMeta filename) := by
  intro s
  by_cases hkey : r.user.isKey
  case neg =>
    simp only [Session.begin, Session.manager?, hkey, Bool.false_eq_true, if_false, bind_apply,
      throw_apply]
    exact ⟨.refl r s, fun _ _ _ _ => .refl s⟩
  case pos =>
    cases htime : Clock.wholeSeconds s.clock with
    | error fault =>
      simp only [Session.begin, Session.manager?, hkey, if_true, bind_apply, get_apply, pure_apply,
        htime, lift_error_apply]
      exact ⟨.refl r s, fun _ _ _ _ => .refl s⟩
    | ok time =>
      simp only [Session.begin, Session.manager?, hkey, if_true, bind_apply, get_apply, pure_apply,
        htime, lift_ok_apply, setManager_apply]
      refine ⟨⟨fun h => absurd hspared h, rfl⟩, fun _ _ _ _ => ⟨.single ?_, trivial⟩⟩
      exact .push hjumps (by omega) rfl (by simp [Remit.Holds, Conversation.start])

theorem isAwaiting (user : Value) : Confined r P (isAwaiting user) :=
  of_looks (.isAwaiting user)

theorem await : Confined r P (await r.user) := fun s =>
  ⟨.of_stack rfl rfl, fun _ _ _ _ => ⟨.single (.await s), trivial⟩⟩

theorem stopAwaiting : Confined r P (stopAwaiting r.user) := fun s =>
  ⟨.of_stack rfl rfl, fun _ _ _ _ => ⟨.single (.release s), trivial⟩⟩

theorem dropManager : Confined r P (dropManager r.user) := by
  refine seq get fun s => ?_
  extract_lets rest
  have hrest : Confined r P (rest ()) := by
    refine seq managerAt fun _ s => ?_
    have hempty {t : Session} (ht : managerIn t.active r.user = none) : t.depthOf r.user = 0 := by
      simp [depthOf, stackOf, ht]
    have hdropped := hempty (t := { s with active := _ }) (managerIn_filter_self s.active r.user)
    refine ⟨⟨fun _ => hdropped ▸ Nat.zero_le _, rfl⟩, fun _ _ _ hlive => ⟨.single ?_, trivial⟩⟩
    obtain hspared | hlt := hlive
    · exact .drop hspared (by simp)
    · exact absurd (hdropped ▸ hlt) (Nat.not_lt_zero _)
  exact ite (throw_bind _) hrest

theorem addTranscript (text filename startTime : Value) :
    Confined r P (addTranscript text filename startTime) := by
  refine of_still fun s => ?_
  unfold Colloquy.addTranscript
  simp only [bind_apply, get_apply]
  cases s.files.resolve s.root [] (joinPath (s.path transcriptFolder)
      (filename.display ++ "_" ++ startTime.display ++ ".txt")) with
  | error fault => exact Quiet.refl s
  | ok target =>
    simp only [lift_ok_apply]
    cases s.files.appendTarget "" target with
    | error fault => exact Quiet.refl s
    | ok files =>
      simp only [lift_ok_apply, set_apply]
      cases text.needle with
      | error fault => exact ⟨rfl, rfl, rfl, rfl, rfl⟩
      | ok added =>
        simp only [lift_ok_apply]
        cases files.appendTarget added target with
        | error fault => exact ⟨rfl, rfl, rfl, rfl, rfl⟩
        | ok files => exact ⟨⟨rfl, rfl, rfl, rfl, rfl⟩, trivial⟩

theorem law : Run.Law r.user (fun {_} m => Confined r P m) (fun {_} m => Confined r P m p) where
  pure _ := pure fun _ => trivial
  throw := throw
  bind := seq
  rescue := rescue
  look _ hf := seq get hf
  tell := tell
  sleep := sleep
  addTranscript := addTranscript
  ask _ := edit fun _ => .update fun _ => ⟨rfl, rfl, rfl⟩
  step := edit fun _ => .step (by decide)
  stepAsking _ := edit fun _ =>
    .bind_left (.step (by decide)) fun _ _ => .update fun _ => ⟨rfl, rfl, rfl⟩
  before := seq_left
  after := seq
  lookAfter _ hf := seq get hf

end Confined

end Colloquy
