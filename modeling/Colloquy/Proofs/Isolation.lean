import Colloquy.Service
import Colloquy.Proofs.Listening

/-! What one user asks for leaves the other users alone, as long as no list of theirs is one that
the first user reaches as well.  Lists of the host can be reached by all users, and then a user does
change variables of another one. -/

namespace Colloquy

open Session

/-- Two users whom no name is common to. -/
structure Value.Apart (user other : Value) : Prop where
  self : user.same other = false
  names : ∀ x : Value, x.same user = true → x.same other = false

theorem Value.str_apart {u : String} {other : Value} (h : (Value.str u).same other = false) :
    (Value.str u).Apart other := by
  refine ⟨h, fun x hx => ?_⟩
  rw [Value.same_str hx]
  exact h

/-- The user is none of those whom a computation works for. -/
structure Remit.Spares (r : Remit) (other : Value) : Prop where
  user : r.user.Apart other
  hears : ∀ user, r.hears user → user = r.user

/-! ### Steps -/

section

variable {r : Remit} {other : Value} {moves : Bool} {s t : Session}

theorem Remit.Spares.managerIn_kept (h : r.Spares other) {m : Manager} {draft : Draft}
    (hallows : r.Allows draft.changes)
    (hother : ∀ n, managerIn s.active other = some n → n.ListsIn fun k => ¬ r.lists k) :
    managerIn (kept r.user m draft s).active other = managerIn s.active other := by
  simp only [kept]
  rw [managerIn_withManager_of_apart h.user.names h.user.self, managerIn_withChanges]
  cases hn : managerIn s.active other with
  | none => rfl
  | some n => exact congrArg some ((hother n hn).changedBy_eq hallows)

theorem Step.managerIn_other (hstep : Step r moves s t) (h : r.Spares other)
    (hother : ∀ n, managerIn s.active other = some n → n.ListsIn fun k => ¬ r.lists k) :
    managerIn t.active other = managerIn s.active other := by
  cases hstep with
  | quiet hactive => rw [hactive]
  | await | release => rfl
  | edit _ hm hstack hrevision =>
    obtain ⟨new, hnew, hallows⟩ := hrevision.changes
    rw [List.append_nil] at hnew
    exact h.managerIn_kept (hnew ▸ hallows) hother
  | answer _ hhears =>
    obtain rfl := h.hears _ hhears
    exact h.managerIn_kept (by simp [Remit.Allows]) hother
  | share hallows =>
    rw [managerIn_withChanges]
    cases hn : managerIn s.active other with
    | none => rfl
    | some n => exact congrArg some ((hother n hn).changedBy_eq hallows)
  | push | pop | publish => exact managerIn_withManager_of_apart h.user.names h.user.self _ _
  | drop => exact managerIn_filter_of_apart h.user.names _

theorem Path.managerIn_other (hpath : Path r moves s t) (h : r.Spares other)
    (hother : ∀ n, managerIn s.active other = some n → n.ListsIn fun k => ¬ r.lists k) :
    managerIn t.active other = managerIn s.active other := by
  induction hpath with
  | refl => rfl
  | step hstep _ _ ih =>
    have hfirst := hstep.managerIn_other h hother
    rw [ih (by rwa [hfirst]), hfirst]

theorem countP_dropFirst (h : r.Spares other) (users : List Value) :
    (dropFirst r.user users).countP (·.same other) = users.countP (·.same other) := by
  induction users with
  | nil => rfl
  | cons x rest ih =>
    simp only [dropFirst]
    split
    · rename_i hx
      simp [h.user.names x hx]
    · simp [List.countP_cons, ih]

theorem countP_dropFirst_self (user : Value) (users : List Value) :
    (dropFirst user users).countP (·.same user) = users.countP (·.same user) - 1 := by
  induction users with
  | nil => rfl
  | cons x rest ih =>
    by_cases hx : x.same user = true
    · simp [dropFirst, hx]
    · simp [dropFirst, hx, ih]

theorem Step.awaiting_other (hstep : Step r moves s t) (h : r.Spares other) :
    t.awaiting.countP (·.same other) = s.awaiting.countP (·.same other) := by
  cases hstep with
  | quiet _ hawaiting => rw [hawaiting]
  | await => simp [h.user.self]
  | release => exact countP_dropFirst h s.awaiting
  | edit | answer => rw [kept_awaiting]
  | share => rw [withChanges_eq]
  | push | pop | publish | drop => rfl

theorem Path.awaiting_other (hpath : Path r moves s t) (h : r.Spares other) :
    t.awaiting.countP (·.same other) = s.awaiting.countP (·.same other) := by
  induction hpath with
  | refl => rfl
  | step hstep _ _ ih => rw [ih, hstep.awaiting_other h]

end

/-! ### Requests -/

/-- The requests that are dealt with for one user, if the message comes from that user. -/
inductive Request.For (user : Value) : Request → Prop
  | start : For user .start
  | converse : For user .converse
  | respond : For user .respond
  | hearAnswer : For user .hearAnswer
  | timeOut : For user .timeOut
  | resume : For user (.resume user)
  | command (name text : Value) : For user (.command name user text)

/-- The scripts of a user can come to change only lists with the given numbers. -/
structure Session.Reaches (s : Session) (user : Value) (A : Nat → Prop) : Prop extends
    s.Lends A where
  stack : ∀ c, .conversation c ∈ s.stackOf user → c.bindings.ListsIn A

def Remit.ofUser (user : Value) (A : Nat → Prop) : Remit :=
  { user, lists := A, spared := 0, hears := (· = user), jumps := True }

theorem Session.Reaches.owned {s : Session} {user : Value} {A : Nat → Prop}
    (h : s.Reaches user A) : Owned (Remit.ofUser user A) s :=
  ⟨h.toLends, fun c hc => h.stack c (by simpa [Remit.ofUser] using hc)⟩

theorem Request.For.confined {request : Request} {user : Value} (h : request.For user)
    (A : Nat → Prop) : Confined (Remit.ofUser user A) True request.serve := by
  have hhears : ∃ x, (Remit.ofUser user A).hears x := ⟨user, rfl⟩
  have hsilent {P : Prop} {body : Run Unit} (hbody : Confined (Remit.ofUser user A) P body) :
      Confined (Remit.ofUser user A) P (Request.silently body) :=
    .seq hbody fun _ => .pure fun _ => trivial
  cases h with
  | start => exact hsilent (.start hhears trivial rfl fun _ h => h)
  | converse => exact .seq (.converse hhears trivial rfl fun _ h => h) fun _ => .pure fun _ => trivial
  | respond => exact .seq (.respond hhears trivial rfl fun _ h => h) fun _ => .pure fun _ => trivial
  | hearAnswer => exact .bind (.get_heard hhears) fun _ => hsilent (.hearAnswer fun h => h.2)
  | timeOut => exact hsilent (.timeOut hhears trivial rfl fun _ h => h)
  | resume => exact hsilent (.resume hhears trivial rfl)
  | command name text =>
    refine hsilent (.seq (.known? name) fun k? => ?_)
    cases k? with
    | none => exact .throw _
    | some k => exact .perform hhears (fun _ => trivial) (fun _ => rfl) text

theorem Request.For.path {request : Request} {user : Value} (h : request.For user)
    {message : Option Message} (hmessage : Message.userOf message = user) {s : Session}
    {A : Nat → Prop} (hreaches : s.Reaches user A) :
    Path (Remit.ofUser user A) false { s with message, events := [] }
      (request.run message s).2 := by
  have howned : Owned (Remit.ofUser user A) { s with message, events := [] } :=
    hreaches.owned.path (.single (.quiet rfl rfl rfl rfl))
  have hends := h.confined A { s with message, events := [] }
  rw [Request.run]
  cases hrun : request.serve { s with message, events := [] } with
  | ok v t =>
    rw [hrun] at hends
    exact (hends.2 trivial howned (fun _ => hmessage) (.inl rfl)).1
  | error fault t =>
    rw [hrun] at hends
    exact hends.2 trivial howned (fun _ => hmessage) (.inl rfl)

/-! ### Isolation -/

/-- A request of a user, whether or not it fails, leaves the scripts and the scope of another user as
they are, and how often that user is waited for, if none of the other user's lists is one that the
first user reaches. -/
theorem Request.run_leaves_others {request : Request} {user other : Value}
    {message : Option Message} {s : Session} {A : Nat → Prop} (hrequest : request.For user)
    (hmessage : Message.userOf message = user) (hother : user.Apart other)
    (hreaches : s.Reaches user A)
    (hapart : ∀ m, managerIn s.active other = some m → m.ListsIn fun n => ¬ A n) :
    managerIn (request.run message s).2.active other = managerIn s.active other ∧
      (request.run message s).2.awaiting.countP (·.same other) =
        s.awaiting.countP (·.same other) := by
  have hpath := hrequest.path hmessage hreaches
  have hspares : (Remit.ofUser user A).Spares other := ⟨hother, fun _ h => h⟩
  exact ⟨hpath.managerIn_other hspares hapart, hpath.awaiting_other hspares⟩

/-- Two users with a variable each.  The languages of the user are the list 0 of the host, and the
variable of the second user holds a list of the same languages with a number of its own or not. -/
def Session.ofTwo (number : Nat) : Session :=
  let conversation (bindings : Value) : Conversation :=
    { scriptMeta := .null, filename := "demo", startTime := 0, bindings, speaker := Value.emptyTable }
  let first := conversation (.object [("x", .list ["old"] (some 1))])
  let second := conversation (.object [("y", .list ["en"] (some number))])
  { initialized := true
    host := { preferences := .object [("user", .object [("languages", .list ["en"] (some 0))])] }
    active := [("ann", { user := "ann", stack := [.conversation first] }),
               ("bob", { user := "bob", stack := [.conversation second] })]
    lists := 3 }

def Request.takeLanguages (s : Session) : Session :=
  (run (.command "set" "ann" "x = profile(user.languages)")
    (some { context := [("user", "ann")] }) s).2

def Entry.sizeOfY : Entry → Option Nat
  | .conversation c => (c.bindings.item "y" >>= Value.size).toOption
  | .foreign _ => none

/-- A list of the second user's own is left alone. -/
theorem Request.takeLanguages_leaves_bob :
    managerIn (takeLanguages (ofTwo 2)).active "bob" = managerIn (ofTwo 2).active "bob" := by
  have hreaches : (ofTwo 2).Reaches "ann" fun n => n ≠ 2 := by
    refine ⟨⟨fun n hn => ?_, ?_, trivial, trivial⟩, ?_⟩
    · have : 3 ≤ n := hn
      omega
    · simp [ofTwo, Value.object]
    · simp [stackOf, managerIn, ofTwo, Value.str_same, Value.object]
  have hmessage : Message.userOf (some { context := [("user", "ann")] }) = .str "ann" := by
    simp [Message.userOf, Message.user, Entries.find?, Value.str_same]
  have hother : (Value.str "ann").Apart "bob" := Value.str_apart (by simp [Value.str_same])
  refine (run_leaves_others (.command _ _) hmessage hother hreaches fun m hm => ?_).1
  simp only [managerIn, ofTwo, List.find?, Value.str_same] at hm
  obtain rfl := Option.some.inj hm
  exact ⟨by simp [Entry.ListsIn, Conversation.ListsIn, Value.object], trivial⟩

/-- A list of the host that the second user's variable holds as well is changed there. -/
theorem Request.takeLanguages_changes_bob :
    managerIn (takeLanguages (ofTwo 0)).active "bob" ≠ managerIn (ofTwo 0).active "bob" := by
  intro h
  have hstack : (takeLanguages (ofTwo 0)).stackOf "bob" = (ofTwo 0).stackOf "bob" := by
    rw [stackOf, h, stackOf]
  have hsize : ((takeLanguages (ofTwo 0)).stackOf "bob").map Entry.sizeOfY ≠
      ((ofTwo 0).stackOf "bob").map Entry.sizeOfY := by decide +kernel
  exact hsize (congrArg _ hstack)

end Colloquy
