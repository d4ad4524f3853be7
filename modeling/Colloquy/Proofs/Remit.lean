import Colloquy.Proofs.Lists
import Colloquy.Proofs.Session

/-! What a computation for a user can do to the session.  It works for one user, it changes only
lists that this user reaches, and what it does is a sequence of steps of a few kinds.  `Remit` says
what is allowed, `Step` what a step within it does, and `Owned` is the invariant that lets a
computation find only lists that it may change. -/

namespace Colloquy

open Session List

variable {c : Conversation} {rest : List Entry} {e : Entry} {m : Manager} {r : Remit}
  {changes : List Value.Change} {user : Value} {moves : Bool} {s t : Session}

/-- What a computation for a user may do. -/
structure Remit where
  user : Value
  /-- The numbers of the lists that it may change. -/
  lists : Nat → Prop
  /-- The number of scripts at the bottom of the user's stack that it does not reach. -/
  spared : Nat
  /-- The users whose requests it may take for answered. -/
  hears : Value → Prop
  /-- Whether it may go to any line, start scripts and put other lines in the place of those of a
  script. -/
  jumps : Prop

/-! ### Drafts -/

/-- Whether an index that is an integer is `i` or one behind it, which it is for certain if it
`moves`. -/
def Ahead (moves : Bool) (i j : Value) : Prop :=
  ∀ n : Int, i = .int n → ∃ k : Nat, j = .int (n + k) ∧ (moves = true → 0 < k)

theorem Ahead.refl (i : Value) : Ahead false i i :=
  fun n hi => ⟨0, by simp [hi], by simp⟩

theorem Ahead.trans {p q b : Bool} {i j k : Value} (hij : Ahead p i j) (hjk : Ahead q j k)
    (hb : b = true → p = true ∨ q = true) : Ahead b i k := by
  intro n hi
  obtain ⟨x, hj, hx⟩ := hij n hi
  obtain ⟨y, hk, hy⟩ := hjk _ hj
  refine ⟨x + y, by rw [hk]; congr 1; omega, fun hmoves => ?_⟩
  obtain hp | hq := hb hmoves
  · have := hx hp
    omega
  · have := hy hq
    omega

/-- Lists that may be changed, to items that hold only such lists. -/
def Remit.Allows (r : Remit) (changes : List Value.Change) : Prop :=
  ∀ change ∈ changes, r.lists change.number ∧ ∀ x ∈ change.items, x.ListsIn r.lists

/-- A conversation whose variables hold only lists that may be changed. -/
def Remit.Holds (r : Remit) (c : Conversation) : Prop :=
  c.bindings.ListsIn r.lists

/-- What work on a conversation may do: without jumps it leaves the lines and goes ahead. -/
structure Revision (r : Remit) (moves : Bool) (d d' : Draft) : Prop where
  changes : ∃ new, d'.changes = new ++ d.changes ∧ r.Allows new
  lines : ¬ r.jumps → d'.conversation.lines = d.conversation.lines
  index : ¬ r.jumps → Ahead moves d.conversation.index d'.conversation.index

namespace Revision

variable {r : Remit} {p q b : Bool} {d d' d'' : Draft}

theorem refl (r : Remit) (d : Draft) : Revision r false d d :=
  ⟨⟨[], rfl, by simp [Remit.Allows]⟩, fun _ => rfl, fun _ => Ahead.refl _⟩

theorem trans (h : Revision r p d d') (h' : Revision r q d' d'')
    (hb : b = true → p = true ∨ q = true) : Revision r b d d'' := by
  obtain ⟨new, hnew, hallows⟩ := h.changes
  obtain ⟨newer, hnewer, hallows'⟩ := h'.changes
  refine ⟨⟨newer ++ new, by rw [hnewer, hnew, append_assoc], ?_⟩, fun hj => ?_,
    fun hj => (h.index hj).trans (h'.index hj) hb⟩
  · intro change hchange
    obtain hin | hin := mem_append.1 hchange
    · exact hallows' change hin
    · exact hallows change hin
  · rw [h'.lines hj, h.lines hj]

theorem weaken (h : Revision r p d d') (hb : b = true → p = true) : Revision r b d d' :=
  h.trans (.refl r d') fun hmoves => .inl (hb hmoves)

end Revision

/-! ### Steps -/

/-- Whether a script runs above the ones that are spared, if any are. -/
def Live (r : Remit) (s : Session) : Prop :=
  r.spared = 0 ∨ r.spared < s.depthOf r.user

/-- A step of a computation within its remit.  It `moves` if it takes a script off the stack or goes
ahead in the one on top. -/
inductive Step (r : Remit) : Bool → Session → Session → Prop
  /-- Nothing happens to conversations, waiting users and the host. -/
  | quiet {s t : Session} (hactive : t.active = s.active) (hawaiting : t.awaiting = s.awaiting)
      (hhost : t.host = s.host) (hlists : t.lists = s.lists) : Step r false s t
  | await (s : Session) : Step r false s { s with awaiting := s.awaiting ++ [r.user] }
  | release (s : Session) : Step r false s { s with awaiting := dropFirst r.user s.awaiting }
  | edit {moves : Bool} {s : Session} {m : Manager} {c : Conversation} {rest : List Entry}
      {draft : Draft} (hlive : Live r s) (hm : managerIn s.active r.user = some m)
      (hstack : m.stack = .conversation c :: rest)
      (hrevision : Revision r moves { conversation := c } draft)
      (hholds : r.Holds draft.conversation) : Step r moves s (kept r.user m draft s)
  /-- The request of a user is taken for answered. -/
  | answer {s : Session} {user : Value} {m : Manager} {c : Conversation} {rest : List Entry}
      (hlive : Live r s) (hhears : r.hears user) (hm : managerIn s.active user = some m)
      (hstack : m.stack = .conversation c :: rest) :
      Step r false s (kept user m { conversation := { c with lastRequest := "" } } s)
  /-- Lists are changed by work on a conversation that was left. -/
  | share {changes : List Value.Change} (hallows : r.Allows changes) (s : Session) :
      Step r false s (withChanges changes s)
  | push {s : Session} {m : Manager} {c : Conversation} (hjumps : r.jumps)
      (hspared : r.spared ≤ s.depthOf r.user)
      (hm : (managerIn s.active r.user).getD { user := r.user } = m) (hholds : r.Holds c) :
      Step r false s (replaced r.user (m.push c) s)
  | pop {s : Session} {m : Manager} {e : Entry} {rest : List Entry}
      (hlive : Live r (replaced r.user { m with stack := rest } s))
      (hm : managerIn s.active r.user = some m) (hstack : m.stack = e :: rest) :
      Step r true s (replaced r.user { m with stack := rest } s)
  /-- The variables of a script that was left come into the scope. -/
  | publish {s : Session} {m : Manager} (scope : Entries)
      (hm : managerIn s.active r.user = some m) :
      Step r false s (replaced r.user { m with scope } s)
  /-- The entry of the user is dropped, with all scripts that are left. -/
  | drop {moves : Bool} {s : Session} (hspared : r.spared = 0)
      (hmoves : moves = true → s.stackOf r.user ≠ []) :
      Step r moves s { s with active := s.active.filter fun (u, _) => !u.same r.user }

/-- A sequence of steps, of which at least one moves if it `moves`. -/
inductive Path (r : Remit) : Bool → Session → Session → Prop
  | refl (s : Session) : Path r false s s
  | step {p q b : Bool} {s t u : Session} (h : Step r p s t) (hrest : Path r q t u)
      (hb : b = true → p = true ∨ q = true) : Path r b s u

namespace Path

variable {r : Remit} {p q b : Bool} {s t u : Session}

theorem single (h : Step r p s t) : Path r p s t :=
  .step h (.refl t) .inl

theorem weaken (h : Path r p s t) (hb : b = true → p = true) : Path r b s t := by
  cases h with
  | refl =>
    cases b with
    | false => exact .refl s
    | true => exact absurd (hb rfl) (by simp)
  | step h hrest hp => exact .step h hrest fun hmoves => hp (hb hmoves)

theorem trans (h : Path r p s t) (h' : Path r q t u) (hb : b = true → p = true ∨ q = true) :
    Path r b s u := by
  induction h generalizing b with
  | refl => exact h'.weaken fun hmoves => by simpa using hb hmoves
  | @step p' q' b' _ _ _ hstep _ hp ih =>
    refine .step hstep (ih (b := q' || q) h' (by simp)) fun hmoves => ?_
    obtain hfirst | hlast := hb hmoves
    · obtain hhead | htail := hp hfirst
      · exact .inl hhead
      · exact .inr (by simp [htail])
    · exact .inr (by simp [hlast])

end Path

/-! ### What a user reaches -/

/-- A stack whose scripts above the ones that are spared hold only lists that may be changed. -/
def Remit.HoldsAbove (r : Remit) (stack : List Entry) : Prop :=
  ∀ c, .conversation c ∈ stack.take (stack.length - r.spared) → r.Holds c

/-- New lists and the lists of the host, which the scripts of all users can come to, have only the
given numbers. -/
structure Session.Lends (s : Session) (A : Nat → Prop) : Prop where
  fresh : ∀ n, s.lists ≤ n → A n
  preferences : s.host.preferences.ListsIn A
  answers : Value.EntriesIn A s.host.skillAnswers
  pages : Value.EntriesIn A s.host.pages

/-- The state in which a computation finds only lists that it may change: those of the host, those
of the scripts on the user's stack above the ones that are spared, and new ones. -/
structure Owned (r : Remit) (s : Session) : Prop extends s.Lends r.lists where
  stack : r.HoldsAbove (s.stackOf r.user)

section

variable {r : Remit} {changes : List Value.Change}

theorem Value.ListsIn.changedBy (hallows : r.Allows changes) {v : Value} (h : v.ListsIn r.lists) :
    (v.changedBy changes).ListsIn r.lists := by
  induction changes with
  | nil => exact h
  | cons change changes ih =>
    have hrest := ih (forall_mem_cons.1 hallows).2
    exact hrest.changed (hallows change mem_cons_self).2

theorem Remit.Holds.changedBy (hallows : r.Allows changes) (h : r.Holds c) :
    r.Holds (c.changedBy changes) := by
  rw [Holds, Conversation.changedBy_eq]
  exact Value.ListsIn.changedBy hallows h

theorem Remit.Holds.settled {next : Nat} (hfresh : ∀ n, next ≤ n → r.lists n) {draft : Draft}
    (h : r.Holds draft.conversation) : r.Holds (settled next draft) :=
  Value.ListsIn.numbered draft.conversation.bindings hfresh h

namespace Remit.HoldsAbove

theorem changedBy (hallows : r.Allows changes) {stack : List Entry} (h : r.HoldsAbove stack) :
    r.HoldsAbove (stack.map (Entry.changedBy changes)) := by
  intro c hc
  rw [length_map, ← map_take] at hc
  obtain ⟨c', hc', rfl⟩ := Entry.exists_of_mem_changedBy hc
  exact (h c' hc').changedBy hallows

theorem nil (r : Remit) : r.HoldsAbove [] := by
  intro c hc
  simp at hc

theorem cons (hc : r.spared < rest.length + 1 → r.Holds c) (h : r.HoldsAbove rest) :
    r.HoldsAbove (.conversation c :: rest) := by
  intro c' hc'
  by_cases hspared : r.spared ≤ rest.length
  · rw [length_cons, show rest.length + 1 - r.spared = (rest.length - r.spared) + 1 by omega,
      take_succ_cons, mem_cons] at hc'
    obtain hhead | htail := hc'
    · rw [Entry.conversation.inj hhead]
      exact hc (by omega)
    · exact h c' htail
  · simp [show rest.length + 1 - r.spared = 0 by omega] at hc'

theorem tail (h : r.HoldsAbove (e :: rest)) : r.HoldsAbove rest := by
  intro c hc
  by_cases hspared : r.spared ≤ rest.length
  · refine h c ?_
    rw [length_cons, show rest.length + 1 - r.spared = (rest.length - r.spared) + 1 by omega,
      take_succ_cons]
    exact mem_cons_of_mem _ hc
  · simp [show rest.length - r.spared = 0 by omega] at hc

theorem head (h : r.HoldsAbove (.conversation c :: rest)) (hspared : r.spared < rest.length + 1) :
    r.Holds c := by
  refine h c ?_
  rw [length_cons, show rest.length + 1 - r.spared = (rest.length - r.spared) + 1 by omega]
  simp

end Remit.HoldsAbove

end

/-! ### What a user does not reach -/

def Conversation.ListsIn (A : Nat → Prop) (c : Conversation) : Prop :=
  c.bindings.ListsIn A ∧ c.speaker.ListsIn A

def Entry.ListsIn (A : Nat → Prop) : Entry → Prop
  | .conversation c => c.ListsIn A
  | .foreign _ => True

structure Manager.ListsIn (A : Nat → Prop) (m : Manager) : Prop where
  stack : ∀ e ∈ m.stack, e.ListsIn A
  scope : Value.EntriesIn A m.scope

section

variable {A : Nat → Prop} {change : Value.Change}

theorem Entry.ListsIn.changed_eq (hchange : ¬ A change.number) (h : e.ListsIn A) :
    e.changed change = e := by
  cases e with
  | foreign v => rfl
  | conversation c =>
    simp only [Entry.changed, Conversation.changed, Value.ListsIn.changed_eq hchange _ h.1,
      Value.ListsIn.changed_eq hchange _ h.2]

theorem Manager.ListsIn.changed_eq (hchange : ¬ A change.number) (h : m.ListsIn A) :
    m.changed change = m := by
  have hstack : m.stack.map (Entry.changed change) = m.stack := by
    calc m.stack.map (Entry.changed change)
        = m.stack.map id := map_congr_left fun e he => (h.stack e he).changed_eq hchange
      _ = m.stack := map_id _
  have hscope := Value.EntriesIn.changed_eq hchange _ h.scope
  calc m.changed change
      = { m with stack := m.stack.map (Entry.changed change),
                 scope := Value.changedEntries change m.scope } := by
        rw [← Manager.changed_stack]
        rfl
    _ = m := by rw [hstack, hscope]

theorem Entry.ListsIn.changedBy_eq (hallows : r.Allows changes) (h : e.ListsIn fun n => ¬ r.lists n)
    : e.changedBy changes = e :=
  foldr_eq_self fun change hchange => h.changed_eq (not_not_intro (hallows change hchange).1)

theorem Manager.ListsIn.changedBy_eq (hallows : r.Allows changes)
    (h : m.ListsIn fun n => ¬ r.lists n) : m.changedBy changes = m :=
  foldr_eq_self fun change hchange => h.changed_eq (not_not_intro (hallows change hchange).1)

end

theorem hostAfter_pages (changes : List Value.Change) (host : Host) :
    (hostAfter changes host).pages = host.pages := by
  induction changes with
  | nil => rfl
  | cons change changes ih => exact ih

namespace Owned

variable {r : Remit} {s t : Session}

theorem host_changedBy (h : Owned r s) (hallows : r.Allows changes) :
    (hostAfter changes s.host).preferences.ListsIn r.lists ∧
      Value.EntriesIn r.lists (hostAfter changes s.host).skillAnswers := by
  induction changes with
  | nil => exact ⟨h.preferences, h.answers⟩
  | cons change changes ih =>
    obtain ⟨hpreferences, hanswers⟩ := ih fun other hother =>
      hallows other (mem_cons_of_mem _ hother)
    have hitems := (hallows change mem_cons_self).2
    exact ⟨hpreferences.changed hitems, hanswers.changed hitems⟩

theorem stack_eq (h : Owned r s) {stack : List Entry} (hm : managerIn s.active r.user = some m)
    (hstack : m.stack = stack) : r.HoldsAbove stack := by
  rw [← hstack, ← stackOf_eq hm]
  exact h.stack

theorem replaced (h : Owned r s)
    (hstack : r.HoldsAbove ((Session.replaced user m s).stackOf r.user)) :
    Owned r (Session.replaced user m s) :=
  ⟨⟨h.fresh, h.preferences, h.answers, h.pages⟩, hstack⟩

theorem kept (h : Owned r s) {draft : Draft} (hallows : r.Allows draft.changes)
    (hstack : r.HoldsAbove ((Session.kept user m draft s).stackOf r.user)) :
    Owned r (Session.kept user m draft s) := by
  obtain ⟨hpreferences, hanswers⟩ := h.host_changedBy hallows
  refine ⟨⟨fun n hn => h.fresh n ?_, ?_, ?_, ?_⟩, hstack⟩
  · exact Nat.le_trans (Value.le_numbered _ _) hn
  · rwa [kept_host]
  · rwa [kept_host]
  · rw [kept_host, hostAfter_pages]
    exact h.pages

theorem step (h : Owned r s) (hstep : Step r moves s t) : Owned r t := by
  cases hstep with
  | quiet hactive hawaiting hhost hlists =>
    have hstack : t.stackOf r.user = s.stackOf r.user := by simp [stackOf, hactive]
    refine ⟨⟨?_, ?_, ?_, ?_⟩, ?_⟩
    · rw [hlists]
      exact h.fresh
    · rw [hhost]
      exact h.preferences
    · rw [hhost]
      exact h.answers
    · rw [hhost]
      exact h.pages
    · rw [hstack]
      exact h.stack
  | await => exact ⟨⟨h.fresh, h.preferences, h.answers, h.pages⟩, h.stack⟩
  | release => exact ⟨⟨h.fresh, h.preferences, h.answers, h.pages⟩, h.stack⟩
  | edit _ hm hstack hrevision hholds =>
    obtain ⟨new, hnew, hallows⟩ := hrevision.changes
    rw [append_nil] at hnew
    subst hnew
    refine h.kept hallows ?_
    rw [stackOf_kept_self _ hm hstack]
    exact ((h.stack_eq hm hstack).tail.changedBy hallows).cons fun _ => hholds.settled h.fresh
  | @answer _ user m c rest _ hhears hm hstack =>
    have hallows : r.Allows [] := by simp [Remit.Allows]
    refine h.kept hallows ?_
    obtain hnew | ⟨hold, hnew⟩ := stackOf_kept_cases
      { conversation := { c with lastRequest := "" } } hm hstack r.user
    · rw [hnew]
      exact h.stack.changedBy hallows
    · have habove : r.HoldsAbove (.conversation c :: rest) := hold ▸ h.stack
      rw [hnew]
      refine (habove.tail.changedBy hallows).cons fun hspared => ?_
      rw [length_map] at hspared
      exact Remit.Holds.settled h.fresh (habove.head hspared)
  | @share changes hallows _ =>
    obtain ⟨hpreferences, hanswers⟩ := h.host_changedBy hallows
    have hstack : r.HoldsAbove ((withChanges changes s).stackOf r.user) := by
      rw [stackOf_withChanges]
      exact h.stack.changedBy hallows
    rw [withChanges_eq] at hstack ⊢
    refine ⟨⟨h.fresh, hpreferences, hanswers, ?_⟩, hstack⟩
    show Value.EntriesIn r.lists (hostAfter changes s.host).pages
    rw [hostAfter_pages]
    exact h.pages
  | @push _ _ c _ _ hm hholds =>
    refine h.replaced ?_
    obtain hnew | ⟨-, hnew⟩ := stackOf_push_cases hm c
    · rw [hnew]
      exact h.stack.cons fun _ => hholds
    · rw [hnew]
      exact .nil r
  | pop _ hm hstack =>
    refine h.replaced ?_
    rw [stackOf_replaced_self hm]
    exact (h.stack_eq hm hstack).tail
  | publish scope hm =>
    refine h.replaced ?_
    rw [stackOf_replaced_self hm]
    exact stackOf_eq hm ▸ h.stack
  | drop =>
    refine ⟨⟨h.fresh, h.preferences, h.answers, h.pages⟩, ?_⟩
    simp only [stackOf, managerIn_filter_self]
    exact Remit.HoldsAbove.nil r

theorem path (h : Owned r s) (hpath : Path r moves s t) : Owned r t := by
  induction hpath with
  | refl => exact h
  | step hstep _ _ ih => exact ih (h.step hstep)

end Owned

/-! ### The depth of the stack -/

theorem depthOf_kept (draft : Draft) (hm : managerIn s.active user = some m)
    (hstack : m.stack = e :: rest) (other : Value) :
    (kept user m draft s).depthOf other = s.depthOf other := by
  obtain hnew | ⟨hold, hnew⟩ := stackOf_kept_cases draft hm hstack other
  · simp [depthOf, hnew]
  · simp [depthOf, hold, hnew]

theorem Step.moves_of_depth (h : Step r moves s t) (hjumps : ¬ r.jumps)
    (hdepth : t.depthOf r.user ≠ s.depthOf r.user) : Step r true s t := by
  cases h with
  | quiet hactive => exact absurd (by simp [depthOf, stackOf, hactive]) hdepth
  | await => exact absurd rfl hdepth
  | release => exact absurd rfl hdepth
  | edit _ hm hstack => exact absurd (depthOf_kept _ hm hstack _) hdepth
  | answer _ _ hm hstack => exact absurd (depthOf_kept _ hm hstack _) hdepth
  | share => exact absurd (by simp [depthOf, stackOf_withChanges]) hdepth
  | push h => exact absurd h hjumps
  | pop hlive hm hstack => exact .pop hlive hm hstack
  | publish scope hm =>
    exact absurd (by simp [depthOf, stackOf_replaced_self hm, stackOf_eq hm]) hdepth
  | drop hspared =>
    refine .drop hspared fun _ hempty => hdepth ?_
    simp [depthOf, hempty]
    simp [stackOf, managerIn_filter_self]

theorem Path.moves_of_depth (h : Path r moves s t) (hjumps : ¬ r.jumps)
    (hdepth : t.depthOf r.user ≠ s.depthOf r.user) : Path r true s t := by
  induction h with
  | refl => exact absurd rfl hdepth
  | @step _ _ _ s t u hstep hrest _ ih =>
    by_cases hfirst : t.depthOf r.user = s.depthOf r.user
    · exact .step hstep (ih (by rwa [hfirst])) fun _ => .inr rfl
    · exact .step (hstep.moves_of_depth hjumps hfirst) hrest fun _ => .inl rfl

/-- Whether the user of the message is one whose requests may be taken for answered, if any are. -/
def Heard (r : Remit) (s : Session) : Prop :=
  (∃ user, r.hears user) → r.hears (Message.userOf s.message)

/-- What every computation keeps to: the stack does not grow, if scripts at its bottom are spared,
and the message stays that of the same user. -/
structure Steady (r : Remit) (s t : Session) : Prop where
  depth : r.spared ≠ 0 → t.depthOf r.user ≤ s.depthOf r.user
  message : Message.userOf t.message = Message.userOf s.message

namespace Steady

variable {r : Remit} {s t u : Session}

theorem refl (r : Remit) (s : Session) : Steady r s s :=
  ⟨fun _ => Nat.le_refl _, rfl⟩

theorem trans (h : Steady r s t) (h' : Steady r t u) : Steady r s u :=
  ⟨fun hspared => Nat.le_trans (h'.depth hspared) (h.depth hspared),
    h'.message.trans h.message⟩

theorem of_stack (hstack : t.stackOf r.user = s.stackOf r.user) (hmessage : t.message = s.message) :
    Steady r s t :=
  ⟨fun _ => by simp [depthOf, hstack], by rw [hmessage]⟩

theorem live (h : Steady r s t) (hlive : Live r t) : Live r s := by
  by_cases hspared : r.spared = 0
  · exact .inl hspared
  · have := h.depth hspared
    obtain hzero | hlt := hlive
    · exact absurd hzero hspared
    · exact .inr (by omega)

theorem heard (h : Steady r s t) (hheard : Heard r s) : Heard r t := by
  intro hhears
  rw [h.message]
  exact hheard hhears

end Steady

/-! ### Computations that do not hear -/

def Remit.deaf (r : Remit) : Remit :=
  { r with hears := fun _ => False }

theorem Owned.deaf (h : Owned r s) : Owned r.deaf s :=
  ⟨⟨h.fresh, h.preferences, h.answers, h.pages⟩, h.stack⟩

theorem Step.of_deaf (h : Step r.deaf moves s t) : Step r moves s t := by
  cases h with
  | quiet hactive hawaiting hhost hlists => exact .quiet hactive hawaiting hhost hlists
  | await => exact .await s
  | release => exact .release s
  | edit hlive hm hstack hrevision hholds =>
    exact .edit hlive hm hstack ⟨hrevision.changes, hrevision.lines, hrevision.index⟩ hholds
  | answer _ hhears => exact hhears.elim
  | @share changes hallows _ =>
    have hallows' : r.Allows changes := hallows
    exact .share hallows' s
  | push hjumps hspared hm hholds => exact .push hjumps hspared hm hholds
  | pop hlive hm hstack => exact .pop hlive hm hstack
  | publish scope hm => exact .publish scope hm
  | drop hspared hmoves => exact .drop hspared hmoves

theorem Path.of_deaf (h : Path r.deaf moves s t) : Path r moves s t := by
  induction h with
  | refl s => exact .refl s
  | step hstep _ hb ih => exact .step hstep.of_deaf ih hb

end Colloquy
