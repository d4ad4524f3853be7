import Colloquy.Session

/-! What the elementary computations on a session give.  The lemmas say so of the state that a
computation is applied to, so that a run can be followed step by step, and of the managers of all
users that are there after it. -/

namespace Colloquy

open Manager

variable {fault : Fault} {s : Session} {user : Value} {m : Manager} {rest : List Entry}
  {c : Conversation}

theorem ite {α : Type} {P : α → Prop} {c : Prop} [Decidable c] {x y : α} (hx : P x) (hy : P y) :
    P (if c then x else y) := by
  split
  · exact hx
  · exact hy

/-! ### Computations applied to a state -/

section

variable {σ α β : Type}

theorem bind_apply (m : EStateM Fault σ α) (f : α → EStateM Fault σ β) (s : σ) :
    (m >>= f) s = match m s with
      | .ok a s' => f a s'
      | .error fault s' => .error fault s' := by
  cases h : m s <;> simp [bind, EStateM.bind, h]

@[simp] theorem pure_apply (a : α) (s : σ) : (pure a : EStateM Fault σ α) s = .ok a s := rfl

@[simp] theorem throw_apply (fault : Fault) (s : σ) :
    (throw fault : EStateM Fault σ α) s = .error fault s := rfl

@[simp] theorem get_apply (s : σ) : (get : EStateM Fault σ σ) s = .ok s s := rfl

@[simp] theorem set_apply (s s' : σ) : (set s' : EStateM Fault σ PUnit) s = .ok ⟨⟩ s' := rfl

@[simp] theorem modify_apply (f : σ → σ) (s : σ) :
    (modify f : EStateM Fault σ PUnit) s = .ok ⟨⟩ (f s) := rfl

@[simp] theorem lift_ok_apply (a : α) (s : σ) :
    (liftM (Except.ok a : Except Fault α) : EStateM Fault σ α) s = .ok a s := rfl

@[simp] theorem lift_error_apply (fault : Fault) (s : σ) :
    (liftM (Except.error fault : Except Fault α) : EStateM Fault σ α) s = .error fault s := rfl

theorem bind_of_ok {m : EStateM Fault σ α} {f : α → EStateM Fault σ β} {s s' : σ} {a : α}
    (h : m s = .ok a s') : (m >>= f) s = f a s' := by
  rw [bind_apply, h]

theorem bind_of_error {m : EStateM Fault σ α} {f : α → EStateM Fault σ β} {s s' : σ}
    (h : m s = .error fault s') : (m >>= f) s = .error fault s' := by
  rw [bind_apply, h]

theorem bind_ok_iff {m : EStateM Fault σ α} {f : α → EStateM Fault σ β} {s s' : σ} {b : β} :
    (m >>= f) s = .ok b s' ↔ ∃ a t, m s = .ok a t ∧ f a t = .ok b s' := by
  rw [bind_apply]
  cases h : m s with
  | ok a t =>
    refine ⟨fun hf => ⟨a, t, rfl, hf⟩, ?_⟩
    rintro ⟨a', t', hm, hf⟩
    cases hm
    exact hf
  | error fault t => simp

theorem lift_ok_iff {x : Except Fault α} {s s' : σ} {a : α} :
    (liftM x : EStateM Fault σ α) s = .ok a s' ↔ x = .ok a ∧ s' = s := by
  cases x with
  | error fault => simp
  | ok b =>
    rw [lift_ok_apply]
    constructor
    · intro h
      cases h
      exact ⟨rfl, rfl⟩
    · rintro ⟨h, rfl⟩
      cases h
      rfl

theorem lift_bind (x : Except Fault α) (f : α → Except Fault β) :
    (liftM (x >>= f) : EStateM Fault σ β) = liftM x >>= fun a => liftM (f a) := by
  cases x <;> rfl

theorem lift_bind_ok_iff {x : Except Fault α} {f : α → EStateM Fault σ β} {s s' : σ} {b : β} :
    (liftM x >>= f) s = .ok b s' ↔ ∃ a, x = .ok a ∧ f a s = .ok b s' := by
  rw [bind_ok_iff]
  constructor
  · rintro ⟨a, t, hx, hf⟩
    obtain ⟨ha, rfl⟩ := lift_ok_iff.1 hx
    exact ⟨a, ha, hf⟩
  · rintro ⟨a, hx, hf⟩
    exact ⟨a, s, lift_ok_iff.2 ⟨hx, rfl⟩, hf⟩

theorem except_bind_ok_iff {x : Except Fault α} {f : α → Except Fault β} {b : β} :
    x >>= f = .ok b ↔ ∃ a, x = .ok a ∧ f a = .ok b := by
  cases x with
  | error fault => simp [bind, Except.bind]
  | ok a => simp [bind, Except.bind]

theorem rescue_of_ok {m : EStateM Fault σ α} {handler : Fault → EStateM Fault σ α} {s s' : σ}
    {a : α} (h : m s = .ok a s') : rescue m handler s = .ok a s' := by
  simp [rescue, h]

theorem rescue_congr {m m' : EStateM Fault σ α} {s : σ} (h : m s = m' s)
    (handler : Fault → EStateM Fault σ α) : rescue m handler s = rescue m' handler s := by
  simp only [rescue, h]

theorem rescue_of_error {m : EStateM Fault σ α} {handler : Fault → EStateM Fault σ α} {s s' : σ}
    (h : m s = .error fault s') (hfault : fault ≠ .stepLimit) :
    rescue m handler s = handler fault s' := by
  simp only [rescue, h]

theorem rescue_cases (m : EStateM Fault σ α) (handler : Fault → EStateM Fault σ α) (s : σ) :
    rescue m handler s = m s ∨
      ∃ fault t, m s = .error fault t ∧ rescue m handler s = handler fault t := by
  cases hrun : m s with
  | ok a t => exact .inl (rescue_of_ok hrun)
  | error fault t =>
    by_cases hfault : fault = .stepLimit
    · exact .inl (by simp only [rescue, hrun, hfault])
    · exact .inr ⟨fault, t, rfl, rescue_of_error hrun hfault⟩

theorem rescue_ok {m : EStateM Fault σ α} {handler : Fault → EStateM Fault σ α} {s t : σ} {a : α}
    (h : rescue m handler s = .ok a t) :
    m s = .ok a t ∨ ∃ fault s', handler fault s' = .ok a t := by
  unfold rescue at h
  split at h
  · rename_i hm
    exact .inl (hm.trans h)
  · cases h
  · exact .inr ⟨_, _, h⟩

end

/-- The session after a computation, whether or not it failed. -/
def Session.after {α : Type} (m : Run α) (s : Session) : Session :=
  match m s with
  | .ok _ t | .error _ t => t

/-! ### Names -/

theorem Value.same_str {v : Value} {s : String} (h : v.same (.str s) = true) : v = .str s := by
  cases v with
  | str t => simpa [same, sameLeaf] using h
  | null | bool _ | int _ | float _ => simp [same, sameLeaf, worth?] at h
  | list _ _ | tuple _ | table _ | set _ | record _ => simp [same] at h

theorem Value.str_same {s t : String} : (Value.str s).same (.str t) = (s == t) := by
  simp [same, sameLeaf]

section

variable {name key : String} {value default : Value} {rest : List (String × Value)}

theorem Entries.find?_cons {key k : Value} {rest : Entries} :
    find? key ((k, value) :: rest) = if k.same key then some value else find? key rest := rfl

theorem Value.item_object : (object ((name, value) :: rest)).item (.str key) =
    if name == key then .ok value else (object rest).item (.str key) := by
  simp only [object, List.map_cons, item, Entries.find?_cons, str_same]
  cases name == key <;> rfl

theorem Value.get_object : (object ((name, value) :: rest)).get (.str key) default =
    if name == key then .ok value else (object rest).get (.str key) default := by
  simp only [object, List.map_cons, get, Entries.find?_cons, str_same]
  cases name == key <;> rfl

end

namespace Entries

theorem find?_insert_self (key : String) (value : Value) (entries : Entries) :
    find? key (entries.insert key value) = some value := by
  induction entries with
  | nil => simp [insert, find?, Value.str_same]
  | cons e rest ih =>
    obtain ⟨k, v⟩ := e
    simp only [insert]
    split
    · rename_i hk
      simp [find?, hk]
    · rename_i hk
      simp [find?, hk, ih]

theorem find?_insert_ne {key other : String} (hne : key ≠ other) (value : Value)
    (entries : Entries) :
    find? other (entries.insert key value) = find? other entries := by
  induction entries with
  | nil => simp [insert, find?, Value.str_same, hne]
  | cons e rest ih =>
    obtain ⟨k, v⟩ := e
    simp only [insert]
    split
    · rename_i hk
      obtain rfl := Value.same_str hk
      simp [find?, Value.str_same, hne]
    · simp [find?, ih]

end Entries

/-! ### Numbers -/

theorem Value.compare_int (relation : Comparison) (a b : Int) :
    (int a).compare relation (int b) = .ok (match relation with
      | .less => decide (a < b)
      | .atMost => decide (a ≤ b)
      | .greater => decide (b < a)
      | .atLeast => decide (b ≤ a)) := by
  have h : (int a).compare relation (int b) = .ok (relation.accepts (Ord.compare a b)) := by
    simp [Value.compare, worth?, Worth.compare?]
  rw [h, show Ord.compare a b = if a < b then .lt else if a = b then .eq else .gt from rfl]
  refine congrArg Except.ok ?_
  split
  · cases relation <;> symm <;>
      first | exact decide_eq_true (by omega) | exact decide_eq_false (by omega)
  · split <;> cases relation <;> symm <;>
      first | exact decide_eq_true (by omega) | exact decide_eq_false (by omega)

theorem Value.same_int (a b : Int) : (int a).same (int b) = (a == b) := by
  simp only [same, sameLeaf, worth?, Worth.compare?, Ord.compare, compareOfLessAndEq]
  grind

/-! ### Managers after changes of lists -/

def Entry.changed (change : Value.Change) : Entry → Entry
  | .conversation c => .conversation (c.changed change)
  | .foreign v => .foreign v

/-- The manager after some lists were changed, the last one first. -/
def Manager.changedBy (changes : List Value.Change) (m : Manager) : Manager :=
  changes.foldr Manager.changed m

def Entry.changedBy (changes : List Value.Change) (e : Entry) : Entry :=
  changes.foldr Entry.changed e

def Conversation.changedBy (changes : List Value.Change) (c : Conversation) : Conversation :=
  changes.foldr Conversation.changed c

theorem Manager.changed_stack (change : Value.Change) (m : Manager) :
    (m.changed change).stack = m.stack.map (Entry.changed change) := by
  simp only [changed]
  congr 1

@[simp] theorem Manager.changedBy_stack (changes : List Value.Change) (m : Manager) :
    (m.changedBy changes).stack = m.stack.map (Entry.changedBy changes) := by
  induction changes with
  | nil => exact (List.map_id m.stack).symm
  | cons change changes ih =>
    calc ((m.changedBy changes).changed change).stack
        = (m.stack.map (Entry.changedBy changes)).map (Entry.changed change) := by
          rw [Manager.changed_stack, ih]
      _ = m.stack.map (Entry.changedBy (change :: changes)) := by rw [List.map_map]; rfl

def Value.changedBy (changes : List Value.Change) (v : Value) : Value :=
  changes.foldr Value.changed v

theorem Conversation.changedBy_eq (changes : List Value.Change) (c : Conversation) :
    c.changedBy changes =
      { c with bindings := c.bindings.changedBy changes, speaker := c.speaker.changedBy changes } := by
  induction changes with
  | nil => rfl
  | cons change changes ih =>
    calc (c.changedBy changes).changed change
        = Conversation.changed change { c with bindings := c.bindings.changedBy changes,
                                               speaker := c.speaker.changedBy changes } := by rw [ih]
      _ = _ := rfl

@[simp] theorem Entry.changedBy_conversation (changes : List Value.Change) (c : Conversation) :
    Entry.changedBy changes (.conversation c) = .conversation (c.changedBy changes) := by
  induction changes with
  | nil => rfl
  | cons change changes ih =>
    exact congrArg (Entry.changed change) ih

theorem foldr_eq_self {α : Type} {f : Value.Change → α → α} {x : α} {changes : List Value.Change}
    (h : ∀ change ∈ changes, f change x = x) : changes.foldr f x = x := by
  induction changes with
  | nil => rfl
  | cons change changes ih =>
    obtain ⟨hchange, hrest⟩ := List.forall_mem_cons.1 h
    rw [List.foldr_cons, ih hrest, hchange]

@[simp] theorem Entry.changedBy_foreign (changes : List Value.Change) (v : Value) :
    Entry.changedBy changes (.foreign v) = .foreign v :=
  foldr_eq_self fun _ _ => rfl

theorem Entry.exists_of_mem_changedBy {changes : List Value.Change} {stack : List Entry}
    (h : .conversation c ∈ stack.map (changedBy changes)) :
    ∃ c', .conversation c' ∈ stack ∧ c'.changedBy changes = c := by
  obtain ⟨e, he, hce⟩ := List.mem_map.1 h
  cases e with
  | foreign v => simp at hce
  | conversation c' => exact ⟨c', he, by simpa using hce⟩

namespace Session

/-! ### The managers of all users -/

def stackOf (s : Session) (user : Value) : List Entry :=
  ((managerIn s.active user).map (·.stack)).getD []

def depthOf (s : Session) (user : Value) : Nat :=
  (s.stackOf user).length

theorem stackOf_eq (hm : managerIn s.active user = some m) : s.stackOf user = m.stack := by
  simp [stackOf, hm]

theorem managerIn_cons (x : Value) (m : Manager) (active : List (Value × Manager)) (user : Value) :
    managerIn ((x, m) :: active) user =
      if x.same user then some m else managerIn active user := by
  by_cases h : x.same user <;> simp [managerIn, h]

theorem managerIn_withManager_self {active : List (Value × Manager)} {n : Manager}
    (hm : managerIn active user = some m) :
    managerIn (withManager user n active) user = some n := by
  induction active with
  | nil => cases hm
  | cons e rest ih =>
    obtain ⟨x, k⟩ := e
    rw [managerIn_cons] at hm
    simp only [withManager]
    split at hm
    · rename_i hx
      rw [if_pos hx, managerIn_cons, if_pos hx]
    · rename_i hx
      rw [if_neg hx, managerIn_cons, if_neg hx, ih hm]

def replaced (user : Value) (m : Manager) (s : Session) : Session :=
  { s with active := withManager user m s.active }

theorem setManager_apply (user : Value) (m : Manager) (s : Session) :
    setManager user m s = .ok () (replaced user m s) := rfl

theorem managerIn_replaced_self (hm : managerIn s.active user = some m) (n : Manager) :
    managerIn (replaced user n s).active user = some n :=
  managerIn_withManager_self hm

theorem stackOf_replaced_self (hm : managerIn s.active user = some m) (n : Manager) :
    (replaced user n s).stackOf user = n.stack :=
  stackOf_eq (managerIn_replaced_self hm n)

theorem managerIn_withManager_of_none {active : List (Value × Manager)} (n : Manager)
    (hm : managerIn active user = none) :
    managerIn (withManager user n active) user = if user.same user then some n else none := by
  induction active with
  | nil => simp [withManager, managerIn_cons, hm]
  | cons e rest ih =>
    obtain ⟨x, k⟩ := e
    rw [managerIn_cons] at hm
    split at hm
    · cases hm
    · rename_i hx
      rw [withManager, if_neg hx, managerIn_cons, if_neg hx, ih hm]

theorem stackOf_push_cases (hm : (managerIn s.active user).getD { user } = m) (c : Conversation) :
    (replaced user (m.push c) s).stackOf user = .conversation c :: s.stackOf user ∨
      s.stackOf user = [] ∧ (replaced user (m.push c) s).stackOf user = [] := by
  subst hm
  cases hfound : managerIn s.active user with
  | some m => simp [stackOf_replaced_self hfound, stackOf_eq hfound, push]
  | none =>
    simp only [stackOf, replaced, managerIn_withManager_of_none _ hfound, hfound]
    split <;> simp [push]

theorem managerIn_filter_self (active : List (Value × Manager)) (user : Value) :
    managerIn (active.filter fun (x, _) => !x.same user) user = none := by
  induction active with
  | nil => rfl
  | cons e rest ih =>
    obtain ⟨x, k⟩ := e
    by_cases hx : x.same user <;> simp [managerIn_cons, hx, ih]

theorem managerIn_map (f : Manager → Manager) (active : List (Value × Manager)) (user : Value) :
    managerIn (active.map fun (x, m) => (x, f m)) user = (managerIn active user).map f := by
  induction active with
  | nil => rfl
  | cons e rest ih =>
    obtain ⟨x, k⟩ := e
    simp only [List.map_cons, managerIn_cons, ih]
    split <;> rfl

/-- Replacing the manager of a user among changed ones replaces that of another user if both are
found in one place, and else only changes it. -/
theorem managerIn_withManager_cases {active : List (Value × Manager)} {n : Manager}
    (f : Manager → Manager) (hm : managerIn active user = some m) (other : Value) :
    managerIn (withManager user n (active.map fun (x, m) => (x, f m))) other =
        (managerIn active other).map f ∨
      managerIn active other = some m ∧
        managerIn (withManager user n (active.map fun (x, m) => (x, f m))) other = some n := by
  induction active with
  | nil => cases hm
  | cons e rest ih =>
    obtain ⟨x, k⟩ := e
    simp only [managerIn_cons] at hm ⊢
    simp only [List.map_cons, withManager]
    split at hm
    · rename_i hx
      simp only [hx, if_true, managerIn_cons]
      split
      · exact .inr ⟨hm, rfl⟩
      · exact .inl (managerIn_map f rest other)
    · rename_i hx
      rw [if_neg hx, managerIn_cons]
      split
      · exact .inl rfl
      · exact ih hm

theorem managerIn_withManager_of_apart {other : Value}
    (hapart : ∀ x : Value, x.same user = true → x.same other = false)
    (hself : user.same other = false) (n : Manager) (active : List (Value × Manager)) :
    managerIn (withManager user n active) other = managerIn active other := by
  induction active with
  | nil => simp [withManager, managerIn, hself]
  | cons e rest ih =>
    obtain ⟨x, k⟩ := e
    simp only [withManager]
    split
    · rename_i hx
      simp [managerIn_cons, hapart x hx]
    · simp [managerIn_cons, ih]

theorem managerIn_filter_of_apart {other : Value}
    (hapart : ∀ x : Value, x.same user = true → x.same other = false)
    (active : List (Value × Manager)) :
    managerIn (active.filter fun (x, _) => !x.same user) other = managerIn active other := by
  induction active with
  | nil => rfl
  | cons e rest ih =>
    obtain ⟨x, k⟩ := e
    by_cases hx : x.same user
    · simp [managerIn_cons, hx, hapart x hx, ih]
    · simp [managerIn_cons, hx, ih]

/-! ### Changes of lists -/

/-- The host after some lists were changed, the last one first. -/
def hostAfter (changes : List Value.Change) (host : Host) : Host :=
  changes.foldr Host.changed host

theorem withChanges_eq (changes : List Value.Change) (s : Session) :
    withChanges changes s =
      { s with
        active := s.active.map fun (x, m) => (x, m.changedBy changes)
        host := hostAfter changes s.host } := by
  induction changes with
  | nil => simp [withChanges, Manager.changedBy, hostAfter]
  | cons change changes ih =>
    have hstep : withChanges (change :: changes) s =
        { withChanges changes s with
          active := (withChanges changes s).active.map fun (x, m) => (x, m.changed change)
          host := (withChanges changes s).host.changed change } := rfl
    rw [hstep, ih]
    simp [Manager.changedBy, hostAfter]

@[simp] theorem managerIn_withChanges (changes : List Value.Change) (s : Session) (user : Value) :
    managerIn (withChanges changes s).active user =
      (managerIn s.active user).map (·.changedBy changes) := by
  rw [withChanges_eq]
  exact managerIn_map _ s.active user

theorem stackOf_withChanges (changes : List Value.Change) (s : Session) (user : Value) :
    (withChanges changes s).stackOf user = (s.stackOf user).map (Entry.changedBy changes) := by
  cases hm : managerIn s.active user <;> simp [stackOf, hm]

/-! ### Working on a conversation -/

/-- The conversation of a draft, with numbers from `next` on for the lists of its variables. -/
def settled (next : Nat) (draft : Draft) : Conversation :=
  { draft.conversation with bindings := (draft.conversation.bindings.numbered next).1 }

/-- The session in which a draft is kept on top of the stack of a user with the manager `m`. -/
def kept (user : Value) (m : Manager) (draft : Draft) (s : Session) : Session :=
  let t := withChanges draft.changes s
  { t with
    lists := (draft.conversation.bindings.numbered s.lists).2
    active := withManager user ((m.changedBy draft.changes).setTop (settled s.lists draft))
      t.active }

theorem kept_host (user : Value) (m : Manager) (draft : Draft) (s : Session) :
    (kept user m draft s).host = hostAfter draft.changes s.host := by
  simp [kept, withChanges_eq]

theorem kept_message (user : Value) (m : Manager) (draft : Draft) (s : Session) :
    (kept user m draft s).message = s.message := by
  simp [kept, withChanges_eq]

theorem kept_awaiting (user : Value) (m : Manager) (draft : Draft) (s : Session) :
    (kept user m draft s).awaiting = s.awaiting := by
  simp [kept, withChanges_eq]

theorem managerIn_kept_self (draft : Draft) (hm : managerIn s.active user = some m) :
    managerIn (kept user m draft s).active user =
      some ((m.changedBy draft.changes).setTop (settled s.lists draft)) := by
  refine managerIn_withManager_self (m := m.changedBy draft.changes) ?_
  simp [hm]

theorem stackOf_kept_self {e : Entry} (draft : Draft) (hm : managerIn s.active user = some m)
    (hstack : m.stack = e :: rest) :
    (kept user m draft s).stackOf user =
      .conversation (settled s.lists draft) :: rest.map (Entry.changedBy draft.changes) := by
  rw [stackOf_eq (managerIn_kept_self draft hm)]
  simp [Manager.setTop, hstack]

theorem stackOf_kept_cases {e : Entry} (draft : Draft) (hm : managerIn s.active user = some m)
    (hstack : m.stack = e :: rest) (other : Value) :
    (kept user m draft s).stackOf other = (s.stackOf other).map (Entry.changedBy draft.changes) ∨
      s.stackOf other = e :: rest ∧
        (kept user m draft s).stackOf other =
          .conversation (settled s.lists draft) :: rest.map (Entry.changedBy draft.changes) := by
  have hactive : (kept user m draft s).active = withManager user
      ((m.changedBy draft.changes).setTop (settled s.lists draft))
      (s.active.map fun (x, m) => (x, m.changedBy draft.changes)) := by
    simp [kept, withChanges_eq]
  obtain hsame | ⟨hold, hnew⟩ := managerIn_withManager_cases (·.changedBy draft.changes) hm other
    (n := (m.changedBy draft.changes).setTop (settled s.lists draft))
  · left
    rw [← hactive, ← managerIn_withChanges] at hsame
    rw [← stackOf_withChanges]
    exact congrArg (fun found => (found.map (·.stack)).getD []) hsame
  · right
    rw [← hactive] at hnew
    refine ⟨by rw [stackOf_eq hold, hstack], ?_⟩
    rw [stackOf_eq hnew]
    simp [Manager.setTop, hstack]

theorem theMessage_of_some {m : Message} (h : s.message = some m) : theMessage s = .ok m s := by
  simp only [theMessage, bind_apply, get_apply, h, pure_apply]

theorem datum_of_some {m : Message} (h : s.message = some m) (name : String) (default : Value) :
    datum name default s = .ok ((Entries.find? name m.data).getD default) s := by
  rw [datum, bind_of_ok (theMessage_of_some h)]
  rfl

theorem manager?_of_isKey (hkey : user.isKey = true) (s : Session) :
    manager? user s = .ok (managerIn s.active user) s := by
  simp only [manager?, hkey, if_true, bind_apply, get_apply, pure_apply]

theorem managerAt_of_some (hkey : user.isKey = true) (hm : managerIn s.active user = some m) :
    managerAt user s = .ok m s := by
  simp only [managerAt, manager?, hkey, if_true, bind_apply, get_apply, pure_apply, hm]

theorem managerOf_of_some (hkey : user.isKey = true) (hm : managerIn s.active user = some m) :
    managerOf user s = .ok m s := by
  simp only [managerOf, manager?, hkey, if_true, bind_apply, get_apply, pure_apply, hm]

theorem managerOf_ok {t : Session} (h : managerOf user s = .ok m t) :
    user.isKey = true ∧ managerIn s.active user = some m ∧ t = s := by
  by_cases hkey : user.isKey = true
  case neg => simp [managerOf, manager?, bind_apply, hkey] at h
  cases hm : managerIn s.active user with
  | none =>
    simp only [managerOf, manager?, hkey, if_true, bind_apply, get_apply, pure_apply, hm,
      throw_apply] at h
    cases h
  | some m' =>
    rw [managerOf_of_some hkey hm] at h
    cases h
    exact ⟨hkey, rfl, rfl⟩

theorem currentOf_ok {t : Session} (h : currentOf user s = .ok (some c) t) :
    t = s ∧ user.isKey = true ∧ ∃ m rest, managerIn s.active user = some m ∧
      m.stack = .conversation c :: rest := by
  obtain ⟨m, s', hof, htop⟩ := bind_ok_iff.1 h
  obtain ⟨hkey, hm, rfl⟩ := managerOf_ok hof
  obtain ⟨hcurrent, rfl⟩ := lift_ok_iff.1 htop
  refine ⟨rfl, hkey, m, ?_⟩
  cases hstack : m.stack with
  | nil => simp [current?, hstack] at hcurrent
  | cons e rest =>
    cases e with
    | foreign v => simp [current?, hstack] at hcurrent
    | conversation c' =>
      simp only [current?, hstack, Except.ok.injEq, Option.some.injEq] at hcurrent
      exact ⟨rest, hm, by rw [hcurrent]⟩

theorem keep_eq (draft : Draft) (hkey : user.isKey = true) (hm : managerIn s.active user = some m) :
    keep user draft s = .ok () (kept user m draft s) := by
  have hlists : (withChanges draft.changes s).lists = s.lists := by rw [withChanges_eq]
  have hfound : managerIn (withChanges draft.changes s).active user =
      some (m.changedBy draft.changes) := by simp [hm]
  simp only [keep, bind_apply, modify_apply, get_apply, set_apply, hlists]
  rw [managerAt_of_some hkey (by exact hfound)]
  simp only [setManager, modify_apply, kept, settled]

theorem top_of_stack (hstack : m.stack = .conversation c :: rest) (s : Session) :
    top m s = .ok (some c) s := by
  simp only [top, current?, hstack, lift_ok_apply]

theorem currentOf_of_stack (hkey : user.isKey = true) (hm : managerIn s.active user = some m)
    (hstack : m.stack = .conversation c :: rest) : currentOf user s = .ok (some c) s := by
  rw [currentOf, bind_of_ok (managerOf_of_some hkey hm), top_of_stack hstack]

theorem managerAt_cases (user : Value) (s : Session) :
    (∃ fault, managerAt user s = .error fault s) ∨
      ∃ m, user.isKey = true ∧ managerIn s.active user = some m ∧ managerAt user s = .ok m s := by
  by_cases hkey : user.isKey = true
  case neg => exact .inl ⟨.wrongKind, by simp [managerAt, manager?, bind_apply, hkey]⟩
  cases hm : managerIn s.active user with
  | none =>
    refine .inl ⟨.missingEntry, ?_⟩
    simp only [managerAt, manager?, hkey, if_true, bind_apply, get_apply, pure_apply, hm,
      throw_apply]
  | some m => exact .inr ⟨m, hkey, rfl, managerAt_of_some hkey hm⟩

theorem current_cases (user : Value) (s : Session) :
    (∃ fault, current user s = .error fault s) ∨
      ∃ m c rest, user.isKey = true ∧ managerIn s.active user = some m ∧
        m.stack = .conversation c :: rest ∧ current user s = .ok c s := by
  obtain ⟨fault, herror⟩ | ⟨m, hkey, hm, hat⟩ := managerAt_cases user s
  · exact .inl ⟨fault, by simp only [current, currentAt, bind_apply, herror]⟩
  · cases hstack : m.stack with
    | nil =>
      refine .inl ⟨.wrongKind, ?_⟩
      simp only [current, currentAt, bind_apply, hat, top, current?, hstack, lift_ok_apply,
        present, throw_apply]
    | cons e rest =>
      cases e with
      | conversation c =>
        refine .inr ⟨m, c, rest, hkey, hm, hstack, ?_⟩
        simp only [current, currentAt, bind_apply, hat, top_of_stack hstack, present, pure_apply]
      | foreign v =>
        refine .inl ⟨.wrongKind, ?_⟩
        simp only [current, currentAt, bind_apply, hat, top, current?, hstack,
          lift_error_apply]

theorem dropManager_of_some (hkey : user.isKey = true) (hm : managerIn s.active user = some m) :
    dropManager user s =
      .ok () { s with active := s.active.filter fun (u, _) => !u.same user } := by
  have hactive : s.active.isEmpty = false := by
    cases hs : s.active with
    | nil => simp [hs, managerIn] at hm
    | cons e rest => rfl
  rw [dropManager, bind_of_ok (get_apply s), hactive, if_neg Bool.false_ne_true]
  exact bind_of_ok (managerAt_of_some hkey hm)

theorem current_of_stack (hkey : user.isKey = true) (hm : managerIn s.active user = some m)
    (hstack : m.stack = .conversation c :: rest) : current user s = .ok c s := by
  simp only [current, currentAt, bind_apply, managerAt_of_some hkey hm, top_of_stack hstack,
    present, pure_apply]

theorem edit_eq {α : Type} (hkey : user.isKey = true) (hm : managerIn s.active user = some m)
    (hstack : m.stack = .conversation c :: rest) (body : Edit α) :
    edit user body s = match body { conversation := c } with
      | .ok a draft => .ok a (kept user m draft s)
      | .error fault draft => .error fault (kept user m draft s) := by
  simp only [edit, bind_apply, current_of_stack hkey hm hstack]
  cases body { conversation := c } with
  | ok a draft => simp only [bind_apply, keep_eq draft hkey hm, pure_apply]
  | error fault draft => simp only [bind_apply, keep_eq draft hkey hm, throw_apply]

end Session

end Colloquy
