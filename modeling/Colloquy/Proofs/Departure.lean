import Colloquy.Proofs.Containment

/-! Leaving a script as a whole.  The script is taken off the stack before its variables are
published and before the script below is set on its next line, so a failure in between leaves the
stack without it.  Leaving is all or nothing exactly if neither can fail, and publishing fails for a
script whose variables were not filled in. -/

namespace Colloquy

open Session Entries

/-! ### The scope -/

/-- The scope with the variables of a script, each under the name of the script, a dot and its own
name, next to what was in it before. -/
structure Manager.Recorded (filename : Value) (vars old scope : Entries) : Prop where
  /-- Under each name the last variable that it stands for is found. -/
  found : ∀ before name value after, vars = before ++ (name, value) :: after →
    (∀ e ∈ after, scopeName filename e.1 ≠ scopeName filename name) →
    Entries.find? (scopeName filename name) scope = some value
  kept : ∀ key : String, (∀ e ∈ vars, scopeName filename e.1 ≠ key) →
    Entries.find? key scope = Entries.find? key old

def Manager.published (filename : Value) (vars : Entries) : Entries :=
  vars.map fun e => (.str (scopeName filename e.1), e.2)

namespace Manager

variable {filename : Value} {vars old : Entries}

theorem find?_merge_published (key : String) (h : ∀ e ∈ vars, scopeName filename e.1 ≠ key) :
    find? key (merge old (published filename vars)) = find? key old := by
  induction vars generalizing old with
  | nil => rfl
  | cons e rest ih =>
    calc find? key (merge old (published filename (e :: rest)))
        = find? key (old.insert (scopeName filename e.1) e.2) :=
          ih fun e' he' => h e' (List.mem_cons_of_mem _ he')
      _ = find? key old := find?_insert_ne (h e List.mem_cons_self) _ _

theorem merge_published_append (before after : Entries) (name value : Value) :
    merge old (published filename (before ++ (name, value) :: after)) =
      merge ((merge old (published filename before)).insert
        (.str (scopeName filename name)) value) (published filename after) := by
  simp [merge, published]

theorem recorded_merge (filename : Value) (vars old : Entries) :
    Recorded filename vars old (merge old (published filename vars)) := by
  refine ⟨fun before name value after hvars hafter => ?_, fun key h => find?_merge_published key h⟩
  rw [hvars, merge_published_append, find?_merge_published _ hafter, find?_insert_self]

theorem publish_of_entries {c : Conversation} (hget : c.callable "get" = .ok ())
    (hvars : c.bindings.entries = .ok vars) (m : Manager) :
    m.publish c = .ok { m with scope := merge m.scope (published c.filename vars) } := by
  rw [publish, hget, hvars]
  rfl

end Manager

/-- The variables of a conversation can be published: they are a table, and the conversation can be
asked for them. -/
structure Conversation.Publishes (c : Conversation) : Prop where
  callable : c.callable "get" = .ok ()
  entries : ∃ vars, c.bindings.entries = .ok vars

namespace Conversation

theorem publishes_iff {c : Conversation} (m : Manager) :
    c.Publishes ↔ ∃ m', m.publish c = .ok m' := by
  constructor
  · rintro ⟨hget, vars, hvars⟩
    exact ⟨_, Manager.publish_of_entries hget hvars m⟩
  · rintro ⟨m', h⟩
    obtain ⟨_, hget, hrest⟩ := except_bind_ok_iff.1 h
    obtain ⟨vars, hvars, -⟩ := except_bind_ok_iff.1 hrest
    exact ⟨hget, vars, hvars⟩

theorem not_publishes_start (scriptMeta filename : Value) (startTime : Int) :
    ¬ (start scriptMeta filename startTime).Publishes := by
  rintro ⟨-, vars, hvars⟩
  cases hvars

theorem not_publishes_reset (c : Conversation) : ¬ c.reset.Publishes := by
  rintro ⟨-, vars, hvars⟩
  cases hvars

/-- A conversation whose fields are as at the start: it was only started, or it was reset. -/
def Unfilled (c : Conversation) : Prop :=
  (∃ scriptMeta filename startTime, c = start scriptMeta filename startTime) ∨ ∃ c', c = reset c'

theorem Unfilled.not_publishes {c : Conversation} (h : c.Unfilled) : ¬ c.Publishes := by
  obtain ⟨scriptMeta, filename, startTime, rfl⟩ | ⟨c', rfl⟩ := h
  · exact not_publishes_start scriptMeta filename startTime
  · exact not_publishes_reset c'

end Conversation

/-! ### All or nothing -/

/-- The scripts of all users after the script `c` was left, which was on top of the scripts `rest` of
the manager `m`. -/
inductive Departed (user : Value) (s : Session) (m : Manager) (c : Conversation) :
    List Entry → Session → Prop
  /-- The script below goes on with its next line, and finds the variables in the scope. -/
  | back {next : Conversation} {below : List Entry} {index bindings : Value} {vars scope : Entries}
      {t : Session} (hindex : next.index.addInt 1 = .ok index)
      (hbindings : bindings.copied = next.bindings.copied)
      (hvars : c.bindings.entries = .ok vars) (hscope : Manager.Recorded c.filename vars m.scope scope)
      (hactive : t.active = withManager user
        { m with stack := .conversation { next with index, bindings } :: below, scope } s.active) :
      Departed user s m c (.conversation next :: below) t
  /-- It was the last script, and the user is dropped. -/
  | last {t : Session} (hactive : t.active = s.active.filter fun (x, _) => !x.same user) :
      Departed user s m c [] t

/-- A script is left as a whole, or the scripts of all users stay as they are. -/
structure AllOrNothing (user : Value) (s : Session) (m : Manager) (c : Conversation)
    (rest : List Entry) (result : EStateM.Result Fault Session Unit) : Prop where
  nothing : ∀ fault t, result = .error fault t → t.active = s.active
  all : ∀ t, result = .ok () t → Departed user s m c rest t

/-- The script below the one that is left, if there is one, can go on with its next line. -/
def Entry.GoesOn (rest : List Entry) : Prop :=
  rest = [] ∨ ∃ c below index, rest = .conversation c :: below ∧ c.index.addInt 1 = .ok index

section

variable {user : Value} {s : Session} {m : Manager} {c : Conversation} {rest : List Entry}

/-- If the variables cannot be published, then the script is off the stack all the same. -/
theorem exitScript_of_not_publishes (hkey : user.isKey = true) (hmessage : s.message.isSome = true)
    (hm : managerIn s.active user = some m) (hstack : m.stack = .conversation c :: rest)
    (hpublishes : ¬ c.Publishes) :
    ∃ fault t, exitScript user s = .error fault t ∧ t.stackOf user = rest := by
  rw [exitScript_eq hkey hmessage hm hstack]
  cases hpublish : Manager.publish { m with stack := rest } c with
  | ok m' => exact absurd ((Conversation.publishes_iff _).2 ⟨m', hpublish⟩) hpublishes
  | error fault =>
    exact ⟨fault, _, bind_of_error (lift_error_apply _ _), stackOf_replaced_self (by exact hm) _⟩

/-- With the variables published, the script below goes on or the user is dropped. -/
theorem exitScript_of_publishes (hkey : user.isKey = true) (hmessage : s.message.isSome = true)
    (hm : managerIn s.active user = some m) (hstack : m.stack = .conversation c :: rest)
    (hpublishes : c.Publishes) :
    ∃ vars scope, c.bindings.entries = .ok vars ∧
      Manager.Recorded c.filename vars m.scope scope ∧
      exitScript user s = (do
        if rest.length != 0 then edit user (Edit.step 1)
        else
          dropManager user
          if (← get).host.hasDisplay.truthy then tell .clearDisplay : Run Unit)
        (replaced user { m with stack := rest, scope } (s.toldExit user c)) := by
  obtain ⟨hget, vars, hvars⟩ := hpublishes
  refine ⟨vars, _, hvars, Manager.recorded_merge c.filename vars m.scope, ?_⟩
  have hm' : managerIn (s.toldExit user c).active user = some m := hm
  rw [exitScript_eq hkey hmessage hm hstack, Manager.publish_of_entries hget hvars,
    bind_of_ok (lift_ok_apply _ _), bind_of_ok (setManager_apply _ _ _)]
  simp only [replaced]
  rw [withManager_withManager (managerIn_withManager_self hm')]

theorem exitScript_departed (hkey : user.isKey = true) (hmessage : s.message.isSome = true)
    (hm : managerIn s.active user = some m) (hstack : m.stack = .conversation c :: rest)
    (hpublishes : c.Publishes) (hnext : Entry.GoesOn rest) :
    ∃ t, exitScript user s = .ok () t ∧ Departed user s m c rest t := by
  obtain ⟨vars, scope, hvars, hscope, heq⟩ :=
    exitScript_of_publishes hkey hmessage hm hstack hpublishes
  have hm' : managerIn (s.toldExit user c).active user = some m := hm
  rw [heq]
  obtain rfl | ⟨next, below, index, rfl, hindex⟩ := hnext
  · rw [if_neg (by simp), bind_of_ok (dropManager_of_some hkey (managerIn_replaced_self hm' _)),
      bind_of_ok (get_apply _), replaced, filter_withManager hm']
    split
    · exact ⟨_, rfl, .last rfl⟩
    · exact ⟨_, rfl, .last rfl⟩
  · have htop := managerIn_replaced_self hm' { m with stack := .conversation next :: below, scope }
    rw [if_pos (by simp), edit_eq hkey htop rfl, Edit.step_ok hindex]
    refine ⟨_, rfl, .back hindex (Value.copied_numbered next.bindings s.lists) hvars hscope ?_⟩
    exact withManager_withManager (managerIn_withManager_self hm) _

/-- If the script below cannot go on, then the script above it is off the stack all the same. -/
theorem exitScript_of_not_goesOn (hkey : user.isKey = true) (hmessage : s.message.isSome = true)
    (hm : managerIn s.active user = some m) (hstack : m.stack = .conversation c :: rest)
    (hpublishes : c.Publishes) (hnext : ¬ Entry.GoesOn rest) :
    ∃ fault t, exitScript user s = .error fault t ∧ t.depthOf user = rest.length := by
  obtain ⟨vars, scope, -, -, heq⟩ := exitScript_of_publishes hkey hmessage hm hstack hpublishes
  have hrest : rest ≠ [] := fun h => hnext (.inl h)
  rw [heq, if_pos (by simpa using hrest)]
  have hstack' := stackOf_replaced_self (s := s.toldExit user c) (by exact hm)
    { m with stack := rest, scope }
  cases hedit : edit user (Edit.step 1)
      (replaced user { m with stack := rest, scope } (s.toldExit user c)) with
  | ok _ t =>
    obtain ⟨next, below, index, -, htop, hindex, -⟩ := edit_step_ok hedit
    exact absurd (.inr ⟨next, below, index, hstack'.symm.trans htop, hindex⟩) hnext
  | error fault t =>
    have hdepth := after_edit_depthOf user user (Edit.step 1)
      (replaced user { m with stack := rest, scope } (s.toldExit user c))
    rw [after_of_error hedit] at hdepth
    exact ⟨fault, t, rfl, hdepth.trans (congrArg List.length hstack')⟩

theorem exitScript_of_message_none (hkey : user.isKey = true) (hmessage : s.message = none)
    (hm : managerIn s.active user = some m) (hstack : m.stack = .conversation c :: rest) :
    ∃ fault, exitScript user s = .error fault s := by
  exact ⟨_, by rw [exitScript, bind_of_ok (currentOf_of_stack hkey hm hstack),
    bind_of_error (setDatum_of_none hmessage _ _)]⟩

theorem AllOrNothing.unchanged (fault : Fault) : AllOrNothing user s m c rest (.error fault s) := by
  refine ⟨fun _ _ h => ?_, fun _ h => ?_⟩
  · cases h
    rfl
  · cases h

theorem AllOrNothing.departed {t : Session} (h : Departed user s m c rest t) :
    AllOrNothing user s m c rest (.ok () t) := by
  refine ⟨fun _ _ h' => ?_, fun _ h' => ?_⟩
  · cases h'
  · cases h'
    exact h

theorem AllOrNothing.depthOf_eq {t : Session} {fault : Fault} (hm : managerIn s.active user = some m)
    (hstack : m.stack = .conversation c :: rest)
    (h : AllOrNothing user s m c rest (.error fault t)) : t.depthOf user = rest.length + 1 := by
  have hsame : t.stackOf user = s.stackOf user := by rw [stackOf, stackOf, h.nothing fault t rfl]
  rw [depthOf, hsame, stackOf_eq hm, hstack, List.length_cons]

/-- Leaving a script is all or nothing if and only if there is no message, without which nothing is
done, or the variables of the script can be published and the script below, if there is one, can go
on.  Else it fails with the script off the stack; that happens with every script whose fields were
not filled in. -/
theorem exitScript_allOrNothing_iff (hkey : user.isKey = true)
    (hm : managerIn s.active user = some m) (hstack : m.stack = .conversation c :: rest) :
    (AllOrNothing user s m c rest (exitScript user s) ↔
      s.message = none ∨ c.Publishes ∧ Entry.GoesOn rest) ∧
    (s.message.isSome = true → ¬ (c.Publishes ∧ Entry.GoesOn rest) →
      ∃ fault t, exitScript user s = .error fault t ∧ t.depthOf user = rest.length) ∧
    (s.message.isSome = true → c.Unfilled →
      ¬ AllOrNothing user s m c rest (exitScript user s)) := by
  have hfails (hmessage : s.message.isSome = true) (hnot : ¬ (c.Publishes ∧ Entry.GoesOn rest)) :
      ∃ fault t, exitScript user s = .error fault t ∧ t.depthOf user = rest.length := by
    by_cases hpublishes : c.Publishes
    · exact exitScript_of_not_goesOn hkey hmessage hm hstack hpublishes
        fun hnext => hnot ⟨hpublishes, hnext⟩
    · obtain ⟨fault, t, hexit, hrest⟩ :=
        exitScript_of_not_publishes hkey hmessage hm hstack hpublishes
      exact ⟨fault, t, hexit, congrArg List.length hrest⟩
  have hnot (hmessage : s.message.isSome = true) (h : ¬ (c.Publishes ∧ Entry.GoesOn rest)) :
      ¬ AllOrNothing user s m c rest (exitScript user s) := by
    obtain ⟨fault, t, hexit, hdepth⟩ := hfails hmessage h
    rw [hexit]
    intro hwhole
    have hkept := hwhole.depthOf_eq hm hstack
    omega
  refine ⟨?_, hfails, fun hmessage hunfilled =>
    hnot hmessage fun h => hunfilled.not_publishes h.1⟩
  cases hmessage : s.message with
  | none =>
    obtain ⟨fault, hexit⟩ := exitScript_of_message_none hkey hmessage hm hstack
    rw [hexit]
    exact iff_of_true (.unchanged fault) (.inl rfl)
  | some message =>
    have hsome : s.message.isSome = true := Option.isSome_of_eq_some hmessage
    constructor
    · exact fun hwhole => .inr (Classical.byContradiction fun h => hnot hsome h hwhole)
    · rintro (h | ⟨hpublishes, hnext⟩)
      · cases h
      · obtain ⟨t, hexit, hdeparted⟩ := exitScript_departed hkey hsome hm hstack hpublishes hnext
        rw [hexit]
        exact .departed hdeparted

end

def Conversation.naming (filename : String) (vars : List (String × Value)) : Conversation :=
  { scriptMeta := .null, filename, startTime := 0, bindings := .object vars,
    speaker := Value.emptyTable }

def Manager.calling : Manager :=
  { user := "ann",
    stack := [.conversation (.naming "called" [("x", .ofItems [.str "a"])]),
      .conversation (.naming "caller" [])] }

/-- The caller goes on with its next line, and finds the variable of the script that was left. -/
theorem exitScript_allOrNothing_calling :
    AllOrNothing "ann" { message := some {}, active := [("ann", .calling)] } .calling
      (.naming "called" [("x", .ofItems [.str "a"])]) [.conversation (.naming "caller" [])]
      (exitScript "ann" { message := some {}, active := [("ann", .calling)] }) :=
  (exitScript_allOrNothing_iff rfl (by simp [managerIn, Value.str_same]) rfl).1.2
    (.inr ⟨⟨rfl, _, rfl⟩, .inr ⟨_, _, _, rfl, rfl⟩⟩)

def Session.begun : Session :=
  Session.after (begin "ann" .null "demo") { initialized := true, message := some {} }

/-- The command that leaves the script fails, and the user has no script any more, but an entry. -/
theorem Request.exit_strands_begun :
    begun.depthOf "ann" = 1 ∧
      ((Request.command "exit" "ann" "").run (some {}) begun).1.isOk = false ∧
      (commanded "exit" "" begun).depthOf "ann" = 0 ∧
      (managerIn (commanded "exit" "" begun).active "ann").isSome = true := by
  decide +kernel

end Colloquy
