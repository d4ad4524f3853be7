import Colloquy.Proofs.Interruption

/-! What becomes of a line that fails.  The failure is reported and the script that is then on top is
left, which works as long as there is one.  If the user's last script was left before, by the line
itself or by the one before it, then leaving it again fails, and the failure is not contained. -/

namespace Colloquy

open Session Execution Conversation List

/-! ### Scripts that can be left -/

/-- All scripts on a stack can be left one after the other: their variables can be published, and each
one below another can go on with its next line. -/
structure Entry.Leavable (stack : List Entry) : Prop where
  sound : ∀ e ∈ stack, ∃ c, e = .conversation c ∧ c.Sound
  next : ∀ c, .conversation c ∈ stack.tail → ∃ index, c.index.addInt 1 = .ok index

/-- A compiled script that is well formed was read. -/
def Library.IsScript (read : Except Fault Value) : Prop :=
  ∃ script, read = .ok script ∧ script.isScript = true

namespace Entry.Leavable

variable {c : Conversation} {rest stack : List Entry}

theorem changedBy (h : Leavable stack) (changes : List Value.Change) :
    Leavable (stack.map (Entry.changedBy changes)) := by
  refine ⟨fun e he => ?_, fun c hc => ?_⟩
  · obtain ⟨e', he', rfl⟩ := mem_map.1 he
    obtain ⟨c, rfl, hc⟩ := h.sound e' he'
    exact ⟨c.changedBy changes, Entry.changedBy_conversation changes c,
      hc.like (c.like_changedBy (.bare .null) changes)⟩
  · rw [← map_tail] at hc
    obtain ⟨c', hc', rfl⟩ := Entry.exists_of_mem_changedBy hc
    rw [changedBy_eq]
    exact h.next c' hc'

theorem top {c' : Conversation} (h : Leavable (.conversation c :: rest)) (hc' : c'.Sound) :
    Leavable (.conversation c' :: rest) := by
  refine ⟨fun e he => ?_, h.next⟩
  rcases mem_cons.1 he with rfl | hrest
  · exact ⟨c', rfl, hc'⟩
  · exact h.sound e (mem_cons_of_mem _ hrest)

theorem sound_top (h : Leavable (.conversation c :: rest)) : c.Sound := by
  obtain ⟨c', heq, hc'⟩ := h.sound _ mem_cons_self
  rwa [Entry.conversation.inj heq]

theorem stackLaw (r : Role) : StackLaw r Leavable Library.IsScript where
  share changes h := h.changedBy changes
  edit {c c' rest} changes hlike h := by
    have hrest : Leavable (.conversation (c.changedBy changes) ::
        rest.map (Entry.changedBy changes)) := by simpa using h.changedBy changes
    exact hrest.top (h.sound_top.like hlike)
  pop h := ⟨fun e he => h.sound e (mem_cons_of_mem _ he),
    fun c hc => h.next c (mem_of_mem_tail hc)⟩
  call {c rest script caller scriptMeta} filename time hcaller _ hscript h := by
    -- The called script is filled from a well-formed one, and its caller could be set aside only as it
    -- has a next line.
    obtain ⟨_, hread, hscript⟩ := hscript
    obtain rfl := Except.ok.inj hread
    obtain ⟨called, hfill, htable, hextras⟩ :=
      Command.fill_ok hscript (start scriptMeta filename time)
    have hcalled : Draft.after (Command.calling script caller)
        { conversation := start scriptMeta filename time } =
          { conversation := { called with pending := .ofItems [caller] } } := by
      simp only [Draft.after, Command.calling, bind_of_ok hfill]
      rfl
    rw [hcalled]
    refine ⟨fun e he => ?_, fun c' hc' => ?_⟩
    · rcases mem_cons.1 he with rfl | hrest
      · exact ⟨_, rfl, htable, hextras⟩
      · exact h.sound e hrest
    · rcases mem_cons.1 hc' with heq | hrest
      · obtain rfl := Entry.conversation.inj heq
        obtain ⟨index, hindex, -⟩ := Command.suspended_ok hcaller
        exact ⟨index, hindex⟩
      · exact h.next c' hrest

end Entry.Leavable

/-- The scripts of all users can be left, and compiled scripts are well formed. -/
def Session.Leavable : Session → Prop :=
  Session.Obeys Entry.Leavable Library.IsScript

section

variable {user : Value} {s t : Session}

theorem Session.Leavable.stackOf (h : s.Leavable) (user : Value) : Entry.Leavable (s.stackOf user) :=
  Obeys.stackOf h ⟨nofun, nofun⟩ user

theorem Edit.step_ok {c : Conversation} {index : Value} (hindex : c.index.addInt 1 = .ok index) :
    Edit.step 1 { conversation := c } = .ok () { conversation := { c with index } } := by
  simp only [Edit.step, Edit.read, Edit.update, bind_apply, get_apply, pure_apply, hindex,
    lift_ok_apply, modify_apply]

theorem Session.edit_step_of_stack {m : Manager} {c : Conversation} {rest : List Entry}
    {index : Value} (hkey : user.isKey = true) (hm : managerIn s.active user = some m)
    (hstack : m.stack = .conversation c :: rest) (hindex : c.index.addInt 1 = .ok index) :
    ∃ t, edit user (Edit.step 1) s = .ok () t := by
  rw [edit_eq hkey hm hstack, Edit.step_ok hindex]
  exact ⟨_, rfl⟩

theorem exitScript_rest_of_leavable {m : Manager} {c : Conversation} (hkey : user.isKey = true)
    (hm : managerIn s.active user = some m) (h : Entry.Leavable (.conversation c :: m.stack)) :
    ∃ t, (if m.depth != 0 then edit user (Edit.step 1) else do
      dropManager user
      if (← get).host.hasDisplay.truthy then tell .clearDisplay) s = .ok () t := by
  cases hstack : m.stack with
  | nil =>
    rw [if_neg (by simp [Manager.depth, hstack]), bind_of_ok (dropManager_of_some hkey hm),
      bind_of_ok (get_apply _)]
    split
    · exact ⟨_, rfl⟩
    · exact ⟨_, rfl⟩
  | cons e rest =>
    rw [if_pos (by simp [Manager.depth, hstack])]
    rw [hstack] at h
    obtain ⟨c', rfl, -⟩ := h.sound e (mem_cons_of_mem _ mem_cons_self)
    obtain ⟨index, hindex⟩ := h.next c' mem_cons_self
    exact edit_step_of_stack hkey hm hstack hindex

theorem exitScript_of_stack (hkey : user.isKey = true) (hmessage : s.message.isSome = true)
    (hleavable : Entry.Leavable (s.stackOf user)) (hstack : s.stackOf user ≠ []) :
    ∃ t, exitScript user s = .ok () t := by
  obtain ⟨e, rest, hs⟩ := exists_cons_of_ne_nil hstack
  rw [hs] at hleavable
  obtain ⟨c, rfl, hc⟩ := hleavable.sound e mem_cons_self
  obtain ⟨m, hm, htop⟩ := exists_managerIn_of_stackOf hs
  -- Only publishing the variables could fail on the way to the last part.
  obtain ⟨m', hpublish⟩ := hc.publish { m with stack := rest }
  obtain ⟨scope, rfl⟩ := Confined.publish_eq hpublish
  rw [exitScript_eq hkey hmessage hm htop, hpublish, bind_of_ok (lift_ok_apply _ _),
    bind_of_ok (setManager_apply _ _ _)]
  exact exitScript_rest_of_leavable (m := { m with stack := rest, scope }) hkey
    (managerIn_replaced_self (managerIn_replaced_self (by exact hm) _) _) hleavable

theorem exitScript_of_leavable (hkey : user.isKey = true) (hmessage : s.message.isSome = true)
    (h : s.Leavable) (hstack : s.stackOf user ≠ []) : ∃ t, exitScript user s = .ok () t :=
  exitScript_of_stack hkey hmessage (h.stackOf user) hstack

end

/-! ### Lines that fail -/

/-- A line fails, after a number of lines that have gone on. -/
structure Execution.Fails (user : Value) (n : Nat) (s u v : Session) (fault : Fault) : Prop where
  goes : Goes user n s u
  line : advance user u = .error fault v
  limit : fault ≠ .stepLimit

section

variable {user : Value} {s t u v : Session} {n budget : Nat} {fault : Fault}

/-- There is a message, and the scripts of all users can be left. -/
structure Session.Ready (s : Session) : Prop where
  message : s.message.isSome = true
  leavable : s.Leavable

theorem Session.Ready.after_advance (h : s.Ready) (user : Value) : (s.after (advance user)).Ready := by
  obtain ⟨haware, hleavable⟩ := (Acts.advance (Role.free_ofMessage user s.message)).after_keeps
    (Entry.Leavable.stackLaw _).stable (fun _ => id) (.ofMessage user s) h.leavable
  exact ⟨(haware.message _ rfl).trans h.message, hleavable⟩

theorem Session.Ready.goes (h : s.Ready) (hgoes : Goes user n s u) : u.Ready := by
  induction hgoes with
  | refl => exact h
  | step _ hline _ ih =>
    have hready := h.after_advance user
    rw [after_of_ok hline] at hready
    exact ih hready

theorem Execution.Fails.ready (h : Fails user n s u v fault) (hready : s.Ready) : v.Ready := by
  have hafter := (hready.goes h.goes).after_advance user
  rwa [after_of_error h.line] at hafter

theorem Execution.giveUp_of_ready (hkey : user.isKey = true) (hready : s.Ready)
    (hstack : s.stackOf user ≠ []) (report : Report) : ∃ t, giveUp user report s = .ok () t := by
  have htold : Leavable { s with events := report.event "unknown" :: s.events } :=
    hready.leavable.calm ⟨rfl, rfl, rfl, rfl, rfl, rfl, rfl⟩
  exact exitScript_of_leavable hkey hready.message htold hstack

theorem Execution.Fails.proceed_ok (h : Fails user n s u v fault) (hkey : user.isKey = true)
    (hready : s.Ready) (hbudget : n < budget) (hstack : v.stackOf user ≠ []) :
    ∃ t, giveUp user (reportFor u user) v = .ok () t ∧ proceed budget user s = .ok () t := by
  obtain ⟨t, ht⟩ := giveUp_of_ready hkey (h.ready hready) hstack (reportFor u user)
  obtain ⟨k, rfl⟩ := Nat.exists_eq_add_of_lt hbudget
  have hlines : (do if ← advance user then proceed k user : Run Unit) u = .error fault v :=
    bind_of_error h.line
  have hend : proceed (k + 1) user u = .ok () t := by
    rw [proceed_succ (hready.goes h.goes).message, rescue_of_error hlines h.limit, ht]
  refine ⟨t, ht, ?_⟩
  rw [Nat.add_assoc, Nat.add_comm]
  exact h.goes.proceed_ok hend

theorem Goes.exists_last (h : Goes user (n + 1) s u) :
    ∃ t, Goes user n s t ∧ advance user t = .ok true u := by
  induction n generalizing s with
  | zero =>
    obtain - | ⟨_, hline, ⟨⟩⟩ := h
    exact ⟨s, .refl s, hline⟩
  | succ n ih =>
    obtain - | ⟨hmessage, hline, hrest⟩ := h
    obtain ⟨t, hgoes, hlast⟩ := ih hrest
    exact ⟨t, .step hmessage hline hgoes, hlast⟩

theorem exitScript_depthOf (h : exitScript user s = .ok () t) (hstack : s.stackOf user ≠ []) :
    t.depthOf user + 1 = s.depthOf user := by
  have hleaves := exitScript_leaves user s
  rw [after_of_ok h] at hleaves
  by_cases hdepth : 0 < t.depthOf user
  · obtain ⟨e, c, rest, index, bindings, hold, -, -, hnew⟩ := exitScript_ok h hdepth
    simp [depthOf, hold, hnew]
  · obtain ⟨e, rest, hs⟩ := exists_cons_of_ne_nil hstack
    cases rest with
    | cons e' rest => exact absurd (hleaves.depthOf_pos hs) hdepth
    | nil =>
      rw [Nat.eq_zero_of_not_pos hdepth, depthOf, hs]
      rfl

end

def Conversation.ofLines (lines : List Value) : Conversation :=
  { scriptMeta := .null, filename := "demo", startTime := 0
    bindings := Value.emptyTable, speaker := Value.emptyTable
    lines := .ofItems (.null :: lines) }

def Session.ofLines (lines : List Value) : Session :=
  { initialized := true
    root := "/skill"
    active := [("ann", { user := "ann", stack := [.conversation (.ofLines lines)] })]
    lists := 1 }

def Value.ofLine (command text : String) (number indent : Int) (cases : List Value) : Value :=
  .object [("command", command), ("text", text), ("line_number", .int number),
    ("indent", .int indent), ("data", .null), ("parent_case_indents", .ofItems cases)]

end Colloquy
