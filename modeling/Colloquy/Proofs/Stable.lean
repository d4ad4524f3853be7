import Colloquy.Proofs.Dialogue

/-! What a computation in a role keeps.  An invariant is stable if the few things that such a
computation is put together from keep it; then the whole computation keeps it, whether or not it
fails.  The invariants of the stacks of all users are of this kind. -/

namespace Colloquy

open Session Message

variable {user : Value} {m : Manager} {s t : Session} {c : Conversation} {rest : List Entry}
  {r : Role}

variable {α β : Type}

theorem Library.after_load (filename : Value) (s : Session) :
    s.after (load filename) = { s with reads := s.reads + 1 } := by
  unfold load
  rw [after_bind_of_ok (modify_apply _ _), after_bind_of_ok (get_apply _)]
  split
  · rfl
  · have hpath (name : String) : Looks (scriptPath name) := .bind .get fun _ => .pure _
    refine Looks.bind (.lift _) (fun name => .bind (hpath name) fun path => ?_) _
    split
    · exact .lift _
    · exact .throw _
    · exact .pure _

theorem Session.after_edit (user : Value) (body : Edit α) (s : Session) :
    s.after (edit user body) = s ∨
      ∃ m c rest, managerIn s.active user = some m ∧ m.stack = .conversation c :: rest ∧
        s.after (edit user body) = kept user m (Draft.after body { conversation := c }) s := by
  obtain ⟨fault, herror⟩ | ⟨m, c, rest, hkey, hm, hstack, -⟩ := current_cases user s
  · exact .inl (after_bind_of_error herror)
  · refine .inr ⟨m, c, rest, hm, hstack, ?_⟩
    simp only [after, edit_eq hkey hm hstack, Draft.after]
    cases body { conversation := c } <;> rfl

/-! ### Hearing an answer -/

theorem Command.after_hearAnswer (message : Option Message) (s : Session) :
    s.after (hearAnswer message) = s ∨
      ∃ m c rest, managerIn s.active (userOf message) = some m ∧
        m.stack = .conversation c :: rest ∧
        s.after (hearAnswer message) = kept (userOf message) m
          { conversation := { c with lastRequest := "" } } s := by
  generalize hT : (fun t : Session => t = s ∨
      ∃ m c rest, managerIn s.active (userOf message) = some m ∧
        m.stack = .conversation c :: rest ∧
        t = kept (userOf message) m { conversation := { c with lastRequest := "" } } s) = T
  have hstay : T s := hT ▸ .inl rfl
  suffices hend : T (s.after (hearAnswer message)) by
    rw [← hT] at hend
    exact hend
  unfold hearAnswer
  rw [after_rescue fun fault => ?_]
  · refine (Looks.manager? _).bind_after hstay fun m? hm => ?_
    cases m? with
    | none => exact hstay
    | some m =>
      refine (Looks.lift _).bind_after hstay fun c? hc => ?_
      cases message with
      | none => exact hstay
      | some message =>
        refine (Looks.lift _).bind_after hstay fun request _ => ?_
        split
        case isFalse => exact hstay
        refine (Looks.present c?).bind_after hstay fun c _ => ?_
        unfold noteAnswer
        extract_lets answer
        clear_value answer
        split
        case isFalse => exact hstay
        refine (Looks.lift _).bind_after hstay fun signal _ => ?_
        split
        case isFalse => exact hstay
        refine (Looks.lift _).bind_after hstay fun request _ => ?_
        refine (Looks.lift _).bind_after hstay fun _ _ => ?_
        refine (Looks.isAwaiting _).bind_after hstay fun waits _ => ?_
        split
        case isFalse => exact hstay
        obtain hsame | ⟨m, c, rest, hm, hstack, hkept⟩ := after_edit
          (userOf (some message)) (Edit.update fun c => { c with lastRequest := "" }) s
        · rwa [hsame]
        · rw [← hT]
          exact .inr ⟨m, c, rest, hm, hstack, hkept⟩
  · split
    · exact .pure _
    · exact .throw _

/-! ### Leaving a script -/

theorem Session.withManager_withManager {active : List (Value × Manager)} {n : Manager}
    (hm : managerIn (withManager user n active) user = some m) (n' : Manager) :
    withManager user n' (withManager user n active) = withManager user n' active := by
  induction active with
  | nil =>
    by_cases huser : user.same user = true
    · simp only [withManager, huser, if_true]
    · simp [withManager, managerIn, huser] at hm
  | cons e rest ih =>
    obtain ⟨x, k⟩ := e
    by_cases hx : x.same user = true
    · simp only [withManager, hx, if_true]
    · simp only [withManager, if_neg hx, managerIn_cons] at hm ⊢
      rw [ih hm]

theorem Session.filter_withManager {active : List (Value × Manager)}
    (hm : managerIn active user = some m) (n : Manager) :
    (withManager user n active).filter (fun (x, _) => !x.same user) =
      active.filter fun (x, _) => !x.same user := by
  induction active with
  | nil => cases hm
  | cons e rest ih =>
    obtain ⟨x, k⟩ := e
    rw [managerIn_cons] at hm
    by_cases hx : x.same user = true
    · simp [withManager, hx]
    · rw [if_neg hx] at hm
      simp [withManager, hx, ih hm]

/-- What leaving a script can come to. -/
inductive Leaves (user : Value) (s : Session) : Session → Prop
  | stay : Leaves user s s
  | idle : Leaves user s { s with message := s.message.map (·.voiceless) }
  /-- The variables of the script cannot be published. -/
  | stuck {m : Manager} {c : Conversation} {rest : List Entry} (events : List Event)
      (hm : managerIn s.active user = some m) (hstack : m.stack = .conversation c :: rest)
      (hpublish : ∀ m', Manager.publish { m with stack := rest } c ≠ .ok m') :
      Leaves user s (replaced user { m with stack := rest }
        { s with message := s.message.map (·.voiceless), events })
  /-- The script below goes on. -/
  | back {m : Manager} {c : Conversation} {rest : List Entry} (events : List Event)
      (scope : Entries) (hm : managerIn s.active user = some m)
      (hstack : m.stack = .conversation c :: rest) (hrest : rest ≠ []) :
      Leaves user s (Session.after (edit user (Edit.step 1)) (replaced user
        { m with stack := rest, scope } { s with message := s.message.map (·.voiceless), events }))
  | last {m : Manager} {c : Conversation} (events : List Event)
      (hm : managerIn s.active user = some m) (hstack : m.stack = [.conversation c]) :
      Leaves user s { s with
        message := s.message.map (·.voiceless)
        events
        active := s.active.filter fun (x, _) => !x.same user }

theorem after_exitScript_of_none (hmessage : s.message = none) : s.after (exitScript user) = s := by
  unfold exitScript
  refine (Looks.currentOf user).bind_after (T := (· = s)) rfl fun c? _ => ?_
  exact after_bind_of_error (setDatum_of_none hmessage _ _)

theorem exitScript_leaves_of_stack (hkey : user.isKey = true) (hmessage : s.message.isSome = true)
    (hm : managerIn s.active user = some m) (hstack : m.stack = .conversation c :: rest) :
    Leaves user s (s.after (exitScript user)) := by
  rw [after, exitScript_eq hkey hmessage hm hstack, ← after]
  cases hpublish : Manager.publish { m with stack := rest } c with
  | error fault =>
    rw [after_bind_of_error (lift_error_apply _ _)]
    exact .stuck _ hm hstack fun m' h => by simp [hpublish] at h
  | ok m' =>
    obtain ⟨scope, rfl⟩ := Confined.publish_eq hpublish
    rw [after_bind_of_ok (lift_ok_apply _ _), after_bind_of_ok (setManager_apply _ _ _)]
    simp only [replaced]
    rw [withManager_withManager (managerIn_withManager_self (by exact hm))]
    split
    · rename_i hdepth
      refine .back _ scope hm hstack fun hrest => ?_
      simp [hrest] at hdepth
    · rename_i hdepth
      obtain rfl : rest = [] := by simpa using hdepth
      rw [after_bind_of_ok (dropManager_of_some hkey (managerIn_withManager_self (by exact hm))),
        after_bind_of_ok (get_apply _), filter_withManager (by exact hm)]
      split
      · exact .last _ hm hstack
      · exact .last _ hm hstack

theorem exitScript_leaves (user : Value) (s : Session) :
    Leaves user s (s.after (exitScript user)) := by
  obtain ⟨fault, t, hexit, rfl | rfl⟩ | ⟨m, c, rest, hkey, hmessage, hm, hstack⟩ :=
    exitScript_cases user s
  · rw [after_of_error hexit]
    exact .stay
  · rw [after_of_error hexit]
    exact .idle
  · exact exitScript_leaves_of_stack hkey hmessage hm hstack

/-! ### Running another script -/

theorem Session.begin_cases (user scriptMeta filename : Value) (s : Session) :
    (∃ fault, begin user scriptMeta filename s = .error fault s) ∨
      ∃ time, user.isKey = true ∧ Clock.wholeSeconds s.clock = .ok time ∧
        begin user scriptMeta filename s = .ok () (replaced user
          (((managerIn s.active user).getD { user }).push
            (Conversation.start scriptMeta filename time)) s) := by
  by_cases hkey : user.isKey = true
  case neg => exact .inl ⟨.wrongKind, by simp [begin, manager?, bind_apply, hkey]⟩
  rw [begin, bind_of_ok (manager?_of_isKey hkey s), bind_of_ok (get_apply s)]
  cases htime : Clock.wholeSeconds s.clock with
  | error fault => exact .inl ⟨fault, rfl⟩
  | ok time => exact .inr ⟨time, hkey, rfl, rfl⟩

/-- What running another script can come to. -/
inductive Calls (user : Value) (s : Session) : Session → Prop
  /-- It fails before anything is done. -/
  | stay (reads : Nat) : Calls user s { s with reads }
  /-- There is no such script, and the calling one goes on. -/
  | missing (events : List Event) :
      Calls user s (Session.after (edit user (Edit.step 1)) { s with events })
  /-- The script runs above the calling one. -/
  | run {m : Manager} {c : Conversation} {rest : List Entry} {s' : Session}
      {filename : String} {script caller scriptMeta : Value} {time : Int}
      (hkey : user.isKey = true) (hm : managerIn s.active user = some m)
      (hstack : m.stack = .conversation c :: rest)
      (hload : Library.load (.str (filename ++ Library.compiledExtension)) s = .ok script s')
      (hcaller : Command.suspended c = .ok caller) (hmeta : Library.metaOf script = .ok scriptMeta)
      (reads : Nat) :
      Calls user s (Session.after (edit user do
          Command.fill script
          Edit.update fun c => { c with pending := .ofItems [caller] })
        (replaced user (m.push (Conversation.start scriptMeta filename time)) { s with reads }))

theorem Command.call_calls (user text : Value) (s : Session) :
    Calls user s (s.after (call user text)) := by
  have hstay : Calls user s s := .stay s.reads
  refine (Looks.lift _).bind_after hstay fun name _ => ?_
  extract_lets name filename
  refine (Looks.hasScript _).bind_after hstay fun found _ => ?_
  split
  case isFalse => exact .missing _
  have hload := Library.after_load (.str (filename ++ Library.compiledExtension)) s
  cases hrun : Library.load (.str (filename ++ Library.compiledExtension)) s with
  | error fault t =>
    rw [after_of_error hrun] at hload
    rw [after_bind_of_error hrun, hload]
    exact .stay _
  | ok script t =>
    rw [after_of_ok hrun] at hload
    rw [after_bind_of_ok hrun, hload]
    obtain ⟨fault, herror⟩ | ⟨m, c, rest, hkey, hm, hstack, hcurrent⟩ :=
      current_cases user { s with reads := s.reads + 1 }
    · rw [after_bind_of_error herror]
      exact .stay _
    rw [after_bind_of_ok hcurrent]
    refine (Looks.lift _).bind_after (.stay _) fun caller hcaller => ?_
    refine (Looks.lift _).bind_after (.stay _) fun scriptMeta hmeta => ?_
    obtain ⟨hcaller, -⟩ := lift_ok_iff.1 hcaller
    obtain ⟨hmeta, -⟩ := lift_ok_iff.1 hmeta
    obtain ⟨fault, herror⟩ | ⟨time, -, -, hbegin⟩ :=
      begin_cases user scriptMeta (.str filename) { s with reads := s.reads + 1 }
    · rw [after_bind_of_error herror]
      exact .stay _
    rw [after_bind_of_ok hbegin, hm]
    exact .run (s := s) hkey hm hstack hrun hcaller hmeta _

/-! ### Stable invariants -/

/-- Nothing happens to conversations, waiting users, the host, files and lists. -/
structure Session.Calm (s t : Session) : Prop where
  active : t.active = s.active
  awaiting : t.awaiting = s.awaiting
  host : t.host = s.host
  root : t.root = s.root
  files : t.files = s.files
  initialized : t.initialized = s.initialized
  lists : t.lists = s.lists

/-- An invariant that is kept by all that a computation in a role is put together from. -/
structure Stable (r : Role) (I : Session → Prop) : Prop where
  calm : ∀ {s t}, I s → s.Calm t → I t
  transcript : ∀ {s} (text filename startTime : Value), I s →
    I (s.after (addTranscript text filename startTime))
  edit : ∀ {s user m c rest} {draft : Draft}, managerIn s.active user = some m →
    m.stack = .conversation c :: rest → c.Like r draft.conversation → I s →
    I (kept user m draft s)
  share : ∀ {s} (changes : List Value.Change), I s → I (withChanges changes s)
  leave : ∀ {s t}, Leaves r.user s t → I s → I t
  call : r.calls → ∀ {s t}, Calls r.user s t → I s → I t
  await : r.asks → ∀ {s}, I s → I { s with awaiting := s.awaiting ++ [r.user] }
  stopAwaiting : r.asks → ∀ {s}, I s → I { s with awaiting := dropFirst r.user s.awaiting }

theorem Conversation.Like.of_deaf {c' : Conversation} (h : c.Like r.deaf c') : c.Like r c' := by
  refine ⟨h.pending, h.extras, h.lines, h.table, fun hc => ?_, h.voice⟩
  have hplain := h.plain ⟨hc.lines, hc.speaker⟩
  exact ⟨hplain.lines, hplain.speaker⟩

/-! ### What is known stays known -/

theorem hostAfter_preferences (changes : List Value.Change) (host : Host) :
    (hostAfter changes host).preferences = host.preferences.changedBy changes := by
  induction changes with
  | nil => rfl
  | cons change changes ih => exact congrArg (Value.changed change) ih

theorem Conversation.Plain.of_mem_changedBy {stack : List Entry}
    (h : ∀ c, .conversation c ∈ stack → c.Plain r) (changes : List Value.Change) :
    ∀ c, .conversation c ∈ stack.map (Entry.changedBy changes) → c.Plain r := by
  intro c hc
  obtain ⟨c', hc', rfl⟩ := Entry.exists_of_mem_changedBy hc
  exact (c'.like_changedBy r changes).plain (h c' hc')

namespace Knows

variable {r : Role} {s t : Session}

theorem of_parts (h : Knows r s) (hmessage : t.message = s.message)
    (hpreferences : r.Plain t.host.preferences)
    (hstack : ∀ c, .conversation c ∈ t.stackOf r.user → c.Plain r) : Knows r t := by
  refine ⟨?_, ?_, hpreferences, hstack, ?_⟩
  all_goals rw [hmessage]
  · exact h.heard
  · exact h.data
  · exact h.chats

theorem of_same (h : Knows r s) (hactive : t.active = s.active) (hhost : t.host = s.host)
    (hmessage : t.message = s.message) : Knows r t := by
  refine h.of_parts hmessage ?_ ?_
  · rw [hhost]
    exact h.preferences
  · rw [stackOf, hactive, ← stackOf]
    exact h.stack

theorem of_datum (h : Knows r s) {m : Message} (hm : s.message = some m) (name : String)
    {value : Value} (hvalue : r.Plain value) :
    Knows r { s with message := some { m with data := m.data.insert name value } } := by
  refine ⟨fun hhears => ?_, fun m' hm' => ?_, h.preferences, h.stack, fun m' hm' => ?_⟩
  · have hheard := h.heard hhears
    rw [hm] at hheard
    exact hheard
  · obtain rfl := Option.some.inj hm'
    exact (h.data m hm).insert hvalue
  · obtain rfl := Option.some.inj hm'
    exact h.chats m hm

theorem kept (h : Knows r s) {draft : Draft} (hm : managerIn s.active user = some m)
    (hstack : m.stack = .conversation c :: rest) (hlike : c.Like r draft.conversation) :
    Knows r (kept user m draft s) := by
  refine h.of_parts (kept_message ..) ?_ ?_
  · rw [kept_host, hostAfter_preferences]
    exact h.preferences.changedBy _
  · obtain hnew | ⟨hold, hnew⟩ := stackOf_kept_cases draft hm hstack r.user
    · rw [hnew]
      exact Conversation.Plain.of_mem_changedBy h.stack _
    · have hplain := h.stack
      rw [hold] at hplain
      rw [hnew]
      intro c' hc'
      obtain hhead | htail := List.mem_cons.1 hc'
      · obtain rfl := Entry.conversation.inj hhead
        have hdraft := hlike.plain (hplain c List.mem_cons_self)
        exact ⟨hdraft.lines, hdraft.speaker⟩
      · exact Conversation.Plain.of_mem_changedBy
          (fun c'' hc'' => hplain c'' (List.mem_cons_of_mem _ hc'')) _ c' htail

theorem after_edit (h : Knows r s) (user : Value) {body : Edit α} (hbody : Amends r body) :
    Knows r (s.after (edit user body)) := by
  obtain hsame | ⟨m, c, rest, hm, hstack, hkept⟩ := Session.after_edit user body s
  · rwa [hsame]
  · rw [hkept]
    exact h.kept hm hstack (hbody { conversation := c })

theorem withChanges (h : Knows r s) (changes : List Value.Change) :
    Knows r (withChanges changes s) := by
  have hstack := Conversation.Plain.of_mem_changedBy h.stack changes
  rw [← stackOf_withChanges] at hstack
  rw [withChanges_eq] at hstack ⊢
  refine h.of_parts rfl ?_ hstack
  show r.Plain (hostAfter changes s.host).preferences
  rw [hostAfter_preferences]
  exact h.preferences.changedBy _

theorem voiceless (h : Knows r s) : Knows r { s with message := s.message.map (·.voiceless) } := by
  cases hm : s.message with
  | none => exact h.of_same rfl rfl hm.symm
  | some m => exact h.of_datum hm "speaker" .null

theorem of_suffix (h : Knows r s) (hhost : t.host = s.host) (hmessage : t.message = s.message)
    (hstack : t.stackOf r.user <:+ s.stackOf r.user) : Knows r t := by
  refine h.of_parts hmessage ?_ fun c hc => h.stack c (hstack.subset hc)
  rw [hhost]
  exact h.preferences

theorem leaves (h : Knows r s) (hleaves : Leaves r.user s t) : Knows r t := by
  -- What is left of the stack is a part of it, also before the script below goes on.
  have hpopped {m : Manager} {c : Conversation} {rest : List Entry} (events : List Event)
      (scope : Entries) (hm : managerIn s.active r.user = some m)
      (hstack : m.stack = .conversation c :: rest) :
      Knows r (replaced r.user { m with stack := rest, scope }
        { s with message := s.message.map (·.voiceless), events }) := by
    refine h.voiceless.of_suffix rfl rfl ?_
    rw [stackOf_replaced_self (by exact hm), stackOf_eq (by exact hm), hstack]
    exact List.suffix_cons _ _
  cases hleaves with
  | stay => exact h
  | idle => exact h.voiceless
  | stuck events hm hstack => exact hpopped events _ hm hstack
  | back events scope hm hstack => exact (hpopped events scope hm hstack).after_edit _ (.step 1)
  | last events hm hstack =>
    refine h.voiceless.of_suffix rfl rfl ?_
    simp only [stackOf, managerIn_filter_self]
    exact List.nil_suffix

end Knows

/-! ### Computations keep stable invariants -/

/-- What a role knows of a session, and also whether there is a message. -/
structure Aware (r : Role) (s : Session) : Prop extends Knows r s where
  message : ∀ isThere, r.message = some isThere → s.message.isSome = isThere

theorem Aware.of_knows (h : Aware r s) (hknows : Knows r t)
    (hmessage : t.message.isSome = s.message.isSome) : Aware r t :=
  ⟨hknows, by rw [hmessage]; exact h.message⟩

def Keeps (r : Role) (I : Session → Prop) (Q : α → Prop) : EStateM.Result Fault Session α → Prop
  | .ok a t => Q a ∧ Aware r t ∧ I t
  | .error _ t => Aware r t ∧ I t

theorem Keeps.of_after {I : Session → Prop} {m : Run α} (hs : Aware r s)
    (hmessage : (s.after m).message.isSome = s.message.isSome) (hknows : Knows r (s.after m))
    (hI : I (s.after m)) : Keeps r I (fun _ => True) (m s) := by
  have haware := hs.of_knows hknows hmessage
  cases hrun : m s with
  | ok a t =>
    rw [after_of_ok hrun] at haware hI
    exact ⟨trivial, haware, hI⟩
  | error fault t =>
    rw [after_of_error hrun] at haware hI
    exact ⟨haware, hI⟩

theorem Aware.of_same (h : Aware r s) (hactive : t.active = s.active) (hhost : t.host = s.host)
    (hmessage : t.message = s.message) : Aware r t :=
  h.of_knows (h.toKnows.of_same hactive hhost hmessage) (by rw [hmessage])

theorem Keeps.calm {I : Session → Prop} {a : α} (hI : Stable r I) (hs : Aware r s) (hsI : I s)
    (hcalm : s.Calm t) (hmessage : t.message = s.message) : Keeps r I (fun _ => True) (.ok a t) :=
  ⟨trivial, hs.of_same hcalm.active hcalm.host hmessage, hI.calm hsI hcalm⟩

theorem after_addTranscript (text filename startTime : Value) (s : Session) :
    ∃ files, s.after (addTranscript text filename startTime) = { s with files } := by
  have hstay : ∃ files, s = { s with files } := ⟨s.files, rfl⟩
  unfold addTranscript
  rw [after_bind_of_ok (get_apply s)]
  extract_lets name
  refine (Looks.lift _).bind_after (T := fun t => ∃ files, t = { s with files }) hstay
    fun target _ => ?_
  refine (Looks.lift _).bind_after (T := fun t => ∃ files, t = { s with files }) hstay
    fun files _ => ?_
  rw [after_bind_of_ok (set_apply _ _)]
  refine (Looks.lift _).bind_after (T := fun t => ∃ files, t = { s with files }) ⟨files, rfl⟩
    fun added _ => ?_
  refine (Looks.lift _).bind_after (T := fun t => ∃ files, t = { s with files }) ⟨files, rfl⟩
    fun files' _ => ?_
  exact ⟨files', rfl⟩

theorem Session.after_editLeft (c : Conversation) (body : Edit α) (s : Session) :
    ∃ changes, s.after (editLeft c body) = withChanges changes s := by
  unfold editLeft
  cases body { conversation := c } with
  | ok a draft => exact ⟨draft.changes, rfl⟩
  | error fault draft => exact ⟨draft.changes, rfl⟩

theorem Session.after_edit_frame (user : Value) (body : Edit α) (s : Session) :
    ∃ active host lists, s.after (edit user body) = { s with active, host, lists } := by
  obtain hsame | ⟨m, c, rest, -, -, hkept⟩ := after_edit user body s
  · exact ⟨_, _, _, hsame⟩
  · rw [hkept, kept, withChanges_eq]
    exact ⟨_, _, _, rfl⟩

theorem Session.after_edit_message (user : Value) (body : Edit α) (s : Session) :
    (s.after (edit user body)).message = s.message := by
  obtain ⟨_, _, _, hafter⟩ := after_edit_frame user body s
  rw [hafter]

theorem Calls.message_eq (h : Calls user s t) : t.message = s.message := by
  cases h with
  | stay => rfl
  | missing => rw [after_edit_message]
  | run =>
    rw [after_edit_message]
    rfl

theorem Leaves.message_isSome (h : Leaves user s t) : t.message.isSome = s.message.isSome := by
  have hvoiceless : (s.message.map (·.voiceless)).isSome = s.message.isSome := Option.isSome_map
  cases h with
  | stay => rfl
  | idle | stuck | last => exact hvoiceless
  | back =>
    rw [after_edit_message]
    exact hvoiceless

theorem Acts.keeps {m : Run α} {Q : α → Prop} (h : Acts r m Q) {I : Session → Prop}
    (hI : Stable r I) (hplain : r.calls → ¬ r.plain) (hs : Aware r s) (hsI : I s) :
    Keeps r I Q (m s) := by
  induction h generalizing s with
  | pure h => exact ⟨h, hs, hsI⟩
  | throw fault => exact ⟨hs, hsI⟩
  | @bind _ _ _ m f _ _ _ _ ihm ihf =>
    have hfirst := ihm hI hplain hs hsI
    cases hrun : m s with
    | ok a t =>
      rw [hrun] at hfirst
      rw [bind_of_ok hrun]
      exact ihf a hfirst.1 hI hplain hfirst.2.1 hfirst.2.2
    | error fault t =>
      rw [hrun] at hfirst
      rw [bind_of_error hrun]
      exact hfirst
  | @rescue _ _ m handler _ _ _ ihm ihhandler =>
    have hfirst := ihm hI hplain hs hsI
    obtain hsame | ⟨fault, t, hrun, hrescue⟩ := rescue_cases m handler s
    · rwa [hsame]
    · rw [hrun] at hfirst
      rw [hrescue]
      exact ihhandler fault hI hplain hfirst.1 hfirst.2
  | look _ _ ih =>
    rw [bind_of_ok (get_apply s)]
    exact ih s hs.toKnows hI hplain hs hsI
  | tell event => exact .calm hI hs hsI ⟨rfl, rfl, rfl, rfl, rfl, rfl, rfl⟩ rfl
  | sleep milliseconds => exact .calm hI hs hsI ⟨rfl, rfl, rfl, rfl, rfl, rfl, rfl⟩ rfl
  | countRead => exact .calm hI hs hsI ⟨rfl, rfl, rfl, rfl, rfl, rfl, rfl⟩ rfl
  | await hasks => exact ⟨trivial, hs.of_same rfl rfl rfl, hI.await hasks hsI⟩
  | stopAwaiting hasks => exact ⟨trivial, hs.of_same rfl rfl rfl, hI.stopAwaiting hasks hsI⟩
  | setDatum name hvalue =>
    cases hm : s.message with
    | none =>
      simp only [Session.setDatum, Session.theMessage, bind_apply, get_apply, hm, throw_apply]
      exact ⟨hs, hsI⟩
    | some m =>
      simp only [Session.setDatum, Session.theMessage, bind_apply, get_apply, hm, pure_apply,
        modify_apply]
      exact ⟨trivial, hs.of_knows (hs.toKnows.of_datum hm name hvalue) (by rw [hm]; rfl),
        hI.calm hsI ⟨rfl, rfl, rfl, rfl, rfl, rfl, rfl⟩⟩
  | reckon f hm =>
    rw [hm]
    cases f s.clock with
    | mk result clock =>
      have hnow : Aware _ { s with clock } ∧ I { s with clock } :=
        ⟨hs.of_same rfl rfl rfl, hI.calm hsI ⟨rfl, rfl, rfl, rfl, rfl, rfl, rfl⟩⟩
      cases result with
      | none => exact hnow
      | some a => exact ⟨trivial, hnow⟩
  | addTranscript text filename startTime =>
    obtain ⟨files, hafter⟩ := after_addTranscript text filename startTime s
    refine .of_after hs (by rw [hafter]) ?_ (hI.transcript text filename startTime hsI)
    rw [hafter]
    exact hs.toKnows.of_same rfl rfl rfl
  | @handlingNone r _ m _ _ ih =>
    have hdeaf : Stable r.deaf I :=
      { hI with edit := fun hm hstack hlike => hI.edit hm hstack hlike.of_deaf }
    have hnone : Aware r.deaf { s with message := none } :=
      ⟨⟨fun hhears => hhears.elim fun _ h => h.elim, fun _ h => (by cases h), hs.preferences,
        fun c hc => ⟨(hs.stack c hc).lines, (hs.stack c hc).speaker⟩, fun _ h => (by cases h)⟩,
        fun _ => Option.some.inj⟩
    have hback {t : Session} (ht : Aware r.deaf t) : Aware r { t with message := s.message } :=
      ⟨⟨hs.heard, hs.data, ht.preferences,
        fun c hc => ⟨(ht.stack c hc).lines, (ht.stack c hc).speaker⟩, hs.chats⟩, hs.message⟩
    have hm := ih hdeaf hplain hnone (hI.calm hsI ⟨rfl, rfl, rfl, rfl, rfl, rfl, rfl⟩)
    simp only [handling]
    cases hrun : m { s with message := none } with
    | ok a t =>
      rw [hrun] at hm
      exact ⟨hm.1, hback hm.2.1, hI.calm hm.2.2 ⟨rfl, rfl, rfl, rfl, rfl, rfl, rfl⟩⟩
    | error fault t =>
      rw [hrun] at hm
      exact ⟨hback hm.1, hI.calm hm.2 ⟨rfl, rfl, rfl, rfl, rfl, rfl, rfl⟩⟩
  | @edit r _ body hbody =>
    refine .of_after hs (by rw [after_edit_message]) (hs.toKnows.after_edit _ hbody) ?_
    obtain hsame | ⟨m, c, rest, hm, hstack, hkept⟩ := Session.after_edit r.user body s
    · rwa [hsame]
    · rw [hkept]
      exact hI.edit hm hstack (hbody { conversation := c }) hsI
  | editLeft c body =>
    obtain ⟨changes, hafter⟩ := after_editLeft c body s
    refine .of_after hs (by rw [hafter, withChanges_eq]) ?_ ?_
    · rw [hafter]
      exact hs.toKnows.withChanges changes
    · rw [hafter]
      exact hI.share changes hsI
  | @exitScript r =>
    have hleaves := exitScript_leaves r.user s
    exact .of_after hs hleaves.message_isSome (hs.toKnows.leaves hleaves) (hI.leave hleaves hsI)
  | @hearAnswer r message _ =>
    have hlike (c : Conversation) : c.Like r { c with lastRequest := "" } := .same rfl
    obtain hsame | ⟨m, c, rest, hm, hstack, hkept⟩ := Command.after_hearAnswer message s
    · refine .of_after hs (by rw [hsame]) ?_ ?_
      · rw [hsame]
        exact hs.toKnows
      · rwa [hsame]
    · refine .of_after hs (by rw [hkept, kept_message]) ?_ ?_
      · rw [hkept]
        exact hs.toKnows.kept hm hstack (hlike c)
      · rw [hkept]
        exact hI.edit hm hstack (hlike c) hsI
  | @call r hcalls text =>
    have htext := Command.call_calls r.user text s
    have hp : ¬ r.plain := hplain hcalls
    refine .of_after hs (by rw [htext.message_eq]) ?_ (hI.call hcalls htext hsI)
    exact hs.toKnows.of_parts htext.message_eq (fun h => absurd h hp)
      fun _ _ => ⟨fun h => absurd h hp, fun h => absurd h hp⟩

theorem Acts.after_keeps {m : Run α} {Q : α → Prop} (h : Acts r m Q) {I : Session → Prop}
    (hI : Stable r I) (hplain : r.calls → ¬ r.plain) (hs : Aware r s) (hsI : I s) :
    Aware r (s.after m) ∧ I (s.after m) := by
  have hkeeps := h.keeps hI hplain hs hsI
  rw [after]
  cases hrun : m s with
  | ok a t =>
    rw [hrun] at hkeeps
    exact hkeeps.2
  | error fault t =>
    rw [hrun] at hkeeps
    exact hkeeps

end Colloquy
