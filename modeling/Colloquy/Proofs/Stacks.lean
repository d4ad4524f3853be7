import Colloquy.Proofs.Isolation
import Colloquy.Proofs.Places

/-! The stacks of all users in the sessions that come about by starting and running scripts.  If
compiled scripts are well formed and transcripts can be written, then no user is left with an empty
stack, and the variables of each script are a table. -/

namespace Colloquy

open Session Value Library List

variable {script user : Value} {c : Conversation} {s t : Session}

/-! ### The entries of the users -/

section

variable {active : List (Value × Manager)} {user x : Value} {n k : Manager}

theorem Session.mem_withManager_map (f : Manager → Manager)
    (h : (x, k) ∈ withManager user n (active.map fun (x, m) => (x, f m))) :
    (∃ k', (x, k') ∈ active ∧ k = f k') ∨
      k = n ∧ ((∃ m, managerIn active user = some m ∧ (x, m) ∈ active) ∨
        managerIn active user = none ∧ x = user) := by
  induction active with
  | nil =>
    obtain ⟨rfl, rfl⟩ : x = user ∧ k = n := by simpa [withManager] using h
    exact .inr ⟨rfl, .inr ⟨rfl, rfl⟩⟩
  | cons e rest ih =>
    obtain ⟨y, l⟩ := e
    simp only [map_cons, withManager] at h
    rw [managerIn_cons]
    split at h
    · rename_i hy
      rw [if_pos hy]
      rcases mem_cons.1 h with heq | hrest
      · cases heq
        exact .inr ⟨rfl, .inl ⟨l, rfl, mem_cons_self⟩⟩
      · obtain ⟨⟨y', k'⟩, hmem, heq⟩ := mem_map.1 hrest
        cases heq
        exact .inl ⟨k', mem_cons_of_mem _ hmem, rfl⟩
    · rename_i hy
      rw [if_neg hy]
      rcases mem_cons.1 h with heq | hrest
      · cases heq
        exact .inl ⟨l, mem_cons_self, rfl⟩
      · rcases ih hrest with ⟨k', hmem, hk⟩ | ⟨hk, ⟨m, hm, hmem⟩ | hnone⟩
        · exact .inl ⟨k', mem_cons_of_mem _ hmem, hk⟩
        · exact .inr ⟨hk, .inl ⟨m, hm, mem_cons_of_mem _ hmem⟩⟩
        · exact .inr ⟨hk, .inr hnone⟩

theorem Session.mem_withManager (h : (x, k) ∈ withManager user n active) :
    (x, k) ∈ active ∨ k = n ∧ ((∃ m, managerIn active user = some m ∧ (x, m) ∈ active) ∨
      managerIn active user = none ∧ x = user) := by
  have hmap : active = active.map fun (x, m) => (x, id m) := by simp
  rw [hmap] at h
  rcases mem_withManager_map id h with ⟨k', hmem, rfl⟩ | hnew
  · exact .inl hmem
  · exact .inr hnew

theorem Session.managerIn_withManager (active : List (Value × Manager)) (user : Value)
    (n : Manager) :
    managerIn (withManager user n active) user = some n ∨
      managerIn active user = none ∧ user.same user = false := by
  cases hm : managerIn active user with
  | some m => exact .inl (managerIn_withManager_self hm)
  | none =>
    rw [managerIn_withManager_of_none n hm]
    cases user.same user
    · exact .inr ⟨rfl, rfl⟩
    · exact .inl rfl

end

theorem Session.kept_of_unchanged (user : Value) (m : Manager) (c : Conversation) (s : Session) :
    kept user m { conversation := c } s =
      { s with
        lists := (c.bindings.numbered s.lists).2
        active := withManager user (m.setTop (settled s.lists { conversation := c })) s.active } := by
  simp [kept, withChanges_eq, hostAfter, Manager.changedBy]

/-! ### Sound sessions -/

/-- A conversation whose variables can be published when it is left. -/
structure Conversation.Sound (c : Conversation) : Prop where
  table : c.bindings.isTable = true
  extras : c.extras = []

/-- A stack of conversations, of which there is at least one. -/
structure Manager.Sound (m : Manager) : Prop where
  nonempty : m.stack ≠ []
  stack : ∀ e ∈ m.stack, ∃ c, e = .conversation c ∧ c.Sound

/-- The entries of all users who can be found again are sound, compiled scripts are well formed and
can be read. -/
structure Session.Sound (s : Session) : Prop where
  managers : ∀ x m, (x, m) ∈ s.active → x.same x = true → m.Sound
  scripts : s.files.HoldScripts
  reads : s.host.failingRead = none

namespace Conversation.Sound

variable {r : Role} {c c' : Conversation}

theorem like (h : c.Sound) (hlike : c.Like r c') : c'.Sound :=
  ⟨hlike.table h.table, hlike.extras.trans h.extras⟩

theorem settled {draft : Draft} (h : draft.conversation.Sound) (next : Nat) :
    (settled next draft).Sound :=
  ⟨(isTable_numbered _ _).trans h.table, h.extras⟩

theorem publish (h : c.Sound) (m : Manager) : ∃ m', m.publish c = .ok m' := by
  obtain ⟨entries, hentries⟩ : ∃ entries, c.bindings = .table entries := by
    have htable := h.table
    cases hbindings : c.bindings with
    | table entries => exact ⟨entries, rfl⟩
    | _ => simp [hbindings, isTable] at htable
  simp only [Manager.publish, Conversation.callable, h.extras, hentries]
  exact ⟨_, rfl⟩

end Conversation.Sound

namespace Manager.Sound

variable {m : Manager} {c : Conversation} {rest : List Entry}

theorem top (h : m.Sound) (hstack : m.stack = .conversation c :: rest) : c.Sound := by
  obtain ⟨c', heq, hc'⟩ := h.stack (.conversation c) (by simp [hstack])
  rwa [Entry.conversation.inj heq]

theorem setTop (h : m.Sound) (hc : c.Sound) : (m.setTop c).Sound := by
  refine ⟨cons_ne_nil _ _, fun e he => ?_⟩
  rcases mem_cons.1 he with rfl | htail
  · exact ⟨c, rfl, hc⟩
  · exact h.stack e (mem_of_mem_tail htail)

theorem changedBy (h : m.Sound) (changes : List Change) : (m.changedBy changes).Sound := by
  refine ⟨by simpa using h.nonempty, fun e he => ?_⟩
  obtain ⟨e', he', rfl⟩ : ∃ e' ∈ m.stack, e'.changedBy changes = e := by simpa using he
  obtain ⟨c, rfl, hc⟩ := h.stack e' he'
  refine ⟨c.changedBy changes, Entry.changedBy_conversation changes c, ?_⟩
  exact hc.like (c.like_changedBy (.bare .null) changes)

theorem below (h : m.Sound) (hstack : m.stack = .conversation c :: rest) (hrest : rest ≠ [])
    (scope : Entries) : Manager.Sound { m with stack := rest, scope } :=
  ⟨hrest, fun e he => h.stack e (by simp [hstack, he])⟩

end Manager.Sound

theorem hostAfter_failingRead (changes : List Change) (host : Host) :
    (hostAfter changes host).failingRead = host.failingRead := by
  induction changes with
  | nil => rfl
  | cons change changes ih => exact ih

namespace Session.Sound

variable {r : Role} {s t : Session}

theorem calm (h : s.Sound) (hcalm : s.Calm t) : t.Sound := by
  refine ⟨?_, ?_, ?_⟩
  · rw [hcalm.active]
    exact h.managers
  · rw [hcalm.files]
    exact h.scripts
  · rw [hcalm.host]
    exact h.reads

theorem kept (h : s.Sound) {m : Manager} {rest : List Entry} {draft : Draft}
    (hm : managerIn s.active user = some m) (hstack : m.stack = .conversation c :: rest)
    (hlike : c.Like r draft.conversation) : (kept user m draft s).Sound := by
  refine ⟨fun x k hmem hx => ?_, ?_, ?_⟩
  · simp only [Session.kept, withChanges_eq] at hmem
    rcases mem_withManager_map (·.changedBy draft.changes) hmem with
      ⟨k', hk', rfl⟩ | ⟨rfl, ⟨m', hm', hold⟩ | ⟨hnone, -⟩⟩
    · exact (h.managers x k' hk' hx).changedBy _
    · obtain rfl := Option.some.inj (hm.symm.trans hm')
      have hsound := h.managers x m hold hx
      exact (hsound.changedBy _).setTop (((hsound.top hstack).like hlike).settled _)
    · rw [hm] at hnone
      cases hnone
  · simp only [Session.kept, withChanges_eq]
    exact h.scripts
  · rw [kept_host, hostAfter_failingRead]
    exact h.reads

theorem after_edit {α : Type} (h : s.Sound) (user : Value) {body : Edit α} (hbody : Amends r body) :
    (s.after (edit user body)).Sound := by
  obtain hsame | ⟨m, c, rest, hm, hstack, hkept⟩ := Session.after_edit user body s
  · rwa [hsame]
  · rw [hkept]
    exact h.kept hm hstack (hbody { conversation := c })

theorem replaced (h : s.Sound) (user : Value) {n : Manager}
    (hn : user.same user = true ∨ (∃ m, managerIn s.active user = some m) →
      (∀ m, managerIn s.active user = some m → m.Sound) → n.Sound) :
    (replaced user n s).Sound := by
  refine ⟨fun x k hmem hx => ?_, h.scripts, h.reads⟩
  rcases mem_withManager hmem with hsame | ⟨rfl, ⟨m, hm, hold⟩ | ⟨hnone, rfl⟩⟩
  · exact h.managers x k hsame hx
  · refine hn (.inr ⟨m, hm⟩) fun m' hm' => ?_
    obtain rfl := Option.some.inj (hm.symm.trans hm')
    exact h.managers x m hold hx
  · exact hn (.inl hx) fun m' hm' => by simp [hnone] at hm'

theorem leaves (h : s.Sound) (hleaves : Leaves user s t) : t.Sound := by
  have hvoiceless (events : List Event) :
      Session.Sound { s with message := s.message.map (·.voiceless), events } :=
    h.calm ⟨rfl, rfl, rfl, rfl, rfl, rfl, rfl⟩
  cases hleaves with
  | stay => exact h
  | idle => exact hvoiceless _
  | stuck events hm hstack hpublish =>
    refine (hvoiceless events).replaced user fun _ hsound => ?_
    obtain ⟨m', hm'⟩ := ((hsound _ hm).top hstack).publish _
    exact absurd hm' (hpublish m')
  | back events scope hm hstack hrest =>
    have hbelow := (hvoiceless events).replaced user fun _ hsound =>
      (hsound _ hm).below hstack hrest scope
    exact hbelow.after_edit (r := .bare user) user (.step 1)
  | last events =>
    refine ⟨fun x k hmem hx => ?_, h.scripts, h.reads⟩
    exact h.managers x k (mem_filter.1 hmem).1 hx

theorem shared (h : s.Sound) (changes : List Change) : (withChanges changes s).Sound := by
  rw [withChanges_eq]
  refine ⟨fun x k hmem hx => ?_, h.scripts, ?_⟩
  · obtain ⟨⟨y, k'⟩, hold, heq⟩ := mem_map.1 hmem
    cases heq
    exact (h.managers x k' hold hx).changedBy changes
  · exact (hostAfter_failingRead changes s.host).trans h.reads

theorem transcript (h : s.Sound) (text filename startTime : Value) :
    (s.after (addTranscript text filename startTime)).Sound := by
  obtain ⟨files, hafter⟩ := after_addTranscript text filename startTime s
  have hscripts := (Files.holdScripts_iff.1 h.scripts).addTranscript text filename startTime
  rw [hafter] at hscripts ⊢
  exact ⟨h.managers, hscripts, h.reads⟩

end Session.Sound

/-! ### Scripts on top of others -/

theorem Command.fill_parts (h : script.isScript = true) (c : Conversation) :
    ∃ c', fill script { conversation := c } = .ok () { conversation := c' } ∧
      c'.bindings.isTable = true ∧ c'.extras = c.extras ∧
      script.item (.int 0) = .ok c'.lines ∧ script.item (.int 4) = .ok c'.tags := by
  obtain ⟨items, number, bindings, rfl, hlength, hbindings, htable⟩ := isScript_iff.1 h
  have hitem (i : Int) (hi : 0 ≤ i ∧ i < 10) :
      ∃ value, (list items number).item (.int i) = .ok value := by
    obtain ⟨k, rfl⟩ := Int.eq_ofNat_of_zero_le hi.1
    have hk : k < items.length := by omega
    exact ⟨items[k], itemAt_nat (getElem?_eq_getElem hk)⟩
  obtain ⟨lines, hlines⟩ := hitem 0 (by omega)
  obtain ⟨speaker, hspeaker⟩ := hitem 1 (by omega)
  have htwo : (list items number).item (.int 2) = .ok bindings := itemAt_nat hbindings
  obtain ⟨loops, hloops⟩ := hitem 3 (by omega)
  obtain ⟨tags, htags⟩ := hitem 4 (by omega)
  obtain ⟨timeout, htimeout⟩ := hitem 5 (by omega)
  obtain ⟨timeoutAction, haction⟩ := hitem 6 (by omega)
  refine ⟨{ c with lines, speaker, bindings, loops, tags, timeout, timeoutAction }, ?_, htable, rfl,
    hlines, htags⟩
  simp only [fill, Edit.update, bind_apply, modify_apply, lift_ok_apply, hlines, hspeaker, htwo,
    hloops, htags, htimeout, haction]

theorem Command.fill_ok (h : script.isScript = true) (c : Conversation) :
    ∃ c', fill script { conversation := c } = .ok () { conversation := c' } ∧
      c'.bindings.isTable = true ∧ c'.extras = c.extras := by
  obtain ⟨c', hfill, htable, hextras, -⟩ := fill_parts h c
  exact ⟨c', hfill, htable, hextras⟩

theorem Manager.sound_push {found : Option Manager} (user : Value)
    (h : ∀ m, found = some m → m.Sound) (hc : c.Sound) :
    Manager.Sound ((found.getD { user }).push c) := by
  refine ⟨cons_ne_nil _ _, fun e he => ?_⟩
  rcases mem_cons.1 he with rfl | hrest
  · exact ⟨c, rfl, hc⟩
  · cases found with
    | none => cases hrest
    | some m => exact (h m rfl).stack e hrest

theorem Session.Sound.filled (h : s.Sound) {start : Conversation} {n : Manager}
    (hn : n = ((managerIn s.active user).getD { user }).push start)
    (hfound : managerIn (Session.replaced user n s).active user = some n) (hc : c.Sound) :
    (Session.kept user n { conversation := c } (Session.replaced user n s)).Sound := by
  rw [kept_of_unchanged]
  simp only [Session.replaced, withManager_withManager hfound]
  have htop : n.setTop (settled s.lists { conversation := c }) =
      ((managerIn s.active user).getD { user }).push (settled s.lists { conversation := c }) := by
    rw [hn]
    rfl
  rw [htop]
  have hsettled : (settled s.lists { conversation := c }).Sound := .settled hc s.lists
  have hsound := h.replaced user fun _ hsound => Manager.sound_push user hsound hsettled
  exact ⟨hsound.managers, hsound.scripts, hsound.reads⟩

theorem Session.Sound.calls (h : s.Sound) (hcalls : Calls user s t) : t.Sound := by
  cases hcalls with
  | stay reads => exact h.calm ⟨rfl, rfl, rfl, rfl, rfl, rfl, rfl⟩
  | missing events =>
    have hcalm : Session.Sound { s with events } := h.calm ⟨rfl, rfl, rfl, rfl, rfl, rfl, rfl⟩
    exact hcalm.after_edit (r := .bare user) user (.step 1)
  | @run m c rest _ filename script caller scriptMeta time hkey hm hstack hload hcaller hmeta reads =>
    have hscript : script.isScript = true := by
      rcases isScript_of_stored h.scripts (stored_of_load hload) with rfl | hscript
      · cases hmeta
      · exact hscript
    obtain ⟨c', hfill, htable, hextras⟩ :=
      Command.fill_ok hscript (Conversation.start scriptMeta filename time)
    have hreads : Session.Sound { s with reads } := h.calm ⟨rfl, rfl, rfl, rfl, rfl, rfl, rfl⟩
    have hfound := managerIn_replaced_self (s := { s with reads }) (by exact hm)
      (m.push (Conversation.start scriptMeta filename time))
    rw [Session.after, edit_eq hkey hfound rfl, bind_of_ok hfill]
    have hpush : m.push (Conversation.start scriptMeta filename time) =
        ((managerIn s.active user).getD { user }).push
          (Conversation.start scriptMeta filename time) := by
      rw [hm]
      rfl
    exact hreads.filled hpush hfound ⟨htable, hextras⟩

theorem Session.Sound.stable (r : Role) : Stable r Session.Sound where
  calm h hcalm := h.calm hcalm
  transcript text filename startTime h := h.transcript text filename startTime
  edit hm hstack hlike h := h.kept hm hstack hlike
  share changes h := h.shared changes
  leave hleaves h := h.leaves hleaves
  call _ _ _ hcalls h := h.calls hcalls
  await _ _ h := ⟨h.managers, h.scripts, h.reads⟩
  stopAwaiting _ _ h := ⟨h.managers, h.scripts, h.reads⟩

/-! ### Starting a script -/

/-- What a computation for a user who sends the message, or for another one, can rely on. -/
def Role.ofMessage (user : Value) (message : Option Message) : Role :=
  { user, hears := (· = Message.userOf message), plain := False, calls := True
    message := some message.isSome }

theorem Aware.ofMessage (user : Value) (s : Session) : Aware (.ofMessage user s.message) s :=
  ⟨⟨fun _ => rfl, nofun, nofun, fun _ _ => ⟨nofun, nofun⟩, fun _ _ _ => trivial⟩,
    fun _ => Option.some.inj⟩

theorem Role.free_ofMessage (user : Value) (message : Option Message) :
    (Role.ofMessage user message).Free :=
  ⟨⟨_, rfl⟩, trivial, trivial, fun _ _ => trivial⟩

theorem Stable.of_acts {α : Type} {I : Session → Prop} {m : Run α}
    (hI : Stable (.ofMessage user s.message) I) (hm : Acts (.ofMessage user s.message) m) (h : I s)
    : I (s.after m) :=
  (hm.after_keeps hI (fun _ => id) (.ofMessage user s) h).2

theorem Session.after_bind_of_looks {α β : Type} {m : Run α} {f : α → Run β} (hf : ∀ a, Looks (f a))
    : s.after (m >>= f) = s.after m := by
  cases hrun : m s with
  | ok a t => rw [after_bind_of_ok hrun, after_of_ok hrun, hf a t]
  | error fault t => rw [after_bind_of_error hrun, after_of_error hrun]

namespace Library

theorem after_isCompiled (filename : Value) (s : Session) :
    s.after (isCompiled filename) = { s with reads := s.reads + 1 } := by
  unfold isCompiled
  extract_lets version
  rw [after_rescue fun _ => .pure _, after_bind_of_looks fun _ => .pure _,
    after_bind_of_looks fun _ => .bind (.lift _) fun _ => .lift _, after_load]

theorem stored_of_isCompiled {filename : String} (h : isCompiled (.str filename) s = .ok true t) :
    ∃ script scriptMeta, stored s filename = .ok script ∧ metaOf script = .ok scriptMeta := by
  rcases rescue_ok h with hversion | ⟨fault, t', hfails⟩
  · obtain ⟨version, s₁, hversion, -⟩ := bind_ok_iff.1 hversion
    obtain ⟨script, s₂, hload, hrest⟩ := bind_ok_iff.1 hversion
    obtain ⟨scriptMeta, s₃, hmeta, -⟩ := bind_ok_iff.1 hrest
    exact ⟨script, scriptMeta, stored_of_load hload, (lift_ok_iff.1 hmeta).1⟩
  · cases hfails

end Library

theorem addTranscript_ok_of_files {s' : Session} {text filename startTime : Value}
    (h : addTranscript text filename startTime s = .ok () t) (hfiles : s'.files = s.files)
    (hroot : s'.root = s.root) :
    ∃ files, addTranscript text filename startTime s' = .ok () { s' with files } := by
  obtain ⟨s₀, s₁, hget, h⟩ := bind_ok_iff.1 h
  cases hget
  obtain ⟨target, s₂, htarget, h⟩ := bind_ok_iff.1 h
  obtain ⟨htarget, rfl⟩ := lift_ok_iff.1 htarget
  obtain ⟨files, s₃, happend, h⟩ := bind_ok_iff.1 h
  obtain ⟨happend, rfl⟩ := lift_ok_iff.1 happend
  obtain ⟨u, s₄, hset, h⟩ := bind_ok_iff.1 h
  cases hset
  obtain ⟨added, s₅, hneedle, h⟩ := bind_ok_iff.1 h
  obtain rfl := (lift_ok_iff.1 hneedle).2
  obtain ⟨files', s₆, happend', -⟩ := bind_ok_iff.1 h
  refine ⟨files', ?_⟩
  simp only [path] at htarget
  simp only [addTranscript, bind_apply, get_apply, path, hfiles, hroot, htarget,
    lift_ok_apply, happend, set_apply, (lift_ok_iff.1 hneedle).1, (lift_ok_iff.1 happend').1]

theorem Session.Sound.beginScript (h : s.Sound) (user : Value) {filename : String}
    (hscript : script.isScript = true)
    (hwrites : ∀ time, Clock.wholeSeconds s.clock = .ok time → ∃ files, addTranscript (.str ("RUNNING SCRIPT " ++ filename ++ "\n")) filename (.int time) s = .ok () { s with files })
    : (s.after (Launch.beginScript user filename (some script))).Sound := by
  unfold Launch.beginScript
  extract_lets scriptMeta finish
  clear_value scriptMeta
  obtain ⟨fault, herror⟩ | ⟨time, hkey, htime, hbegin⟩ := begin_cases user scriptMeta filename s
  · rw [after_bind_of_error herror]
    exact h
  rw [after_bind_of_ok hbegin]
  generalize hn : ((managerIn s.active user).getD { user }).push
    (Conversation.start scriptMeta filename time) = n
  rcases managerIn_withManager s.active user n with hfound | ⟨hnone, hself⟩
  · have hstack : n.stack = .conversation (Conversation.start scriptMeta filename time) ::
        ((managerIn s.active user).getD { user }).stack := by
      rw [← hn]
      rfl
    obtain ⟨_, ht⟩ := hwrites time htime
    obtain ⟨files, hnote⟩ : ∃ files, addTranscript (.str ("RUNNING SCRIPT " ++ filename ++ "\n"))
        filename (.int time) (Session.replaced user n s) =
          .ok () { Session.replaced user n s with files } := addTranscript_ok_of_files ht rfl rfl
    have hfiles : files.HoldScripts := by
      have hscripts := Files.holdScripts_iff.1 h.scripts
      have hafter := hscripts.addTranscript (s := Session.replaced user n s)
        (.str ("RUNNING SCRIPT " ++ filename ++ "\n")) filename (.int time)
      rwa [after_of_ok hnote] at hafter
    obtain ⟨c, hfill, htable, hextras⟩ :=
      Command.fill_ok hscript (Conversation.start scriptMeta filename time)
    have hs : Session.Sound { s with files } := ⟨h.managers, hfiles, h.reads⟩
    have hstart : (Conversation.start scriptMeta filename time).startTime = time := rfl
    rw [after_bind_of_ok (current_of_stack hkey hfound hstack), hstart, after_bind_of_ok hnote,
      Session.after, edit_eq hkey (by exact hfound) hstack]
    dsimp only
    rw [bind_of_ok (rescue_of_ok hfill)]
    exact hs.filled hn.symm hfound ⟨htable, hextras⟩
  · obtain ⟨fault, herror⟩ | ⟨m, c, rest, -, hm, -⟩ :=
      current_cases user (Session.replaced user n s)
    · rw [after_bind_of_error herror]
      refine h.replaced user fun hor => ?_
      rcases hor with hsame | ⟨m, hm⟩
      · simp [hself] at hsame
      · simp [hnone] at hm
    · simp [Session.replaced, managerIn_withManager_of_none n hnone, hself] at hm

def Launch.filenameOf (name : String) : String :=
  Text.replace "-" "_" (Text.replace " " "_" (Text.trimEnd name))

/-- The transcript of the script that the message asks for can be written, if there is one. -/
def Session.Transcribes (s : Session) : Prop :=
  ∀ message name files time, s.message = some message →
    ((Entries.find? "file_to_run" message.data).getD .null).text = .ok name →
    s.files.makeFolder transcriptFolder = .ok files →
    Library.hasScript (.str (Launch.filenameOf name)) { s with files } = .ok true { s with files } →
    Clock.wholeSeconds s.clock = .ok time →
    ∃ t, addTranscript (.str ("RUNNING SCRIPT " ++ Launch.filenameOf name ++ "\n"))
      (.str (Launch.filenameOf name)) (.int time) { s with files } = .ok () t

theorem Session.theMessage_ok {m : Message} (h : theMessage s = .ok m t) : s.message = some m := by
  cases hm : s.message with
  | none => simp [theMessage, bind_apply, hm] at h
  | some m' =>
    rw [theMessage_of_some hm] at h
    cases h
    rfl

theorem Session.after_dropManager (user : Value) (s : Session) :
    s.after (dropManager user) = s ∨
      s.after (dropManager user) = { s with active := s.active.filter fun (x, _) => !x.same user } := by
  unfold dropManager
  rw [after_bind_of_ok (get_apply s)]
  split
  · exact .inl rfl
  · exact (Looks.managerAt user).bind_after
      (T := fun t => t = s ∨ t = { s with active := s.active.filter fun (x, _) => !x.same user })
      (.inl rfl) fun _ _ => .inr rfl

/-- What is done with a script that was found, whether or not it could be read. -/
def Launch.running (user : Value) (name filename : String) (script? : Option Value) : Run Unit := do
  beginScript user filename script?
  let utterance ← datum "utterance"
  edit user do
    let start ← startIndex (← Edit.read).tags utterance name
    enter start
  Execution.resume user

def Launch.problem (filename : String) : Event :=
  .dialog "ProblemInFile" (.object [("file_name", .str (Text.replace "_" " " filename))]) false .null

theorem Library.reread {filename : String} (h : stored s filename = .ok script) :
    ∃ script?, (rescue (do return some (← load filename)) fun _ => return none : Run _) s =
        .ok script? { s with reads := s.reads + 1 } ∧
      (script? = some script ∨ script? = none ∧ s.host.failingRead ≠ none) := by
  have hload := load_apply filename s
  rw [h] at hload
  split at hload
  · rename_i hfails
    refine ⟨none, rescue_of_error (bind_of_error hload) (by decide), .inr ⟨rfl, fun hnone => ?_⟩⟩
    simp [hnone] at hfails
  · exact ⟨some script, rescue_of_ok (bind_of_ok hload), .inl rfl⟩

/-- The compiled script that the message asks for was found, and read if that does not fail. -/
structure Launch.Found (s : Session) (files : Files) (name : String) (script? : Option Value) :
    Prop where
  asked : ∃ message, s.message = some message ∧
    ((Entries.find? "file_to_run" message.data).getD .null).text = .ok name
  folder : s.files.makeFolder transcriptFolder = .ok files
  found : hasScript (.str (filenameOf name)) { s with files } = .ok true { s with files }
  read : ∃ script, stored { s with files } (filenameOf name ++ compiledExtension) = .ok script ∧
    script ≠ .emptyTable ∧ (script? = some script ∨ script? = none ∧ s.host.failingRead ≠ none)

theorem Launch.Found.holds {files : Files} {name : String} {script? : Option Value}
    {T : Except Fault Value → Prop} (h : Found s files name script?) (hold : s.files.Hold T) :
    ∀ script ∈ script?, T (.ok script) := by
  obtain ⟨script, hstored, hne, rfl | ⟨rfl, -⟩⟩ := h.read
  · have hscript := holds_of_stored (s := { s with files }) (hold.makeFolder h.folder) hstored
    simpa using hscript.resolve_left hne
  · simp

/-- What asking for a script comes to: nothing is found, or what is found is not compiled and the
user is dropped, or it is run. -/
theorem Launch.after_start {D : Session → Prop} (hstay : D s)
    (hcalm : ∀ files reads events, s.files.makeFolder transcriptFolder = .ok files →
      D { s with files, reads, events })
    (hdrop : ∀ files reads filename, s.files.makeFolder transcriptFolder = .ok files →
      D { s with
        files, reads, events := problem filename :: s.events
        active := s.active.filter fun (x, _) => !x.same (Message.userOf s.message) })
    (hrun : ∀ files reads name script?, Found s files name script? →
      D (after (running (Message.userOf s.message) name (filenameOf name) script?)
        { s with files, reads })) : D (s.after start) := by
  unfold start
  refine Looks.theMessage.bind_after hstay fun message hmessage => ?_
  replace hmessage := theMessage_ok hmessage
  extract_lets user
  have huser : Message.userOf s.message = user := by rw [hmessage]; rfl
  rw [huser] at hdrop hrun
  clear_value user
  rw [after_bind_of_ok (datum_of_some hmessage _ _)]
  refine (Looks.lift _).bind_after hstay fun name hname => ?_
  extract_lets filename file
  have hfilename : filenameOf name = filename := rfl
  clear_value filename
  subst hfilename
  rw [after_bind_of_ok (get_apply s)]
  refine (Looks.lift _).bind_after hstay fun files hfiles => ?_
  replace hfiles := (lift_ok_iff.1 hfiles).1
  rw [after_bind_of_ok (modify_apply _ _)]
  refine (Looks.hasScript _).bind_after (hcalm _ _ _ hfiles) fun found hfound => ?_
  split
  · exact hcalm _ _ _ hfiles
  rename_i hnot
  obtain rfl : found = true := by simpa using hnot
  have hcompiled := after_isCompiled file { s with files }
  refine after_bind (by rw [hcompiled]; exact hcalm _ _ _ hfiles) fun compiled t hrun' _ => ?_
  rw [after_of_ok hrun'] at hcompiled
  subst hcompiled
  split
  · rename_i hyes
    obtain rfl : compiled = true := hyes
    obtain ⟨script, scriptMeta, hstored, hmeta⟩ := stored_of_isCompiled hrun'
    have hsame := stored_congr (s := { s with files }) (t := { s with files, reads := s.reads + 1 })
      rfl rfl (filenameOf name ++ compiledExtension)
    obtain ⟨script?, hread, hscript⟩ := reread (hsame.trans hstored)
    rw [after_bind_of_ok hread]
    refine hrun _ _ name script? ⟨⟨message, hmessage, (lift_ok_iff.1 hname).1⟩, hfiles, hfound,
      script, hstored, ?_, hscript⟩
    rintro rfl
    cases hmeta
  · rw [dialog, Session.tell, after_bind_of_ok (modify_apply _ _)]
    obtain hsame | hdropped := after_dropManager user { s with
      files, reads := s.reads + 1, events := problem (filenameOf name) :: s.events }
    · exact hsame.symm ▸ hcalm _ _ _ hfiles
    · exact hdropped.symm ▸ hdrop _ _ _ hfiles

theorem Stable.running {I : Session → Prop} (hI : ∀ message, Stable (.ofMessage user message) I)
    (name : String) {filename : String} {script? : Option Value}
    (h : I (s.after (Launch.beginScript user filename script?))) :
    I (s.after (Launch.running user name filename script?)) := by
  refine after_bind h fun _ t _ ht => (hI t.message).of_acts ?_ ht
  refine .seq (.datum _ .null) fun utterance => ?_
  refine .seq (.edit (Amends.law.enter utterance name)) fun _ => ?_
  exact .resume (Role.free_ofMessage user t.message)

theorem Session.Sound.start (h : s.Sound) (hwrites : s.Transcribes) :
    (s.after Launch.start).Sound := by
  have hscripts {files : Files} (hfolder : s.files.makeFolder transcriptFolder = .ok files) :
      files.HoldScripts := (Files.holdScripts_iff.1 h.scripts).makeFolder hfolder
  refine Launch.after_start h (fun _ _ _ hfolder => ⟨h.managers, hscripts hfolder, h.reads⟩) ?_ ?_
  · exact fun _ _ _ hfolder => ⟨fun x m hmem => h.managers x m (mem_filter.1 hmem).1,
      hscripts hfolder, h.reads⟩
  intro files reads name script? hfound
  have hs : Session.Sound { s with files, reads } :=
    ⟨h.managers, hscripts hfound.folder, h.reads⟩
  obtain ⟨message, hmessage, hname⟩ := hfound.asked
  obtain ⟨script, hstored, hne, rfl | ⟨-, hfails⟩⟩ := hfound.read
  · have hscript : script.isScript = true :=
      (isScript_of_stored (s := { s with files }) hs.scripts hstored).resolve_left hne
    refine Stable.running (fun _ => Session.Sound.stable _) name (hs.beginScript _ hscript fun time htime => ?_)
    obtain ⟨t, ht⟩ := hwrites message name files time hmessage hname hfound.folder hfound.found htime
    exact addTranscript_ok_of_files ht rfl rfl
  · exact absurd h.reads hfails

/-! ### Requests -/

theorem Stable.serve {I : Session → Prop} (hI : ∀ user, Stable (.ofMessage user s.message) I)
    {request : Request} (hrequest : request.For user)
    (hstart : request = .start → I (s.after Launch.start)) (h : I s) :
    I (s.after request.serve) := by
  -- The messages of users are dealt with for the user that they come from.
  have hfree (user : Value) := Role.free_ofMessage user s.message
  have hself : ∀ x, (Role.ofMessage (Message.userOf s.message) s.message).hears x →
      x = (Role.ofMessage (Message.userOf s.message) s.message).user := fun _ h => h
  have hsilent (user : Value) {body : Run Unit} (hbody : Acts (.ofMessage user s.message) body) :
      I (s.after (Request.silently body)) :=
    (hI user).of_acts (.seq hbody fun _ => .pure trivial) h
  cases hrequest with
  | start =>
    rw [Request.serve, Request.silently, after_bind_of_looks fun _ => .pure _]
    exact hstart rfl
  | converse =>
    exact (hI _).of_acts (.seq (.converse (hfree _) hself) fun _ => .pure trivial) h
  | respond =>
    exact (hI _).of_acts (.seq (.respond (hfree _) hself) fun _ => .pure trivial) h
  | hearAnswer =>
    rw [Request.serve, after_bind_of_ok (get_apply s)]
    exact hsilent user (.hearAnswer rfl)
  | timeOut => exact hsilent _ (.timeOut (hfree _) hself)
  | resume => exact hsilent user (.resume (hfree _))
  | command name text =>
    refine hsilent user (.seq (.known? name) fun k? => ?_)
    cases k? with
    | none => exact .throw _
    | some k => exact .perform ((hfree user).keyword k) text

theorem Request.run_eq_after (request : Request) (message : Option Message) (s : Session) :
    (request.run message s).2 =
      Session.after request.serve { s with message, events := [] } := by
  simp only [Request.run, Session.after]
  cases request.serve { s with message, events := [] } <;> rfl

/-- The sessions that come about from one by requests of a kind, also by such that fail, while time
passes between them. -/
inductive Session.Reachable (allowed : Session → Request → Option Message → Prop) (s : Session) :
    Session → Prop
  | refl : Reachable allowed s s
  | request {t : Session} {request : Request} {message : Option Message}
      (h : Reachable allowed s t) (hallowed : allowed t request message) :
      Reachable allowed s (request.run message t).2
  | wait {t : Session} (h : Reachable allowed s t) (clock : Nat) :
      Reachable allowed s { t with clock }

/-- Requests by which scripts are started and run, if the transcripts of those that are started can
be written. -/
structure Session.Runs (s : Session) (request : Request) (message : Option Message) : Prop where
  user : ∃ user, request.For user
  transcribes : request = .start → Session.Transcribes { s with message, events := [] }

/-- If compiled scripts are well formed and can be read, and transcripts can be written, then in all
sessions that come about from one whose users have sound stacks, such as one without users, each user
who has an entry has a script on the stack, and all scripts there have a table of variables.  The
user is the same as itself, as every value is but a number that is none. -/
theorem Session.Reachable.stack_ne_nil {s t : Session} (h : Reachable Session.Runs s t)
    (hactive : ∀ x m, (x, m) ∈ s.active → m.Sound)
    (hscripts : s.files.HoldScripts) (hreads : s.host.failingRead = none) {x : Value} {m : Manager}
    (hmem : (x, m) ∈ t.active) (hx : x.same x = true) :
    m.stack ≠ [] ∧ ∀ e ∈ m.stack, ∃ c, e = .conversation c ∧ c.bindings.isTable = true := by
  have hsound : t.Sound := by
    clear hmem
    induction h with
    | refl =>
      exact ⟨fun y k hy _ => hactive y k hy, hscripts, hreads⟩
    | @request t request message _ hruns ih =>
      obtain ⟨user, hrequest⟩ := hruns.user
      rw [Request.run_eq_after]
      have hserved : Session.Sound { t with message, events := [] } :=
        ih.calm ⟨rfl, rfl, rfl, rfl, rfl, rfl, rfl⟩
      exact Stable.serve (fun _ => Session.Sound.stable _) hrequest
        (fun hstart => hserved.start (hruns.transcribes hstart)) hserved
    | wait _ clock ih => exact ih.calm ⟨rfl, rfl, rfl, rfl, rfl, rfl, rfl⟩
  have hm := hsound.managers x m hmem hx
  refine ⟨hm.nonempty, fun e he => ?_⟩
  obtain ⟨c, rfl, hc⟩ := hm.stack e he
  exact ⟨c, rfl, hc.table⟩

def Session.ofCompiled : Session :=
  { ofTwo 2 with
    files := { files := [(scriptFolder ++ ["demo.ncs"],
                 "[[], \x7b\x7d, \x7b\x7d, \x7b\x7d, \x7b\x7d, -1, \"\", [], [], \x7b\x7d]")]
               folders := Files.ways scriptFolder } }

/-- The first user still has a script after the languages of the user were taken. -/
theorem Request.takeLanguages_stack_ne_nil : ∃ m, (.str "ann", m) ∈ (takeLanguages ofCompiled).active ∧
    m.stack ≠ [] ∧ ∀ e ∈ m.stack, ∃ c, e = .conversation c ∧ c.bindings.isTable = true := by
  have hreachable : Reachable Session.Runs ofCompiled (takeLanguages ofCompiled) :=
    .request .refl ⟨⟨"ann", .command _ _⟩, by simp⟩
  have hactive : ∀ x m, (x, m) ∈ ofCompiled.active → m.Sound := by
    simp only [ofCompiled, ofTwo, List.mem_cons, Prod.mk.injEq, List.not_mem_nil, or_false]
    rintro x m (⟨-, rfl⟩ | ⟨-, rfl⟩)
    all_goals
      refine ⟨by simp, fun e he => ?_⟩
      obtain rfl := List.mem_singleton.1 he
      exact ⟨_, rfl, rfl, rfl⟩
  have hscripts : ofCompiled.files.HoldScripts := by
    have hall : (ofCompiled.files.files.all fun file =>
        (Json.read (String.ofList (Files.unifyLines file.2.toList))).toOption.any (·.isScript)) =
          true := by decide +kernel
    intro place text hmem _
    have htext := List.all_eq_true.1 hall _ hmem
    cases hread : Json.read (String.ofList (Files.unifyLines text.toList)) with
    | error fault => simp [hread, Except.toOption] at htext
    | ok script => exact ⟨script, rfl, by simpa [hread, Except.toOption] using htext⟩
  have hentry : ((takeLanguages ofCompiled).active.any (·.1.same "ann")) = true := by
    decide +kernel
  obtain ⟨⟨x, m⟩, hmem, hx⟩ := List.any_eq_true.1 hentry
  obtain rfl := Value.same_str hx
  exact ⟨m, hmem, hreachable.stack_ne_nil hactive hscripts rfl hmem hx⟩

end Colloquy
