import Colloquy.Proofs.Stacks

/-! Laws of stacks.  A law that survives work on the running script, leaving it, running another one
and starting one holds of the stacks of all users in every session that comes about, whatever is
asked for and whether or not it fails. -/

namespace Colloquy

open Session Library Launch Message

variable {c : Conversation} {s : Session} {user : Value}

variable {α β : Type}

/-! ### Drafts -/

/-- What a conversation has that was filled, perhaps not to the end, with a compiled script. -/
structure Draft.Filled (script : Value) (d d' : Draft) : Prop where
  changes : d'.changes = d.changes
  pending : d'.conversation.pending = d.conversation.pending
  extras : d'.conversation.extras = d.conversation.extras
  index : d'.conversation.index = d.conversation.index
  lines : d'.conversation.lines = d.conversation.lines ∨
    script.item (.int 0) = .ok d'.conversation.lines

theorem Command.fill_filled (script : Value) (d : Draft) : d.Filled script (d.after (fill script)) := by
  refine Draft.after_lift_bind ⟨rfl, rfl, rfl, rfl, .inl rfl⟩ fun lines hlines => ?_
  have hfilled : d.Filled script
      { d with conversation := { d.conversation with lines } } := ⟨rfl, rfl, rfl, rfl, .inr hlines⟩
  -- The fields that are filled behind the lines play no part.
  refine Draft.after_bind hfilled fun _ d₁ _ h₁ => Draft.after_lift_bind h₁ fun _ _ => ?_
  refine Draft.after_bind ⟨h₁.1, h₁.2, h₁.3, h₁.4, h₁.5⟩ fun _ d₂ _ h₂ => ?_
  refine Draft.after_lift_bind h₂ fun _ _ => ?_
  refine Draft.after_bind ⟨h₂.1, h₂.2, h₂.3, h₂.4, h₂.5⟩ fun _ d₃ _ h₃ => ?_
  refine Draft.after_lift_bind h₃ fun _ _ => ?_
  refine Draft.after_bind ⟨h₃.1, h₃.2, h₃.3, h₃.4, h₃.5⟩ fun _ d₄ _ h₄ => ?_
  refine Draft.after_lift_bind h₄ fun _ _ => ?_
  refine Draft.after_bind ⟨h₄.1, h₄.2, h₄.3, h₄.4, h₄.5⟩ fun _ d₅ _ h₅ => ?_
  refine Draft.after_lift_bind h₅ fun _ _ => ?_
  refine Draft.after_bind ⟨h₅.1, h₅.2, h₅.3, h₅.4, h₅.5⟩ fun _ d₆ _ h₆ => ?_
  exact Draft.after_lift_bind h₆ fun _ _ => ⟨h₆.1, h₆.2, h₆.3, h₆.4, h₆.5⟩

/-- What is done with a conversation that was started by a line of another script. -/
def Command.calling (script caller : Value) : Edit Unit := do
  fill script
  Edit.update fun c => { c with pending := .ofItems [caller] }

/-- What is done with a conversation that was started at the user's request. -/
def Launch.filling (script? : Option Value) : Edit Unit := do
  match script? with
  | some script => rescue (Command.fill script) fun _ => Edit.update (·.reset)
  | none => Edit.update (·.reset)
  Edit.update fun c => { c with lastIndent := .int 0 }

/-- A conversation that was started by a line is filled with the script, and then the caller is set
aside. -/
theorem Command.calling_filled (script caller : Value) (d : Draft) :
    d.Filled script (d.after (calling script caller)) ∨
      ∃ d', d.Filled script d' ∧ d.after (calling script caller) =
        { d' with conversation := { d'.conversation with pending := .ofItems [caller] } } := by
  have hfilled := fill_filled script d
  unfold calling
  refine Draft.after_bind (D := fun d' => d.Filled script d' ∨ ∃ d'', d.Filled script d'' ∧ d' =
    { d'' with conversation := { d''.conversation with pending := .ofItems [caller] } })
    (.inl hfilled) fun _ d' hrun _ => .inr ⟨d', ?_, rfl⟩
  simpa only [Draft.after, hrun] using hfilled

theorem Command.exists_calling (script caller : Value) (c : Conversation) :
    ∃ c', Draft.after (calling script caller) { conversation := c } = { conversation := c' } := by
  refine ⟨(Draft.after (calling script caller) { conversation := c }).conversation, ?_⟩
  rcases calling_filled script caller { conversation := c } with hfilled | ⟨d, hfilled, heq⟩
  · exact congrArg (Draft.mk _) hfilled.changes
  · rw [heq]
    exact congrArg (Draft.mk _) hfilled.changes

/-- What a conversation that was started at the user's request has in the end: it is filled with the
script as far as that goes, or reset. -/
structure Conversation.Loaded (script? : Option Value) (c c' : Conversation) : Prop where
  pending : c'.pending = c.pending ∨ c'.pending = .ofItems []
  lines : c'.lines = c.lines ∨ c'.lines = .ofItems [] ∨
    ∃ script ∈ script?, script.item (.int 0) = .ok c'.lines

theorem Launch.filling_loaded (script? : Option Value) (d : Draft) :
    (d.after (filling script?)).changes = d.changes ∧
      d.conversation.Loaded script? (d.after (filling script?)).conversation := by
  cases script? with
  | none => exact ⟨rfl, .inr rfl, .inr (.inl rfl)⟩
  | some script =>
    have hfilled := Command.fill_filled script d
    have hloaded (d' : Draft) (h : d.Filled script d') :
        d.conversation.Loaded (some script) d'.conversation :=
      ⟨.inl h.pending, h.lines.imp id fun hlines => .inr ⟨script, rfl, hlines⟩⟩
    simp only [Draft.after, filling, bind_apply]
    cases hfill : Command.fill script d with
    | ok a d' =>
      simp only [Draft.after, hfill] at hfilled
      rw [rescue_of_ok hfill]
      exact ⟨hfilled.changes, (hloaded d' hfilled).pending, (hloaded d' hfilled).lines⟩
    | error fault d' =>
      simp only [Draft.after, hfill] at hfilled
      by_cases hfault : fault = .stepLimit
      · simp only [rescue, hfill, hfault]
        exact ⟨hfilled.changes, hloaded d' hfilled⟩
      · rw [rescue_of_error hfill hfault]
        exact ⟨hfilled.changes, .inr rfl, .inr (.inl rfl)⟩

theorem Command.suspended_ok {caller : Value} (h : suspended c = .ok caller) :
    ∃ index, c.index.addInt 1 = .ok index ∧
      caller = Conversation.snapshot
        { c with bindings := c.bindings.copied, speaker := c.speaker.copied, index } := by
  obtain ⟨index, hindex, hsnapshot⟩ := except_bind_ok_iff.1 h
  exact ⟨index, hindex, (Except.ok.inj hsnapshot).symm⟩

/-! ### Laws -/

@[simp] theorem Entry.changedBy_nil : Entry.changedBy [] = id :=
  rfl

theorem Session.after_edit_of_stack {m : Manager} {rest : List Entry} (hkey : user.isKey = true)
    (hm : managerIn s.active user = some m) (hstack : m.stack = .conversation c :: rest)
    (body : Edit α) :
    s.after (edit user body) = kept user m (Draft.after body { conversation := c }) s := by
  simp only [after, edit_eq hkey hm hstack, Draft.after]
  cases body { conversation := c } <;> rfl

theorem Conversation.like_settled (r : Role) (next : Nat) (draft : Draft) :
    draft.conversation.Like r (settled next draft) :=
  ⟨rfl, rfl, rfl, (Value.isTable_numbered _ _).trans, fun h => ⟨h.1, h.2⟩, .refl⟩

/-- A law of stacks that is kept by what is done with the running script, where compiled scripts are
as in `T`. -/
structure StackLaw (r : Role) (G : List Entry → Prop) (T : Except Fault Value → Prop) : Prop where
  share : ∀ {stack} (changes : List Value.Change), G stack →
    G (stack.map (Entry.changedBy changes))
  edit : ∀ {c c' rest} (changes : List Value.Change), c.Like r c' → G (.conversation c :: rest) →
    G (.conversation c' :: rest.map (Entry.changedBy changes))
  pop : ∀ {e rest}, G (e :: rest) → G rest
  call : ∀ {c rest script caller scriptMeta} (filename : Value) (time : Int),
    Command.suspended c = .ok caller → Library.metaOf script = .ok scriptMeta → T (.ok script) →
    G (.conversation c :: rest) → G (.conversation (Draft.after (Command.calling script caller)
      { conversation := Conversation.start scriptMeta filename time }).conversation ::
        .conversation c :: rest)

/-- The stacks of all users obey a law, and compiled scripts are as in `T`. -/
structure Session.Obeys (G : List Entry → Prop) (T : Except Fault Value → Prop) (s : Session) :
    Prop where
  managers : ∀ x m, (x, m) ∈ s.active → G m.stack
  scripts : s.files.Hold T

section

variable {r : Role} {G : List Entry → Prop} {T : Except Fault Value → Prop} {s t : Session}

namespace Session.Obeys

theorem stackOf (h : s.Obeys G T) (hnil : G []) (user : Value) : G (s.stackOf user) := by
  cases hm : managerIn s.active user with
  | none => simpa [Session.stackOf, hm] using hnil
  | some m =>
    obtain ⟨⟨x, m'⟩, hfind, rfl⟩ := Option.map_eq_some_iff.1 hm
    rw [stackOf_eq hm]
    exact h.managers x m' (List.mem_of_find?_eq_some hfind)

theorem calm (h : s.Obeys G T) (hcalm : s.Calm t) : t.Obeys G T := by
  refine ⟨?_, ?_⟩
  · rw [hcalm.active]
    exact h.managers
  · rw [hcalm.files]
    exact h.scripts

theorem replaced (h : s.Obeys G T) (user : Value) {n : Manager}
    (hn : (∀ m, managerIn s.active user = some m → G m.stack) → G n.stack) :
    (replaced user n s).Obeys G T := by
  refine ⟨fun x k hmem => ?_, h.scripts⟩
  rcases mem_withManager hmem with hsame | ⟨rfl, ⟨m, hm, hold⟩ | ⟨hnone, -⟩⟩
  · exact h.managers x k hsame
  · refine hn fun m' hm' => ?_
    obtain rfl := Option.some.inj (hm.symm.trans hm')
    exact h.managers x m hold
  · exact hn fun m' hm' => by simp [hnone] at hm'

theorem transcript (h : s.Obeys G T) (text filename startTime : Value) :
    (s.after (addTranscript text filename startTime)).Obeys G T := by
  obtain ⟨files, hafter⟩ := after_addTranscript text filename startTime s
  have hscripts := h.scripts.addTranscript text filename startTime
  rw [hafter] at hscripts ⊢
  exact ⟨h.managers, hscripts⟩

theorem kept (h : s.Obeys G T)
    (hshare : ∀ {stack} (changes : List Value.Change), G stack → G (stack.map (Entry.changedBy changes)))
    {m : Manager} {rest : List Entry} {draft : Draft} (hm : managerIn s.active user = some m)
    (hstack : m.stack = .conversation c :: rest)
    (htop : G (.conversation c :: rest) → G (.conversation (settled s.lists draft) :: rest.map (Entry.changedBy draft.changes)))
    : (kept user m draft s).Obeys G T := by
  refine ⟨fun x k hmem => ?_, ?_⟩
  · simp only [Session.kept, withChanges_eq] at hmem
    rcases mem_withManager_map (·.changedBy draft.changes) hmem with
      ⟨k', hk', rfl⟩ | ⟨rfl, ⟨m', hm', hold⟩ | ⟨hnone, -⟩⟩
    · rw [Manager.changedBy_stack]
      exact hshare _ (h.managers x k' hk')
    · obtain rfl := Option.some.inj (hm.symm.trans hm')
      have hG := h.managers x m hold
      rw [hstack] at hG
      simpa [Manager.setTop, hstack] using htop hG
    · rw [hm] at hnone
      cases hnone
  · simp only [Session.kept, withChanges_eq]
    exact h.scripts

end Session.Obeys

namespace StackLaw

theorem after_edit (hlaw : StackLaw r G T) (h : s.Obeys G T) (user : Value) {body : Edit α}
    (hbody : Amends r body) : (s.after (Session.edit user body)).Obeys G T := by
  obtain hsame | ⟨m, c, rest, hm, hstack, hkept⟩ := Session.after_edit user body s
  · rwa [hsame]
  · rw [hkept]
    exact h.kept hlaw.share hm hstack
      (hlaw.edit _ ((hbody { conversation := c }).trans (Conversation.like_settled r _ _)))

theorem leaves (hlaw : StackLaw r G T) (hleaves : Leaves user s t) (h : s.Obeys G T) :
    t.Obeys G T := by
  have hpopped {m : Manager} {c : Conversation} {rest : List Entry} (events : List Event)
      (scope : Entries) (hm : managerIn s.active user = some m)
      (hstack : m.stack = .conversation c :: rest) :
      (replaced user { m with stack := rest, scope }
        { s with message := s.message.map (·.voiceless), events }).Obeys G T := by
    have hs : Obeys G T { s with message := s.message.map (·.voiceless), events } :=
      h.calm ⟨rfl, rfl, rfl, rfl, rfl, rfl, rfl⟩
    refine hs.replaced user fun hG => ?_
    have hm := hG m hm
    rw [hstack] at hm
    exact hlaw.pop hm
  cases hleaves with
  | stay => exact h
  | idle => exact h.calm ⟨rfl, rfl, rfl, rfl, rfl, rfl, rfl⟩
  | stuck events hm hstack => exact hpopped events _ hm hstack
  | back events scope hm hstack =>
    exact hlaw.after_edit (hpopped events scope hm hstack) user (.step 1)
  | last events => exact ⟨fun x m hmem => h.managers x m (List.mem_filter.1 hmem).1, h.scripts⟩

theorem calls (hlaw : StackLaw r G T) (hcalls : Calls user s t) (h : s.Obeys G T) :
    t.Obeys G T := by
  cases hcalls with
  | stay reads => exact h.calm ⟨rfl, rfl, rfl, rfl, rfl, rfl, rfl⟩
  | missing events =>
    have hs : Obeys G T { s with events } := h.calm ⟨rfl, rfl, rfl, rfl, rfl, rfl, rfl⟩
    exact hlaw.after_edit hs user (.step 1)
  | @run m c rest _ filename script caller scriptMeta time hkey hm hstack hload hcaller hmeta reads =>
    have hscript : T (.ok script) := by
      rcases Library.holds_of_stored h.scripts (Library.stored_of_load hload) with rfl | hscript
      · cases hmeta
      · exact hscript
    generalize hstart : Conversation.start scriptMeta filename time = start
    obtain ⟨called, hcalled⟩ := Command.exists_calling script caller start
    have hfound := managerIn_replaced_self (s := { s with reads }) (by exact hm) (m.push start)
    have hs : Obeys G T { s with reads } := h.calm ⟨rfl, rfl, rfl, rfl, rfl, rfl, rfl⟩
    -- The law holds of the called script once it is filled, so both steps are taken together.
    have hboth := hs.replaced user (n := (m.push start).setTop
        (settled s.lists { conversation := called })) fun hG => by
      have htop := hlaw.call filename time hcaller hmeta hscript (hstack ▸ hG m hm)
      rw [hstart, hcalled, ← hstack] at htop
      simpa [Manager.setTop, Manager.push] using
        hlaw.edit [] (Conversation.like_settled r s.lists { conversation := called }) htop
    rw [after_edit_of_stack hkey hfound rfl]
    show (Session.kept user _ (Draft.after (Command.calling script caller) _) _).Obeys G T
    rw [hcalled, kept_of_unchanged]
    simp only [Session.replaced, withManager_withManager (by exact hfound)]
    exact ⟨hboth.managers, hboth.scripts⟩

theorem stable (hlaw : StackLaw r G T) : Stable r (Obeys G T) where
  calm h hcalm := h.calm hcalm
  transcript text filename startTime h := h.transcript text filename startTime
  edit hm hstack hlike h :=
    h.kept hlaw.share hm hstack (hlaw.edit _ (hlike.trans (Conversation.like_settled r _ _)))
  share changes h := by
    rw [withChanges_eq]
    refine ⟨fun x k hmem => ?_, h.scripts⟩
    obtain ⟨⟨y, k'⟩, hold, heq⟩ := List.mem_map.1 hmem
    cases heq
    rw [Manager.changedBy_stack]
    exact hlaw.share changes (h.managers x k' hold)
  leave hleaves h := hlaw.leaves hleaves h
  call _ _ _ hcalls h := hlaw.calls hcalls h
  await _ _ h := ⟨h.managers, h.scripts⟩
  stopAwaiting _ _ h := ⟨h.managers, h.scripts⟩

end StackLaw

end

/-! ### Starting a script -/

theorem Launch.exists_beginScript (user : Value) (filename : String) (script? : Option Value) :
    ∃ scriptMeta, beginScript user filename script? = (do
      begin user scriptMeta filename
      let c ← current user
      addTranscript (.str ("RUNNING SCRIPT " ++ filename ++ "\n")) filename (.int c.startTime)
      edit user (filling script?)) :=
  ⟨_, rfl⟩

/-- A law of stacks that is also kept when scripts are started at a user's request. -/
structure LaunchLaw (G : List Entry → Prop) (T : Except Fault Value → Prop) : Prop where
  stack : ∀ r, StackLaw r G T
  nil : G []
  begin : ∀ {rest} (scriptMeta filename : Value) (time : Int), G rest →
    G (.conversation (Conversation.start scriptMeta filename time) :: rest)
  load : ∀ {c c' rest script?}, c.Loaded script? c' → (∀ script ∈ script?, T (.ok script)) →
    G (.conversation c :: rest) → G (.conversation c' :: rest)

namespace LaunchLaw

variable {G : List Entry → Prop} {T : Except Fault Value → Prop} {s t : Session}

theorem beginScript (hlaw : LaunchLaw G T) (h : s.Obeys G T) (user : Value) (filename : String)
    {script? : Option Value} (hscript : ∀ script ∈ script?, T (.ok script)) :
    (s.after (beginScript user filename script?)).Obeys G T := by
  obtain ⟨scriptMeta, hscript?⟩ := exists_beginScript user filename script?
  rw [hscript?]
  obtain ⟨fault, herror⟩ | ⟨time, -, -, hbegin⟩ := begin_cases user scriptMeta filename s
  · rw [after_bind_of_error herror]
    exact h
  rw [after_bind_of_ok hbegin]
  have hbegun := h.replaced user (n := ((managerIn s.active user).getD { user }).push
      (Conversation.start scriptMeta filename time)) fun hG => by
    refine hlaw.begin scriptMeta filename time ?_
    cases hm : managerIn s.active user with
    | none => exact hlaw.nil
    | some m => exact hG m hm
  refine (Looks.current user).bind_after hbegun fun c _ => ?_
  refine after_bind (hbegun.transcript _ _ _) fun _ t _ ht => ?_
  obtain hsame | ⟨m, c, rest, hm, hstack, hkept⟩ :=
    Session.after_edit user (filling script?) t
  · rwa [hsame]
  rw [hkept]
  obtain ⟨hchanges, hloaded⟩ := filling_loaded script? { conversation := c }
  refine ht.kept (hlaw.stack (.bare user)).share hm hstack fun hG => ?_
  rw [hchanges, Entry.changedBy_nil, List.map_id]
  exact hlaw.load ⟨hloaded.pending, hloaded.lines⟩ hscript hG

theorem start (hlaw : LaunchLaw G T) (h : s.Obeys G T) : (s.after start).Obeys G T := by
  refine after_start h (fun _ _ _ hfolder => ⟨h.managers, h.scripts.makeFolder hfolder⟩)
    (fun _ _ _ hfolder => ?_) fun files reads name script? hfound => ?_
  · exact ⟨fun x m hmem => h.managers x m (List.mem_filter.1 hmem).1, h.scripts.makeFolder hfolder⟩
  · have hs : Obeys G T { s with files, reads } :=
      ⟨h.managers, h.scripts.makeFolder hfound.folder⟩
    exact Stable.running (fun _ => (hlaw.stack _).stable) name
      (hlaw.beginScript hs _ _ (hfound.holds h.scripts))

theorem of_reachable (hlaw : LaunchLaw G T) {allowed : Session → Request → Option Message → Prop}
    (hallowed : ∀ s request message, allowed s request message → ∃ user, request.For user)
    (hreachable : Reachable allowed s t) (h : s.Obeys G T) : t.Obeys G T := by
  induction hreachable with
  | refl => exact h
  | @request t request message _ hrequest ih =>
    obtain ⟨user, huser⟩ := hallowed _ _ _ hrequest
    have hserved : Obeys G T { t with message, events := [] } :=
      ih.calm ⟨rfl, rfl, rfl, rfl, rfl, rfl, rfl⟩
    rw [Request.run_eq_after]
    exact Stable.serve (fun _ => (hlaw.stack _).stable) huser
      (fun _ => hlaw.start hserved) hserved
  | wait _ clock ih => exact ih.calm ⟨rfl, rfl, rfl, rfl, rfl, rfl, rfl⟩

end LaunchLaw

end Colloquy
