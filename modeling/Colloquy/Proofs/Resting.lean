import Colloquy.Proofs.Return
import Colloquy.Proofs.Runs
import Colloquy.Proofs.Stacks
import Colloquy.Proofs.Termination

/-! Where running lines ends.  Lines are run one after the other until the user has no script any
more, the script waits for the user or has no lines, but also when the last line of a script was
passed, when a line fails, and behind a line that calls a function without waiting for the user.  In
these three cases the script that is then on top is not gone on with. -/

namespace Colloquy

open Session Execution

variable {s t : Session} {user : Value} {goes : Bool}

variable {α β : Type}

/-! ### Waiting users and the record -/

theorem Session.after_edit_awaiting (user : Value) (body : Edit α) (s : Session) :
    (s.after (edit user body)).awaiting = s.awaiting := by
  obtain ⟨_, _, _, hafter⟩ := after_edit_frame user body s
  rw [hafter]

theorem Session.after_edit_events (user : Value) (body : Edit α) (s : Session) :
    (s.after (edit user body)).events = s.events := by
  obtain ⟨_, _, _, hafter⟩ := after_edit_frame user body s
  rw [hafter]

theorem Session.after_editSince_awaiting (user : Value) (depth : Nat) (c : Conversation)
    (body : Edit α) (s : Session) :
    (s.after (editSince user depth c body)).awaiting = s.awaiting := by
  have hleft : (s.after (editLeft c body)).awaiting = s.awaiting := by
    obtain ⟨changes, hafter⟩ := after_editLeft c body s
    rw [hafter, withChanges_eq]
  refine (Looks.manager? user).bind_after (T := fun t => t.awaiting = s.awaiting) rfl fun m? _ => ?_
  cases m? with
  | none => exact hleft
  | some m =>
    by_cases hdepth : m.depth == depth
    · simpa only [hdepth, if_true] using after_edit_awaiting user body s
    · simpa only [hdepth, Bool.false_eq_true, if_false] using hleft

theorem Function.after_voiceInput_awaiting (key user : Value) (s : Session) :
    (s.after (Function.voiceInput.call key user)).awaiting = s.awaiting ++ [user] := by
  have hfill (name : Value) (t : Session) : (t.after (do
      edit user (Edit.update fun c => { c with awaited := name })
      return Value.null)).awaiting = t.awaiting :=
    after_bind (T := fun u => u.awaiting = t.awaiting) (after_edit_awaiting user _ t)
      fun _ _ _ hu => hu
  simp only [call, runVoiceInput, await]
  rw [after_bind_of_ok (modify_apply _ _)]
  refine (Looks.lift _).bind_after (T := fun t => t.awaiting = s.awaiting ++ [user]) rfl
    fun hasComma _ => ?_
  split
  · refine (Looks.lift _).bind_after (T := fun t => t.awaiting = s.awaiting ++ [user]) rfl
      fun text _ => ?_
    exact hfill _ _
  · exact hfill _ _

theorem Session.manager?_ok {m? : Option Manager} (h : manager? user s = .ok m? t) :
    m? = managerIn s.active user ∧ t = s := by
  by_cases hkey : user.isKey = true
  · rw [manager?_of_isKey hkey] at h
    cases h
    exact ⟨rfl, rfl⟩
  · simp [manager?, hkey] at h

theorem Session.currentOf_none (h : currentOf user s = .ok none t) : t.stackOf user = [] := by
  obtain ⟨m, s', hof, htop⟩ := bind_ok_iff.1 h
  obtain ⟨-, hm, rfl⟩ := managerOf_ok hof
  obtain ⟨hcurrent, rfl⟩ := lift_ok_iff.1 htop
  rw [stackOf_eq hm]
  cases hstack : m.stack with
  | nil => rfl
  | cons e rest => cases e <;> simp [Manager.current?, hstack] at hcurrent

/-! ### Rest -/

/-- The user has no script, or the script waits for the user, or it has no lines. -/
def Session.Rests (s : Session) (user : Value) : Prop :=
  s.stackOf user = [] ∨ s.awaiting.any (·.same user) = true ∨
    ∃ c rest, s.stackOf user = .conversation c :: rest ∧ c.lines.truthy = false

/-- The line that is to be run next lies behind the last one of the script. -/
def Session.AtEnd (s : Session) (user : Value) : Prop :=
  ∃ c rest size, s.stackOf user = .conversation c :: rest ∧ c.lines.size = .ok size ∧
    c.index.compare .atLeast (.int size) = .ok true

/-- The line that is to be run next calls a function, but does not ask the user anything: it has no
argument, or the function is another one. -/
def Session.CallsAway (s : Session) (user : Value) : Prop :=
  ∃ c rest line command text, s.stackOf user = .conversation c :: rest ∧
    c.lines.item c.index = .ok line ∧ line.item "command" = .ok command ∧
    line.item "text" = .ok text ∧ ∃ f : Function, command.same f.name = true ∧
      (f ≠ .voiceInput ∨ functionArgument text = .ok none)

/-! ### One line -/

/-- The next line of a user's script, when its indent was noted. -/
structure Execution.AtLine (user : Value) (s : Session) (c : Conversation) (line command text : Value)
    (u : Session) : Prop where
  stack : ∃ rest, s.stackOf user = .conversation c :: rest
  item : c.lines.item c.index = .ok line
  name : line.item "command" = .ok command
  words : line.item "text" = .ok text
  noted : ∃ indent, line.item "indent" = .ok indent ∧
    edit user (Edit.update fun c => { c with lastIndent := indent }) s = .ok () u

/-- The line belongs to another option of a case that it stands in, which has the given indent. -/
def Execution.SkipsTo (line parent : Value) : Prop :=
  ∃ indent parents option, line.item "indent" = .ok indent ∧
    (line.item "parent_case_indents" >>= Value.elements) = .ok parents ∧ parent ∈ parents ∧
    parent.addInt 1 = .ok option ∧ indent.same option = true

/-- What running a line that does not fail can come to, and whether the script goes on. -/
inductive Execution.Advances (user : Value) (s : Session) : Bool → Session → Prop
  | rest (hrests : s.Rests user) : Advances user s false s
  | atEnd {t : Session} (hend : s.AtEnd user) (events : List Event)
      (hexit : exitScript user { s with events } = .ok () t) : Advances user s false t
  /-- The line is left out, together with the rest of the case. -/
  | skip {c : Conversation} {line command text parent : Value} {u t : Session}
      (hline : AtLine user s c line command text u) (hskips : SkipsTo line parent)
      (hleave : leaveCase user parent u = .ok () t) : Advances user s true t
  | command {c : Conversation} {line text : Value} {k : Keyword} {goes : Bool} {u t : Session}
      (hline : AtLine user s c line (.str k.name) text u)
      (hrun : runCommand k user line text u = .ok goes t) : Advances user s goes t
  | function {c : Conversation} {line command text : Value} {f : Function} {u t : Session}
      (hline : AtLine user s c line command text u) (hname : command.same f.name = true)
      (hrun : runFunction f c user line text u = .ok () t) : Advances user s false t
  /-- There is nothing to be run in the line. -/
  | pass {c : Conversation} {line command text : Value} {u t : Session}
      (hline : AtLine user s c line command text u)
      (hstep : edit user (Edit.step 1) u = .ok () t) : Advances user s true t

theorem Execution.runNext_advances {c : Conversation} {rest : List Entry}
    (hstack : s.stackOf user = .conversation c :: rest) (h : runNext c user s = .ok goes t) :
    Advances user s goes t := by
  obtain ⟨line, indent, command, text, u, hline, hindent, hcommand, htext, hedit, hrest⟩ := runNext_ok h
  have hat : AtLine user s c line command text u :=
    ⟨⟨rest, hstack⟩, hline, hcommand, htext, indent, hindent, hedit⟩
  obtain ⟨rfl, parents, parent, option, hparents, hmem, hoption, hsame, hleave⟩ | hrun := hrest
  · exact .skip hat ⟨indent, parents, option, hindent, hparents, hmem, hoption, hsame⟩ hleave
  obtain ⟨k?, u₁, hknown, h₁⟩ := bind_ok_iff.1 hrun
  have hsame : u₁ = u := (after_of_ok hknown).symm.trans (Looks.known? command u)
  subst hsame
  cases k? with
  | some k =>
    obtain rfl := known?_ok hknown
    exact .command hat h₁
  | none =>
    obtain ⟨known, u₂, hfunctions, h₂⟩ := bind_ok_iff.1 h₁
    cases hfunctions
    cases hf : (if u₁.initialized then Function.all else []).find? fun f => command.same f.name with
    | none =>
      rw [hf] at h₂
      obtain ⟨_, u₃, hstep, h₃⟩ := bind_ok_iff.1 h₂
      cases h₃
      exact .pass hat hstep
    | some f =>
      rw [hf] at h₂
      obtain ⟨_, u₃, hfunction, h₃⟩ := bind_ok_iff.1 h₂
      cases h₃
      exact .function hat (by simpa using List.find?_some hf) hfunction

theorem Execution.advance_advances (h : advance user s = .ok goes t) : Advances user s goes t := by
  obtain ⟨c?, s₁, hcurrent, h₁⟩ := bind_ok_iff.1 h
  obtain ⟨awaits, s₂, hawaits, h₂⟩ := bind_ok_iff.1 h₁
  have hsame : s₁ = s := (after_of_ok hcurrent).symm.trans (Looks.currentOf user s)
  subst hsame
  cases hawaits
  split at h₂
  · rename_i hwaiting
    cases h₂
    exact .rest (.inr (.inl hwaiting))
  cases c? with
  | none =>
    cases h₂
    exact .rest (.inl (currentOf_none hcurrent))
  | some c =>
    obtain ⟨-, -, m, rest, hm, hstack⟩ := currentOf_ok hcurrent
    have hstack : s₁.stackOf user = .conversation c :: rest := by rw [stackOf_eq hm, hstack]
    simp only at h₂
    split at h₂
    · rename_i hlines
      cases h₂
      exact .rest (.inr (.inr ⟨c, rest, hstack, by simpa using hlines⟩))
    obtain ⟨size, s₃, hsize, h₃⟩ := bind_ok_iff.1 h₂
    obtain ⟨atEnd, s₄, hatEnd, h₄⟩ := bind_ok_iff.1 h₃
    rw [lift_ok_iff] at hsize hatEnd
    obtain ⟨hsize, rfl⟩ := hsize
    obtain ⟨hatEnd, rfl⟩ := hatEnd
    cases atEnd with
    | true =>
      obtain ⟨_, s₅, htell, h₅⟩ := bind_ok_iff.1 h₄
      obtain ⟨_, s₆, hexit, h₆⟩ := bind_ok_iff.1 h₅
      cases htell
      cases h₆
      exact .atEnd ⟨c, rest, size, hstack, hsize, hatEnd⟩ _ hexit
    | false => exact runNext_advances hstack h₄

theorem Execution.runCommand_ok {line text : Value} {k : Keyword}
    (h : runCommand k user line text s = .ok goes t) : (managerIn t.active user).isSome = goes := by
  obtain ⟨_, s₁, -, h₁⟩ := bind_ok_iff.1 h
  obtain ⟨_, s₂, -, h₂⟩ := bind_ok_iff.1 h₁
  obtain ⟨_, s₃, -, h₃⟩ := bind_ok_iff.1 h₂
  obtain ⟨m?, s₄, hfound, h₄⟩ := bind_ok_iff.1 h₃
  obtain ⟨rfl, rfl⟩ := manager?_ok hfound
  obtain ⟨hgoes, rfl⟩ := EStateM.Result.ok.inj h₄
  exact hgoes

theorem Execution.runFunction_awaiting {line text : Value} {c : Conversation}
    (hargument : functionArgument text ≠ .ok none)
    (h : runFunction .voiceInput c user line text s = .ok () t) :
    t.awaiting = s.awaiting ++ [user] := by
  obtain ⟨key?, s₁, hfound, h₁⟩ := bind_ok_iff.1 h
  obtain ⟨hkey, rfl⟩ := lift_ok_iff.1 hfound
  cases key? with
  | none => exact absurd hkey hargument
  | some key =>
    obtain ⟨_, s₂, hdeclare, h₂⟩ := bind_ok_iff.1 h₁
    obtain ⟨m, s₃, hmanager, h₃⟩ := bind_ok_iff.1 h₂
    obtain ⟨_, s₄, hcall, hstep⟩ := bind_ok_iff.1 h₃
    have hsame : s₃ = s₂ := (after_of_ok hmanager).symm.trans (Looks.managerAt user s₂)
    calc t.awaiting
        = s₄.awaiting := by
          rw [← after_of_ok hstep]
          exact after_editSince_awaiting user _ c _ s₄
      _ = s₃.awaiting ++ [user] := by
          rw [← after_of_ok hcall]
          exact Function.after_voiceInput_awaiting _ user s₃
      _ = s₁.awaiting ++ [user] := by
          rw [hsame, ← after_of_ok hdeclare]
          exact congrArg (· ++ [user]) (after_edit_awaiting user _ s₁)

/-- A line after which the script does not go on leaves the user at rest, unless there is none or it
calls a function and does not wait for the user. -/
theorem Execution.advance_rests (huser : user.same user = true) (h : advance user s = .ok false t) :
    t.Rests user ∨ s.AtEnd user ∨ s.CallsAway user := by
  cases advance_advances h with
  | rest hrests => exact .inl hrests
  | atEnd hend => exact .inr (.inl hend)
  | command hline hrun =>
    have hnone := Option.isSome_eq_false_iff.1 (runCommand_ok hrun)
    refine .inl (.inl ?_)
    rw [stackOf, Option.isNone_iff_eq_none.1 hnone]
    rfl
  | @function c line command text f u _ hline hname hrun =>
    by_cases hask : f = .voiceInput ∧ functionArgument text ≠ .ok none
    · obtain ⟨rfl, hargument⟩ := hask
      refine .inl (.inr (.inl ?_))
      simp [runFunction_awaiting hargument hrun, huser]
    · obtain ⟨rest, hstack⟩ := hline.stack
      refine .inr (.inr ⟨c, rest, line, command, text, hstack, hline.item, hline.name, hline.words,
        f, hname, ?_⟩)
      by_cases hf : f = .voiceInput
      · exact .inr (Classical.not_not.1 fun hargument => hask ⟨hf, hargument⟩)
      · exact .inl hf

/-! ### Errors -/

def Execution.Report.event (error : String) (report : Report) : Event :=
  .dialog "error_at_line" (.object [("error", .str error), ("line", report.line),
    ("script", report.script), ("detail", report.detail)]) false .null

/-- A computation that only adds to the record of what was told, whether or not it fails. -/
def Records (m : Run α) : Prop :=
  ∀ s : Session, s.events <:+ (s.after m).events

namespace Records

theorem law (user : Value) : Run.LookLaw user fun {_} m => Records m :=
  .of_relation (R := fun s t => s.events <:+ t.events) (fun _ => List.suffix_refl _) (fun h h' => h.trans h')
    user

theorem modify {g : Session → Session} (h : ∀ s, (g s).events = s.events) :
    Records (modify g : Run Unit) :=
  fun s => ⟨[], (h s).symm⟩

theorem dropManager (user : Value) : Records (dropManager user) :=
  (law user).drop (fun _ => List.suffix_refl _) (modify fun _ => rfl)

theorem exitScript (user : Value) : Records (exitScript user) := by
  have h := law user
  exact h.exit (fun _ _ => h.bind h.theMessage fun _ => modify fun _ => rfl)
    (fun _ _ _ => List.suffix_cons _ _) (fun _ => modify fun _ => rfl)
    (fun body s => ⟨[], (after_edit_events user body s).symm⟩) (dropManager user)

end Records

/-- Lines are run until the user is at rest, or an error is reported, or the last line has nothing
behind it or does not wait for the user. -/
theorem Execution.proceed_rests (huser : user.same user = true) {budget : Nat}
    (h : proceed budget user s = .ok () t) :
    t.Rests user ∨ (∃ report, Report.event "unknown" report ∈ t.events) ∨
      ∃ n u, Goes user n s u ∧ advance user u = .ok false t ∧ (u.AtEnd user ∨ u.CallsAway user) := by
  induction budget generalizing s with
  | zero => cases h
  | succ budget ih =>
    obtain ⟨m, _, hm, -⟩ := bind_ok_iff.1 h
    have hmessage : s.message.isSome = true := Option.isSome_of_eq_some (theMessage_ok hm)
    rw [proceed_succ hmessage] at h
    obtain hlines | ⟨_, u, hgiveUp⟩ := rescue_ok h
    · obtain ⟨goes, u, hline, hrest⟩ := bind_ok_iff.1 hlines
      cases goes with
      | false =>
        cases hrest
        exact (advance_rests huser hline).imp id fun hend => .inr ⟨0, s, .refl s, hline, hend⟩
      | true =>
        refine (ih hrest).imp id (Or.imp id ?_)
        rintro ⟨n, v, hgoes, hlast, hend⟩
        exact ⟨n + 1, v, .step hmessage hline hgoes, hlast, hend⟩
    · obtain ⟨_, v, htell, hexit⟩ := bind_ok_iff.1 hgiveUp
      have hevents := Records.exitScript user v
      rw [after_of_ok hexit, ← after_of_ok htell] at hevents
      exact .inr (.inl ⟨reportFor s user, hevents.subset List.mem_cons_self⟩)

/-- Going on with a user's script ends where the user has no script, the script waits for the user or
it has no lines, unless an error was reported, or the last line that was asked for is not there or
calls a function without waiting for the user. -/
theorem Request.resume_rests {user : Value} (huser : user.same user = true)
    {message : Option Message} {s t : Session} {v : Value}
    (h : (Request.resume user).run message s = (.ok v, t)) :
    t.Rests user ∨ (∃ report, Report.event "unknown" report ∈ t.events) ∨
      ∃ n u, Goes user n { s with message, events := [] } u ∧ advance user u = .ok false t ∧
        (u.AtEnd user ∨ u.CallsAway user) := by
  unfold run at h
  split at h
  · rename_i hserve
    obtain ⟨-, rfl⟩ := Prod.mk.inj h
    obtain ⟨_, _, hresume, hvalue⟩ := bind_ok_iff.1 hserve
    cases hvalue
    exact proceed_rests huser hresume
  · cases h

def Session.ofRun (called : String) : Session :=
  let line (command : String) : Value :=
    .object [("command", command), ("text", "other"), ("indent", .int 0), ("data", .null)]
  let caller : Conversation :=
    { scriptMeta := .null, filename := "demo", startTime := 0
      bindings := Value.emptyTable, speaker := Value.emptyTable
      lines := .ofItems [.null, line "run", line "exit"] }
  { initialized := true
    root := "/skill"
    files := Files.addFile {} (scriptFolder ++ ["other.ncs"]) called
    active := [("ann", { user := "ann", stack := [.conversation caller] })]
    lists := 1 }

def Session.resumed (s : Session) : Session :=
  ((Request.resume "ann").run (some {}) s).2

def Session.ofExit : Session :=
  ofRun "[[null, \x7b\"command\": \"exit\", \"text\": \"\", \"indent\": 0\x7d], \x7b\x7d, \x7b\x7d, \x7b\x7d, \x7b\x7d, -1, \"\", null, null, \x7b\x7d]"

def Session.ofEnd : Session :=
  ofRun "[[null], \x7b\x7d, \x7b\x7d, \x7b\x7d, \x7b\x7d, -1, \"\", null, null, \x7b\x7d]"

/-- The caller of a script that is left by a line is gone on with. -/
theorem Request.resume_rests_ofExit :
    (resumed ofExit).Rests "ann" ∨
      (∃ report, Report.event "unknown" report ∈ (resumed ofExit).events) ∨
      ∃ n u, Goes "ann" n { ofExit with message := some {}, events := [] } u ∧
        advance "ann" u = .ok false (resumed ofExit) ∧ (u.AtEnd "ann" ∨ u.CallsAway "ann") := by
  obtain ⟨v, hrun⟩ := exists_ok_of_isOk (x := (Request.resume "ann").run (some {}) ofExit)
    (by decide +kernel)
  rw [resumed]
  exact resume_rests (by simp [Value.str_same]) hrun

def Entry.hasLines : Entry → Bool
  | .conversation c => c.lines.truthy
  | .foreign _ => false

/-- The caller of a script that runs off its last line stays behind the line that has run it, where
nothing is waited for. -/
theorem Request.resume_stalls_ofEnd :
    ((Request.resume "ann").run (some {}) ofEnd).1.isOk = true ∧ ¬ (resumed ofEnd).Rests "ann" := by
  refine ⟨by decide +kernel, ?_⟩
  obtain ⟨hawaiting, htop⟩ : (resumed ofEnd).awaiting.isEmpty = true ∧
      ((resumed ofEnd).stackOf "ann").map Entry.hasLines = [true] := by decide +kernel
  obtain ⟨e, hstack, hlines⟩ := List.map_eq_singleton_iff.1 htop
  rintro (hnone | hwaits | ⟨c, rest, htop', hlines'⟩)
  · rw [hstack] at hnone
    cases hnone
  · rw [List.isEmpty_iff.1 hawaiting] at hwaits
    cases hwaits
  · rw [hstack] at htop'
    obtain rfl : e = .conversation c := (List.cons.inj htop').1
    cases hlines.symm.trans hlines'

end Colloquy
