import Colloquy.Service
import Colloquy.Proofs.Execution
import Colloquy.Proofs.Stage

/-! Running a script and leaving it again is a call and its return.  Whatever commands are given for
the user meanwhile, the scripts that wait at the bottom of the stack are not touched, as long as none
of their lists is one of the host. -/

namespace Colloquy

open Session Request

variable {user : Value} {s t : Session}

/-! ### The bottom of the stack -/

section

variable {r : Remit} {moves : Bool} {s t : Session} {bottom : List Entry}

theorem map_changedBy_of_apart {changes : List Value.Change} (hallows : r.Allows changes)
    (hapart : ∀ e ∈ bottom, e.ListsIn fun n => ¬ r.lists n) :
    bottom.map (Entry.changedBy changes) = bottom := by
  calc bottom.map (Entry.changedBy changes)
      = bottom.map id := List.map_congr_left fun e he => (hapart e he).changedBy_eq hallows
    _ = bottom := List.map_id _

theorem suffix_tail {e : Entry} {rest : List Entry} (hlength : bottom.length = r.spared)
    (hlive : r.spared = 0 ∨ r.spared < (e :: rest).length) (h : bottom <:+ e :: rest) :
    bottom <:+ rest := by
  obtain hself | htail := List.suffix_cons_iff.1 h
  · obtain hzero | hlt := hlive
    · rw [List.length_eq_zero_iff.1 (hlength.trans hzero)]
      exact List.nil_suffix
    · rw [hself] at hlength
      omega
  · exact htail

theorem Step.keeps_bottom (hstep : Step r moves s t) (hlength : bottom.length = r.spared)
    (hapart : ∀ e ∈ bottom, e.ListsIn fun n => ¬ r.lists n) (h : bottom <:+ s.stackOf r.user) :
    bottom <:+ t.stackOf r.user := by
  have hmap {changes : List Value.Change} {stack : List Entry} (hallows : r.Allows changes)
      (hstack : bottom <:+ stack) : bottom <:+ stack.map (Entry.changedBy changes) := by
    rw [← map_changedBy_of_apart hallows hapart]
    exact hstack.map _
  cases hstep with
  | quiet hactive => rwa [stackOf, hactive, ← stackOf]
  | await | release => exact h
  | edit hlive hm hstack hrevision =>
    obtain ⟨new, hnew, hallows⟩ := hrevision.changes
    rw [List.append_nil] at hnew
    rw [stackOf_kept_self _ hm hstack, hnew]
    rw [stackOf_eq hm, hstack] at h
    have hrest := suffix_tail hlength (by simpa [Live, depthOf, stackOf_eq hm, hstack] using hlive) h
    exact (hmap hallows hrest).trans (List.suffix_cons _ _)
  | @answer _ user m c rest hlive hhears hm hstack =>
    have hallows : r.Allows [] := by simp [Remit.Allows]
    obtain hnew | ⟨hold, hnew⟩ := stackOf_kept_cases
      { conversation := { c with lastRequest := "" } } hm hstack r.user
    · rw [hnew]
      exact hmap hallows h
    · rw [hnew]
      rw [hold] at h
      have hrest := suffix_tail hlength (by simpa [Live, depthOf, hold] using hlive) h
      exact (hmap hallows hrest).trans (List.suffix_cons _ _)
  | share hallows =>
    rw [stackOf_withChanges]
    exact hmap hallows h
  | @push _ _ c _ _ hm _ =>
    obtain hnew | ⟨hold, hnew⟩ := stackOf_push_cases hm c
    · rw [hnew]
      exact h.trans (List.suffix_cons _ _)
    · rwa [hnew, ← hold]
  | @pop _ m e rest hlive hm hstack =>
    rw [stackOf_replaced_self hm]
    rw [stackOf_eq hm, hstack] at h
    have hlive' : r.spared = 0 ∨ r.spared < rest.length := by
      simpa only [Live, depthOf, stackOf_replaced_self hm] using hlive
    exact suffix_tail hlength (hlive'.imp_right Nat.lt_succ_of_lt) h
  | publish scope hm =>
    rw [stackOf_replaced_self hm]
    rwa [stackOf_eq hm] at h
  | drop hspared =>
    rw [List.length_eq_zero_iff.1 (hlength.trans hspared)]
    exact List.nil_suffix

theorem Path.keeps_bottom (hpath : Path r moves s t) (hlength : bottom.length = r.spared)
    (hapart : ∀ e ∈ bottom, e.ListsIn fun n => ¬ r.lists n) (h : bottom <:+ s.stackOf r.user) :
    bottom <:+ t.stackOf r.user := by
  induction hpath with
  | refl => exact h
  | step hstep _ _ ih => exact ih (hstep.keeps_bottom hlength hapart h)

end

/-! ### Starting a script -/

/-- What a computation does is a path of steps, if a script runs above the spared ones at its end.
Unlike what is confined, it may start scripts. -/
def Climbs {α : Type} (r : Remit) (m : Run α) : Prop :=
  ∀ s, Owned r s → Heard r s → Live r (s.after m) → Path r false s (s.after m)

namespace Climbs

variable {r : Remit} {α β : Type} {m : Run α} {f : α → Run β}

theorem of_confined (h : Confined r True m) : Climbs r m := by
  intro s howned hheard hlive
  have hm := h s
  rw [after] at hlive ⊢
  cases hrun : m s with
  | ok a t =>
    simp only [hrun] at hm hlive ⊢
    exact (hm.2 trivial howned hheard hlive).1
  | error fault t =>
    simp only [hrun] at hm hlive ⊢
    exact hm.2 trivial howned hheard hlive

theorem bind {Q : α → Prop} (hm : Still m Q) (hf : ∀ a, Q a → Climbs r (f a)) :
    Climbs r (m >>= f) := by
  intro s howned hheard hlive
  have hfirst := hm s
  rw [after] at hlive ⊢
  cases hrun : m s with
  | error fault t =>
    rw [bind_of_error hrun] at hlive ⊢
    rw [hrun] at hfirst
    exact hfirst.path
  | ok a t =>
    rw [bind_of_ok hrun] at hlive ⊢
    rw [hrun] at hfirst
    have hrest := hf a hfirst.2 t (howned.path hfirst.1.path) (hfirst.1.steady.heard hheard) hlive
    exact hfirst.1.path.trans hrest (by simp)

theorem depthOf_push (s : Session) (user : Value) (c : Conversation) :
    (replaced user (((managerIn s.active user).getD { user }).push c) s).depthOf user ≤
      s.depthOf user + 1 := by
  obtain hnew | ⟨-, hnew⟩ := @stackOf_push_cases s user _ rfl c <;>
    simp [depthOf, hnew]

theorem begin_edit (hjumps : r.jumps) {body : Edit β} (hbody : Edits r body)
    (scriptMeta filename : Value) :
    Climbs r (do
      begin r.user scriptMeta filename
      edit r.user body) := by
  intro s howned hheard hlive
  rw [after] at hlive ⊢
  by_cases hkey : r.user.isKey
  case neg =>
    simp only [begin, manager?, hkey, Bool.false_eq_true, if_false, bind_apply,
      throw_apply]
    exact .refl s
  cases htime : Clock.wholeSeconds s.clock with
  | error fault =>
    simp only [begin, manager?, hkey, if_true, bind_apply, get_apply, pure_apply,
      htime, lift_error_apply]
    exact .refl s
  | ok time =>
    have hbegin : begin r.user scriptMeta filename s = .ok () (replaced r.user
        (((managerIn s.active r.user).getD { user := r.user }).push
          (Conversation.start scriptMeta filename time)) s) := by
      simp only [begin, manager?, hkey, if_true, bind_apply, get_apply, pure_apply,
        htime, lift_ok_apply, setManager_apply]
    rw [bind_of_ok hbegin] at hlive ⊢
    have hdepth := depthOf_push s r.user (Conversation.start scriptMeta filename time)
    generalize hpushed : replaced r.user _ s = pushed at hlive hdepth ⊢
    have hedit := Confined.edit (P := True) (fun _ => hbody) pushed
    have hpush (hlive : Live r pushed) : Path r false s pushed := by
      subst hpushed
      refine .single (.push hjumps ?_ rfl (by simp [Remit.Holds, Conversation.start]))
      obtain hspared | hlt := hlive
      · omega
      · omega
    cases hrun : edit r.user body pushed with
    | ok b t =>
      simp only [hrun] at hedit hlive ⊢
      have hfirst := hpush (hedit.1.live hlive)
      exact hfirst.trans (hedit.2 trivial (howned.path hfirst) (hpushed ▸ hheard) hlive).1
        (by simp)
    | error fault t =>
      simp only [hrun] at hedit hlive ⊢
      have hfirst := hpush (hedit.1.live hlive)
      exact hfirst.trans (hedit.2 trivial (howned.path hfirst) (hpushed ▸ hheard) hlive)
        (by simp)

theorem runScript (hjumps : r.jumps) (text : Value) : Climbs r (Command.call r.user text) := by
  refine bind (.lift _) fun name _ => ?_
  extract_lets name filename
  clear_value filename name
  refine bind (.of_looks (.hasScript _)) fun found _ => ite ?_ (of_confined ?_)
  · refine bind (.load r.lists _) fun script hscript => ?_
    refine bind (.of_looks (.current _)) fun c _ => bind (.lift _) fun caller _ => ?_
    refine bind (.lift _) fun info _ => ?_
    exact begin_edit hjumps (.fillCalled hjumps hscript caller) _ _
  · exact .seq (.dialog _ _) fun _ => .edit fun _ => .step (by decide)

theorem runCommand (hhears : ∃ user, r.hears user) (hjumps : r.jumps) (name text : Value) :
    Climbs r (runCommand name r.user text) := by
  refine bind (.of_looks (.known? name)) fun k? _ => ?_
  cases k? with
  | none => exact of_confined (.throw _)
  | some k =>
    by_cases hk : k = .run
    · subst hk
      exact runScript hjumps text
    · exact of_confined (.perform hhears (fun _ => hjumps) (fun h => absurd h hk) text)

end Climbs

/-! ### Commands for a user -/

/-- Commands for a user, one after the other and each with a message of its own, that leave more than
`depth` scripts on the stack.  They may fail. -/
inductive Serves (user : Value) (depth : Nat) : Session → Session → Prop
  | refl (s : Session) : Serves user depth s s
  | command {s t : Session} (name text : Value) (message : Option Message)
      (hdepth : depth < ((Request.command name user text).run message s).2.depthOf user)
      (hrest : Serves user depth ((Request.command name user text).run message s).2 t) :
      Serves user depth s t

def Remit.sparing (user : Value) (A : Nat → Prop) (spared : Nat) : Remit :=
  { user, lists := A, spared, hears := fun _ => True, jumps := True }

theorem Request.snd_run_command (name user text : Value) (message : Option Message) (s : Session) :
    ((command name user text).run message s).2 =
      after (runCommand name user text) { s with message, events := [] } := by
  simp only [run, serve, silently, after, bind_apply]
  cases runCommand name user text { s with message, events := [] } <;> rfl

theorem Request.command_path {A : Nat → Prop} {spared : Nat}
    (howned : Owned (Remit.sparing user A spared) s) (name text : Value) (message : Option Message)
    (hdepth : spared < ((command name user text).run message s).2.depthOf user) :
    Path (Remit.sparing user A spared) false s
      ((command name user text).run message s).2 := by
  have hstart : Path (Remit.sparing user A spared) false s { s with message, events := [] } :=
    .single (.quiet rfl rfl rfl rfl)
  have hclimbs := Climbs.runCommand (r := Remit.sparing user A spared) ⟨user, trivial⟩ trivial
    name text { s with message, events := [] } (howned.path hstart) (fun _ => trivial)
  rw [snd_run_command] at hdepth ⊢
  exact hstart.trans (hclimbs (.inr hdepth)) (by simp)

theorem Serves.path {A : Nat → Prop} {depth : Nat} (h : Serves user depth s t)
    (howned : Owned (Remit.sparing user A depth) s) :
    Path (Remit.sparing user A depth) false s t := by
  induction h with
  | refl s => exact .refl s
  | command name text message hdepth _ ih =>
    have hfirst := command_path howned name text message hdepth
    exact hfirst.trans (ih (howned.path hfirst)) (by simp)

/-! ### Calls and returns -/

theorem Request.perform_of_run {k : Keyword} {text v : Value} {message : Option Message}
    (h : (command k.name user text).run message s = (.ok v, t)) :
    k.perform user text { s with message, events := [] } = .ok () t := by
  have hserve : (command k.name user text).serve { s with message, events := [] } =
      .ok v t := by
    rw [run] at h
    split at h
    · rename_i hserve
      cases h
      exact hserve
    · cases h
  obtain ⟨_, t', hcommand, hlast⟩ := bind_ok_iff.1 hserve
  obtain ⟨k?, s', hknown, hperform⟩ := bind_ok_iff.1 hcommand
  cases hlast
  cases hinit : s.initialized with
  | false =>
    simp only [Keyword.known?, bind_apply, get_apply, pure_apply, hinit] at hknown
    cases hknown
    cases hperform
  | true =>
    simp only [Keyword.known?, bind_apply, get_apply, pure_apply, hinit, if_true,
      Keyword.ofName?_name] at hknown
    cases hknown
    exact hperform

theorem Request.exitScript_of_run {text v : Value} {message : Option Message}
    (h : (command "exit" user text).run message s = (.ok v, t)) :
    exitScript user { s with message, events := [] } = .ok () t :=
  perform_of_run (k := .exit) h

/-- Running a script and leaving it is a call and its return.  Whatever commands are given for the
user in between, as long as they leave the called script or one above it on the stack, the stack is
as before, and only the place of the calling script is one line on.  For this no list of the scripts
on the stack may be one of the host. -/
theorem Request.run_then_exit {user text text' v : Value} {message message' : Option Message}
    {s s' t : Session} {A : Nat → Prop} (hdepth : 0 < s.depthOf user) (hlends : s.Lends A)
    (hcallers : ∀ e ∈ s.stackOf user, e.ListsIn fun n => ¬ A n)
    (hcall : ((Request.command "run" user text).run message s).2.depthOf user =
      s.depthOf user + 1)
    (hserves : Serves user (s.depthOf user) ((Request.command "run" user text).run message s).2 s')
    (hexit : (Request.command "exit" user text').run message' s' = (.ok v, t))
    (hreturn : t.depthOf user = s.depthOf user) :
    ∃ c rest index bindings, s.stackOf user = .conversation c :: rest ∧
      c.index.addInt 1 = .ok index ∧ bindings.copied = c.bindings.copied ∧
      t.stackOf user = .conversation { c with index, bindings } :: rest := by
  have howned : Owned (Remit.sparing user A (s.depthOf user)) s :=
    ⟨hlends, fun c hc => by simp [Remit.sparing, depthOf] at hc⟩
  have hfirst := Request.command_path howned "run" text message (by omega)
  have hbottom : s.stackOf user <:+ s'.stackOf user :=
    (hfirst.trans (hserves.path (howned.path hfirst)) (b := false) (by simp)).keeps_bottom rfl
      hcallers (List.suffix_refl _)
  obtain ⟨e, c, rest, index, bindings, hstack, hindex, hbindings, ht⟩ :=
    exitScript_ok (exitScript_of_run hexit) (by omega)
  refine ⟨c, rest, index, bindings, ?_, hindex, hbindings, ht⟩
  have hstack' : s'.stackOf user = e :: .conversation c :: rest := hstack
  have hlength : (s.stackOf user).length = rest.length + 1 := by
    simpa [depthOf, ht] using hreturn.symm
  rw [hstack'] at hbottom
  obtain hself | htail := List.suffix_cons_iff.1 hbottom
  · simp [hself] at hlength
  · exact htail.eq_of_length hlength

/-- A script with a variable, and another one on disk.  The languages of the user are the list 0 of the
host, and the variable holds a list of the same languages with a number of its own or not. -/
def Session.ofCaller (number : Nat) : Session :=
  let caller : Conversation :=
    { scriptMeta := .null, filename := "demo", startTime := 0
      bindings := .object [("x", .list ["en"] (some number))], speaker := Value.emptyTable }
  let called := "[[], \x7b\x7d, \x7b\"y\": [\"old\"]\x7d, \x7b\x7d, \x7b\x7d, -1, \"\", null, null, \x7b\x7d]"
  { initialized := true
    root := "/skill"
    files := Files.addFile {} (scriptFolder ++ ["other.ncs"]) called
    host := { preferences := .object [("user", .object [("languages", .list ["en"] (some 0))])] }
    active := [("ann", { user := "ann", stack := [.conversation caller] })]
    lists := 2 }

def Session.commanded (name text : Value) (s : Session) : Session :=
  ((Request.command name "ann" text).run (some {}) s).2

def Session.inCalled (number : Nat) : Session :=
  commanded "set" "y = profile(user.languages)" (commanded "run" "other" (ofCaller number))

def Entry.sizeOfX : Entry → Option Nat
  | .conversation c => (c.bindings.copied.item "x" >>= Value.size).toOption
  | .foreign _ => none

theorem Request.exists_ok_of_isOk {x : Except Fault Value × Session} (h : x.1.isOk = true) :
    ∃ v, x = (.ok v, x.2) := by
  obtain ⟨result, s⟩ := x
  cases result with
  | error fault => cases h
  | ok v => exact ⟨v, rfl⟩

/-- A list of the calling script's own is as before when the script goes on. -/
theorem Request.run_then_exit_own : ∃ c rest index bindings,
    (ofCaller 1).stackOf "ann" = .conversation c :: rest ∧ c.index.addInt 1 = .ok index ∧
      bindings.copied = c.bindings.copied ∧
      (commanded "exit" .null (inCalled 1)).stackOf "ann" =
        .conversation { c with index, bindings } :: rest := by
  have hlends : (ofCaller 1).Lends fun n => n ≠ 1 := by
    refine ⟨fun n hn => ?_, by simp [ofCaller, Value.object], trivial, trivial⟩
    have : 2 ≤ n := hn
    omega
  have hcallers : ∀ e ∈ (ofCaller 1).stackOf "ann", e.ListsIn fun n => ¬ n ≠ 1 := by
    simp [stackOf, managerIn, ofCaller, Value.str_same, Entry.ListsIn, Conversation.ListsIn,
      Value.object]
  have hchecks : 0 < (ofCaller 1).depthOf "ann" ∧
      (commanded "run" "other" (ofCaller 1)).depthOf "ann" = (ofCaller 1).depthOf "ann" + 1 ∧
      (ofCaller 1).depthOf "ann" < (inCalled 1).depthOf "ann" ∧
      ((Request.command "exit" "ann" .null).run (some {}) (inCalled 1)).1.isOk = true ∧
      (commanded "exit" .null (inCalled 1)).depthOf "ann" = (ofCaller 1).depthOf "ann" := by
    decide +kernel
  -- Without the names of the sessions, so that the commands are not run once more.
  rw [inCalled, commanded, commanded, commanded] at hchecks ⊢
  obtain ⟨hdepth, hcall, hdeeper, hok, hreturn⟩ := hchecks
  obtain ⟨v, hexit⟩ := exists_ok_of_isOk hok
  exact run_then_exit hdepth hlends hcallers hcall (.command _ _ _ hdeeper (.refl _)) hexit hreturn

/-- A list of the host that the calling script's variable holds as well is changed there when the
script goes on. -/
theorem Request.run_then_exit_shared : ¬ ∃ c rest index bindings,
    (ofCaller 0).stackOf "ann" = .conversation c :: rest ∧ c.index.addInt 1 = .ok index ∧
      bindings.copied = c.bindings.copied ∧
      (commanded "exit" .null (inCalled 0)).stackOf "ann" =
        .conversation { c with index, bindings } :: rest := by
  rintro ⟨c, rest, index, bindings, hbefore, -, hbindings, hafter⟩
  have hsize : ((commanded "exit" .null (inCalled 0)).stackOf "ann").map Entry.sizeOfX ≠
      ((ofCaller 0).stackOf "ann").map Entry.sizeOfX := by decide +kernel
  rw [hafter, hbefore] at hsize
  exact hsize (by simp only [List.map_cons, Entry.sizeOfX, hbindings])

end Colloquy
