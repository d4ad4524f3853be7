import Colloquy.Proofs.Confined

/-! Leaving a script keeps within the remit of its user, and moves: the script is off the stack. -/

namespace Colloquy.Confined

open Session

variable {user : Value} {s t : Session}

variable {r : Remit} {P : Prop}

theorem publish_eq {m m' : Manager} {c : Conversation} (h : m.publish c = .ok m') :
    ∃ scope, m' = { m with scope } := by
  obtain ⟨-, -, hrest⟩ := except_bind_ok_iff.1 h
  obtain ⟨bindings, -, hlast⟩ := except_bind_ok_iff.1 hrest
  exact ⟨_, (Except.ok.inj hlast).symm⟩

theorem afterPop (depth : Nat) :
    Confined r P (if depth != 0 then Session.edit r.user (Edit.step 1) else do
      Session.dropManager r.user
      if (← MonadState.get).host.hasDisplay.truthy then Session.tell .clearDisplay) := by
  refine ite (edit fun _ => .step (by decide)) ?_
  refine seq dropManager fun _ => seq get fun s => ?_
  exact ite (tell _) (pure fun _ => trivial)

theorem exitScript : Confined r P (exitScript r.user) true := by
  intro s
  obtain ⟨fault, t, hexit, ht⟩ | ⟨m, c, rest, hkey, hmessage, hm, hstack⟩ := exitScript_cases r.user s
  · have hquiet : Quiet s t := by
      obtain rfl | rfl := ht
      · exact .refl t
      · exact ⟨rfl, rfl, rfl, rfl, by cases s.message <;> rfl⟩
    rw [hexit]
    exact ⟨hquiet.steady, fun _ _ _ _ => hquiet.path⟩
  have hquiet : Quiet s (s.toldExit r.user c) :=
    ⟨rfl, rfl, rfl, rfl, by simp only [toldExit]; cases s.message <;> rfl⟩
  have hm : managerIn (s.toldExit r.user c).active r.user = some m := hm
  have hpath (hlive : Live r (replaced r.user { m with stack := rest } (s.toldExit r.user c))) :
      Path r true s (replaced r.user { m with stack := rest } (s.toldExit r.user c)) :=
    hquiet.path.trans (.single (Step.pop hlive hm hstack)) .inr
  have hsteady : Steady r s (replaced r.user { m with stack := rest } (s.toldExit r.user c)) := by
    refine hquiet.steady.trans ⟨fun _ => ?_, rfl⟩
    simp [depthOf, stackOf_replaced_self hm, stackOf_eq hm, hstack]
  rw [exitScript_eq hkey hmessage (by exact hm) hstack]
  cases hpublish : Manager.publish { m with stack := rest } c with
  | error fault =>
    rw [bind_of_error (lift_error_apply _ _)]
    exact ⟨hsteady, fun _ _ _ hlive => (hpath hlive).weaken (by simp)⟩
  | ok m' =>
    rw [bind_of_ok (lift_ok_apply _ _), bind_of_ok (setManager_apply _ _ _)]
    obtain ⟨scope, rfl⟩ := publish_eq hpublish
    have hm' := managerIn_replaced_self hm { m with stack := rest }
    have hsteady' : Steady r (replaced r.user { m with stack := rest } (s.toldExit r.user c))
        (replaced r.user { m with stack := rest, scope }
          (replaced r.user { m with stack := rest } (s.toldExit r.user c))) :=
      .of_stack (by rw [stackOf_replaced_self hm', stackOf_eq hm']) rfl
    refine (afterPop rest.length).after (hsteady.trans hsteady')
      (fun hP _ _ hlive => ⟨?_, hP⟩) .inl
    exact (hpath (hsteady'.live hlive)).trans (.single (.publish scope hm')) (b := true) .inl

theorem exits : Confined r P (Colloquy.exitScript r.user) :=
  forget exitScript

end Colloquy.Confined

namespace Colloquy

open Session

/-- Going on by a line keeps all entries below the running script, and of that script all but its
place; its variables stay the same up to the numbers of lists. -/
theorem Session.edit_step_ok {n : Int} (h : edit user (Edit.step n) s = .ok () t) :
    ∃ c rest index bindings, s.stackOf user = .conversation c :: rest ∧
      c.index.addInt n = .ok index ∧ bindings.copied = c.bindings.copied ∧
      t.stackOf user = .conversation { c with index, bindings } :: rest := by
  obtain ⟨fault, herror⟩ | ⟨m, c, rest, hkey, hm, hstack, -⟩ := current_cases user s
  · rw [edit, bind_of_error herror] at h
    cases h
  rw [edit_eq hkey hm hstack] at h
  cases hindex : c.index.addInt n with
  | error fault =>
    simp only [Edit.step, Edit.read, bind_apply, get_apply, pure_apply, hindex, lift_error_apply] at h
    cases h
  | ok index =>
    simp only [Edit.step, Edit.read, Edit.update, bind_apply, get_apply, pure_apply, hindex,
      lift_ok_apply, modify_apply] at h
    cases h
    refine ⟨c, rest, index, _, by rw [stackOf_eq hm, hstack], hindex,
      Value.copied_numbered c.bindings s.lists, ?_⟩
    rw [stackOf_kept_self _ hm hstack, settled]
    exact congrArg _ (List.map_id rest)

theorem Session.dropManager_ok (h : dropManager user s = .ok () t) :
    t.active = s.active.filter fun (x, _) => !x.same user := by
  rw [dropManager, bind_of_ok (get_apply s)] at h
  split at h
  · simp only [bind_apply, throw_apply] at h
    cases h
  · obtain ⟨fault, herror⟩ | ⟨m, -, -, hat⟩ := managerAt_cases user s
    · simp only [bind_of_error herror] at h
      cases h
    · simp only [bind_of_ok hat, modify_apply] at h
      cases h
      rfl

theorem exitScript_ok (h : exitScript user s = .ok () t) (hdepth : 0 < t.depthOf user) :
    ∃ e c rest index bindings, s.stackOf user = e :: .conversation c :: rest ∧
      c.index.addInt 1 = .ok index ∧ bindings.copied = c.bindings.copied ∧
      t.stackOf user = .conversation { c with index, bindings } :: rest := by
  obtain ⟨fault, u, hexit, -⟩ | ⟨m, c, rest, hkey, hmessage, hm, hstack⟩ := exitScript_cases user s
  · rw [hexit] at h
    cases h
  rw [exitScript_eq hkey hmessage hm hstack] at h
  obtain ⟨m', _, hlift, h⟩ := bind_ok_iff.1 h
  obtain ⟨hpublish, rfl⟩ := lift_ok_iff.1 hlift
  obtain ⟨scope, rfl⟩ := Confined.publish_eq hpublish
  have hm' := managerIn_replaced_self (s := s.toldExit user c) hm { m with stack := rest }
  rw [bind_of_ok (setManager_apply _ _ _)] at h
  split at h
  · obtain ⟨next, below, index, bindings, hnext, hindex, hbindings, ht⟩ := edit_step_ok h
    rw [stackOf_replaced_self hm'] at hnext
    exact ⟨.conversation c, next, below, index, bindings, by rw [stackOf_eq hm, hstack, ← hnext],
      hindex, hbindings, ht⟩
  · obtain ⟨_, u, hdrop, hlast⟩ := bind_ok_iff.1 h
    have hquiet : Quiet u t := (Still.bind .get fun _ _ =>
      .ite (.tell _) (.pure trivial)).quiet_of_ok hlast
    rw [depthOf, stackOf, hquiet.active, dropManager_ok hdrop, managerIn_filter_self] at hdepth
    exact absurd hdepth (Nat.lt_irrefl 0)

end Colloquy
