import Colloquy.Proofs.Responses

/-! Counters of responses.  Of all commands only the one that answers with a pattern changes the
counters of a script, and only those of the script that it is given for.  Whatever else a command
does, be it that it fails, the scripts of the user that are still there have their counters, and a
script that is called starts with none. -/

namespace Colloquy

open Session

variable {α : Type} {user : Value} {s t : Session}

/-! ### Leaving scripts and calling functions -/

theorem Session.after_edit_tallies {m : Manager} {c : Conversation} {rest : List Entry}
    (hkey : user.isKey = true) (hm : managerIn s.active user = some m)
    (hstack : m.stack = .conversation c :: rest) (body : Edit α) :
    (s.after (edit user body)).tallies user =
      some (Draft.after body { conversation := c }).conversation.counters ::
        rest.map Entry.tally := by
  rw [after_edit_of_stack hkey hm hstack, tallies, stackOf_kept_self _ hm hstack, List.map_cons,
    Entry.map_tally_changedBy]
  rfl

theorem Leaves.tallies_suffix (h : Leaves user s t) : t.tallies user <:+ s.tallies user := by
  have hrest {m : Manager} {c : Conversation} {rest : List Entry}
      (hm : managerIn s.active user = some m) (hstack : m.stack = .conversation c :: rest) :
      rest.map Entry.tally <:+ s.tallies user := by
    rw [tallies, stackOf_eq hm, hstack]
    exact List.suffix_cons _ _
  cases h with
  | stay | idle => exact List.suffix_refl _
  | stuck events hm hstack =>
    rw [tallies, stackOf_replaced_self (by exact hm)]
    exact hrest hm hstack
  | back events scope hm hstack =>
    refine (KeepsTallies.edit user (Fixes.counters.step 1) _).trans ?_
    rw [tallies, stackOf_replaced_self (by exact hm)]
    exact hrest hm hstack
  | last events hm hstack =>
    rw [tallies, stackOf, managerIn_filter_self]
    exact List.nil_suffix

namespace KeepsTallies

theorem exitScript : KeepsTallies user (exitScript user) :=
  fun s => (exitScript_leaves user s).tallies_suffix

theorem editLeft (c : Conversation) (body : Edit α) : KeepsTallies user (editLeft c body) := by
  intro s
  obtain ⟨changes, hafter⟩ := after_editLeft c body s
  rw [hafter, tallies, stackOf_withChanges, Entry.map_tally_changedBy]
  exact List.suffix_refl _

theorem editSince (depth : Nat) (c : Conversation) {body : Edit α}
    (hbody : Fixes (·.conversation.counters) body) :
    KeepsTallies user (editSince user depth c body) := by
  refine look (.manager? user) fun m? => ?_
  cases m? with
  | none => exact editLeft c body
  | some m => exact ite (edit user hbody) (editLeft c body)

theorem law (user : Value) :
    Run.Law user (fun {_} m => KeepsTallies user m) (fun {_} m => KeepsTallies user m) where
  toLookLaw := lookLaw user
  tell event := .of_holdsPlace (.tell event)
  sleep milliseconds := .of_holdsPlace (.sleep milliseconds)
  addTranscript text filename startTime := .of_holdsPlace (.addTranscript text filename startTime)
  ask _ := .edit user (.update fun _ => rfl)
  step := .edit user (Fixes.counters.step 1)
  stepAsking _ := .edit user (.bind (Fixes.counters.step 1) fun _ => .update fun _ => rfl)
  before := .bind
  after := .bind
  lookAfter _ hf := .look .get hf

theorem substitute (line : Value) (wildcards : Bool) :
    KeepsTallies user (Substitution.substitute user line wildcards) :=
  (law user).substitute_calling (law user).tell exitScript (.of_holdsPlace (.of_active fun _ => rfl))
    (fun _ => .edit user (.update fun _ => rfl)) line wildcards

end KeepsTallies

theorem Command.call_tallies (text : Value) (s : Session) :
    (s.after (Command.call user text)).tallies user <:+ s.tallies user ∨
      s.tallies user <:+ (s.after (Command.call user text)).tallies user := by
  have hcalls := Command.call_calls user text s
  generalize s.after (Command.call user text) = t at hcalls
  cases hcalls with
  | stay reads => exact .inl (List.suffix_refl _)
  | missing events => exact .inl (KeepsTallies.edit user (Fixes.counters.step 1) { s with events })
  | run hkey hm hstack =>
    rw [after_edit_tallies hkey (managerIn_replaced_self (by exact hm) _) rfl, tallies,
      stackOf_eq hm]
    exact .inr (List.suffix_cons _ _)

/-- Whatever a command does, it leaves the counters of the scripts alone that it finds and that are
still there. -/
theorem Keyword.perform_tallies {k : Keyword} (hk : k ≠ .subKey) (text : Value) (s : Session) :
    (s.after (k.perform user text)).tallies user <:+ s.tallies user ∨
      s.tallies user <:+ (s.after (k.perform user text)).tallies user := by
  have law := KeepsTallies.law user
  cases hstraight : k.isStraight with
  | true => exact .inl ((perform_stepsOn hstraight user text).tallies s)
  | false =>
    cases k with
    | subKey => exact absurd rfl hk
    | run => exact Command.call_tallies text s
    | loop =>
      exact .inl (law.loop (fun _ => .edit user (Fixes.counters.endLoop _)) law.step text s)
    | case =>
      exact .inl (law.case (fun _ => .edit user (Fixes.counters.chooseCase _))
        (.edit user (Fixes.counters.step _)) .exitScript text s)
    | exit => exact .inl (KeepsTallies.exitScript s)
    | branch => exact .inl (law.branch (fun _ => .edit user (Fixes.counters.steps.enterIf _)) text s)
    | otherwise => exact .inl (law.otherwise (.edit user Fixes.counters.steps.passElse) .exitScript s)
    | goto =>
      exact .inl (law.goto (fun _ _ => .edit user (.bind (.lift _) fun _ =>
        Fixes.counters.jump _ _ _)) law.step text s)
    | _ => cases hstraight

end Colloquy
