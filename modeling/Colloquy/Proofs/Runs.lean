import Colloquy.Proofs.Computations
import Colloquy.Proofs.Turns

/-! Runs of lines.  Lines that go on are run one after the other within the same call, so what the
last of them does decides how the call ends; what is done about lines that fail has nothing
spoken. -/

namespace Colloquy

open Session Execution Command Manager

/-! ### Silence -/

/-- A computation that has nothing spoken, whether or not it fails. -/
def Silent {α : Type} (m : Run α) : Prop :=
  ∀ s : Session, (s.after m).spoken = s.spoken

namespace Silent

theorem law (user : Value) : Run.LookLaw user fun {_} m => Silent m :=
  .of_relation (R := fun s t => t.spoken = s.spoken) (fun _ => rfl) (fun h h' => h'.trans h) user

theorem modify {f : Session → Session} (h : ∀ s, (f s).events = s.events) :
    Silent (modify f : Run Unit) :=
  fun s => spoken_congr (h s)

theorem tell {event : Event} (h : said event = none) : Silent (tell event) := by
  intro s
  have hcons := spoken_cons event s
  rw [h, Option.toList_none, List.append_nil] at hcons
  exact hcons

theorem edit {α : Type} (user : Value) (body : Edit α) : Silent (Session.edit user body) := by
  intro s
  obtain ⟨fault, herror⟩ | ⟨m, c, rest, hkey, hm, hstack, -⟩ := current_cases user s
  · rw [after, Session.edit, bind_of_error herror]
  · rw [after, edit_eq hkey hm hstack]
    cases body { conversation := c } with
    | ok a draft => exact spoken_congr (by simp [kept, withChanges_eq])
    | error fault draft => exact spoken_congr (by simp [kept, withChanges_eq])

theorem exitScript (user : Value) : Silent (exitScript user) := by
  have h := law user
  refine h.exit (fun _ _ => h.bind h.theMessage fun _ => modify fun _ => rfl) (fun event he => ?_)
    (fun _ => modify fun _ => rfl) (edit user) (h.drop (fun _ => rfl) (modify fun _ => rfl))
  refine tell ?_
  cases event with
  | speak text voice => exact (he text voice rfl).elim
  | _ => rfl

end Silent

/-! ### Runs -/

/-- A number of lines is run, each of which goes on. -/
inductive Goes (user : Value) : Nat → Session → Session → Prop
  | refl (s : Session) : Goes user 0 s s
  | step {n : Nat} {s t u : Session} (hmessage : s.message.isSome = true)
      (hline : advance user s = .ok true t) (hrest : Goes user n t u) : Goes user (n + 1) s u

namespace Goes

variable {user : Value} {n k : Nat} {s t u : Session}

theorem trans (h : Goes user n s t) (h' : Goes user k t u) : Goes user (n + k) s u := by
  induction h with
  | refl s => rwa [Nat.zero_add]
  | step hmessage hline _ ih =>
    rw [Nat.add_right_comm]
    exact .step hmessage hline (ih h')

end Goes

def giveUp (user : Value) (report : Report) : Run Unit := do
  tellError "unknown" report
  exitScript user

theorem Silent.giveUp (user : Value) (report : Report) : Silent (giveUp user report) :=
  (law user).bind (tell rfl) fun _ => exitScript user

theorem proceed_succ {user : Value} {s : Session} (hmessage : s.message.isSome = true)
    (budget : Nat) :
    proceed (budget + 1) user s = rescue (do if ← advance user then proceed budget user)
      (fun _ => giveUp user (reportFor s user)) s := by
  obtain ⟨m, hm⟩ := Option.isSome_iff_exists.1 hmessage
  rw [proceed, bind_of_ok (theMessage_of_some hm), bind_of_ok (get_apply s)]
  rfl

theorem proceed_of_advance {user : Value} {s t : Session} (hmessage : s.message.isSome = true)
    (hline : advance user s = .ok true t) (budget : Nat) :
    proceed (budget + 1) user s =
      rescue (proceed budget user) (fun _ => giveUp user (reportFor s user)) t := by
  rw [proceed_succ hmessage, rescue, bind_of_ok hline, if_pos rfl]
  rfl

namespace Goes

variable {user : Value} {n : Nat} {s t : Session}

theorem proceed_stepLimit (h : Goes user n s t) {budget : Nat} (hbudget : budget ≤ n) :
    ∃ u, proceed budget user s = .error .stepLimit u := by
  induction h generalizing budget with
  | refl s =>
    obtain rfl := Nat.le_zero.1 hbudget
    exact ⟨s, rfl⟩
  | step hmessage hline _ ih =>
    cases budget with
    | zero => exact ⟨_, rfl⟩
    | succ budget =>
      obtain ⟨u, hu⟩ := ih (Nat.le_of_succ_le_succ hbudget)
      exact ⟨u, by rw [proceed_of_advance hmessage hline, rescue, hu]⟩

theorem proceed_spoken (h : Goes user n s t) (budget : Nat) :
    (s.after (proceed (budget + n) user)).spoken = (t.after (proceed budget user)).spoken := by
  induction h with
  | refl s => rfl
  | @step n s t u hmessage hline _ ih =>
    rw [← ih, ← Nat.add_assoc]
    simp only [after]
    rw [proceed_of_advance hmessage hline]
    cases hrun : proceed (budget + n) user t with
    | ok a v => rw [rescue_of_ok hrun]
    | error fault v =>
      by_cases hfault : fault = .stepLimit
      · rw [rescue, hrun, hfault]
      · rw [rescue_of_error hrun hfault]
        exact Silent.giveUp user _ v

theorem proceed_ok (h : Goes user n s t) {budget : Nat} {u : Session}
    (hend : proceed budget user t = .ok () u) : proceed (budget + n) user s = .ok () u := by
  induction h with
  | refl s => exact hend
  | step hmessage hline _ ih =>
    rw [← Nat.add_assoc, proceed_of_advance hmessage hline, rescue_of_ok (ih hend)]

end Goes

/-- At most as many lines as given lead to the line `i`, and have the texts given spoken. -/
def Leads (user : Value) (lines : List Value) (names : Entries) (s : Session) (most i : Nat)
    (said : List Value) : Prop :=
  ∃ n t, n ≤ most ∧ Goes user n s t ∧ Standing user lines names i t ∧ Alike user s t ∧
    t.spoken = s.spoken ++ said

namespace Leads

variable {user : Value} {lines : List Value} {names : Entries} {i j most most' : Nat}
  {s : Session} {said said' : List Value}

theorem refl (h : Standing user lines names i s) : Leads user lines names s 0 i [] :=
  ⟨0, s, Nat.le_refl 0, .refl s, h, .refl user s, (List.append_nil _).symm⟩

theorem line (h : Standing user lines names i s)
    (hline : ∃ t, advance user s = .ok true t ∧ Standing user lines names j t ∧ Alike user s t ∧
      t.spoken = s.spoken ++ said) : Leads user lines names s 1 j said := by
  obtain ⟨t, hadvance, hstage, halike, hspoken⟩ := hline
  obtain ⟨m, hm, -⟩ := h.message
  exact ⟨1, t, Nat.le_refl 1, .step (by rw [hm]; rfl) hadvance (.refl t), hstage, halike, hspoken⟩

theorem trans (h : Leads user lines names s most i said)
    (h' : ∀ t, Standing user lines names i t → Alike user s t →
      Leads user lines names t most' j said') :
    Leads user lines names s (most + most') j (said ++ said') := by
  obtain ⟨n, t, hn, hgoes, hstage, halike, hspoken⟩ := h
  obtain ⟨k, u, hk, hgoes', hstage', halike', hspoken'⟩ := h' t hstage halike
  refine ⟨n + k, u, by omega, hgoes.trans hgoes', hstage', halike.trans halike', ?_⟩
  rw [hspoken', hspoken, List.append_assoc]

theorem cast {i' : Nat} (h : Leads user lines names s most i said) (hmost : most ≤ most')
    (hi : i = i') (hsaid : said = said') : Leads user lines names s most' i' said' := by
  subst hi hsaid
  obtain ⟨n, t, hn, hrest⟩ := h
  exact ⟨n, t, by omega, hrest⟩

end Leads

/-! ### The last line -/

/-- The conversation of the user can be asked for its fields. -/
def Session.Answers (user : Value) (s : Session) : Prop :=
  ∀ m c, managerIn s.active user = some m → m.stack = [.conversation c] →
    c.callable "get" = .ok ()

namespace Stage

variable {user : Value} {lines : List Value} {names : Entries} {i indent : Nat} {s t : Session}

theorem answers (h : Stage user lines names i s) (halike : Alike user s t)
    (hanswers : s.Answers user) : t.Answers user := by
  intro m' c' hm' hstack'
  obtain ⟨m, c, -, hm, hstack, -⟩ := h.current
  obtain ⟨m₁, c₁, hm₁, hstack₁, -, hbare⟩ := halike.current hm hstack
  rw [hm₁] at hm'
  obtain rfl := Option.some.inj hm'
  rw [hstack₁] at hstack'
  obtain ⟨rfl⟩ := hstack'
  have hextras : c'.callable "get" = c.callable "get" :=
    (congrArg (Conversation.callable · "get") hbare :)
  rw [hextras, hanswers m c hm hstack]

theorem exitScript_cases (h : Stage user lines names i s) :
    (∃ t, exitScript user s = .ok () t ∧ managerIn t.active user = none) ∨
      ¬ s.Answers user ∧ ∃ t, exitScript user s = .error .wrongKind t := by
  obtain ⟨message, hmessage, -⟩ := h.message
  obtain ⟨m, c, -, hm, hstack, hat, -⟩ := h.current
  obtain ⟨entries, hentries, -⟩ := Value.table_of_copied hat.bindings
  rw [exitScript_eq h.isKey (Option.isSome_of_eq_some hmessage) hm hstack]
  by_cases hget : c.extras.any (·.1 == "get") = true
  · have hcallable : c.callable "get" = .error .wrongKind := if_pos hget
    refine .inr ⟨fun hanswers => ?_, ?_⟩
    · have := hanswers m c hm hstack
      rw [hcallable] at this
      cases this
    · have hpublish : publish { m with stack := [] } c = .error .wrongKind := by
        rw [publish, hcallable]
        rfl
      simp only [hpublish]
      exact ⟨_, bind_of_error (lift_error_apply _ _)⟩
  · have hcallable : c.callable "get" = .ok () := if_neg hget
    obtain ⟨scope, hpublish⟩ : ∃ scope, publish { m with stack := [] } c =
        .ok { m with stack := [], scope } := by
      refine ⟨?scope, ?published⟩
      case published =>
        rw [publish, hcallable, hentries]
        rfl
    simp only [hpublish]
    rw [bind_of_ok (lift_ok_apply _ _), bind_of_ok (setManager_apply _ _ _),
      if_neg (by simp),
      bind_of_ok (dropManager_of_some h.isKey (managerIn_replaced_self
        (managerIn_replaced_self (by exact hm) _) _)), bind_of_ok (get_apply _)]
    split
    · exact .inl ⟨_, rfl, managerIn_filter_self _ user⟩
    · exact .inl ⟨_, rfl, managerIn_filter_self _ user⟩

/-- The line that ends a script has nothing spoken and drops the user, unless the script does not
answer. -/
theorem proceed_exit (h : Stage user lines names i s) {text : String} {number data : Value}
    (hline : lines[i]? = some (lineOf Keyword.exit.name indent text number data))
    (hplain : Plain names text) (hdata : PlainData data) (budget : Nat) :
    (s.after (proceed (budget + 1) user)).spoken = s.spoken ∧
      (s.Answers user → ∃ t, proceed (budget + 1) user s = .ok () t ∧
        managerIn t.active user = none) := by
  obtain ⟨message, hmessage, -⟩ := h.message
  obtain ⟨t, text', hstanding, halike, hevents, hadvance⟩ :=
    h.standing.advance_line (k := .exit) hline hplain
  obtain ⟨message', hm, -⟩ := hstanding.message
  obtain ⟨u, hpass, haside, -⟩ := passData_ok hm .exit user (lineOf_data _ _ _ _ _) hdata
  have hstage := h.of_standing (hstanding.aside haside) (halike.trans (haside.alike user))
  have hspoken : u.spoken = s.spoken := by rw [haside.spoken, spoken_congr hevents]
  have hexit := Silent.exitScript user u
  rw [bind_of_ok hpass] at hadvance
  rw [after, proceed_succ (by rw [hmessage]; rfl)]
  obtain ⟨v, hleft, hnone⟩ | ⟨hanswers, v, herror⟩ := hstage.exitScript_cases
  · have hend : advance user s = .ok false v := by
      rw [hadvance, show Keyword.exit.perform user text' = exitScript user from rfl,
        bind_of_ok hleft, bind_of_ok (manager?_of_isKey h.isKey v), hnone]
      rfl
    have hlines : (do if ← advance user then proceed budget user : Run Unit) s = .ok () v :=
      bind_of_ok hend
    rw [rescue_of_ok hlines]
    rw [after, hleft] at hexit
    exact ⟨hexit.trans hspoken, fun _ => ⟨v, rfl, hnone⟩⟩
  · have hend : advance user s = .error .wrongKind v := by
      rw [hadvance, show Keyword.exit.perform user text' = exitScript user from rfl,
        bind_of_error herror]
    have hlines : (do if ← advance user then proceed budget user : Run Unit) s =
        .error .wrongKind v := bind_of_error hend
    rw [rescue_of_error hlines (by decide)]
    rw [after, herror] at hexit
    refine ⟨(Silent.giveUp user _ v).trans (hexit.trans hspoken), fun h' => ?_⟩
    exact absurd (h.answers (halike.trans (haside.alike user)) h') hanswers

end Stage

end Colloquy
