import Colloquy.Proofs.History
import Colloquy.Proofs.Waiting
import Mathlib.Data.List.Forall2

/-! What becomes of the words of a user.  The host offers them to the script first, and to others if
the script has had no use for them.  Then the script and its user are as they were.  If it has had a
use for them, the time to answer starts anew, which fails if the words have ended the last script of
the user. -/

namespace Colloquy

open Session Message

/-- A computation that only looks at the session fails at once, or the rest goes on from there. -/
theorem Looks.bind_cases {α β : Type} {s : Session} {m : Run α} {f : α → Run β}
    {P : EStateM.Result Fault Session β → Prop} (hm : Looks m) (herror : ∀ fault, P (.error fault s))
    (hok : ∀ a, m s = .ok a s → P (f a s)) : P ((m >>= f) s) := by
  have hsame := hm s
  cases hrun : m s with
  | ok a t =>
    rw [after_of_ok hrun] at hsame
    subst hsame
    rw [bind_of_ok hrun]
    exact hok a hrun
  | error fault t =>
    rw [after_of_error hrun] at hsame
    subst hsame
    rw [bind_of_error hrun]
    exact herror fault

def Running.faultOf {α : Type} (m : Run α) (s : Session) : Option Fault :=
  match m s with
  | .ok .. => none
  | .error fault _ => some fault

def Message.saying (said : String) : Message :=
  { data := [("utterances", .ofItems [said])], context := [("user", "ann")] }

theorem Message.user_saying (said : String) : (saying said).user = "ann" := by
  simp [saying, user, Entries.find?, Value.str_same]

def Conversation.ofAnswer (awaited : String) (lines : List Value) : Conversation :=
  { ofLines lines with
    bindings := .object [("y", .ofItems []), ("drinks", .ofItems ["tea", "milk"])]
    timeout := .int 60
    awaited }

def Session.ofAnswer (awaited said : String) (lines : List Value) : Session :=
  { initialized := true
    root := "/skill"
    message := some (.saying said)
    active := [("ann", { user := "ann", stack := [.conversation (.ofAnswer awaited lines)] })]
    awaiting := ["ann"]
    lists := 1 }

namespace Listening

variable {s t : Session} {m : Message} {c : Conversation} {user : Value} {consumed : Bool}

/-! ### Words that are given to a script -/

/-- The words of a message are given to the running script of its user.  They neither ask to stop nor
come from a script. -/
structure Passes (s : Session) (m : Message) (c : Conversation) : Prop where
  message : s.message = some m
  context : m.context.isEmpty = false
  words : ∃ heard first, Entries.find? "utterances" m.data = some heard ∧ heard.truthy = true ∧
    heard.item (.int 0) = .ok first ∧ (Text.words first.display).contains "stop" = false
  origin : ∃ v, ((Entries.find? "cc_data" m.context).getD .emptyTable).get "execute_from_script" =
    .ok v ∧ v.truthy = false
  isKey : m.user.isKey = true
  running : ∃ below, s.stackOf m.user = .conversation c :: below
  callable : c.callable "get" = .ok ()
  named : c.filename.truthy = true

def offer (user : Value) : Run Bool := do
  let consumed ← respond
  if consumed then restartTimeout user
  return consumed

/-- What can become of words: they are given to a script, or nothing is done at all. -/
inductive Fate (s : Session) : EStateM.Result Fault Session Bool → Prop
  | passed {m : Message} {c : Conversation} (h : Passes s m c) : Fate s (offer m.user s)
  | declined : Fate s (.ok false s)
  | failed (fault : Fault) : Fate s (.error fault s)

theorem converse_fate (s : Session) : Fate s (converse s) := by
  refine Looks.theMessage.bind_cases .failed fun m hmessage => ?_
  replace hmessage := theMessage_ok hmessage
  refine (Looks.datum _ _).bind_cases .failed fun heard hheard => ?_
  obtain rfl : (Entries.find? "utterances" m.data).getD .null = heard := by
    rw [datum_of_some hmessage] at hheard
    cases hheard
    rfl
  split
  · exact .declined
  rename_i hpresent
  refine (Looks.lift _).bind_cases .failed fun first hfirst => ?_
  split
  · exact .declined
  rename_i hstop
  refine (Looks.lift _).bind_cases .failed fun v horigin => ?_
  split
  · exact .declined
  rename_i hforeign
  refine (Looks.manager? _).bind_cases .failed fun manager? hmanager => ?_
  cases manager? with
  | none => exact .declined
  | some manager =>
    refine (Looks.lift _).bind_cases .failed fun c? htop => ?_
    cases c? with
    | none => exact .failed _
    | some c =>
      refine (Looks.lift _).bind_cases .failed fun _ hcallable => ?_
      split
      · exact .declined
      rename_i hnamed
      have hof : managerOf m.user s = .ok manager s := bind_of_ok hmanager
      obtain ⟨-, hkey, manager', below, hm, hstack⟩ := currentOf_ok ((bind_of_ok hof).trans htop)
      obtain ⟨hcontext, htruthy⟩ := Bool.or_eq_false_iff.1 (Bool.eq_false_iff.2 hpresent)
      refine .passed (m := m) (c := c) ⟨hmessage, hcontext, ?_, ⟨v, (lift_ok_iff.1 horigin).1, ?_⟩,
        hkey, ⟨below, (stackOf_eq hm).trans hstack⟩, (lift_ok_iff.1 hcallable).1, ?_⟩
      · cases hheard : Entries.find? "utterances" m.data with
        | none => simp [hheard, Value.truthy] at htruthy
        | some heard =>
          rw [hheard] at htruthy hfirst
          exact ⟨heard, first, rfl, by simpa using htruthy, (lift_ok_iff.1 hfirst).1,
            Bool.eq_false_iff.2 hstop⟩
      · exact Bool.eq_false_iff.2 hforeign
      · simpa using hnamed

theorem Passes.converse_eq (h : Passes s m c) : converse s = offer m.user s := by
  obtain ⟨heard, first, hheard, htruthy, hfirst, hstop⟩ := h.words
  obtain ⟨v, horigin, hforeign⟩ := h.origin
  obtain ⟨below, hstack⟩ := h.running
  obtain ⟨manager, hm, htop⟩ := exists_managerIn_of_stackOf hstack
  have hdatum : (datum "utterances" : Run Value) s = .ok heard s := by
    rw [datum_of_some h.message, hheard, Option.getD_some]
  have hpresent : ¬ (m.context.isEmpty || !heard.truthy) = true := by
    rw [h.context, htruthy]
    decide
  rw [converse, bind_of_ok (theMessage_of_some h.message), bind_of_ok hdatum, if_neg hpresent,
    hfirst, bind_of_ok (lift_ok_apply _ _), if_neg (by rw [hstop]; decide)]
  dsimp only
  rw [horigin, bind_of_ok (lift_ok_apply _ _), if_neg (by rw [hforeign]; decide),
    bind_of_ok (manager?_of_isKey h.isKey s), hm]
  dsimp only
  rw [bind_of_ok (top_of_stack htop s)]
  dsimp only
  rw [h.callable, bind_of_ok (lift_ok_apply _ _), h.named, if_neg (by decide)]
  rfl

/-! ### Words that were of use -/

/-- For how long the host is asked to wait for the user, if the script does not wait for ever. -/
def delay? (c : Conversation) : Except Fault (Option Int) := do
  if ← c.timeout.compare .greater (.int 0) then return some (← delaySeconds c.timeout)
  else return none

def renewal (user : Value) (m : Message) (seconds : Int) : List Event :=
  [.schedule (timeoutEvent user) (.int seconds) (.table (Entries.merge m.data m.context)),
    .cancel (timeoutEvent user)]

theorem delay?_of_int {n : Int} (h : c.timeout = .int n) (hpos : 0 < n) (hlimit : n < delayLimit) :
    delay? c = .ok (some n) := by
  have hwhole : (n * 1000000 + 0) / 1000000 = n := by omega
  have hseconds : delaySeconds (.int n) = .ok n := by
    simp only [delaySeconds, Value.toInt, bind, Except.bind, hwhole, if_neg (Int.not_le.2 hlimit)]
  simp only [delay?, h, Value.compare_int, bind, Except.bind, decide_eq_true hpos, if_true, hseconds]
  rfl

/-- The answer that words were of use, when the user was waited for anew if there is a time for it. -/
def renewed (user : Value) (m : Message) (s : Session) :
    Except Fault (Option Int) → EStateM.Result Fault Session Bool
  | .ok none => .ok true s
  | .ok (some seconds) => .ok true { s with events := renewal user m seconds ++ s.events }
  | .error fault => .error fault s

theorem restartTimeout_eq {below : List Entry} (hkey : user.isKey = true)
    (hmessage : s.message = some m) (hstack : s.stackOf user = .conversation c :: below) :
    (do restartTimeout user; return true : Run Bool) s = renewed user m s (delay? c) := by
  obtain ⟨manager, hm, htop⟩ := exists_managerIn_of_stackOf hstack
  rw [restartTimeout, bind_assoc, bind_of_ok (current_of_stack hkey hm htop), delay?]
  cases hpositive : c.timeout.compare .greater (.int 0) with
  | error fault => rfl
  | ok positive =>
    rw [bind_assoc, bind_of_ok (lift_ok_apply _ _)]
    cases positive with
    | false => rfl
    | true =>
      rw [if_pos rfl]
      cases hseconds : delaySeconds c.timeout with
      | error fault => rfl
      | ok seconds =>
        rw [bind_assoc, bind_of_ok (lift_ok_apply _ _), bind_assoc,
          bind_of_ok (theMessage_of_some hmessage)]
        rfl

theorem respond_message (h : respond s = .ok consumed t) (hmessage : s.message = some m) :
    ∃ m', t.message = some m' ∧ m'.user = m.user := by
  -- Whatever a script does, the message stays one of the same user.
  let role := Role.ofMessage (userOf s.message) s.message
  have hstable : Stable role fun _ => True := by
    constructor <;> intros <;> trivial
  have hacts : Acts role respond := .respond (Role.free_ofMessage _ _) fun user huser => huser
  obtain ⟨haware, -⟩ := hacts.after_keeps hstable (fun _ => id) (.ofMessage _ s) trivial
  rw [after_of_ok h] at haware
  have hsome : t.message.isSome = true := (haware.message _ rfl).trans (by rw [hmessage]; rfl)
  obtain ⟨m', hm'⟩ := Option.isSome_iff_exists.1 hsome
  have huser : userOf t.message = userOf s.message := haware.heard ⟨_, rfl⟩
  rw [hm', hmessage] at huser
  exact ⟨m', hm', huser⟩

/-- The words of a message are given to the script of its user, and the script has dealt with them.
If it had no use for them, this is the answer.  If it had, the user is waited for anew, where the
script that runs then does not wait for ever.  This fails if the user has no script any more, or if
the time to wait is no number or too large. -/
theorem Passes.converse_reports (h : Passes s m c) (hresponds : respond s = .ok consumed t) :
    ((∃ u, converse s = .ok consumed u) ↔ (consumed = true → ∃ c' below wait?,
      t.stackOf m.user = .conversation c' :: below ∧ delay? c' = .ok wait?)) ∧
    (consumed = false → converse s = .ok false t) ∧
    (consumed = true →
      (managerIn t.active m.user = none → converse s = .error .missingEntry t) ∧
      ∀ c' below, t.stackOf m.user = .conversation c' :: below →
        ∃ m', t.message = some m' ∧ m'.user = m.user ∧
          converse s = renewed m.user m' t (delay? c')) ∧
    ∀ c' n, Conversation.timeout c' = .int n → 0 < n → n < delayLimit → delay? c' = .ok (some n) := by
  have hoffer : converse s = (do
      if consumed then restartTimeout m.user
      return consumed) t := h.converse_eq.trans (bind_of_ok hresponds)
  obtain ⟨m', hmessage, huser⟩ := respond_message hresponds h.message
  have hrestarts (c' : Conversation) (below : List Entry)
      (hstack : t.stackOf m.user = .conversation c' :: below) (htrue : consumed = true) :
      converse s = renewed m.user m' t (delay? c') := by
    rw [hoffer, htrue, if_pos rfl]
    exact restartTimeout_eq h.isKey hmessage hstack
  refine ⟨⟨?_, ?_⟩, ?_, fun htrue => ⟨fun hnone => ?_, fun c' below hstack =>
    ⟨m', hmessage, huser, hrestarts c' below hstack htrue⟩⟩, fun c' n => delay?_of_int⟩
  · rintro ⟨u, hok⟩ htrue
    obtain ⟨fault, herror⟩ | ⟨manager, c', below, -, hm, hstack, -⟩ := current_cases m.user t
    · have hfails : restartTimeout m.user t = .error fault t := bind_of_error herror
      rw [hoffer, htrue, if_pos rfl, bind_of_error hfails] at hok
      cases hok
    · have hstack' : t.stackOf m.user = .conversation c' :: below := (stackOf_eq hm).trans hstack
      cases hdelay : delay? c' with
      | ok wait? => exact ⟨c', below, wait?, hstack', hdelay⟩
      | error fault =>
        rw [hrestarts c' below hstack' htrue, hdelay] at hok
        cases hok
  · intro hcurrent
    cases consumed with
    | false => exact ⟨t, hoffer⟩
    | true =>
      obtain ⟨c', below, wait?, hstack, hdelay⟩ := hcurrent rfl
      rw [hrestarts c' below hstack rfl, hdelay]
      cases wait? with
      | none => exact ⟨t, rfl⟩
      | some seconds => exact ⟨_, rfl⟩
  · rintro rfl
    exact hoffer
  · have hcurrent : current m.user t = .error .missingEntry t := by
      simp only [current, currentAt, managerAt, bind_apply, manager?_of_isKey h.isKey t, hnone,
        throw_apply]
    have hfails : restartTimeout m.user t = .error .missingEntry t := bind_of_error hcurrent
    rw [hoffer, htrue, if_pos rfl, bind_of_error hfails]

theorem passes_ofAnswer (awaited : String) {said : String} (lines : List Value)
    (hsaid : (Text.words said).contains "stop" = false) :
    Passes (ofAnswer awaited said lines) (.saying said) (.ofAnswer awaited lines) where
  message := rfl
  context := rfl
  words := ⟨.ofItems [said], said, by simp [Message.saying, Entries.find?, Value.str_same], rfl, rfl,
    hsaid⟩
  origin := ⟨.null, by
    simp [Message.saying, Entries.find?, Value.str_same, Value.emptyTable, Value.get, Value.isKey], rfl⟩
  isKey := by rw [user_saying]; rfl
  running := ⟨[], by
    rw [user_saying]; simp [stackOf, managerIn, ofAnswer, Value.str_same]⟩
  callable := rfl
  named := rfl

def patience : Entry → Option Int
  | .conversation { timeout := .int n, .. } => some n
  | _ => none

theorem patience_eq_some {e : Entry} {n : Int} (h : patience e = some n) :
    ∃ c, e = .conversation c ∧ c.timeout = .int n := by
  unfold patience at h
  split at h
  · cases h
    exact ⟨_, rfl, rfl⟩
  · cases h

/-- The user has answered and is asked again, with a minute to answer. -/
theorem Passes.converse_reports_again : ∃ m c t,
    Passes (ofAnswer "y" "tea" [.ofLine "voice_input" "voice_input(y)" 2 0 []]) (.saying "tea") c ∧
      respond (ofAnswer "y" "tea" [.ofLine "voice_input" "voice_input(y)" 2 0 []]) = .ok true t ∧
      converse (ofAnswer "y" "tea" [.ofLine "voice_input" "voice_input(y)" 2 0 []]) =
        .ok true { t with events := renewal "ann" m 60 ++ t.events } := by
  let s := ofAnswer "y" "tea" [.ofLine "voice_input" "voice_input(y)" 2 0 []]
  have hchecks : (Running.returned respond s = some true) ∧
      ((s.after respond).stackOf "ann").map patience = [some 60] := by decide +kernel
  have hresponds := Running.eq_ok_of_returned hchecks.1
  obtain ⟨e, rest, hstack, he, -⟩ := List.map_eq_cons_iff.1 hchecks.2
  obtain ⟨c', rfl, htimeout⟩ := patience_eq_some he
  have hpasses := passes_ofAnswer "y" [.ofLine "voice_input" "voice_input(y)" 2 0 []]
    (by decide : (Text.words "tea").contains "stop" = false)
  obtain ⟨-, -, hconsumed, hdelay⟩ := hpasses.converse_reports hresponds
  rw [Message.user_saying] at hconsumed
  obtain ⟨m', -, -, hconverse⟩ := (hconsumed rfl).2 c' rest hstack
  rw [hdelay c' 60 htimeout (by decide) (by decide)] at hconverse
  exact ⟨m', _, _, hpasses, hresponds, hconverse⟩

/-- The answer has ended the script of the user, whose time to answer is looked for then. -/
theorem Passes.converse_fails_of_exit : ∃ m c,
    Passes (ofAnswer "y" "tea" [.ofLine "exit" "" 2 0 []]) m c ∧
      Running.returned respond (ofAnswer "y" "tea" [.ofLine "exit" "" 2 0 []]) = some true ∧
      Running.faultOf converse (ofAnswer "y" "tea" [.ofLine "exit" "" 2 0 []]) = some .missingEntry := by
  have hpasses := passes_ofAnswer "y" [.ofLine "exit" "" 2 0 []]
    (by decide : (Text.words "tea").contains "stop" = false)
  exact ⟨_, _, hpasses, by decide +kernel⟩

/-! ### Words that were of no use -/

theorem exists_dropFirst {waiting : List Value} (h : waiting.any (·.same user) = true) :
    ∃ before user' after, waiting = before ++ user' :: after ∧ Value.same user' user = true ∧
      dropFirst user waiting = before ++ after := by
  induction waiting with
  | nil => cases h
  | cons x rest ih =>
    by_cases hx : x.same user = true
    · exact ⟨[], x, rest, rfl, hx, by rw [dropFirst, if_pos hx]; rfl⟩
    · rw [List.any_cons, Bool.eq_false_iff.2 hx, Bool.false_or] at h
      obtain ⟨before, user', after, rfl, hsame, hdrop⟩ := ih h
      exact ⟨x :: before, user', after, rfl, hsame, by rw [dropFirst, if_neg hx, hdrop]; rfl⟩

/-- If words were of no use, nothing has changed, or the user to whom they were asked for is waited for
again. -/
def Unused (user : Value) (s : Session) : EStateM.Result Fault Session Bool → Prop
  | .ok false t => t = s ∨ s.awaiting.any (·.same user) = true ∧
      t = { s with awaiting := dropFirst user s.awaiting ++ [user] }
  | _ => True

theorem unused_of_true (m : Run Unit) (t : Session) :
    Unused user s ((do m; return true : Run Bool) t) := by
  rw [bind_apply]
  cases m t <;> exact trivial

theorem hear_unused (user : Value) (m : Message) (c : Conversation) (s : Session) :
    Unused user s (hear user m c s) := by
  have hfails (fault : Fault) : Unused user s (.error fault s) := trivial
  refine (Looks.datum _ _).bind_cases hfails fun heard _ => ?_
  refine (Looks.lift _).bind_cases hfails fun utterance _ => ?_
  -- How the words are cut out of the utterance does not matter, and is not to be computed here.
  generalize spoken utterance = words?
  refine (Looks.lift words?).bind_cases hfails fun words _ => ?_
  split
  · exact unused_of_true _ _
  rw [bind_of_ok (isAwaiting_apply user s)]
  split
  · rename_i hwaits
    rw [stopAwaiting, bind_of_ok (modify_apply _ _)]
    cases answer? c words with
    | error fault => exact trivial
    | ok answer? =>
      cases answer? with
      | some answer => exact unused_of_true _ _
      | none => exact .inr ⟨hwaits, rfl⟩
  · exact trivial

theorem respond_unused (s : Session) : Unused (userOf s.message) s (respond s) := by
  have hfails (fault : Fault) : Unused (userOf s.message) s (.error fault s) := trivial
  refine Looks.theMessage.bind_cases hfails fun m hmessage => ?_
  refine (Looks.manager? _).bind_cases hfails fun manager? _ => ?_
  cases manager? with
  | none => exact .inl rfl
  | some manager =>
    refine (Looks.lift _).bind_cases hfails fun c? _ => ?_
    refine (Looks.present c?).bind_cases hfails fun c _ => ?_
    split
    · rw [theMessage_ok hmessage]
      exact hear_unused m.user m c s
    · exact .inl rfl

theorem converse_unused (s : Session) : Unused (userOf s.message) s (converse s) := by
  have hfate := converse_fate s
  generalize converse s = r at hfate ⊢
  cases hfate with
  | declined => exact .inl rfl
  | failed fault => exact trivial
  | @passed m c h =>
    have hresponds := respond_unused s
    rw [offer, bind_apply]
    cases hrun : respond s with
    | error fault t => exact trivial
    | ok consumed t =>
      rw [hrun] at hresponds
      cases consumed with
      | false => exact hresponds
      | true => exact unused_of_true _ _

/-- Words that were of no use to a script leave all as it was.  The users who are waited for are the
same, each as often as before; only their order may have changed. -/
theorem converse_unconsumed (h : converse s = .ok false t) :
    t = { s with awaiting := t.awaiting } ∧
      (∃ waiting : List Value, waiting.Perm s.awaiting ∧
        List.Forall₂ (fun x y => x = y ∨ x.same y = true) waiting t.awaiting) ∧
      ∀ name, Message.userOf s.message = .str name → t.awaiting.Perm s.awaiting := by
  have hunused := converse_unused s
  rw [h] at hunused
  have hrefl (waiting : List Value) :
      List.Forall₂ (fun x y => x = y ∨ x.same y = true) waiting waiting :=
    List.forall₂_same.2 fun _ _ => .inl rfl
  rcases hunused with rfl | ⟨hwaits, rfl⟩
  · exact ⟨rfl, ⟨t.awaiting, .refl _, hrefl _⟩, fun _ _ => .refl _⟩
  -- The entry taken out is only the same as the user, who is put behind the others.
  obtain ⟨before, user', after, hbefore, hsame, hdrop⟩ := exists_dropFirst hwaits
  have hmoved : (before ++ after ++ [user']).Perm s.awaiting := by
    rw [hbefore, List.append_assoc]
    exact .append_left before (List.perm_append_singleton _ _)
  refine ⟨rfl, ⟨_, hmoved, ?_⟩, fun name hname => ?_⟩
  · rw [hdrop]
    exact List.rel_append (hrefl _) (.cons (.inr hsame) .nil)
  · obtain rfl : user' = Message.userOf s.message := by
      rw [hname] at hsame ⊢
      exact Value.same_str hsame
    rw [hdrop]
    exact hmoved

/-- None of the drinks was named, and the user is asked on. -/
theorem converse_unconsumed_water : ∃ t,
    converse (ofAnswer "y,drinks" "water" []) = .ok false t ∧ t.events = [] ∧
      t.awaiting.Perm ["ann"] := by
  have hrun : converse (ofAnswer "y,drinks" "water" []) = .ok false
      ((ofAnswer "y,drinks" "water" []).after converse) :=
    Running.eq_ok_of_returned (by decide +kernel)
  obtain ⟨hsame, -, hwaits⟩ := converse_unconsumed hrun
  exact ⟨_, hrun, by rw [hsame]; rfl, hwaits "ann" (Message.user_saying "water")⟩

end Listening

end Colloquy
