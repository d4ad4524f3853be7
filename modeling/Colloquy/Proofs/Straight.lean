import Colloquy.Proofs.Interruption

/-! Commands that go straight on.  Each of them takes the running script on by one line, wherever in
its work it does so, and leaves alone all that the order of the lines depends on.  The scripts below
can be reached by it only through lists that stand in several places. -/

namespace Colloquy

open Session Command Entry List

variable {α β : Type}

/-! ### The place of a script -/

/-- What the order of the lines of a script depends on besides its index. -/
structure Control where
  lines : Value
  lastIndent : Value
  loops : Value
  tags : Value
  timeout : Value
  timeoutAction : Value
  pending : Value
  counters : Value

def Conversation.control (c : Conversation) : Control where
  lines := c.lines
  lastIndent := c.lastIndent
  loops := c.loops
  tags := c.tags
  timeout := c.timeout
  timeoutAction := c.timeoutAction
  pending := c.pending
  counters := c.counters

/-- What decides which lines are run. -/
def Conversation.place (c : Conversation) : Control × Value :=
  (c.control, c.index)

theorem Conversation.place_changedBy (changes : List Value.Change) (c : Conversation) :
    (c.changedBy changes).place = c.place := by
  rw [changedBy_eq]
  rfl

theorem Entry.changedBy_append (newer older : List Value.Change) (e : Entry) :
    e.changedBy (newer ++ older) = (e.changedBy older).changedBy newer :=
  foldr_append

theorem Entry.map_changedBy_append (newer older : List Value.Change) (stack : List Entry) :
    stack.map (Entry.changedBy (newer ++ older)) =
      (stack.map (Entry.changedBy older)).map (Entry.changedBy newer) := by
  rw [map_map]
  exact map_congr_left fun e _ => changedBy_append newer older e

/-- Stacks of the same scripts, of which the one on top stands in the same place.  Of the scripts
below it lists have changed at most. -/
inductive InPlace : List Entry → List Entry → Prop
  | empty : InPlace [] []
  | script {c c' : Conversation} (rest : List Entry) (changes : List Value.Change)
      (hplace : c'.place = c.place) :
      InPlace (.conversation c :: rest) (.conversation c' :: rest.map (Entry.changedBy changes))
  | foreign (v : Value) (rest : List Entry) (changes : List Value.Change) :
      InPlace (.foreign v :: rest) (.foreign v :: rest.map (Entry.changedBy changes))

/-- Stacks of the same scripts, of which the one on top is taken on by one line. -/
inductive OneOn : List Entry → List Entry → Prop
  | script {c c' : Conversation} (rest : List Entry) (changes : List Value.Change)
      (hcontrol : c'.control = c.control) (hindex : c.index.addInt 1 = .ok c'.index) :
      OneOn (.conversation c :: rest) (.conversation c' :: rest.map (Entry.changedBy changes))

namespace InPlace

variable {stack stack' stack'' : List Entry}

theorem changedBy (changes : List Value.Change) (stack : List Entry) :
    InPlace stack (stack.map (Entry.changedBy changes)) := by
  rcases stack with _ | ⟨c | v, rest⟩
  · exact .empty
  · rw [map_cons, changedBy_conversation]
    exact .script rest changes (c.place_changedBy changes)
  · rw [map_cons, changedBy_foreign]
    exact .foreign v rest changes

theorem refl (stack : List Entry) : InPlace stack stack := by
  have h := changedBy [] stack
  rwa [show Entry.changedBy [] = id from rfl, map_id] at h

theorem trans (h : InPlace stack stack') (h' : InPlace stack' stack'') : InPlace stack stack'' := by
  cases h with
  | empty =>
    cases h'
    exact .empty
  | script rest older hplace =>
    cases h' with
    | script _ newer hplace' =>
      rw [← map_changedBy_append]
      exact .script rest _ (hplace'.trans hplace)
  | foreign v rest older =>
    cases h' with
    | foreign _ _ newer =>
      rw [← map_changedBy_append]
      exact .foreign v rest _

theorem trans_oneOn (h : InPlace stack stack') (h' : OneOn stack' stack'') :
    OneOn stack stack'' := by
  cases h' with
  | script _ newer hcontrol hindex =>
    cases h with
    | script rest older hplace =>
      obtain ⟨hcontrol', hindex'⟩ := Prod.mk.inj hplace
      rw [← map_changedBy_append]
      exact .script rest _ (hcontrol.trans hcontrol') (hindex' ▸ hindex)

end InPlace

theorem OneOn.trans_inPlace {stack stack' stack'' : List Entry} (h : OneOn stack stack')
    (h' : InPlace stack' stack'') : OneOn stack stack'' := by
  cases h with
  | script rest older hcontrol hindex =>
    cases h' with
    | script _ newer hplace =>
      obtain ⟨hcontrol', hindex'⟩ := Prod.mk.inj hplace
      rw [← map_changedBy_append]
      exact .script rest _ (hcontrol'.trans hcontrol) (hindex'.symm ▸ hindex)

/-! ### Work on a conversation -/

/-- Work that leaves the script in its place. -/
abbrev Rests (body : Edit α) : Prop :=
  Fixes (fun d => d.conversation.place) body

theorem Fixes.law {γ : Type} {part : Draft → γ}
    (hpart : ∀ d bindings speaker changes,
      part { conversation := { d.conversation with bindings, speaker }, changes } = part d) :
    Edit.Law fun {_} body => Fixes part body where
  toBaseLaw := Fixes.baseLaw part
  writeVariable _ _ := .bind .read fun _ => .bind (.lift _) fun _ => .update fun d => hpart d _ _ _
  changeList number items d := by
    cases number with
    | none => rfl
    | some n => exact hpart d _ _ _

theorem Rests.law : Edit.Law fun {_} body => Rests body :=
  Fixes.law fun _ _ _ _ => rfl

theorem Fixes.counters : Edit.WorkLaw fun {_} body => Fixes (·.conversation.counters) body where
  toLaw := Fixes.law fun _ _ _ _ => rfl
  goTo _ := .update fun _ => rfl
  indent _ := .update fun _ => rfl

theorem Rests.counters {body : Edit α} (h : Rests body) : Fixes (·.conversation.counters) body :=
  fun d => congrArg (·.1.counters) (h d)

/-- Work that, unless it fails, takes the script on by one line.  It never changes counters. -/
structure Forwards (body : Edit α) : Prop where
  steps : ∀ d a d', body d = .ok a d' →
    d'.conversation.control = d.conversation.control ∧
      d.conversation.index.addInt 1 = .ok d'.conversation.index
  counters : Fixes (·.conversation.counters) body

namespace Forwards

variable {body : Edit α} {f : α → Edit β}

theorem step : Forwards (Edit.step 1) := by
  refine ⟨fun d a d' h => ?_, Fixes.counters.step 1⟩
  simp only [Edit.step, Edit.read, bind_apply, get_apply, pure_apply] at h
  cases hindex : d.conversation.index.addInt 1 with
  | error fault =>
    rw [hindex] at h
    cases h
  | ok index =>
    rw [hindex] at h
    cases h
    exact ⟨rfl, rfl⟩

theorem after (hbody : Rests body) (hf : ∀ a, Forwards (f a)) : Forwards (body >>= f) := by
  refine ⟨fun d b d' h => ?_, .bind hbody.counters fun a => (hf a).counters⟩
  obtain ⟨a, d₁, hrun, h⟩ := bind_ok_iff.1 h
  have hplace := hbody d
  simp only [Draft.after, hrun] at hplace
  obtain ⟨hcontrol, hindex⟩ := Prod.mk.inj hplace
  obtain ⟨hcontrol', hindex'⟩ := (hf a).steps d₁ b d' h
  exact ⟨hcontrol'.trans hcontrol, hindex ▸ hindex'⟩

theorem before (hbody : Forwards body) (hf : ∀ a, Rests (f a)) : Forwards (body >>= f) := by
  refine ⟨fun d b d' h => ?_, .bind hbody.counters fun a => (hf a).counters⟩
  obtain ⟨a, d₁, hrun, h⟩ := bind_ok_iff.1 h
  have hplace := hf a d₁
  simp only [Draft.after, h] at hplace
  obtain ⟨hcontrol, hindex⟩ := Prod.mk.inj hplace
  obtain ⟨hcontrol', hindex'⟩ := hbody.steps d a d₁ hrun
  exact ⟨hcontrol.trans hcontrol', hindex.symm ▸ hindex'⟩

end Forwards

/-! ### Computations -/

/-- A computation that leaves the user's running script in its place, whether or not it fails. -/
def HoldsPlace (user : Value) (m : Run α) : Prop :=
  ∀ s : Session, InPlace (s.stackOf user) ((s.after m).stackOf user)

def Entry.tally : Entry → Option Value
  | .conversation c => some c.counters
  | .foreign _ => none

def Session.tallies (user : Value) (s : Session) : List (Option Value) :=
  (s.stackOf user).map Entry.tally

/-- A computation that changes no counters of the user's scripts, whether or not it fails.  It may
leave scripts. -/
def KeepsTallies (user : Value) (m : Run α) : Prop :=
  ∀ s : Session, (s.after m).tallies user <:+ s.tallies user

/-- A computation that, unless it fails, takes the user's running script on by one line.  It never
changes counters. -/
structure StepsOn (user : Value) (m : Run α) : Prop where
  oneOn : ∀ s a t, m s = .ok a t → OneOn (s.stackOf user) (t.stackOf user)
  tallies : KeepsTallies user m

namespace HoldsPlace

variable {user : Value} {m : Run α} {f : α → Run β}

theorem of_looks (h : Looks m) : HoldsPlace user m := by
  intro s
  rw [h s]
  exact .refl _

theorem of_active {g : Session → Session} (hg : ∀ s, (g s).active = s.active) :
    HoldsPlace user (modify g) := by
  intro s
  show InPlace (s.stackOf user) ((g s).stackOf user)
  rw [stackOf, stackOf, hg]
  exact .refl _

theorem tell (event : Event) : HoldsPlace user (tell event) :=
  of_active fun _ => rfl

theorem sleep (milliseconds : Nat) : HoldsPlace user (sleep milliseconds) :=
  of_active fun _ => rfl

theorem lookLaw (user : Value) : Run.LookLaw user fun {_} m => HoldsPlace user m :=
  .of_relation (R := fun s t => InPlace (s.stackOf user) (t.stackOf user)) (fun _ => .refl _)
    (fun h h' => h.trans h') user

theorem bind (hm : HoldsPlace user m) (hf : ∀ a, HoldsPlace user (f a)) : HoldsPlace user (m >>= f) :=
  (lookLaw user).bind hm hf

theorem look (hm : Looks m) (hf : ∀ a, HoldsPlace user (f a)) : HoldsPlace user (m >>= f) :=
  bind (of_looks hm) hf

theorem edit (user' : Value) {body : Edit α} (hbody : Rests body) :
    HoldsPlace user (edit user' body) := by
  intro s
  obtain hsame | ⟨m, c, rest, hm, hstack, hkept⟩ := after_edit user' body s
  · rw [hsame]
    exact .refl _
  rw [hkept]
  obtain hnew | ⟨hold, hnew⟩ := stackOf_kept_cases _ hm hstack user
  · rw [hnew]
    exact .changedBy _ _
  · rw [hold, hnew]
    exact .script rest _ (hbody { conversation := c })

theorem addTranscript (text filename startTime : Value) :
    HoldsPlace user (addTranscript text filename startTime) := by
  intro s
  obtain ⟨files, hafter⟩ := after_addTranscript text filename startTime s
  rw [hafter]
  exact .refl _

end HoldsPlace

theorem Entry.tally_changedBy (changes : List Value.Change) (e : Entry) :
    (e.changedBy changes).tally = e.tally := by
  cases e with
  | conversation c =>
    rw [changedBy_conversation]
    exact congrArg (some ·.1.counters) (c.place_changedBy changes)
  | foreign v => rw [changedBy_foreign]

theorem Entry.map_tally_changedBy (changes : List Value.Change) (stack : List Entry) :
    (stack.map (Entry.changedBy changes)).map tally = stack.map tally := by
  rw [map_map]
  exact map_congr_left fun e _ => e.tally_changedBy changes

theorem InPlace.map_tally {stack stack' : List Entry} (h : InPlace stack stack') :
    stack'.map tally = stack.map tally := by
  cases h with
  | empty => rfl
  | script rest changes hplace =>
    rw [map_cons, map_cons, map_tally_changedBy]
    exact congrArg (some ·.1.counters :: _) hplace
  | foreign v rest changes => rw [map_cons, map_cons, map_tally_changedBy]

namespace KeepsTallies

variable {user : Value} {m : Run α} {f : α → Run β}

theorem of_holdsPlace (h : HoldsPlace user m) : KeepsTallies user m :=
  fun s => ⟨[], (h s).map_tally⟩

theorem of_looks (h : Looks m) : KeepsTallies user m :=
  of_holdsPlace (.of_looks h)

theorem lookLaw (user : Value) : Run.LookLaw user fun {_} m => KeepsTallies user m :=
  .of_relation (R := fun s t => t.tallies user <:+ s.tallies user) (fun _ => suffix_refl _)
    (fun h h' => h'.trans h) user

theorem bind (hm : KeepsTallies user m) (hf : ∀ a, KeepsTallies user (f a)) :
    KeepsTallies user (m >>= f) :=
  (lookLaw user).bind hm hf

theorem look (hm : Looks m) (hf : ∀ a, KeepsTallies user (f a)) : KeepsTallies user (m >>= f) :=
  bind (of_looks hm) hf

theorem edit (user' : Value) {body : Edit α} (hbody : Fixes (·.conversation.counters) body) :
    KeepsTallies user (edit user' body) := by
  intro s
  refine ⟨[], ?_⟩
  rw [nil_append]
  obtain hsame | ⟨m, c, rest, hm, hstack, hkept⟩ := after_edit user' body s
  · rw [hsame]
  rw [hkept, tallies, tallies]
  obtain hnew | ⟨hold, hnew⟩ := stackOf_kept_cases _ hm hstack user
  · rw [hnew, map_tally_changedBy]
  · rw [hold, hnew, map_cons, map_cons, map_tally_changedBy]
    exact congrArg (some · :: _) (hbody { conversation := c })

end KeepsTallies

namespace StepsOn

variable {user : Value} {m : Run α} {f : α → Run β}

theorem edit {body : Edit α} (hbody : Forwards body) : StepsOn user (edit user body) := by
  refine ⟨fun s a t h => ?_, .edit user hbody.counters⟩
  obtain ⟨fault, herror⟩ | ⟨m, c, rest, hkey, hm, hstack, -⟩ := current_cases user s
  · rw [Session.edit, bind_of_error herror] at h
    cases h
  rw [edit_eq hkey hm hstack] at h
  cases hrun : body { conversation := c } with
  | error fault draft =>
    rw [hrun] at h
    cases h
  | ok a' draft =>
    rw [hrun] at h
    cases h
    obtain ⟨hcontrol, hindex⟩ := hbody.steps _ _ _ hrun
    rw [stackOf_eq hm, hstack, stackOf_kept_self draft hm hstack]
    exact .script rest _ hcontrol hindex

theorem step : StepsOn user (Session.edit user (Edit.step 1)) :=
  edit .step

theorem after (hm : HoldsPlace user m) (hf : ∀ a, StepsOn user (f a)) : StepsOn user (m >>= f) := by
  refine ⟨fun s b t h => ?_, .bind (.of_holdsPlace hm) fun a => (hf a).tallies⟩
  obtain ⟨a, s', hrun, h⟩ := bind_ok_iff.1 h
  have hfirst := hm s
  rw [after_of_ok hrun] at hfirst
  exact hfirst.trans_oneOn ((hf a).oneOn s' b t h)

theorem look (hm : Looks m) (hf : ∀ a, StepsOn user (f a)) : StepsOn user (m >>= f) :=
  after (.of_looks hm) hf

theorem before (hm : StepsOn user m) (hf : ∀ a, HoldsPlace user (f a)) : StepsOn user (m >>= f) := by
  refine ⟨fun s b t h => ?_, .bind hm.tallies fun a => .of_holdsPlace (hf a)⟩
  obtain ⟨a, s', hrun, h⟩ := bind_ok_iff.1 h
  have hlast := hf a s'
  rw [after_of_ok h] at hlast
  exact (hm.oneOn s a s' hrun).trans_inPlace hlast

end StepsOn

/-! ### Functions -/

theorem HoldsPlace.callQuietly {user : Value} (f : Function) (key : String) :
    HoldsPlace user (Command.callQuietly f key user) := by
  intro s
  have hlaw := Run.LookLaw.of_relation (R := fun s t => s.message = none →
    t.message = none ∧ InPlace (s.stackOf user) (t.stackOf user)) (fun _ hs => ⟨hs, .refl _⟩)
    (fun h h' hs => ⟨(h' (h hs).1).1, (h hs).2.trans (h' (h hs).1).2⟩) user
  have hcall := hlaw.call (f := f) (fun _ _ hs => ⟨hs, .refl _⟩)
    (fun s hs => by rw [after_exitScript_of_none hs]; exact ⟨hs, .refl _⟩)
    (fun _ => ⟨fun _ hs => ⟨hs, .refl _⟩, fun _ s hs =>
      ⟨(after_edit_message user _ s).trans hs, HoldsPlace.edit user (.update fun _ => rfl) s⟩⟩)
    (.str key) { s with message := none } rfl
  have hafter : (s.after (Command.callQuietly f key user)).active =
      (Session.after (f.call (.str key) user) { s with message := none }).active := by
    simp only [Session.after, Command.callQuietly, handling]
    cases f.call (.str key) user { s with message := none } <;> rfl
  rw [stackOf, stackOf, hafter, ← stackOf, ← stackOf]
  exact hcall.2

/-! ### The commands -/

section

variable {user : Value}

theorem StepsOn.law :
    Run.Law user (fun {_} m => HoldsPlace user m) (fun {_} m => StepsOn user m) where
  toLookLaw := HoldsPlace.lookLaw user
  tell := .tell
  sleep := .sleep
  addTranscript := .addTranscript
  ask _ := .edit user (.update fun _ => rfl)
  step := .step
  stepAsking _ := .edit (.before .step fun _ => .update fun _ => rfl)
  before := .before
  after := .after
  lookAfter _ hf := .look .get hf

namespace Command

theorem languageOfData_holdsPlace (data : Value) : HoldsPlace user (languageOfData user data) := by
  unfold languageOfData
  extract_lets speech
  have hspeech : Looks speech := .bind .get fun _ => .lift _
  clear_value speech
  refine .look hspeech fun _ => .look (.lift _) fun _ => .look (.lift _) fun language => ?_
  refine .look hspeech fun _ => .look (.lift _) fun _ => .look (.lift _) fun gender => ?_
  exact .edit user (.update fun _ => rfl)

theorem languageOfText_holdsPlace (content : Value) :
    HoldsPlace user (languageOfText user content) := by
  refine .look ((Looks.law user).genderIn _) fun (gender, words) => ?_
  dsimp -zeta only
  split
  · extract_lets word rest
    have hrest : ∀ language, HoldsPlace user (rest language) := by
      refine fun _ => .edit user (.bind (.update fun _ => rfl) fun _ => .bind .read fun _ => ?_)
      refine .bind (.lift _) fun speaker => .bind (.update fun _ => rfl) fun _ => ?_
      exact .bind (.lift _) fun _ => .update fun _ => rfl
    clear_value rest word
    exact ite (.look .get fun _ => .look (.lift _) hrest) (.look (.pure _) hrest)
  · exact .of_looks (.throw _)

theorem hearAnswer_holdsPlace (message : Option Message) : HoldsPlace user (hearAnswer message) := by
  intro s
  obtain hsame | ⟨m, c, rest, hm, hstack, hkept⟩ := after_hearAnswer message s
  · rw [hsame]
    exact .refl _
  rw [hkept]
  obtain hnew | ⟨hold, hnew⟩ := stackOf_kept_cases _ hm hstack user
  · rw [hnew]
    exact .changedBy _ _
  · rw [hold, hnew]
    exact .script rest _ rfl

theorem emitRequest_holdsPlace (request : Message) (text : String) :
    HoldsPlace user (emitRequest request text) := by
  refine .bind (.tell _) fun _ => .look .get fun s => ?_
  split
  · exact .of_looks (.pure _)
  · exact hearAnswer_holdsPlace _

theorem execute_stepsOn (text : Value) : StepsOn user (execute user text) := by
  refine .look (.currentOf user) fun c? => .look (.datum _ _) fun data => ?_
  extract_lets rest
  have hrest : ∀ text, StepsOn user (rest text) := by
    refine fun text => ite .step (.look (.lift _) fun text => ?_)
    extract_lets text
    clear_value text
    refine .look (.present c?) fun c => .look (.bind .get fun _ => .pure _) fun request => ?_
    refine .after (.edit user (.update fun _ => rfl)) fun _ => ?_
    refine .after (emitRequest_holdsPlace _ _) fun _ => .before .step fun _ => ?_
    exact StepsOn.law.bind StepsOn.law.seconds fun _ => StepsOn.law.waitForAnswer _ _ _
  clear_value rest
  exact ite (.look (.lift _) hrest) (.look (.pure _) hrest)

theorem setVariable_stepsOn (text : Value) : StepsOn user (setVariable user text) := by
  refine .look (.currentAt user) fun c? => .look (.datum _ _) fun data => ?_
  refine .look (.lift _) fun (name, value) => .look (.present c?) fun c => ?_
  refine .look (.lift _) fun old => .after (StepsOn.law.assignedValue .callQuietly value) fun new => .edit ?_
  refine .after (Rests.law.pushValue _ _) fun pushed => ?_
  refine .after (Rests.law.writeVariable _ _) fun _ => ?_
  exact .after (.lift _) fun _ => .step

theorem variableLine_stepsOn (text : Value) : StepsOn user (variableLine user text) := by
  refine .look (.currentAt user) fun _ => .look (.datum _ _) fun data => ?_
  refine .look (.lift _) fun (name, value) => ?_
  dsimp -zeta only
  extract_lets last
  have hlast : ∀ u, StepsOn user (last u) := fun _ => .step
  clear_value last
  refine ite (.look (.lift _) fun text => ?_) (hlast ())
  extract_lets name rest
  have hrest : ∀ s, StepsOn user (rest s) := fun s =>
    .after (StepsOn.law.declaredValue .callQuietly s) fun v =>
      .after (.edit user (Rests.law.addValues _ _)) hlast
  clear_value rest
  exact ite (.look (.lift _) fun _ => .look (.pure _) hrest) (.look (.pure _) hrest)

theorem runFormula_holdsPlace : ∀ name formula, HoldsPlace user (runFormula user name formula) := by
  refine StepsOn.law.runFormula (fun formula s => ?_) fun _ _ => .edit user (Rests.law.writeVariable _ _)
  -- Only time passes while a formula is evaluated.
  simp only [Session.after]
  obtain ⟨result, clock⟩ := Formula.evaluate formula s.clock
  cases result <;> exact .refl _

theorem replaceValues_stepsOn (text : Value) : StepsOn user (replaceValues user text) := by
  refine .look (.currentAt user) fun c? => ?_
  refine .look ((Looks.law user).rephraseNames c? text) fun (name, list) => ?_
  refine .edit (.after (Rests.law.readVariable _) fun _ => .after (.lift _) fun first => ?_)
  refine .after (.lift _) fun _ => .after (Rests.law.readVariable _) fun _ => ?_
  refine .after (.lift _) fun pairs => ?_
  refine .after (.lift _) fun output => .after (Rests.law.writeVariable _ _) fun _ => ?_
  exact .step

end Command

end

def Keyword.isStraight : Keyword → Bool
  | declare | execute | formula | speak | neonSpeak | nameSpeak | subValues | set | reconvey
  | nameReconvey | email | language => true
  | loop | case | exit | branch | otherwise | goto | subKey | run => false

theorem Keyword.perform_stepsOn {k : Keyword} (hk : k.isStraight = true) (user text : Value) :
    StepsOn user (k.perform user text) := by
  cases k with
  | declare => exact variableLine_stepsOn text
  | execute => exact execute_stepsOn text
  | formula => exact StepsOn.law.compute runFormula_holdsPlace text
  | speak | neonSpeak => exact StepsOn.law.speak text
  | nameSpeak => exact StepsOn.law.nameSpeak text
  | subValues => exact replaceValues_stepsOn text
  | set => exact setVariable_stepsOn text
  | reconvey | nameReconvey =>
    refine StepsOn.law.reconvey (fun _ => .edit user (.bind .read fun _ => ?_)) text
    exact .bind (.lift _) fun _ => .update fun _ => rfl
  | email => exact StepsOn.law.email text
  | language =>
    exact StepsOn.law.language languageOfData_holdsPlace
      languageOfText_holdsPlace text
  | loop | case | exit | branch | otherwise | goto | subKey | run => cases hk

/-- A command spares the scripts below the one that it is given for, if they have no list in common
with that one, the host and what is new. -/
theorem Request.command_spares {user name text : Value} {message : Option Message} {s t : Session}
    {c : Conversation} {rest : List Entry} {e : Entry} {below : List Entry} {A : Nat → Prop}
    {result : Except Fault Value}
    (h : (Request.command name user text).run message s = (result, t))
    (hs : s.stackOf user = .conversation c :: rest) (ht : t.stackOf user = e :: below)
    (hlength : below.length = rest.length) (hlends : s.Lends A) (hc : c.bindings.ListsIn A)
    (hrest : ∀ e ∈ rest, e.ListsIn fun n => ¬ A n) : below = rest := by
  have howned : Owned (Remit.sparing user A rest.length) s := by
    refine ⟨hlends, fun c' hc' => ?_⟩
    rw [show s.stackOf (Remit.sparing user A rest.length).user = _ from hs] at hc'
    obtain rfl : c' = c := by simpa [Remit.sparing] using hc'
    exact hc
  have hpath := Request.command_path howned name text message
    (by rw [h, depthOf, ht, length_cons]; omega)
  rw [h] at hpath
  have hsuffix : rest <:+ s.stackOf user := by
    rw [hs]
    exact suffix_cons _ _
  have hbottom : rest <:+ t.stackOf user := hpath.keeps_bottom rfl hrest hsuffix
  rw [ht] at hbottom
  obtain hself | htail := suffix_cons_iff.1 hbottom
  · rw [hself, length_cons] at hlength
    omega
  · exact (htail.eq_of_length hlength.symm).symm

/-- A command that goes straight on and does not fail takes the running script on by exactly one line
and leaves alone what the order of its lines depends on.  There are as many scripts as before.  Those
below are the same but for lists that were changed in place, and just the same if they share no list
with the running script, the host and what is new. -/
theorem Request.straight_command {k : Keyword} (hk : k.isStraight = true) {user text v : Value}
    {message : Option Message} {s t : Session}
    (h : (Request.command k.name user text).run message s = (.ok v, t)) :
    ∃ c c' rest changes, s.stackOf user = .conversation c :: rest ∧
      t.stackOf user = .conversation c' :: rest.map (Entry.changedBy changes) ∧
      c.index.addInt 1 = .ok c'.index ∧ c'.control = c.control ∧
      ∀ A, s.Lends A → c.bindings.ListsIn A → (∀ e ∈ rest, e.ListsIn fun n => ¬ A n) →
        rest.map (Entry.changedBy changes) = rest := by
  have hstep := (Keyword.perform_stepsOn hk user text).oneOn _ _ _ (perform_of_run h)
  have hs : Session.stackOf { s with message, events := [] } user = s.stackOf user := rfl
  generalize hold : s.stackOf user = old at hs
  generalize hnew : t.stackOf user = new at hstep
  rw [hs] at hstep
  cases hstep with
  | @script c c' rest changes hcontrol hindex =>
    refine ⟨c, c', rest, changes, rfl, rfl, hindex, hcontrol, fun A hlends hc hrest => ?_⟩
    exact command_spares h hold hnew (List.length_map _) hlends hc hrest

/-- A script above the one that called it.  The languages of the user are the list 0 of the host, and
the variable of the calling script holds a list of the same languages with the number given. -/
def Session.ofCalled (number : Nat) : Session :=
  let script (filename : String) (bindings : Value) : Entry := .conversation
    { scriptMeta := .null, filename, startTime := 0, bindings, speaker := Value.emptyTable }
  { initialized := true
    host := { preferences := .object [("user", .object [("languages", .list ["en"] (some 0))])] }
    active := [("ann", { user := "ann", stack :=
      [script "other" (.object [("y", .list ["old"] (some 2))]),
       script "demo" (.object [("x", .list ["en"] (some number))])] })]
    lists := 3 }

/-- The user's languages come in front of what the running script has, and the calling script keeps a
list of its own. -/
theorem Request.straight_command_own : ∃ c c' rest,
    (ofCalled 1).stackOf "ann" = .conversation c :: rest ∧
      (commanded "set" "y = profile(user.languages)" (ofCalled 1)).stackOf "ann" =
        .conversation c' :: rest ∧
      c.index.addInt 1 = .ok c'.index ∧ c'.control = c.control := by
  obtain ⟨v, hrun⟩ := exists_ok_of_isOk (x := (Request.command Keyword.set.name "ann"
    "y = profile(user.languages)").run (some {}) (ofCalled 1)) (by decide +kernel)
  obtain ⟨c, c', rest, changes, hs, ht, hindex, hcontrol, hbelow⟩ :=
    straight_command (k := .set) (by decide) hrun
  have hlends : (ofCalled 1).Lends fun n => n ≠ 1 := by
    refine ⟨fun n hn => ?_, by simp [ofCalled, Value.object], trivial, trivial⟩
    have : 3 ≤ n := hn
    omega
  obtain ⟨rfl, rfl⟩ : c = _ ∧ rest = _ := by
    simpa [stackOf, managerIn, ofCalled, Value.str_same, eq_comm] using hs
  have hsame := hbelow (fun n => n ≠ 1) hlends (by simp [Value.object])
    (by simp [Entry.ListsIn, Conversation.ListsIn, Value.object])
  rw [hsame] at ht
  exact ⟨_, c', _, hs, ht, hindex, hcontrol⟩

/-- A list of the host that the calling script holds as well gets what the running script had behind
its items. -/
theorem Request.straight_command_shared :
    ((Request.command "set" "ann" "y = profile(user.languages)").run (some {})
      (ofCalled 0)).1.isOk = true ∧
    ¬ ∃ c c' rest, (ofCalled 0).stackOf "ann" = .conversation c :: rest ∧
      (commanded "set" "y = profile(user.languages)" (ofCalled 0)).stackOf "ann" =
        .conversation c' :: rest := by
  refine ⟨by decide +kernel, ?_⟩
  rintro ⟨c, c', rest, hbefore, hafter⟩
  have hsize : ((commanded "set" "y = profile(user.languages)" (ofCalled 0)).stackOf
      "ann").tail.map Entry.sizeOfX ≠ ((ofCalled 0).stackOf "ann").tail.map Entry.sizeOfX := by
    decide +kernel
  rw [hafter, hbefore] at hsize
  exact hsize rfl

end Colloquy
