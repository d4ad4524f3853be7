import Colloquy.Keyword
import Colloquy.Proofs.Session

/-! Computations for a user are put together from few pieces.  What holds of each piece, and is kept
when pieces are put together, holds of all that commands find out, and also of the commands that
speak, of those that ask others and of those that choose the next line, if it holds of the pieces that
work on the running script. -/

namespace Colloquy

open Session Substitution Command Colloquy.Function

variable {α β : Type}

/-! ### Where computations end -/

section

variable {s t : Session} {m : Run α} {f : α → Run β} {a : α} {fault : Fault}

theorem Session.after_of_ok (h : m s = .ok a t) : s.after m = t := by
  simp only [after, h]

theorem Session.after_of_error (h : m s = .error fault t) : s.after m = t := by
  simp only [after, h]

theorem Session.after_bind_of_ok (h : m s = .ok a t) : s.after (m >>= f) = t.after (f a) := by
  simp only [after, bind_of_ok h]

theorem Session.after_bind_of_error (h : m s = .error fault t) : s.after (m >>= f) = t := by
  simp only [after, bind_of_error h]

theorem Session.after_bind {T : Session → Prop} (hm : T (s.after m))
    (hf : ∀ a t, m s = .ok a t → T t → T (t.after (f a))) : T (s.after (m >>= f)) := by
  cases hrun : m s with
  | ok a t =>
    rw [after_of_ok hrun] at hm
    rw [after_bind_of_ok hrun]
    exact hf a t hrun hm
  | error fault t =>
    rw [after_of_error hrun] at hm
    rwa [after_bind_of_error hrun]

end

def Looks (m : Run α) : Prop :=
  ∀ s : Session, s.after m = s

namespace Looks

variable {s : Session} {m : Run α} {f : α → Run β}

theorem pure (a : α) : Looks (pure a) :=
  fun _ => rfl

theorem throw (fault : Fault) : Looks (throw fault : Run α) :=
  fun _ => rfl

theorem lift (x : Except Fault α) : Looks (liftM x) := by
  cases x with
  | ok a => exact pure a
  | error fault => exact throw fault

theorem bind_after {T : Session → Prop} (hm : Looks m) (hs : T s)
    (hf : ∀ a, m s = .ok a s → T (s.after (f a))) : T (s.after (m >>= f)) := by
  refine after_bind (by rwa [hm s]) fun a t hrun ht => ?_
  have hsame := hm s
  rw [after_of_ok hrun] at hsame
  subst hsame
  exact hf a hrun

theorem bind (hm : Looks m) (hf : ∀ a, Looks (f a)) : Looks (m >>= f) :=
  fun s => hm.bind_after (T := (· = s)) rfl fun a _ => hf a s

theorem get : Looks (get : Run Session) :=
  fun _ => rfl

end Looks

theorem Session.after_rescue_cases (m : Run α) (handler : Fault → Run α) (s : Session) :
    s.after (rescue m handler) = s.after m ∨
      ∃ fault, s.after (rescue m handler) = (s.after m).after (handler fault) := by
  obtain hsame | ⟨fault, t, hrun, hrescue⟩ := rescue_cases m handler s
  · exact .inl (by rw [after, hsame, after])
  · exact .inr ⟨fault, by rw [after_of_error hrun, after, hrescue, after]⟩

theorem Session.after_rescue {s : Session} {m : Run α} {handler : Fault → Run α}
    (hhandler : ∀ fault, Looks (handler fault)) : s.after (rescue m handler) = s.after m := by
  obtain hsame | ⟨fault, hafter⟩ := after_rescue_cases m handler s
  · exact hsame
  · rw [hafter, hhandler fault]

/-! ### Sessions that a computation cannot tell apart -/

/-- Sessions that are the same as far as a user is concerned. -/
structure Session.SameFor (user : Value) (s t : Session) : Prop where
  /-- They differ only in the entries of the users and in the users who are waited for. -/
  rest : { t with active := [], awaiting := [] } = { s with active := [], awaiting := [] }
  manager : managerIn t.active user = managerIn s.active user
  awaiting : t.awaiting.countP (·.same user) = s.awaiting.countP (·.same user)

namespace Session.SameFor

variable {user : Value} {s t : Session}

theorem host (h : SameFor user s t) : t.host = s.host :=
  (congrArg Session.host h.rest :)

theorem root (h : SameFor user s t) : t.root = s.root :=
  (congrArg Session.root h.rest :)

theorem files (h : SameFor user s t) : t.files = s.files :=
  (congrArg Session.files h.rest :)

theorem clock (h : SameFor user s t) : t.clock = s.clock :=
  (congrArg Session.clock h.rest :)

theorem message (h : SameFor user s t) : t.message = s.message :=
  (congrArg Session.message h.rest :)

theorem reads (h : SameFor user s t) : t.reads = s.reads :=
  (congrArg Session.reads h.rest :)

theorem initialized (h : SameFor user s t) : t.initialized = s.initialized :=
  (congrArg Session.initialized h.rest :)

theorem lists (h : SameFor user s t) : t.lists = s.lists :=
  (congrArg Session.lists h.rest :)

end Session.SameFor

def Substitution.Calls (piece : String) (f : Function) : Prop :=
  ∃ arguments, Text.cut? "(" (Text.trimEndOf "\x7d" (Text.trimStartOf "\x7b" piece)) =
    some (f.name, arguments)

theorem Substitution.drop_replaceToken {token word : String} {pieces : List String} {position : Nat}
    (h : pieces[position]? = some token) :
    (replaceToken token word pieces).drop (position + 1) = pieces.drop (position + 1) := by
  induction pieces generalizing position with
  | nil => rfl
  | cons t rest ih =>
    simp only [replaceToken]
    split
    · rfl
    · rename_i ht
      cases position with
      | zero => simp_all
      | succ position => exact ih (by simpa using h)

/-! ### Looking -/

namespace Run

/-- A property that computations keep when they are put together, and that looking at what a user has
part in has. -/
structure LookLaw (user : Value) (P : {α : Type} → Run α → Prop) : Prop where
  pure : ∀ {α : Type} (a : α), P (pure a : Run α)
  throw : ∀ {α : Type} (fault : Fault), P (throw fault : Run α)
  bind : ∀ {α β : Type} {m : Run α} {f : α → Run β}, P m → (∀ a, P (f a)) → P (m >>= f)
  rescue : ∀ {α : Type} {m : Run α} {handler : Fault → Run α}, P m → (∀ fault, P (handler fault)) →
    P (rescue m handler)
  look : ∀ {α : Type} {f : Session → Run α}, (∀ s t, SameFor user s t → f t = f s) →
    (∀ s, P (f s)) → P (get >>= f)

theorem LookLaw.of_relation {R : Session → Session → Prop} (hrefl : ∀ s, R s s)
    (htrans : ∀ {s t u}, R s t → R t u → R s u) (user : Value) :
    LookLaw user fun {_} m => ∀ s : Session, R s (s.after m) where
  pure _ := hrefl
  throw _ := hrefl
  bind hm hf s := after_bind (T := R s) (hm s) fun a t _ ht => htrans ht (hf a t)
  rescue {_ m handler} hm hhandler s := by
    obtain hsame | ⟨fault, hafter⟩ := after_rescue_cases m handler s
    · exact hsame ▸ hm s
    · exact hafter ▸ htrans (hm s) (hhandler fault _)
  look _ hf s := hf s s

namespace LookLaw

variable {user : Value} {P : {α : Type} → Run α → Prop} (h : LookLaw user P)

include h

theorem lift {α : Type} (x : Except Fault α) : P (liftM x : Run α) := by
  cases x with
  | ok a => exact h.pure a
  | error fault => exact h.throw fault

theorem lift_bind {α β : Type} {x : Except Fault α} {f : α → Run β}
    (hf : ∀ a, x = .ok a → P (f a)) : P (liftM x >>= f) := by
  cases x with
  | ok a => exact hf a rfl
  | error fault => exact h.throw fault

theorem theMessage : P theMessage := by
  refine h.look (fun _ _ hs => by rw [hs.message]) fun s => ?_
  cases s.message with
  | none => exact h.throw _
  | some m => exact h.pure m

theorem datum (name : String) (default : Value) : P (datum name default) :=
  h.bind h.theMessage fun _ => h.pure _

theorem lineData : P lineData :=
  h.datum _ _

theorem seconds : P seconds :=
  h.look (fun _ _ hs => by rw [hs.clock]) fun _ => h.lift _

theorem isFileAt (path : String) : P (isFileAt path) := by
  refine h.look (fun _ _ hs => by rw [hs.files, hs.root]) fun s => ?_
  cases s.files.resolve s.root ["cwd"] path with
  | error fault => exact h.pure _
  | ok target => cases target <;> exact h.pure _

theorem present (c? : Option Conversation) : P (present c?) := by
  cases c? with
  | none => exact h.throw _
  | some c => exact h.pure c

theorem manager? : P (manager? user) :=
  ite (h.look (fun _ _ hs => by rw [hs.manager]) fun _ => h.pure _) (h.throw _)

theorem managerAt : P (managerAt user) := by
  refine h.bind h.manager? fun m? => ?_
  cases m? with
  | none => exact h.throw _
  | some m => exact h.pure m

theorem managerOf : P (managerOf user) := by
  refine h.bind h.manager? fun m? => ?_
  cases m? with
  | none => exact h.throw _
  | some m => exact h.pure m

theorem currentAt : P (currentAt user) :=
  h.bind h.managerAt fun _ => h.lift _

theorem currentOf : P (currentOf user) :=
  h.bind h.managerOf fun _ => h.lift _

theorem current : P (current user) :=
  h.bind h.currentAt h.present

theorem drop (hget : P (get : Run Session)) (hfilter : P (modify fun s =>
    { s with active := s.active.filter fun (u, _) => !u.same user } : Run Unit)) :
    P (dropManager user) := by
  refine h.bind hget fun s => ite (h.bind (h.throw _) fun _ => ?_) ?_
  all_goals exact h.bind h.managerAt fun _ => hfilter

theorem exit (hdatum : ∀ name value, P (setDatum name value))
    (htell : ∀ event, (∀ text voice, event ≠ .speak text voice) → P (tell event))
    (hset : ∀ m, P (setManager user m)) (hedit : ∀ body : Edit Unit, P (edit user body))
    (hdrop : P (dropManager user)) : P (exitScript user) := by
  refine h.bind h.currentOf fun c? => h.bind (hdatum _ _) fun _ => h.bind (h.present c?) fun c => ?_
  refine h.bind (htell _ (by simp)) fun _ => h.bind (htell _ (by simp)) fun _ => ?_
  refine h.bind h.managerOf fun m => h.bind (hset _) fun _ => h.bind (h.lift _) fun left? => ?_
  cases left? with
  | none => exact h.throw _
  | some left =>
    refine h.bind (h.lift _) fun m' => h.bind (hset _) fun _ => ite (hedit _) ?_
    refine h.bind hdrop fun _ => h.look (fun _ _ hs => by rw [hs.host]) fun _ => ?_
    exact ite (htell _ (by simp)) (h.pure _)

theorem isAwaiting : P (isAwaiting user) := by
  refine h.look (fun s t hs => ?_) fun _ => h.pure _
  have hany (users : List Value) :
      users.any (·.same user) = decide (0 < users.countP (·.same user)) := by
    rw [Bool.eq_iff_iff, decide_eq_true_iff, List.countP_pos_iff, List.any_eq_true]
  rw [hany, hany, hs.awaiting]

theorem hasScript (name : Value) : P (Library.hasScript name) := by
  refine h.look (fun _ _ hs => by simp only [Session.path, hs.root]) fun s => ?_
  refine h.bind (h.lift _) fun name => ?_
  extract_lets stem
  clear_value stem
  exact h.bind (h.isFileAt _) fun found => ite (h.pure _) (h.isFileAt _)

/-! ### What functions and commands find out -/

theorem known : P known :=
  h.look (fun _ _ hs => by rw [hs.initialized]) fun _ => h.pure _

theorem runSelectOne (key : Value) : P (runSelectOne key user) := by
  refine h.rescue (h.bind (h.lift _) fun key => h.bind h.current fun c => ?_) fun _ => h.pure _
  exact h.bind (h.lift _) fun _ => h.pure _

theorem runRandom (key : Value) : P (runRandom key user) := by
  refine h.rescue (h.bind h.current fun c => h.bind (h.lift _) fun value => ?_) fun _ => h.pure _
  exact h.look (fun _ _ hs => by rw [hs.host]) fun _ => h.lift _

theorem runClosest (key : Value) : P (runClosest key user) := by
  refine h.bind (h.lift _) fun key => h.bind h.currentAt fun c? => ?_
  split
  · exact h.rescue (h.bind (h.present c?) fun _ => h.lift _) fun _ => h.pure _
  · exact h.throw _

theorem fetch (address : Value) : P (Function.fetch address) := by
  unfold Function.fetch
  extract_lets last
  have hlast : ∀ u, P (last u) := by
    refine fun _ => h.look (fun _ _ hs => by rw [hs.host]) fun _ => ?_
    split
    · exact h.pure _
    · exact h.throw _
  clear_value last
  exact ite (h.bind (h.throw _) hlast) (hlast _)

theorem preferredLanguage : P preferredLanguage :=
  h.look (fun _ _ hs => by rw [hs.host]) fun _ => h.bind (h.lift _) fun _ => h.lift _

theorem voiceOfParts (base : Value) (speaker : String) : P (voiceOfParts base speaker) := by
  refine h.bind (h.lift _) fun gender => h.bind (h.lift _) fun language => ?_
  extract_lets pick
  clear_value pick
  split
  exact ite (h.bind (h.pure _) fun _ => h.pure _) (h.bind h.preferredLanguage fun _ => h.pure _)

theorem speechOfText (base text : Value) : P (speechOfText base text) := by
  refine h.bind (h.lift _) fun s => ?_
  split
  · exact h.throw _
  · exact ite (h.bind (h.voiceOfParts _ _) fun _ => h.pure _) (h.bind (h.pure _) fun _ => h.pure _)

theorem isFile (path : Value) : P (isFile path) := by
  cases path with
  | str path => exact h.isFileAt path
  | int n => exact ite (h.throw _) (h.pure _)
  | bool _ => exact h.pure _
  | null | float _ | list _ _ | tuple _ | table _ | set _ | record _ => exact h.throw _

theorem findRecording (folder path : String) : P (findRecording folder path) := by
  refine h.look (fun _ _ hs => by simp only [Session.path, hs.files, hs.root]) fun s => ?_
  extract_lets whole
  clear_value whole
  refine h.bind (h.isFile _) fun found => ite (h.pure _) ?_
  split
  · refine ite (h.pure _) ?_
    split
    · exact h.pure _
    · exact h.pure _
  · exact h.pure _

theorem recordingOf (c? : Option Conversation) (source audio : Value) :
    P (recordingOf c? source audio) := by
  refine h.bind (h.lift _) fun path => ite (h.pure _) (h.look (fun _ _ hs => ?_) fun s => ?_)
  · simp only [Command.expandHome, Session.path, hs.root]
  extract_lets path rest
  have hrest : ∀ path, P (rest path) := by
    refine fun path => h.bind (h.isFile _) fun found => ite (h.pure _) ?_
    exact h.bind (h.present c?) fun _ => h.bind (h.lift _) fun _ => h.lift _
  clear_value rest path
  refine h.bind (h.isFile _) fun found => ite (h.bind (h.pure _) hrest) ?_
  exact h.bind (h.present c?) fun _ => h.bind (h.lift _) fun _ => h.bind (h.findRecording _ _) hrest

theorem reconveyedOfData (c? : Option Conversation) (data text : Value) :
    P (reconveyedOfData c? data text) := by
  refine h.bind (h.lift _) fun source => h.bind (h.lift _) fun name => ?_
  extract_lets name rest
  have hrest : ∀ isQuoted, P (rest isQuoted) := by
    intro isQuoted
    simp -zeta only [rest]
    extract_lets withText
    have hwithText : ∀ text, P (withText text) := by
      refine fun text => h.bind (h.lift _) fun file => ite ?_ (h.pure _)
      extract_lets withAudio
      have hwithAudio : ∀ audio, P (withAudio audio) := fun _ =>
        h.bind (h.recordingOf c? _ _) fun _ => h.pure _
      clear_value withAudio
      refine ite (h.bind (h.pure _) hwithAudio) ?_
      exact h.bind (h.present c?) fun _ => h.bind (h.lift _) fun _ => h.bind (h.lift _) hwithAudio
    clear_value withText
    refine ite (h.bind (h.pure _) hwithText) ?_
    exact h.bind (h.present c?) fun _ => h.bind (h.lift _) fun _ => h.bind (h.lift _) hwithText
  clear_value rest
  exact h.bind (h.lift _) fun inQuotes => ite (h.bind (h.pure _) hrest) (h.bind (h.lift _) hrest)

theorem preferredGender : P preferredGender :=
  h.rescue (h.look (fun _ _ hs => by rw [hs.host]) fun _ => h.bind (h.lift _) fun _ => h.lift _)
    fun _ => h.pure _

theorem genderIn (words : List String) : P (genderIn words) :=
  ite (h.pure _) (ite (h.pure _) (h.bind h.preferredGender fun _ => h.pure _))

theorem emailParts (c? : Option Conversation) (text : Value) : P (emailParts c? text) := by
  refine h.bind (h.lift _) fun s => ?_
  split
  · refine h.bind (h.present c?) fun c => ?_
    extract_lets bindings rest
    have hrest : ∀ subject, P (rest subject) := by
      intro subject
      simp -zeta only [rest]
      extract_lets last
      have hlast : ∀ body, P (last body) := fun _ => h.pure _
      clear_value last
      exact ite (h.bind (h.pure _) hlast) (h.bind (h.lift _) fun _ => h.bind (h.pure _) hlast)
    clear_value rest
    exact ite (h.bind (h.pure _) hrest) (h.bind (h.lift _) hrest)
  · exact h.throw _

theorem rephraseNames (c? : Option Conversation) (text : Value) :
    P (rephraseNames c? text) := by
  refine h.bind (h.lift _) fun inBraces => ?_
  extract_lets last rest
  have hlast : ∀ u, P (last u) := by
    refine fun _ => h.bind (h.lift _) fun s => ?_
    split
    · exact h.pure _
    · exact h.throw _
  clear_value last
  have hrest : ∀ bracketed, P (rest bracketed) := fun _ =>
    ite (h.bind (h.present c?) fun _ => hlast _) (hlast _)
  clear_value rest
  exact ite (h.bind (h.pure _) hrest) (h.bind (h.lift _) hrest)

theorem destination (c? : Option Conversation) (data text : Value) :
    P (Command.destination c? data text) := by
  unfold Command.destination
  extract_lets rest
  have hrest : ∀ given, P (rest given) := by
    refine fun given => ite (h.bind (h.present c?) fun _ => h.lift _) (ite ?_ ?_)
    · exact h.bind (h.lift _) fun _ => h.pure _
    · refine h.bind (h.present c?) fun c => h.bind (h.lift _) fun _ => ite ?_ (h.pure _)
      exact h.bind (h.lift _) fun _ => h.bind (h.lift _) fun _ => h.pure _
  clear_value rest
  exact ite (h.bind (h.lift _) hrest) (h.bind (h.pure _) hrest)

theorem compose (kind : String) (text voice : Value) : P (compose kind text voice) := by
  refine h.look (fun _ _ hs => by rw [hs.message]) fun s => ?_
  cases s.message <;> exact h.pure _

theorem runVoiceInput (hawait : P (await user))
    (hname : ∀ name, P (edit user (Edit.update fun c => { c with awaited := name }))) (key : Value) :
    P (runVoiceInput key user) := by
  refine h.bind hawait fun _ => h.bind (h.lift _) fun inParts => ?_
  extract_lets rest
  have hrest : ∀ name, P (rest name) := fun name => h.bind (hname name) fun _ => h.pure _
  clear_value rest
  exact ite (h.bind (h.lift _) fun _ => hrest _) (hrest key)

theorem runTableScrape (hexit : P (exitScript user)) (key : Value) :
    P (runTableScrape key user) := by
  refine h.bind h.current fun c => h.bind (h.lift _) fun _ => ?_
  extract_lets rest
  have hrest : ∀ address, P (rest address) := fun address =>
    h.rescue (h.fetch address) fun _ => h.bind hexit fun _ => h.pure _
  clear_value rest
  exact ite (h.bind (h.lift _) hrest) (hrest key)

theorem runProfile (hexit : P (exitScript user)) (key : Value) : P (runProfile key user) := by
  refine h.bind (h.lift _) fun hasDot => ite ?_ (h.bind hexit fun _ => h.pure _)
  refine h.bind (h.lift _) fun path => ?_
  split
  · split
    · exact h.look (fun _ _ hs => by rw [hs.host]) fun _ => h.bind (h.lift _) fun _ => h.lift _
    · exact h.pure _
  · exact h.throw _

theorem runSkill (htell : ∀ event, P (tell event)) (key : Value) :
    P (runSkill key user) := by
  refine h.bind h.currentAt fun c? => h.bind (h.lift _) fun path => ?_
  split
  · exact h.throw _
  · refine h.bind (h.present c?) fun c => h.bind (h.lift _) fun found => h.bind (h.lift _) fun _ => ?_
    refine h.bind (h.compose _ _ _) fun request => h.bind (htell _) fun _ => ?_
    extract_lets text last
    have hlast : ∀ u, P (last u) := by
      refine fun _ => h.look (fun _ _ hs => by rw [hs.host]) fun s => ?_
      split
      · exact h.throw _
      · exact h.throw _
      · exact h.bind (h.lift _) fun info => h.bind (h.lift _) fun data => h.lift _
    clear_value last
    exact ite (h.bind (h.throw _) hlast) (hlast _)

theorem call (htell : ∀ event, P (tell event)) (hexit : P (exitScript user)) {f : Function}
    (hask : f = .voiceInput → P (await user) ∧
      ∀ name, P (edit user (Edit.update fun c => { c with awaited := name })))
    (key : Value) : P (f.call key user) := by
  cases f with
  | selectOne => exact h.runSelectOne key
  | voiceInput => exact h.runVoiceInput (hask rfl).1 (hask rfl).2 key
  | tableScrape => exact h.runTableScrape hexit key
  | random => exact h.runRandom key
  | closest => exact h.runClosest key
  | profile => exact h.runProfile hexit key
  | skill => exact h.runSkill htell key

section

variable (hcall : ∀ f key, P (Command.callQuietly f key user))
include hcall

theorem assignedValue (s : String) : P (assignedValue user s) := by
  refine h.bind h.known fun functions => ?_
  split
  · exact h.pure _
  · refine h.bind (hcall _ _) fun v => ?_
    split <;> exact h.pure _

theorem declaredValue (s : String) : P (declaredValue user s) := by
  refine h.bind h.known fun functions => ?_
  split
  · exact h.pure _
  · refine h.bind (hcall _ _) fun v => ?_
    split
    · split <;> exact h.pure _
    · exact h.pure _

end

theorem runFormula (hreckon : ∀ formula, P fun s : Session =>
      match Formula.evaluate formula s.clock with
      | (some result, clock) => EStateM.Result.ok result { s with clock }
      | (none, clock) => .error .badValue { s with clock })
    (hwrite : ∀ name text : String, P (edit user (Edit.writeVariable name (.str text))))
    (name formula : Option String) : P (runFormula user name formula) := by
  cases formula with
  | none => exact h.throw _
  | some formula =>
    refine h.bind (hreckon formula) fun result => ?_
    cases name with
    | none => exact h.pure _
    | some name =>
      dsimp only
      split
      · exact hwrite _ _
      · exact h.throw _

/-! ### Putting values into a line -/

theorem rawValue (c : Conversation) (name : String) : P (rawValue user c name) := by
  refine h.bind (h.lift _) fun names => ite (h.pure _) (ite ?_ ?_)
  · exact h.bind h.managerAt fun _ => h.lift _
  · exact h.bind (h.lift _) fun _ => h.bind (h.lift _) fun _ => h.pure _

theorem wordOf (bindings : Value) (name : String) (value : Value) :
    P (Substitution.wordOf bindings name value) := by
  unfold Substitution.wordOf
  extract_lets bare
  split
  · extract_lets rest
    have hneedles (parts : List Value) : P (parts.mapM fun v => (liftM v.needle : Run String)) := by
      induction parts with
      | nil => exact h.pure []
      | cons part rest ih =>
        rw [List.mapM_cons]
        exact h.bind (h.lift _) fun _ => h.bind ih fun _ => h.pure _
    have hrest : ∀ whole, P (rest whole) := by
      refine fun whole => ite ?_ (h.bind (h.lift _) fun _ => h.pure _)
      exact h.bind (h.lift _) fun _ => h.bind (h.lift _) fun parts => h.bind (hneedles parts) fun _ =>
        h.pure _
    clear_value rest
    refine ite ?_ (hrest false)
    exact h.bind (h.datum _ _) fun _ => h.bind (h.lift _) fun v => hrest v.truthy
  · exact h.pure _

section

variable (htell : ∀ event, P (tell event))
include htell

theorem newest (c : Conversation) (line name : String) (raw : Value) :
    P (Substitution.newest user c line name raw) := by
  unfold Substitution.newest
  split
  · refine h.bind (h.lift _) fun declared => ite ?_ (h.throw _)
    refine h.bind (h.bind h.current fun _ => ?_) fun _ => h.throw _
    exact h.bind (h.lift _) fun _ => h.bind (h.lift _) fun _ => htell _
  all_goals exact h.pure _

theorem variableWord (c : Conversation) (line reference : String) :
    P (variableWord user c line reference) := by
  refine ite ?_ ?_
  · refine h.bind (h.rawValue c _) fun raw => h.bind (h.lift _) fun value => ?_
    exact h.bind (h.wordOf _ _ _) fun _ => h.pure _
  · refine h.bind (h.rawValue c _) fun raw => h.bind (h.newest htell c line reference raw) fun _ => ?_
    exact h.bind (h.wordOf _ _ _) fun _ => h.pure _

omit htell in
theorem callWord (functions : List Function) {reference : String}
    (hcalls : ∀ f arguments, Text.cut? "(" reference = some (name f, arguments) →
      ∀ key, P (f.call key user)) :
    P (Substitution.callWord user functions reference) := by
  unfold Substitution.callWord
  split
  · exact h.throw _
  · rename_i name arguments hcut
    split
    · rename_i f hf
      have hname : f.name = name := by simpa using List.find?_some hf
      exact h.bind (hcalls f arguments (hname ▸ hcut) _) fun _ => h.pure _
    · exact h.throw _

theorem replaceFrom (c : Conversation) (functions : List Function) (gap : String) (left : Nat) :
    ∀ (position : Nat) (pieces : List String) (line : String),
      (∀ piece ∈ pieces.drop position, ∀ f, Calls piece f → ∀ key, P (f.call key user)) →
        P (Substitution.replaceFrom user c functions gap left position pieces line) := by
  induction left with
  | zero => exact fun _ _ _ _ => h.pure _
  | succ left ih =>
    intro position pieces line hcalls
    unfold Substitution.replaceFrom
    extract_lets token rest reference next
    have hrest : ∀ pieces', pieces'.drop (position + 1) = pieces.drop (position + 1) →
        P (rest pieces') := by
      refine fun pieces' hsame => ih _ _ _ fun piece hpiece => hcalls piece ?_
      rw [hsame, ← List.tail_drop] at hpiece
      exact List.mem_of_mem_tail hpiece
    have hstays := hrest pieces rfl
    clear_value rest
    split
    case isFalse => exact hstays
    rename_i hbraced
    -- Only a piece that is there stands between braces.
    have htoken : pieces[position]? = some token := by
      cases hpiece : pieces[position]? with
      | some piece => simp [token, hpiece]
      | none =>
        have hempty : Text.startsWith token "\x7b" = false := by simp [token, hpiece, Text.startsWith]
        simp [hempty] at hbraced
    have hnext : ∀ word, P (next word) := fun word =>
      hrest _ (drop_replaceToken htoken)
    have hreference : ∀ f arguments, Text.cut? "(" reference = some (name f, arguments) →
        ∀ key, P (f.call key user) := by
      intro f arguments hcut
      have hmem : token ∈ pieces.drop position :=
        List.mem_of_getElem? (i := 0) (by rw [List.getElem?_drop, Nat.add_zero, htoken])
      exact hcalls token hmem f ⟨arguments, hcut⟩
    clear_value next reference
    exact ite (h.bind (h.callWord functions hreference) hnext)
      (h.bind (h.variableWord htell c line reference) hnext)

theorem substitute {line : Value} {wildcards : Bool}
    (hcalls : ∀ s bindings functions pieces gap, line.text = .ok s →
      tokens bindings functions (if wildcards then
        withWildcards (Text.trim s) else Text.trim s) = .ok (pieces, gap) →
      ∀ piece ∈ pieces, ∀ f, Calls piece f → ∀ key, P (f.call key user)) :
    P (Substitution.substitute user line wildcards) := by
  refine h.bind h.currentAt fun c? => h.lift_bind fun s hs => h.bind (h.present c?) fun c => ?_
  refine h.bind (h.lift _) fun _ => h.bind h.known fun functions => h.lift_bind fun tokens ht => ?_
  exact h.replaceFrom htell c functions tokens.2 _ _ _ _ (by simpa using hcalls s _ _ _ tokens.2 hs ht)

theorem substitute_calling (hexit : P (exitScript user)) (hawait : P (await user))
    (hname : ∀ name, P (edit user (Edit.update fun c => { c with awaited := name })))
    (line : Value) (wildcards : Bool) : P (Substitution.substitute user line wildcards) :=
  h.substitute htell fun _ _ _ _ _ _ _ _ _ _ _ => h.call htell hexit fun _ => ⟨hawait, hname⟩

end

end LookLaw

/-! ### Working on the script -/

/-- A law `P` that holds also of telling and noting something, together with one of computations that
take the running script on by a line. -/
structure Law (user : Value) (P S : {α : Type} → Run α → Prop) : Prop extends LookLaw user P where
  tell : ∀ event, P (tell event)
  sleep : ∀ milliseconds, P (sleep milliseconds)
  addTranscript : ∀ text filename startTime, P (addTranscript text filename startTime)
  ask : ∀ lastRequest, P (edit user (Edit.update fun c => { c with lastRequest }))
  step : S (edit user (Edit.step 1))
  stepAsking : ∀ lastRequest, S (edit user do
    Edit.step 1
    Edit.update fun c => { c with lastRequest })
  before : ∀ {α β : Type} {m : Run α} {f : α → Run β}, S m → (∀ a, P (f a)) → S (m >>= f)
  after : ∀ {α β : Type} {m : Run α} {f : α → Run β}, P m → (∀ a, S (f a)) → S (m >>= f)
  lookAfter : ∀ {α : Type} {f : Session → Run α}, (∀ s t, SameFor user s t → f t = f s) →
    (∀ s, S (f s)) → S (get >>= f)

namespace Law

variable {user : Value} {P S : {α : Type} → Run α → Prop} (h : Law user P S)

include h

theorem noteSaid (c : Conversation) (who : String) (what : Value) : P (noteSaid c who what) :=
  h.addTranscript _ _ _

theorem say (text voice : Value) : P (say text voice) :=
  h.bind (h.tell _) fun _ => h.look (fun _ _ hs => by rw [hs.host]) fun _ =>
    ite (h.throw _) (h.pure _)

theorem noteUser (c : Conversation) (other heard : Value) : P (noteUser c other heard) :=
  h.bind (h.lift _) fun _ => h.noteSaid _ _ _

theorem nameSpeak (text : Value) : S (nameSpeak user text) := by
  refine h.after h.currentOf fun c? => ite h.step (h.after (h.present c?) fun c => ?_)
  refine h.after h.lineData fun data => ?_
  extract_lets rest
  have hrest : ∀ speech, S (rest speech) := by
    intro (speaker, phrase, voice)
    refine h.after (h.ask _) fun _ => h.after (h.say _ _) fun _ => ?_
    refine h.after (h.datum _ _) fun heard => ?_
    extract_lets last
    have hlast : ∀ u, S (last u) := fun _ => h.after (h.noteSaid _ _ _) fun _ => h.step
    clear_value last
    exact ite (h.after (h.noteUser _ _ _) hlast) (hlast ())
  clear_value rest
  exact ite (h.after (h.lift _) hrest) (h.after (h.speechOfText _ _) hrest)

theorem speakAloud (c : Conversation) (phrase : Value) : S (speakAloud user c phrase) := by
  refine h.before (h.stepAsking _) fun _ => h.bind (h.say _ _) fun _ => ?_
  refine h.bind (h.datum _ _) fun heard => ?_
  extract_lets last
  have hlast : ∀ u, P (last u) := fun _ => h.noteSaid _ _ _
  clear_value last
  refine ite (h.bind h.lineData fun _ => h.bind (h.lift _) fun _ => ?_) (hlast ())
  exact h.bind (h.noteUser _ _ _) hlast

theorem speak (text : Value) : S (speak user text) := by
  refine h.after h.currentAt fun c? => h.after h.lineData fun data => ?_
  extract_lets last rest
  have hlast : ∀ phrase, S (last phrase) := fun _ =>
    ite h.step (h.after (h.present c?) fun c => h.speakAloud c _)
  clear_value last
  have hrest : ∀ foreign, S (rest foreign) := fun _ =>
    ite (h.nameSpeak text) (ite (h.after (h.lift _) hlast) (h.after (h.pure _) hlast))
  clear_value rest
  exact ite (h.after (h.lift _) fun _ => h.after (h.pure _) hrest) (h.after (h.pure _) hrest)

theorem reconveyedOfVariable (c : Conversation) (source : Value) :
    P (reconveyedOfVariable c source) := by
  refine h.bind (h.lift _) fun recordings => ite ?_ ?_
  · refine h.bind (h.lift _) fun _ => h.bind (h.lift _) fun _ => h.bind (h.lift _) fun _ => ?_
    exact h.bind (h.lift _) fun _ => h.pure _
  · refine h.bind (h.lift _) fun _ => h.bind (h.lift _) fun _ => ?_
    exact h.bind (h.rescue (h.say _ _) fun _ => h.pure _) fun _ => h.pure _

theorem reconvey (hvoice : ∀ name : Value, P (edit user do
      let speaker ← (← Edit.read).speaker.put "name" name
      Edit.update fun c => { c with speaker })) (text : Value) : S (reconvey user text) := by
  refine h.after h.lineData fun data => h.after h.currentAt fun c? => ?_
  extract_lets last rest
  have hlast : ∀ u, S (last u) := fun _ => h.step
  clear_value last
  have hrest : ∀ what, S (rest what) := by
    refine fun what => h.after h.theMessage fun m => ite (ite (h.after (h.tell _) hlast) ?_) ?_
    · exact h.after (hvoice _) fun _ => h.after h.current fun _ => h.after (h.say _ _) hlast
    · refine ite (h.after (h.isFile _) fun found => ite ?_ (h.after (h.say _ _) hlast)) (hlast ())
      refine h.after (h.tell _) fun _ => h.after (h.tell _) fun _ => ?_
      exact h.lookAfter (fun _ _ hs => by rw [hs.host]) fun _ => h.after (h.sleep _) hlast
  clear_value rest
  refine ite (h.after (h.reconveyedOfData c? _ _) hrest) ?_
  exact h.after (h.present c?) fun c => h.after (h.reconveyedOfVariable c _) hrest

theorem language (hdata : ∀ data, P (languageOfData user data))
    (htext : ∀ content, P (languageOfText user content)) (content : Value) :
    S (language user content) := by
  refine h.after h.currentAt fun _ => h.after h.lineData fun data => ?_
  extract_lets last rest
  have hlast : ∀ u, S (last u) := fun _ => h.step
  clear_value last
  have hrest : ∀ given, S (rest given) := fun _ =>
    ite (h.after (hdata data) hlast) (h.after (htext content) hlast)
  clear_value rest
  refine ite ?_ (h.after (h.pure _) hrest)
  exact h.after (h.lift _) fun _ => h.after (h.lift _) fun _ => h.after (h.pure _) hrest

theorem waitForAnswer (text : String) (deadline : Float) (polls : Nat) :
    P (waitForAnswer user text deadline polls) := by
  induction polls with
  | zero => exact h.pure _
  | succ polls ih =>
    refine h.bind h.seconds fun now => ite (h.bind h.current fun c => ite ?_ (h.pure _)) (h.pure _)
    exact h.bind (h.sleep _) fun _ => ih

theorem email (text : Value) : S (email user text) := by
  refine h.after h.currentAt fun c? => h.lookAfter (fun _ _ hs => by rw [hs.host]) fun s => ?_
  refine h.after (h.lift _) fun _ => h.after (h.lift _) fun address => ?_
  refine h.after h.lineData fun data => ?_
  extract_lets last rest
  have hlast : ∀ u, S (last u) := fun _ => h.step
  clear_value last
  have hrest : ∀ parts, S (rest parts) := fun (_, _) =>
    ite (h.after (h.tell _) hlast) (h.after (h.tell _) hlast)
  clear_value rest
  refine ite (h.after (h.lift _) fun _ => h.after (h.lift _) fun _ => h.after (h.pure _) hrest) ?_
  exact h.after (h.emailParts c? text) hrest

theorem compute (hformula : ∀ name formula, P (runFormula user name formula))
    (text : Value) : S (compute user text) := by
  refine h.after h.currentAt fun c? => ?_
  extract_lets last
  have hlast : ∀ u, S (last u) := fun _ => h.step
  clear_value last
  refine ite (h.after (h.lift _) fun (name, formula) => ?_) (hlast ())
  refine h.after (h.rescue (hformula name formula) fun _ => ?_) hlast
  exact h.bind (h.present c?) fun c => h.bind (h.lift _) fun _ => h.tell _

/-! ### The next line -/

theorem loop (hend : ∀ name, P (edit user (endLoop name)))
    (hstep : P (edit user (Edit.step 1))) (text : Value) : P (Command.loop user text) := by
  refine h.bind h.currentOf fun _ => h.bind h.lineData fun _ => h.bind (h.lift _) fun _ => ?_
  extract_lets rest
  have hrest : ∀ ends, P (rest ends) := by
    refine fun ends => ite ?_ hstep
    split
    · exact hend _
    · exact h.throw _
  clear_value rest
  exact ite (hrest true) (h.bind (h.lift _) hrest)

theorem goto (hjump : ∀ number lines, P (edit user do
      let lines ← Value.elements lines
      Command.jump number 0 lines)) (hstep : P (edit user (Edit.step 1))) (text : Value) :
    P (goto user text) := by
  refine h.bind h.currentAt fun c? => h.bind h.lineData fun data => ?_
  refine h.bind (h.destination c? data text) fun number => h.bind (h.present c?) fun c => ite ?_ ?_
  · exact hjump _ _
  · refine h.bind (h.lift _) fun _ => h.bind (h.lift _) fun _ => h.bind (h.lift _) fun _ => ?_
    exact h.bind (h.tell _) fun _ => hstep

theorem case (hchoose : ∀ value, P (edit user (chooseCase value)))
    (hback : P (edit user (Edit.step (-1)))) (hexit : P (exitScript user)) (text : Value) :
    P (case user text) := by
  refine h.bind h.currentAt fun c? => h.bind h.lineData fun data => ite ?_ ?_
  · exact h.bind (h.lift _) fun value => hchoose value
  · split
    · exact hchoose _
    · refine h.bind hback fun _ => h.bind (h.present c?) fun c => h.bind hexit fun _ => ?_
      refine h.bind (h.lift _) fun _ => h.bind (h.lift _) fun _ => ?_
      exact h.bind (h.lift _) fun _ => h.pure _

theorem branch (henter : ∀ holds, S (edit user (enterIf holds))) (text : Value) :
    S (branch user text) := by
  refine h.after h.lineData fun data => ?_
  extract_lets rest
  have hrest : ∀ holds, S (rest holds) := henter
  clear_value rest
  exact ite (h.after (h.lift _) hrest) (hrest _)

theorem otherwise (hpass : S (edit user passElse)) (hexit : P (exitScript user)) :
    S (otherwise user) :=
  h.before hpass fun _ => ite hexit (h.pure _)

end Law

end Run

/-! ### Computations that only look -/

namespace Looks

theorem rescue {m : Run α} {handler : Fault → Run α} (hm : Looks m)
    (hhandler : ∀ fault, Looks (handler fault)) : Looks (rescue m handler) :=
  fun s => (after_rescue hhandler).trans (hm s)

theorem law (user : Value) : Run.LookLaw user fun {_} m => Looks m where
  pure := pure
  throw := throw
  bind := bind
  rescue := rescue
  look _ hf := bind get hf

theorem manager? (user : Value) : Looks (manager? user) :=
  (law user).manager?

theorem managerAt (user : Value) : Looks (managerAt user) :=
  (law user).managerAt

theorem currentAt (user : Value) : Looks (currentAt user) :=
  (law user).currentAt

theorem currentOf (user : Value) : Looks (currentOf user) :=
  (law user).currentOf

theorem current (user : Value) : Looks (current user) :=
  (law user).current

theorem present (c? : Option Conversation) : Looks (present c?) :=
  (law .null).present c?

theorem theMessage : Looks theMessage :=
  (law .null).theMessage

theorem datum (name : String) (default : Value) : Looks (datum name default) :=
  (law .null).datum name default

theorem isAwaiting (user : Value) : Looks (isAwaiting user) :=
  (law user).isAwaiting

theorem known? (command : Value) : Looks (Keyword.known? command) := by
  unfold Keyword.known?
  split
  · exact bind get fun _ => pure _
  · exact ite (pure _) (throw _)

theorem hasScript (name : Value) : Looks (Library.hasScript name) :=
  (law .null).hasScript name

end Looks

/-! ### Leaving a script -/

section

variable {user : Value} {m : Manager} {s : Session} {c : Conversation} {rest : List Entry}

def Message.voiceless (m : Message) : Message :=
  { m with data := m.data.insert "speaker" .null }

theorem setDatum_of_none (hmessage : s.message = none) (name : String) (v : Value) :
    setDatum name v s = .error .missingOperation s := by
  simp only [setDatum, theMessage, bind_apply, get_apply, hmessage, throw_apply]

theorem setDatum_speaker (hmessage : s.message.isSome = true) :
    setDatum "speaker" .null s = .ok () { s with message := s.message.map (·.voiceless) } := by
  obtain ⟨message, hsome⟩ := Option.isSome_iff_exists.1 hmessage
  simp only [setDatum, theMessage, bind_apply, get_apply, hsome, pure_apply, modify_apply,
    Option.map_some, Message.voiceless]

/-- The session in which it was told that a script is left. -/
def Session.toldExit (user : Value) (c : Conversation) (s : Session) : Session :=
  { s with
    message := s.message.map (·.voiceless)
    events := .cancel (timeoutEvent user) ::
      .dialog "Exiting" (.object [("file_name", .str (Text.replace "_" " " c.filename.display))])
        false .null :: s.events }

theorem exitScript_eq (hkey : user.isKey = true) (hmessage : s.message.isSome = true)
    (hm : managerIn s.active user = some m) (hstack : m.stack = .conversation c :: rest) :
    exitScript user s = (do
      setManager user (← liftM (Manager.publish { m with stack := rest } c))
      if rest.length != 0 then edit user (Edit.step 1)
      else
        dropManager user
        if (← get).host.hasDisplay.truthy then tell .clearDisplay : Run Unit)
      (replaced user { m with stack := rest } (s.toldExit user c)) := by
  have hpop : m.pop = (.ok (some c), { m with stack := rest }) := by
    simp only [Manager.pop, hstack]
  rw [exitScript, bind_of_ok (currentOf_of_stack hkey hm hstack),
    bind_of_ok (setDatum_speaker hmessage)]
  simp only [present, dialog, Session.tell]
  rw [bind_of_ok (pure_apply _ _), bind_of_ok (modify_apply _ _), bind_of_ok (modify_apply _ _),
    bind_of_ok (managerOf_of_some hkey (by exact hm))]
  simp only [hpop]
  rw [bind_of_ok (setManager_apply _ _ _), bind_of_ok (lift_ok_apply _ _)]
  rfl

/-- Leaving a script fails at once unless there are a message and a running script. -/
theorem exitScript_cases (user : Value) (s : Session) :
    (∃ fault t, exitScript user s = .error fault t ∧
      (t = s ∨ t = { s with message := s.message.map (·.voiceless) })) ∨
    ∃ m c rest, user.isKey = true ∧ s.message.isSome = true ∧ managerIn s.active user = some m ∧
      m.stack = .conversation c :: rest := by
  have hlooks := Looks.currentOf user s
  cases hcurrent : currentOf user s with
  | error fault t =>
    rw [after_of_error hcurrent] at hlooks
    exact .inl ⟨fault, t, by rw [exitScript, bind_of_error hcurrent], .inl hlooks⟩
  | ok c? t =>
    rw [after_of_ok hcurrent] at hlooks
    subst hlooks
    by_cases hsome : t.message.isSome = true
    case neg =>
      have hnone : t.message = none := by simpa using hsome
      refine .inl ⟨.missingOperation, t, ?_, .inl rfl⟩
      rw [exitScript, bind_of_ok hcurrent, bind_of_error (setDatum_of_none hnone _ _)]
    cases c? with
    | none =>
      refine .inl ⟨.wrongKind, _, ?_, .inr rfl⟩
      rw [exitScript, bind_of_ok hcurrent, bind_of_ok (setDatum_speaker hsome)]
      rfl
    | some c =>
      obtain ⟨-, hkey, m, rest, hm, hstack⟩ := currentOf_ok hcurrent
      exact .inr ⟨m, c, rest, hkey, hsome, hm, hstack⟩

end

end Colloquy
