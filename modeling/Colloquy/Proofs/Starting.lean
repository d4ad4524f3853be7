import Colloquy.Proofs.Tags
import Colloquy.Proofs.Utterances

/-! Starts that come to nothing.  Who asks for a script may have none of its lines run: there is no such
script, it is not compiled, it has no line to start at, or something fails on the way.  Who is waited
for is the same then.  But a script that was read stays on the stack of its user if something fails
later, and if a script is not compiled, those that the user has are dropped. -/

namespace Colloquy

open Session Execution Message

/-! ### Reading never runs lines -/

theorem Json.number_ne_stepLimit (negative : Bool) (cs : List Char) :
    number negative cs ≠ .error .stepLimit := by
  unfold number
  grind

theorem Json.scalar_ne_stepLimit (cs : List Char) : scalar cs ≠ .error .stepLimit := by
  unfold scalar
  extract_lets word known
  clear_value known
  split
  · simp
  · exact number_ne_stepLimit _ _
  · exact number_ne_stepLimit _ _

theorem Json.map_ne_stepLimit {α β : Type} {x : Except Fault α} (f : α → β)
    (h : x ≠ .error .stepLimit) : x.map f ≠ .error .stepLimit := by
  cases x with
  | ok a => simp [Except.map]
  | error fault => simpa [Except.map] using h

theorem Json.parts_ne_stepLimit (fuel : Nat) :
    (∀ depth cs, value depth fuel cs ≠ .error .stepLimit) ∧
      (∀ depth read cs, items depth fuel read cs ≠ .error .stepLimit) ∧
      ∀ depth entries cs, members depth fuel entries cs ≠ .error .stepLimit := by
  induction fuel with
  | zero => simp [value, items, members]
  | succ fuel ih =>
    obtain ⟨hvalue, hitems, hmembers⟩ := ih
    refine ⟨fun depth cs => ?_, fun depth read cs => ?_, fun depth entries cs => ?_⟩
    · have hscalar := scalar_ne_stepLimit cs
      have hlist (start : List Char) := map_ne_stepLimit
        (fun read => (Value.ofItems read.1, read.2)) (hitems (depth + 1) [] start)
      have htable (start : List Char) := map_ne_stepLimit
        (fun read => (Value.table read.1, read.2)) (hmembers (depth + 1) [] start)
      unfold value
      grind
    · unfold items
      grind
    · unfold members
      split
      · split
        · simp
        · split
          · split
            · rename_i fault hread
              intro h
              exact hvalue _ _ (hread.trans (congrArg Except.error (Except.error.inj h)))
            · dsimp only
              split
              · exact hmembers _ _ _
              · simp
              · simp
          · simp
      · simp

theorem Json.read_ne_stepLimit (s : String) : read s ≠ .error .stepLimit := by
  have hvalue := (parts_ne_stepLimit (2 * s.toList.length + 2)).1 0 (skipGap s.toList)
  unfold read
  simp only [bind, Except.bind, pure, Except.pure]
  grind

theorem Value.get_ne_stepLimit {v key : Value} {fault : Fault}
    (h : v.get key = .error fault) : fault ≠ .stepLimit := by
  rintro rfl
  simp only [Value.get] at h
  grind

namespace Library

theorem stored_ne_stepLimit (s : Session) (filename : String) :
    stored s filename ≠ .error .stepLimit := by
  unfold stored
  split
  · exact Json.read_ne_stepLimit _
  · simp
  · simp

theorem load_ne_stepLimit {s t : Session} {filename : String} {fault : Fault}
    (h : load (.str filename) s = .error fault t) : fault ≠ .stepLimit := by
  rw [load_apply] at h
  split at h
  · cases h
    decide
  · intro hfault
    have hstored := stored_ne_stepLimit s filename
    cases hread : stored s filename with
    | ok script =>
      rw [hread] at h
      cases h
    | error fault' =>
      rw [hread] at h hstored
      cases h
      exact hstored (by rw [hfault])

theorem exists_isCompiled (filename : String) (s : Session) : ∃ compiled,
    isCompiled (.str filename) s = .ok compiled { s with reads := s.reads + 1 } := by
  have hafter := after_isCompiled (.str filename) s
  obtain ⟨compiled, t, hrun⟩ : ∃ compiled t, isCompiled (.str filename) s = .ok compiled t := by
    unfold isCompiled
    cases hload : load (.str filename) s with
    | error fault t =>
      exact ⟨false, t,
        rescue_of_error (bind_of_error (bind_of_error hload)) (load_ne_stepLimit hload)⟩
    | ok script t =>
      cases hmeta : metaOf script with
      | error fault =>
        have hmeta' : (do (← metaOf (← load filename)).get "cversion" : Run Value) s =
            .error fault t := by
          rw [bind_of_ok hload, hmeta]
          rfl
        exact ⟨false, t, rescue_of_error (bind_of_error hmeta') (Value.item_ne_stepLimit hmeta)⟩
      | ok scriptMeta =>
        have hmeta' : (do (← metaOf (← load filename)).get "cversion" : Run Value) s =
            (liftM (scriptMeta.get "cversion") : Run Value) t := by
          rw [bind_of_ok hload, hmeta, bind_of_ok (lift_ok_apply _ _)]
        cases hget : scriptMeta.get "cversion" with
        | error fault =>
          rw [hget] at hmeta'
          exact ⟨false, t, rescue_of_error (bind_of_error hmeta') (Value.get_ne_stepLimit hget)⟩
        | ok version =>
          rw [hget] at hmeta'
          exact ⟨version.truthy, t, rescue_of_ok (bind_of_ok hmeta')⟩
  rw [after_of_ok hrun] at hafter
  exact ⟨compiled, by rw [hrun, hafter]⟩

theorem exists_reread (filename : String) (s : Session) : ∃ script?,
    (rescue (do return some (← load filename)) fun _ => return none : Run (Option Value)) s =
      .ok script? { s with reads := s.reads + 1 } := by
  have hafter := after_load (.str filename) s
  cases hload : load (.str filename) s with
  | ok script t =>
    rw [after_of_ok hload] at hafter
    subst hafter
    exact ⟨some script, rescue_of_ok (bind_of_ok hload)⟩
  | error fault t =>
    rw [after_of_error hload] at hafter
    subst hafter
    exact ⟨none, rescue_of_error (bind_of_error hload) (load_ne_stepLimit hload)⟩

theorem exists_hasScript (name : String) (s : Session) :
    ∃ found, hasScript (.str name) s = .ok found s := by
  have hfile (path : String) : ∃ found, isFileAt path s = .ok found s := by
    unfold isFileAt
    rw [bind_of_ok (get_apply s)]
    cases s.files.resolve s.root ["cwd"] path with
    | error fault => exact ⟨false, rfl⟩
    | ok target =>
      cases target with
      | inside place => exact ⟨s.files.isFile place, rfl⟩
      | above => exact ⟨false, rfl⟩
  unfold hasScript
  rw [bind_of_ok (get_apply s), Value.needle, bind_of_ok (lift_ok_apply _ _)]
  obtain ⟨compiled, hcompiled⟩ := hfile (s.path scriptFolder ++ "/" ++ name ++ compiledExtension)
  rw [bind_of_ok hcompiled]
  split
  · exact ⟨true, rfl⟩
  · exact hfile _

end Library

/-! ### The steps of a start -/

namespace Launch

def notFound (filename : String) : Event :=
  .dialog "NotFound" (.object [("file_to_open", .str (Text.replace "_" " " filename))]) false .null

def request : Run (Value × String) := do
  let user := (← theMessage).user
  let name ← (← datum "file_to_run").text
  let files ← (← get).files.makeFolder transcriptFolder
  modify fun s => { s with files }
  return (user, name)

/-- Puts a script that was found on the stack of a user, at the line that it starts with. -/
def opening (user : Value) (name filename : String) (script? : Option Value) : Run Unit := do
  beginScript user filename script?
  let utterance ← datum "utterance"
  edit user do
    let start ← startIndex (← Edit.read).tags utterance name
    enter start

/-- All of a start that comes before the first line.  The user, if there is a script to run. -/
def preparing : Run (Option Value) := do
  let (user, name) ← request
  if !(← Library.hasScript (filenameOf name)) then
    tell (notFound (filenameOf name))
    return none
  else if ← Library.isCompiled (filenameOf name ++ Library.compiledExtension) then
    let script? ← rescue (do
      return some (← Library.load (filenameOf name ++ Library.compiledExtension))) fun _ => return none
    opening user name (filenameOf name) script?
    return some user
  else
    tell (problem (filenameOf name))
    dropManager user
    return none

def running? : Option Value → Run Unit
  | some user => Execution.resume user
  | none => return ()

theorem start_eq_preparing : start = preparing >>= running? := by
  have hite {c : Prop} [Decidable c] (a b : Run (Option Value)) :
      (if c then a else b) >>= running? = if c then a >>= running? else b >>= running? := by
    split <;> rfl
  have hname (name : String) :
      Text.replace "-" "_" (Text.replace " " "_" (Text.trimEnd name)) = filenameOf name := rfl
  have hnone : running? none = pure () := rfl
  have hsome (user : Value) : running? (some user) = resume user := rfl
  simp only [start, preparing, request, opening, bind_assoc, pure_bind, hite, hname, hnone, hsome,
    bind_pure_unit, dialog, notFound, problem]

variable {s t : Session} {user : Value} {c : Conversation}

/-- A script is on top of those that a user had. -/
structure Opened (s : Session) (user : Value) (c : Conversation) (t : Session) : Prop where
  isKey : user.isKey = true
  active : t.active = withManager user (((managerIn s.active user).getD { user }).push c) s.active
  awaiting : t.awaiting = s.awaiting
  events : t.events = s.events
  message : t.message = s.message

namespace Opened

theorem managerIn_eq (h : Opened s user c t) (hself : user.same user = true) :
    managerIn t.active user = some (((managerIn s.active user).getD { user }).push c) := by
  rw [h.active]
  exact (managerIn_withManager s.active user _).resolve_right fun hnone => by simp [hself] at hnone

theorem stack_eq (h : Opened s user c t) (hself : user.same user = true) :
    t.stackOf user = .conversation c :: s.stackOf user := by
  rw [stackOf_eq (h.managerIn_eq hself)]
  cases hm : managerIn s.active user <;> simp [stackOf, hm, Manager.push]

theorem after_edit {body : Edit α} (h : Opened s user c t) (hself : user.same user = true)
    (hbody : Spares body) : ∃ c', Opened s user c' (t.after (edit user body)) := by
  obtain hsame | ⟨m, c₀, rest, hm, -, hkept⟩ := Session.after_edit user body t
  · exact ⟨c, by rwa [hsame]⟩
  have hfound := h.managerIn_eq hself
  obtain rfl := Option.some.inj (hm.symm.trans hfound)
  have hchanges : Draft.after body { conversation := c₀ } =
      { conversation := (Draft.after body { conversation := c₀ }).conversation } :=
    congrArg (Draft.mk _) (hbody { conversation := c₀ })
  rw [hkept, hchanges, kept_of_unchanged]
  rw [h.active] at hfound
  refine ⟨settled t.lists { conversation := (Draft.after body { conversation := c₀ }).conversation },
    h.isKey, ?_, h.awaiting, h.events, h.message⟩
  dsimp only
  rw [h.active, withManager_withManager hfound]
  rfl

end Opened

theorem opening_cases (name filename : String) (script? : Option Value)
    (hself : user.same user = true) (htime : (Clock.wholeSeconds s.clock).isOk = true) :
    user.isKey = false ∧ opening user name filename script? s = .error .wrongKind s ∨
      ∃ c, Opened s user c (s.after (opening user name filename script?)) := by
  obtain ⟨scriptMeta, hbeginScript⟩ := exists_beginScript user filename script?
  cases hkey : user.isKey with
  | false =>
    have hbegin : begin user scriptMeta filename s = .error .wrongKind s := by
      simp [begin, manager?, bind_apply, hkey]
    exact .inl ⟨rfl, by rw [opening, hbeginScript, bind_of_error (bind_of_error hbegin)]⟩
  | true =>
    right
    obtain ⟨time, hbegin⟩ : ∃ time, begin user scriptMeta filename s = .ok () (replaced user
        (((managerIn s.active user).getD { user }).push
          (Conversation.start scriptMeta filename time)) s) := by
      obtain ⟨fault, herror⟩ | ⟨time, -, -, hbegin⟩ := begin_cases user scriptMeta filename s
      · cases hclock : Clock.wholeSeconds s.clock with
        | error fault =>
          rw [hclock] at htime
          cases htime
        | ok time =>
          rw [begin, bind_of_ok (manager?_of_isKey hkey s), bind_of_ok (get_apply s), hclock] at herror
          cases herror
      · exact ⟨time, hbegin⟩
    have hopened : Opened s user (Conversation.start scriptMeta filename time) (replaced user
        (((managerIn s.active user).getD { user }).push
          (Conversation.start scriptMeta filename time)) s) := ⟨hkey, rfl, rfl, rfl, rfl⟩
    have hbegun : ∃ c, Opened s user c (s.after (beginScript user filename script?)) := by
      rw [hbeginScript, after_bind_of_ok hbegin]
      refine (Looks.current user).bind_after (T := fun t => ∃ c, Opened s user c t) ⟨_, hopened⟩
        fun c _ => ?_
      -- The transcript only changes files, and filling the new script changes no list.
      refine after_bind (T := fun t => ∃ c, Opened s user c t) ?_ ?_
      · obtain ⟨files, hafter⟩ := after_addTranscript (.str ("RUNNING SCRIPT " ++ filename ++ "\n"))
          filename (.int c.startTime) (replaced user _ s)
        rw [hafter]
        exact ⟨_, hkey, hopened.active, hopened.awaiting, hopened.events, hopened.message⟩
      · rintro - t - ⟨c', ht⟩
        exact ht.after_edit hself fun d => (filling_loaded script? d).1
    refine after_bind (T := fun t => ∃ c, Opened s user c t) hbegun ?_
    rintro - t - ⟨c', ht⟩
    refine (Looks.datum _ _).bind_after (T := fun t => ∃ c, Opened s user c t) ⟨c', ht⟩
      fun utterance _ => ?_
    exact ht.after_edit hself (Spares.places.enter utterance name)

/-! ### What comes of a start -/

/-- Nothing is left to run after all that comes before the first line. -/
inductive Failed {α : Type} (a : α) (s : Session) : EStateM.Result Fault Session α → Prop
  /-- The request cannot be understood, or no transcript can be kept. -/
  | refused {fault : Fault} (hrequest : request s = .error fault s) : Failed a s (.error fault s)
  | missing {name : String} {files : Files}
      (hrequest : request s = .ok (Message.userOf s.message, name) { s with files })
      (hmissing : Library.hasScript (filenameOf name) { s with files } = .ok false { s with files }) :
      Failed a s (.ok a { s with files, events := notFound (filenameOf name) :: s.events })
  /-- The script is not compiled, and the scripts of the user are dropped. -/
  | dropped {name : String} {files : Files} {m : Manager}
      (hrequest : request s = .ok (Message.userOf s.message, name) { s with files })
      (hfound : Library.hasScript (filenameOf name) { s with files } = .ok true { s with files })
      (hcompiled : Library.isCompiled (filenameOf name ++ Library.compiledExtension)
        { s with files } = .ok false { s with files, reads := s.reads + 1 })
      (hkey : (Message.userOf s.message).isKey = true)
      (hm : managerIn s.active (Message.userOf s.message) = some m) :
      Failed a s (.ok a { s with
        files, reads := s.reads + 1, events := problem (filenameOf name) :: s.events
        active := s.active.filter fun (x, _) => !x.same (Message.userOf s.message) })
  /-- The script is not compiled, and the user has no scripts to drop. -/
  | absent {name : String} {files : Files} {fault : Fault}
      (hrequest : request s = .ok (Message.userOf s.message, name) { s with files })
      (hfound : Library.hasScript (filenameOf name) { s with files } = .ok true { s with files })
      (hcompiled : Library.isCompiled (filenameOf name ++ Library.compiledExtension)
        { s with files } = .ok false { s with files, reads := s.reads + 1 })
      (hm : (Message.userOf s.message).isKey = false ∨
        managerIn s.active (Message.userOf s.message) = none) :
      Failed a s (.error fault { s with
        files, reads := s.reads + 1, events := problem (filenameOf name) :: s.events })
  /-- The user cannot have scripts. -/
  | barred {files : Files} (hkey : (Message.userOf s.message).isKey = false) :
      Failed a s (.error .wrongKind { s with files, reads := s.reads + 1 + 1 })
  /-- Something fails when the script is on the stack. -/
  | halted {fault : Fault} {c : Conversation} {t : Session}
      (hopened : Opened s (Message.userOf s.message) c t) : Failed a s (.error fault t)

theorem request_cases (s : Session) : (∃ fault, request s = .error fault s) ∨
    s.message.isSome = true ∧
      ∃ name files, request s = .ok (userOf s.message, name) { s with files } := by
  unfold request
  cases hmessage : s.message with
  | none =>
    have hnone : theMessage s = .error .missingOperation s := by
      simp only [theMessage, bind_apply, get_apply, hmessage, throw_apply]
    exact .inl ⟨_, bind_of_error hnone⟩
  | some m =>
    rw [bind_of_ok (theMessage_of_some hmessage), bind_of_ok (datum_of_some hmessage _ _)]
    cases ((Entries.find? "file_to_run" m.data).getD .null).text with
    | error fault => exact .inl ⟨fault, rfl⟩
    | ok name =>
      rw [bind_of_ok (lift_ok_apply _ _), bind_of_ok (get_apply s)]
      cases s.files.makeFolder transcriptFolder with
      | error fault => exact .inl ⟨fault, rfl⟩
      | ok files =>
        have huser : userOf s.message = m.user := by
          rw [hmessage]
          rfl
        exact .inr ⟨rfl, name, files, by rw [← hmessage, huser]; rfl⟩

theorem dropManager_cases (user : Value) (s : Session) :
    (user.isKey = true ∧ ∃ m, managerIn s.active user = some m ∧
      dropManager user s = .ok () { s with active := s.active.filter fun (x, _) => !x.same user }) ∨
    ((user.isKey = false ∨ managerIn s.active user = none) ∧
      ∃ fault, dropManager user s = .error fault s) := by
  obtain ⟨fault, herror⟩ | ⟨m, hkey, hm, -⟩ := managerAt_cases user s
  · right
    constructor
    · cases hkey : user.isKey with
      | false => exact .inl rfl
      | true =>
        cases hm : managerIn s.active user with
        | none => exact .inr rfl
        | some m =>
          rw [managerAt_of_some hkey hm] at herror
          cases herror
    · rw [dropManager, bind_of_ok (get_apply s)]
      split
      · exact ⟨_, rfl⟩
      · exact ⟨fault, bind_of_error herror⟩
  · exact .inl ⟨hkey, m, hm, dropManager_of_some hkey hm⟩

theorem preparing_cases (hself : (userOf s.message).same (userOf s.message) = true)
    (htime : (Clock.wholeSeconds s.clock).isOk = true) :
    Failed none s (preparing s) ∨ s.message.isSome = true ∧
      ∃ c t, preparing s = .ok (some (userOf s.message)) t ∧
        Opened s (userOf s.message) c t := by
  obtain ⟨fault, hrequest⟩ | ⟨hmessage, name, files, hrequest⟩ := request_cases s
  · rw [preparing, bind_of_error hrequest]
    exact .inl (.refused hrequest)
  rw [preparing, bind_of_ok hrequest]
  dsimp only
  obtain ⟨found, hfound⟩ := Library.exists_hasScript (filenameOf name) { s with files }
  rw [bind_of_ok hfound]
  cases found with
  | false => exact .inl (.missing hrequest hfound)
  | true =>
    rw [if_neg (by decide)]
    obtain ⟨compiled, hcompiled⟩ :=
      Library.exists_isCompiled (filenameOf name ++ Library.compiledExtension) { s with files }
    rw [bind_of_ok hcompiled]
    cases compiled with
    | false =>
      left
      rw [if_neg (by decide), Session.tell, bind_of_ok (modify_apply _ _)]
      obtain ⟨hkey, m, hm, hdrop⟩ | ⟨hnone, fault, hdrop⟩ := dropManager_cases
        (userOf s.message) { s with
          files, reads := s.reads + 1, events := problem (filenameOf name) :: s.events }
      · rw [bind_of_ok hdrop]
        exact .dropped hrequest hfound hcompiled hkey hm
      · rw [bind_of_error hdrop]
        exact .absent hrequest hfound hcompiled hnone
    | true =>
      obtain ⟨script?, hread⟩ := Library.exists_reread
        (filenameOf name ++ Library.compiledExtension) { s with files, reads := s.reads + 1 }
      rw [if_pos rfl, bind_of_ok hread]
      obtain ⟨hkey, hbarred⟩ | ⟨c, hopened⟩ := opening_cases name (filenameOf name) script?
        (s := { s with files, reads := s.reads + 1 + 1 }) hself htime
      · rw [bind_of_error hbarred]
        exact .inl (.barred hkey)
      · replace hopened : Opened s (userOf s.message) c _ :=
          ⟨hopened.isKey, hopened.active, hopened.awaiting, hopened.events, hopened.message⟩
        cases hrun : opening (userOf s.message) name (filenameOf name) script?
            { s with files, reads := s.reads + 1 + 1 } with
        | error fault t =>
          rw [after_of_error hrun] at hopened
          rw [bind_of_error hrun]
          exact .inl (.halted hopened)
        | ok _ t =>
          rw [after_of_ok hrun] at hopened
          rw [bind_of_ok hrun]
          exact .inr ⟨hmessage, c, t, rfl, hopened⟩

/-- A start comes to a line of the script that was asked for. -/
def Reaches (s : Session) : Prop :=
  ∃ user t c below line, preparing s = .ok (some user) t ∧ t.awaiting.any (·.same user) = false ∧
    t.stackOf user = .conversation c :: below ∧ c.lines.truthy = true ∧
      Execution.nextLine c = .ok line

/-- What comes of a start that does not come to a line. -/
inductive Unreached (s : Session) : EStateM.Result Fault Session Unit → Prop
  | failed {r : EStateM.Result Fault Session Unit} (hfailed : Failed () s r) : Unreached s r
  /-- The user is waited for, or the script has no lines. -/
  | resting {c : Conversation} {t : Session} (hopened : Opened s (Message.userOf s.message) c t)
      (hrests : t.awaiting.any (·.same (Message.userOf s.message)) = true ∨ c.lines.truthy = false) :
      Unreached s (.ok () t)
  /-- There is no line at the place, which is reported, and the script is left. -/
  | broken {c : Conversation} {t : Session} (hopened : Opened s (Message.userOf s.message) c t)
      (report : Execution.Report) :
      Unreached s (giveUp (Message.userOf s.message) report t)
  /-- The place is behind the last line, which is reported, and the script is left. -/
  | ended {c : Conversation} {t : Session} (hopened : Opened s (Message.userOf s.message) c t)
      (report last : Execution.Report) :
      Unreached s (rescue (exitScript (Message.userOf s.message))
        (fun _ => giveUp (Message.userOf s.message) report)
        { t with events := last.event "end of file" :: t.events })

theorem advance_unreached {below : List Entry} (hkey : user.isKey = true)
    (hstack : s.stackOf user = .conversation c :: below)
    (hwaits : s.awaiting.any (·.same user) = false)
    (hline : c.lines.truthy = true → ∀ line, nextLine c ≠ .ok line) :
    c.lines.truthy = false ∧ advance user s = .ok false s ∨
    (∃ fault, advance user s = .error fault s) ∨
    ∃ last : Report, advance user s = (do
      exitScript user
      return false) { s with events := last.event "end of file" :: s.events } := by
  obtain ⟨m, hm, htop⟩ := exists_managerIn_of_stackOf hstack
  have hawaits : isAwaiting user s = .ok false s := by
    rw [isAwaiting, bind_of_ok (get_apply s), hwaits]
    rfl
  rw [advance, bind_of_ok (currentOf_of_stack hkey hm htop), bind_of_ok hawaits,
    if_neg (by decide)]
  dsimp only
  cases htruthy : c.lines.truthy with
  | false => exact .inl ⟨rfl, rfl⟩
  | true =>
    right
    replace hline := hline htruthy
    rw [if_neg (by decide)]
    cases hsize : c.lines.size with
    | error fault => exact .inl ⟨fault, rfl⟩
    | ok size =>
      rw [bind_of_ok (lift_ok_apply _ _)]
      cases hcompare : c.index.compare .atLeast (.int size) with
      | error fault => exact .inl ⟨fault, rfl⟩
      | ok behind =>
        rw [bind_of_ok (lift_ok_apply _ _)]
        cases behind with
        | true => exact .inr ⟨{ line := c.index, script := c.filename, detail := "" }, rfl⟩
        | false =>
          left
          simp only [nextLine, hsize, hcompare, bind, Except.bind, Bool.false_eq_true,
            if_false] at hline
          rw [if_neg (by decide), runNext]
          cases hitem : c.lines.item c.index with
          | error fault => exact ⟨fault, rfl⟩
          | ok line => exact absurd hitem (hline line)

theorem resume_unreached (hself : (userOf s.message).same (userOf s.message) = true)
    (hmessage : s.message.isSome = true) (h : Opened s (userOf s.message) c t)
    (hline : t.awaiting.any (·.same (userOf s.message)) = false → c.lines.truthy = true →
      ∀ line, nextLine c ≠ .ok line) :
    Unreached s (resume (userOf s.message) t) := by
  have hstack := h.stack_eq hself
  have harrived : t.message.isSome = true := by rw [h.message]; exact hmessage
  rw [resume, lineLimit, proceed_succ harrived]
  have hrests (hstops : advance (userOf s.message) t = .ok false t)
      (handler : Fault → Run Unit) : rescue (do
        if ← advance (userOf s.message) then
          proceed 299 (userOf s.message)) handler t = .ok () t := by
    refine rescue_of_ok ?_
    rw [bind_of_ok hstops]
    rfl
  cases hwaits : t.awaiting.any (·.same (userOf s.message)) with
  | true =>
    rw [hrests (advance_of_awaiting h.isKey hstack hwaits)]
    exact .resting h (.inl hwaits)
  | false =>
    obtain ⟨hblank, hstops⟩ | ⟨fault, hfails⟩ | ⟨last, hends⟩ :=
      advance_unreached h.isKey hstack hwaits (hline hwaits)
    · rw [hrests hstops]
      exact .resting h (.inr hblank)
    · -- Only the limit of lines passes the handler.
      by_cases hlimit : fault = .stepLimit
      · simp only [rescue, bind_of_error hfails, hlimit]
        exact .failed (.halted h)
      · rw [rescue_of_error (bind_of_error hfails) hlimit]
        exact .broken h _
    · have hlines : (do
          if ← advance (userOf s.message) then
            proceed 299 (userOf s.message) : Run Unit) t =
          exitScript (userOf s.message)
            { t with events := last.event "end of file" :: t.events } := by
        rw [bind_apply, hends, bind_apply]
        cases exitScript (userOf s.message)
          { t with events := last.event "end of file" :: t.events } <;> rfl
      have hended (handler : Fault → Run Unit) : rescue (do
          if ← advance (userOf s.message) then
            proceed 299 (userOf s.message)) handler t =
          rescue (exitScript (userOf s.message)) handler
            { t with events := last.event "end of file" :: t.events } := by
        simp only [rescue, hlines]
      rw [hended]
      exact .ended h _ last

theorem Failed.start (h : Failed none s (preparing s)) : Failed () s (start s) := by
  rw [start_eq_preparing, bind_apply]
  generalize preparing s = r at h ⊢
  cases h with
  | refused hrequest => exact .refused hrequest
  | missing hrequest hmissing => exact .missing hrequest hmissing
  | dropped hrequest hfound hcompiled hkey hm => exact .dropped hrequest hfound hcompiled hkey hm
  | absent hrequest hfound hcompiled hm => exact .absent hrequest hfound hcompiled hm
  | barred hkey => exact .barred hkey
  | halted hopened => exact .halted hopened

theorem Unreached.awaiting_eq {m : Run Unit} (h : Unreached s (m s)) :
    (s.after m).awaiting = s.awaiting := by
  have hgiveUp (user : Value) (report : Report) (t : Session) :
      (t.after (giveUp user report)).awaiting = t.awaiting :=
    (exitScript_leaves user { t with events := report.event "unknown" :: t.events }).awaiting_eq
  unfold after
  generalize m s = r at h ⊢
  cases h with
  | failed hfailed =>
    cases hfailed with
    | refused | missing | dropped | absent | barred => rfl
    | halted hopened => exact hopened.awaiting
  | resting hopened => exact hopened.awaiting
  | broken hopened report => exact (hgiveUp _ report _).trans hopened.awaiting
  | @ended c t hopened report last =>
    refine Eq.trans ?_ hopened.awaiting
    have hleaves := (exitScript_leaves (userOf s.message)
      { t with events := last.event "end of file" :: t.events }).awaiting_eq
    cases hexit : exitScript (userOf s.message)
        { t with events := last.event "end of file" :: t.events } with
    | ok _ u =>
      rw [rescue_of_ok hexit]
      rwa [after_of_ok hexit] at hleaves
    | error fault u =>
      rw [after_of_error hexit] at hleaves
      by_cases hlimit : fault = .stepLimit
      · simp only [rescue, hexit, hlimit]
        exact hleaves
      · rw [rescue_of_error hexit hlimit]
        exact (hgiveUp _ report u).trans hleaves

theorem filter_withManager_of_none {active : List (Value × Manager)} (hself : user.same user = true)
    (hm : managerIn active user = none) (n : Manager) :
    (withManager user n active).filter (fun (x, _) => !x.same user) = active := by
  induction active with
  | nil => simp [withManager, hself]
  | cons entry rest ih =>
    obtain ⟨x, k⟩ := entry
    rw [managerIn_cons] at hm
    split at hm
    · cases hm
    · rename_i hx
      simp [withManager, hx, ih hm]

/-- Well-formed scripts are left without a fault.  If the user had none before, all is as it was; and
else the script that the user had goes on by a line. -/
theorem Opened.exits (h : Opened s user c t) (hself : user.same user = true)
    (hmessage : s.message.isSome = true)
    (hleavable : Entry.Leavable (.conversation c :: s.stackOf user)) (events : List Event) :
    ∃ u, exitScript user { t with events } = .ok () u ∧
      (managerIn s.active user = none → u.active = s.active) ∧
      ∀ c' rest, s.stackOf user = .conversation c' :: rest → ∃ index bindings,
        c'.index.addInt 1 = .ok index ∧ bindings.copied = c'.bindings.copied ∧
          u.stackOf user = .conversation { c' with index, bindings } :: rest := by
  have hstack : stackOf { t with events } user = .conversation c :: s.stackOf user :=
    h.stack_eq hself
  obtain ⟨u, hexit⟩ := exitScript_of_stack h.isKey (s := { t with events })
    (by rw [← hmessage, ← h.message]) (by rwa [hstack]) (by simp [hstack])
  refine ⟨u, hexit, fun hnone => ?_, fun c' rest hrest => ?_⟩
  · have hleaves := exitScript_leaves user { t with events }
    have hdepth := exitScript_depthOf hexit (by simp [hstack])
    rw [after_of_ok hexit] at hleaves
    have hempty : s.stackOf user = [] := by simp [stackOf, hnone]
    rw [hempty] at hstack
    cases hleaves with
    | stay => omega
    | idle => exact absurd hdepth (by simp [depthOf, stackOf])
    | stuck events' hm hm' hpublish =>
      -- A well-formed script hands its values on, so it is never stuck.
      obtain ⟨hc, -⟩ := List.cons.inj (hm'.symm.trans ((stackOf_eq hm).symm.trans hstack))
      obtain rfl := Entry.conversation.inj hc
      obtain ⟨m', hm'⟩ := hleavable.sound_top.publish _
      exact absurd hm' (hpublish m')
    | back events' scope hm hm' hrest =>
      obtain ⟨-, hnil⟩ := List.cons.inj (hm'.symm.trans ((stackOf_eq hm).symm.trans hstack))
      exact absurd hnil hrest
    | last events' hm hm' =>
      dsimp only
      rw [h.active]
      exact filter_withManager_of_none hself hnone _
  · rw [hrest] at hstack
    obtain ⟨index, bindings, hindex, hbindings, hu, -⟩ := exitScript_below hexit hstack
    exact ⟨index, bindings, hindex, hbindings, hu⟩

/-- If a start does not come to a line of the script that was asked for, who is waited for is the
same.  The users and their scripts are the same if the request is refused, there is no such script, or
there are no scripts to drop.  They are not if the scripts of the user are dropped, or if the new
script stays on the stack.  If it is put there and left again, this depends on whether the user had
a script before. -/
theorem start_unreached (hself : (Message.userOf s.message).same (Message.userOf s.message) = true)
    (htime : (Clock.wholeSeconds s.clock).isOk = true) (h : ¬ Reaches s) :
    (s.after start).awaiting = s.awaiting ∧ Unreached s (start s) ∧
    ∀ c t events, Opened s (Message.userOf s.message) c t → s.message.isSome = true →
      Entry.Leavable (.conversation c :: s.stackOf (Message.userOf s.message)) →
      ∃ u, exitScript (Message.userOf s.message) { t with events } = .ok () u ∧
        (managerIn s.active (Message.userOf s.message) = none → u.active = s.active) ∧
        ∀ c' rest, s.stackOf (Message.userOf s.message) = .conversation c' :: rest →
          ∃ index bindings, c'.index.addInt 1 = .ok index ∧ bindings.copied = c'.bindings.copied ∧
            u.stackOf (Message.userOf s.message) =
              .conversation { c' with index, bindings } :: rest := by
  have hunreached : Unreached s (start s) := by
    obtain hfailed | ⟨hmessage, c, t, hprepared, hopened⟩ := preparing_cases hself htime
    · exact .failed hfailed.start
    · rw [start_eq_preparing, bind_of_ok hprepared]
      refine resume_unreached hself hmessage hopened fun hwaits htruthy line hline => ?_
      exact h ⟨_, t, c, _, line, hprepared, hwaits, hopened.stack_eq hself, htruthy, hline⟩
  exact ⟨hunreached.awaiting_eq, hunreached,
    fun c t events hopened hmessage hleavable => hopened.exits hself hmessage hleavable events⟩

theorem not_reaches (h : (Running.returned preparing s).join.isNone = true) : ¬ Reaches s := by
  rintro ⟨user, t, c, below, line, hprepared, -⟩
  simp [Running.returned, hprepared] at h

def drafting (active : List (Value × Manager)) : Session where
  message := some { data := [("file_to_run", "other"), ("utterance", "run other")],
                    context := [("user", "ann")] }
  files := { files := [(scriptFolder ++ ["other.nct"], "")], folders := Files.ways scriptFolder }
  active
  awaiting := ["bob"]

theorem userOf_drafting (active : List (Value × Manager)) :
    userOf (drafting active).message = "ann" := by
  simp [drafting, userOf, user, Entries.find?, Value.str_same]

/-- The user who asks for the script has another one. -/
theorem start_unreached_drafting :
    ¬ Reaches (drafting (ofLines []).active) ∧
      ((drafting (ofLines []).active).after start).awaiting = ["bob"] ∧
      Unreached (drafting (ofLines []).active) (start (drafting (ofLines []).active)) := by
  have hnot : ¬ Reaches (drafting (ofLines []).active) := not_reaches (by decide +kernel)
  have hself : (Message.userOf (drafting (ofLines []).active).message).same
      (Message.userOf (drafting (ofLines []).active).message) = true := by
    rw [userOf_drafting, Value.str_same]
    rfl
  obtain ⟨hawaiting, hunreached, -⟩ := start_unreached hself (by decide) hnot
  exact ⟨hnot, hawaiting, hunreached⟩

/-- The script of a user is dropped though no other is run, and a user without one has a fault. -/
theorem start_drops_unreached :
    ¬ Reaches (drafting (ofLines []).active) ∧ ¬ Reaches (drafting []) ∧
      (drafting (ofLines []).active).depthOf "ann" = 1 ∧
      Running.returned start (drafting (ofLines []).active) = some () ∧
      ((drafting (ofLines []).active).after start).depthOf "ann" = 0 ∧
      Running.faultOf start (drafting []) = some .missingEntry :=
  ⟨not_reaches (by decide +kernel), not_reaches (by decide +kernel), by decide +kernel,
    by decide +kernel, by decide +kernel, by decide +kernel⟩

end Launch

end Colloquy
