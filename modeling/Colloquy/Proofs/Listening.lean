import Colloquy.Proofs.Execution

/-! What the user says, that the user says nothing and that the user starts a script are all dealt
with in the remit of the user that the message comes from. -/

namespace Colloquy

open Session Listening

variable {r : Remit} {P : Prop}

/-! ### Answers -/

theorem Edits.keepAnswer (answer : String) : Edits r (keepAnswer answer) := by
  refine bind read fun c _ => bind (readVariable_isKey _) fun old ⟨hold, hkey⟩ => ?_
  cases old with
  | list items number =>
    have hnumber := (Value.listsIn_list.1 hold).1
    have hitems := List.forall_mem_cons.2 ⟨Value.listsIn_str answer, (Value.listsIn_list.1 hold).2⟩
    refine bind (changeList (Value.listsIn_list.2 ⟨hnumber, hitems⟩)) ?_
    exact fun value hvalue => writeVariable _ hvalue
  | _ =>
    have hname := Value.listsIn_of_isKey (A := r.lists) _ hkey
    exact writeVariable _ (by split <;> simp [hname])

theorem Edits.keepRecording (file : String) : Edits r (keepRecording file) := by
  refine bind read fun c _ => bind (lift _) fun old _ => ?_
  extract_lets first files
  clear_value files
  exact bind (lift _) fun recordings _ => update fun _ => ⟨rfl, rfl, rfl⟩

/-! ### The lines that a script starts with -/

namespace Confined

theorem beginScript (hjumps : r.jumps) (hspared : r.spared = 0) (filename : String)
    {script? : Option Value} (hscript : P → ∀ script ∈ script?, script.ListsIn r.lists) :
    Confined r P (Launch.beginScript r.user filename script?) := by
  have hreset : Edits r (Edit.update (·.reset)) :=
    .update_of_jumps hjumps fun c _ => by
      simp [Remit.Holds, Conversation.reset]
  unfold Launch.beginScript
  extract_lets scriptMeta
  clear_value scriptMeta
  refine seq (begin hjumps hspared _ _) fun _ => seq current fun c => ?_
  refine seq (addTranscript _ _ _) fun _ => edit fun hP => ?_
  cases script? with
  | none => exact .bind hreset fun _ _ => .update fun _ => ⟨rfl, rfl, rfl⟩
  | some script =>
    have hfill := Edits.fill hjumps (hscript hP script rfl)
    exact .bind (.rescue hfill fun _ => hreset) fun _ _ => .update fun _ => ⟨rfl, rfl, rfl⟩

section Messages

variable (hhears : ∃ user, r.hears user) (hjumps : r.jumps) (hspared : r.spared = 0)

include hhears hjumps hspared

theorem hear (m : Message) (c : Conversation) : Confined r P (hear r.user m c) :=
  (law (p := false)).hear exits stopAwaiting (resume hhears hjumps hspared) await
    (fun _ _ => edit fun _ => .update_of_jumps hjumps fun _ hc => hc)
    (fun _ => edit fun _ => .keepAnswer _) (fun _ => edit fun _ => .keepRecording _) m c

/-! ### Messages of the user -/

variable (huser : ∀ user, r.hears user → user = r.user)

include huser

theorem respond : Confined r P respond := by
  refine bind (theMessage_heard hhears) fun m => ?_
  generalize m.user = user
  apply forUser hspared user fun h => huser _ h.2
  refine fun user => seq manager? fun m? => ?_
  cases m? with
  | none => exact pure fun _ => trivial
  | some manager =>
    refine seq (top_any manager) fun c? => seq (present c?) fun c => ite ?_ (pure fun _ => trivial)
    exact hear (r := { r with user }) hhears hjumps hspared m c

theorem converse : Confined r P converse := by
  refine bind (theMessage_heard hhears) fun m => seq (datum _ _) fun utterances => ?_
  refine ite (pure fun _ => trivial) (seq (lift _) fun words => ite (pure fun _ => trivial) ?_)
  extract_lets origin
  clear_value origin
  refine seq (lift _) fun _ => ite (pure fun _ => trivial) (seq (manager?_any _) fun m? => ?_)
  cases m? with
  | none => exact pure fun _ => trivial
  | some manager =>
    refine seq (top_any manager) fun c? => ?_
    cases c? with
    | none => exact throw _
    | some c =>
      refine seq (lift _) fun _ => ite (pure fun _ => trivial) ?_
      refine seq (respond hhears hjumps hspared huser) fun consumed => ?_
      have hrestart : Confined r (P ∧ r.hears m.user) (restartTimeout m.user) :=
        forUser hspared _ (fun h => huser _ h.2) fun _ => (law (p := false)).restartTimeout
      exact ite (seq hrestart fun _ => pure fun _ => trivial) (pure fun _ => trivial)

theorem timeOut : Confined r P timeOut := by
  refine bind (get_heard hhears) fun s => ?_
  extract_lets user
  have hsame : P ∧ r.hears (Message.userOf s.message) → user = r.user := fun h => huser _ h.2
  clear_value user
  apply forUser hspared user hsame
  refine fun user => seq current fun c => ?_
  have hgoto := fun P => goto (P := P) (r := { r with user }) hjumps c.timeoutAction
  refine ite (ite (seq (isAwaiting _) fun awaits => ?_) ?_) (pure fun _ => trivial)
  · exact ite (seq stopAwaiting fun _ => hgoto _) (hgoto _)
  · exact seq (tell _) fun _ => exits

/-! ### Starting a script -/

theorem start : Confined r P Launch.start := by
  refine bind (theMessage_heard hhears) fun m => ?_
  extract_lets user
  have hsame : P ∧ r.hears m.user → user = r.user := fun h => huser _ h.2
  clear_value user
  apply forUser hspared user hsame
  refine fun user => seq (datum _ _) fun _ => seq (lift _) fun name => ?_
  extract_lets filename file
  clear_value file filename
  refine seq get fun s => seq (lift _) fun files => ?_
  refine seq (modify fun _ => ⟨rfl, rfl, rfl, rfl, rfl⟩) fun _ => seq (hasScript _) fun found => ?_
  refine ite (dialog _ _) (seq ((law (p := false)).isCompiled (load _).forget) fun compiled => ite ?_ ?_)
  · have hload : Confined { r with user } (P ∧ r.hears m.user)
        (Colloquy.rescue (do return some (← Library.load file)) fun _ => return none) false
        fun script? => ∀ script ∈ script?, script.ListsIn r.lists :=
      rescue (bind (load file) fun script => pure fun h _ hmem => Option.some.inj hmem ▸ h.2)
        fun _ => pure fun _ => nofun
    refine bind hload fun script? => ?_
    refine seq (beginScript (r := { r with user }) hjumps hspared filename fun h => h.2) fun _ => ?_
    refine seq (datum _ _) fun utterance => ?_
    have henter := (Edits.places (r := { r with user }) hjumps).enter utterance name
    exact seq (edit fun _ => henter) fun _ => resume (r := { r with user }) hhears hjumps hspared
  · exact seq (dialog _ _) fun _ => dropManager

end Messages

end Confined

end Colloquy
