import Colloquy.Proofs.Functions

/-! The commands that ask others keep within the remit of their user.  An answer that the host gives
at once belongs to the user of the message. -/

namespace Colloquy

open Session

variable {r : Remit} {P : Prop} {p : Bool}

namespace Confined

theorem compose_heard (hhears : ∃ user, r.hears user) (kind : String) (text voice : Value) :
    Confined r P (Function.compose kind text voice) false fun m => r.hears m.user := by
  intro s
  cases hm : s.message with
  | none =>
    simp only [Function.compose, bind_apply, get_apply, hm, pure_apply]
    refine ⟨.refl r s, fun _ _ hheard _ => ⟨.refl s, ?_⟩⟩
    have := hheard hhears
    rwa [hm] at this
  | some m =>
    simp only [Function.compose, bind_apply, get_apply, hm, pure_apply]
    refine ⟨.refl r s, fun _ _ hheard _ => ⟨.refl s, ?_⟩⟩
    have := hheard hhears
    rwa [hm] at this

/-! ### Answers -/

theorem noteAnswer {user : Value} (huser : P → r.hears user) (m : Message) (c : Conversation) :
    Confined r P (Command.noteAnswer user m c) := by
  unfold Command.noteAnswer
  extract_lets answer
  clear_value answer
  refine ite (seq (lift _) fun signal => ite ?_ (pure fun _ => trivial)) (pure fun _ => trivial)
  refine seq (lift _) fun request => seq (lift _) fun _ => seq (isAwaiting user) fun waits => ?_
  exact ite (edit_answered huser) (pure fun _ => trivial)

theorem hearAnswer {message : Option Message} (huser : P → r.hears (Message.userOf message)) :
    Confined r P (Command.hearAnswer message) := by
  refine rescue ?_ fun fault => ?_
  · refine seq (manager?_any _) fun m? => ?_
    cases m? with
    | none => exact pure fun _ => trivial
    | some m =>
      refine seq (top_any m) fun c? => ?_
      cases message with
      | none => exact throw _
      | some message =>
        refine seq (lift _) fun request => ite ?_ (pure fun _ => trivial)
        exact seq (present c?) fun c => noteAnswer huser message c
  · split
    · exact pure fun _ => trivial
    · exact throw _

theorem emitRequest {request : Message} (huser : P → r.hears request.user) (text : String) :
    Confined r P (Command.emitRequest request text) := by
  refine seq (send _) fun _ => seq get fun s => ?_
  split
  · exact pure fun _ => trivial
  · refine hearAnswer fun hP => ?_
    have hsame : ("cc_data" : String) ≠ "user" := by decide
    simpa [Message.userOf, Message.user, Entries.find?_insert_ne hsame] using huser hP

theorem execute (hhears : ∃ user, r.hears user) (text : Value) :
    Confined r P (Command.execute r.user text) p := by
  refine seq currentOf fun c? => seq lineData fun data => ?_
  extract_lets rest
  have hrest : ∀ text, Confined r P (rest text) p := by
    refine fun text => ite (edit fun _ => .step (by decide)) (seq (lift _) fun text => ?_)
    extract_lets text
    clear_value text
    refine seq (present c?) fun c => bind (compose_heard hhears _ _ _) fun request => ?_
    refine seq (edit fun _ => .update fun _ => ⟨rfl, rfl, rfl⟩) fun _ => ?_
    refine seq (emitRequest And.right text) fun _ => ?_
    refine seq_left (edit fun _ => .step (by decide)) fun _ => ?_
    refine seq (of_looks (Looks.law r.user).seconds) fun _ => ?_
    exact (law (p := false)).waitForAnswer _ _ _
  clear_value rest
  exact ite (seq (lift _) hrest) (pure_bind (hrest _))

end Confined

end Colloquy
