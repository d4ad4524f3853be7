import Colloquy.Listening
import Colloquy.Proofs.Computations
import Colloquy.Proofs.Drafts

/-! Running lines and listening to the user are put together from few pieces, like commands.  What
holds of the pieces that work on the running script, and of leaving it, holds of all that is done with
the words of the user. -/

namespace Colloquy.Run

open Session Execution Listening

variable {user : Value} {P S : {α : Type} → Run α → Prop}

namespace LookLaw

variable (h : LookLaw user P)

include h

theorem isCompiled {filename : Value} (hload : P (Library.load filename)) :
    P (Library.isCompiled filename) := by
  unfold Library.isCompiled
  extract_lets version
  have hversion : P version := h.bind hload fun _ => h.bind (h.lift _) fun _ => h.lift _
  clear_value version
  exact h.rescue (h.bind hversion fun _ => h.pure _) fun _ => h.pure _

theorem leaveScript (hexit : P (exitScript user)) : P (leaveScript user) :=
  h.look (fun _ _ hs => by rw [hs.initialized]) fun _ => ite hexit (h.throw _)

theorem runNext {c : Conversation}
    (hindent : ∀ lastIndent, P (edit user (Edit.update fun c => { c with lastIndent })))
    (hleave : ∀ parent, P (leaveCase user parent))
    (hline : ∀ line command text, c.lines.item c.index = .ok line →
      line.item "command" = .ok command → line.item "text" = .ok text →
      P (runLine c user line command text)) :
    P (runNext c user) := by
  refine h.lift_bind fun line hitem => h.bind (h.lift _) fun indent => h.bind (hindent _) fun _ => ?_
  refine h.lift_bind fun command hcommand => h.lift_bind fun text htext => ?_
  refine h.bind (h.lift _) fun outside => ?_
  extract_lets rest
  have hrest : ∀ place, P (rest place) := by
    intro place
    cases place with
    | otherOption parent => exact h.bind (hleave parent) fun _ => h.pure _
    | inside => exact hline line command text hitem hcommand htext
  clear_value rest
  refine ite ?_ (hrest _)
  exact h.bind (h.lift _) fun _ => h.bind (h.lift _) fun _ => h.bind (h.lift _) hrest

end LookLaw

namespace Law

variable (h : Law user P S)

include h

theorem tellError (error : String) (report : Report) : P (tellError error report) :=
  h.tell _

theorem confirm : P confirm :=
  h.bind h.theMessage fun _ => h.tell _

theorem restartTimeout : P (restartTimeout user) := by
  refine h.bind h.current fun c => h.bind (h.lift _) fun isTimed => ite ?_ (h.pure _)
  exact h.bind (h.lift _) fun _ => h.bind h.theMessage fun _ => h.bind (h.tell _) fun _ => h.tell _

section Leaving

variable (hexit : P (exitScript user))

include hexit

theorem proceed (hadvance : P (advance user)) (budget : Nat) :
    P (proceed budget user) := by
  induction budget with
  | zero => exact h.throw _
  | succ budget ih =>
    refine h.bind h.theMessage fun _ => h.look (fun s t hs => ?_) fun s => ?_
    · rw [reportFor, hs.manager, reportFor]
    extract_lets report lines
    have hlines : P lines := h.bind hadvance fun goesOn => ite ih (h.pure _)
    clear_value lines report
    exact h.rescue hlines fun _ => h.bind (h.tellError _ _) fun _ => hexit

variable (hstop : P (stopAwaiting user)) (hresume : P (Execution.resume user))

include hstop hresume

theorem leaveLoop (c : Conversation)
    (hgo : ∀ index lastIndent, P (edit user (Edit.update fun c => { c with index, lastIndent }))) :
    P (Listening.leaveLoop user c) := by
  unfold Listening.leaveLoop
  extract_lets rest leave
  have hrest : ∀ u, P (rest u) := by
    refine fun _ => h.bind (h.lift _) fun place? => ?_
    split
    · exact h.bind (hgo _ _) fun _ => h.bind h.confirm fun _ => hresume
    · exact h.leaveScript hexit
  have hleave : P leave :=
    h.bind h.isAwaiting fun awaits => ite (h.bind hstop hrest) (hrest ())
  clear_value leave
  exact h.rescue hleave fun _ => h.leaveScript hexit

omit hexit hstop in
theorem takeAnswer (hanswer : ∀ answer, P (edit user (keepAnswer answer)))
    (hrecording : ∀ file, P (edit user (keepRecording file))) (m : Message)
    (answer : String) : P (takeAnswer user m answer) := by
  refine h.bind (hanswer _) fun _ => ?_
  extract_lets file rest
  have hrest : ∀ u, P (rest u) :=
    fun _ => h.bind h.confirm fun _ => h.bind (h.sleep _) fun _ => hresume
  clear_value rest file
  exact ite (h.bind (h.lift _) fun _ => h.bind (hrecording _) hrest) (hrest _)

theorem hear (hawait : P (await user))
    (hgo : ∀ index lastIndent, P (edit user (Edit.update fun c => { c with index, lastIndent })))
    (hanswer : ∀ answer, P (edit user (keepAnswer answer)))
    (hrecording : ∀ file, P (edit user (keepRecording file))) (m : Message)
    (c : Conversation) : P (hear user m c) := by
  refine h.bind (h.datum _ _) fun utterances => h.bind (h.lift _) fun _ => ?_
  refine h.bind (h.lift _) fun words => ite ?_ (h.bind h.isAwaiting fun awaits => ite ?_ (h.pure _))
  · exact h.bind (h.leaveLoop hexit hstop hresume c hgo) fun _ => h.pure _
  · refine h.bind hstop fun _ => h.bind (h.lift _) fun answer? => ?_
    cases answer? with
    | none => exact h.bind hawait fun _ => h.pure _
    | some answer =>
      exact h.bind (h.takeAnswer hresume hanswer hrecording m answer) fun _ => h.pure _

end Leaving

end Law

end Colloquy.Run
