import Colloquy.Proofs.Assignment
import Colloquy.Proofs.Calling
import Colloquy.Proofs.Flow
import Colloquy.Proofs.Hearing
import Colloquy.Proofs.Rephrase
import Colloquy.Proofs.Requests
import Colloquy.Proofs.Speech

/-! Running the lines of a script keeps within the remit of its user, whatever command or function a
line gives and whether or not it fails. -/

namespace Colloquy

open Session Execution

variable {k : Keyword} {c : Conversation}

/-- Whether a command may go to any line, or to another script. -/
def Keyword.jumps : Keyword → Bool
  | loop | goto | case | run => true
  | _ => false

variable {r : Remit} {P : Prop} {p : Bool}

namespace Confined

/-! ### Commands -/

theorem known? (command : Value) : Confined r P (Keyword.known? command) :=
  of_looks (.known? command)

theorem performAhead (hhears : ∃ user, r.hears user) (hk : k.jumps = false)
    (hp : p = true → ¬ r.jumps) (text : Value) : Confined r P (k.perform r.user text) p := by
  cases k with
  | declare => exact variableLine text
  | execute => exact execute hhears text
  | formula => exact compute text
  | speak => exact law.speak text
  | neonSpeak => exact law.speak text
  | nameSpeak => exact law.nameSpeak text
  | exit => exact exitScript.mono id (fun _ => rfl) fun _ _ => trivial
  | branch => exact branch text
  | otherwise => exact otherwise
  | subValues => exact replaceValues text
  | subKey => exact answerPattern text hp
  | set => exact setVariable text
  | reconvey => exact reconvey text
  | nameReconvey => exact reconvey text
  | email => exact law.email text
  | language => exact language text
  | loop | case | goto | run => cases hk

theorem perform (hhears : ∃ user, r.hears user) (hjumps : k.jumps = true → r.jumps)
    (hspared : k = .run → r.spared = 0) (text : Value) : Confined r P (k.perform r.user text) := by
  cases hk : k.jumps with
  | false => exact performAhead hhears hk (p := false) nofun text
  | true =>
    cases k with
    | loop => exact loop (hjumps rfl) text
    | case => exact case (hjumps rfl) text
    | goto => exact goto (hjumps rfl) text
    | run => exact runScript (hjumps rfl) (hspared rfl) text
    | _ => cases hk

/-! ### The text and the data of a line -/

theorem commandText (k : Keyword) (text : Value) :
    Confined r P (commandText k r.user text) := by
  refine ite (pure fun _ => trivial) ?_
  extract_lets rest
  have hrest : ∀ text, Confined r P (rest text) :=
    fun _ => seq (substitute _ _) fun _ => pure fun _ => trivial
  clear_value rest
  exact ite (seq (lift _) fun _ => seq (lift _) fun _ => pure_bind (hrest _)) (pure_bind (hrest _))

theorem fillData (entries : Entries) : Confined r P (fillData r.user entries) := by
  induction entries with
  | nil => exact pure fun _ => trivial
  | cons entry rest ih =>
    obtain ⟨key, value⟩ := entry
    cases value with
    | str s =>
      refine ite (seq (substitute _ _) fun filled => seq lineData fun data => ?_) ih
      exact seq (lift _) fun _ => seq (setDatum _ _) fun _ => ih
    | _ => exact ih

theorem passData (k : Keyword) (line : Value) : Confined r P (passData k r.user line) := by
  refine seq (lift _) fun data => seq (setDatum _ _) fun _ => rescue ?_ fun _ => pure fun _ => trivial
  refine seq lineData fun data => ite (seq (lift _) fun entries => fillData entries) ?_
  exact pure fun _ => trivial

/-! ### Lines -/

theorem runCommand (hperform : ∀ text, Confined r P (k.perform r.user text) p) (line text : Value) :
    Confined r P (runCommand k r.user line text) p :=
  seq (commandText k text) fun text => seq (passData k line) fun _ =>
    seq_left (hperform text) fun _ => seq manager? fun _ => pure fun _ => trivial

theorem runFunction (f : Function) (hc : P → r.Holds c) (line text : Value) :
    Confined r P (runFunction f c r.user line text) := by
  refine seq (lift _) fun argument => ?_
  cases argument with
  | none =>
    refine seq (lift _) fun _ => seq (lift _) fun _ => seq (lift _) fun _ => dialog _ _
  | some key =>
    have hdeclare : Edits r (do
        if !(← Value.member (.str ((Text.split "," key).headD "")) (← Edit.read).bindings) then
          Edit.writeVariable (.str ((Text.split "," key).headD "")) (.ofItems [])) := by
      refine .bind .read fun c _ => .bind (.lift _) fun _ _ => .ite ?_ (.pure trivial)
      exact .writeVariable _ (by simp)
    refine seq (edit fun _ => hdeclare) fun _ => seq managerAt fun m => seq (call f _) fun _ => ?_
    exact editSince m.depth hc fun _ => .step (by decide)

theorem leaveCase (indent : Value) : Confined r P (leaveCase r.user indent) := by
  have hseek : Edits r (do Command.seekOutdent indent (← Command.linesLeft (← Edit.read))) :=
    .bind .read fun _ _ => .bind (.lift _) fun _ _ => Edits.steps.seekOutdent _ _
  exact seq (edit fun _ => hseek) fun atEnd => ite exits (pure fun _ => trivial)

section Lines

variable (hhears : ∃ user, r.hears user) (hjumps : r.jumps) (hspared : r.spared = 0)

include hhears hjumps hspared

theorem runLine (hc : P → r.Holds c) (line command text : Value) :
    Confined r P (runLine c r.user line command text) := by
  refine seq (known? command) fun k? => ?_
  cases k? with
  | some k => exact runCommand (perform hhears (fun _ => hjumps) fun _ => hspared) line text
  | none =>
    refine seq known fun functions => ?_
    split
    · exact seq (runFunction _ hc line text) fun _ => pure fun _ => trivial
    · exact seq (edit fun _ => .step (by decide)) fun _ => pure fun _ => trivial

theorem runNext (hc : P → r.Holds c) : Confined r P (runNext c r.user) :=
  (law (p := false)).runNext (fun _ => edit fun _ => .update fun _ => ⟨rfl, rfl, rfl⟩) leaveCase
    fun line command text _ _ _ => runLine hhears hjumps hspared hc line command text

theorem advance : Confined r P (advance r.user) := by
  refine bind currentOf fun c? => seq (isAwaiting _) fun awaits => ite (pure fun _ => trivial) ?_
  cases c? with
  | none => exact pure fun _ => trivial
  | some c =>
    refine ite (pure fun _ => trivial) (seq (lift _) fun _ => seq (lift _) fun atEnd => ite ?_ ?_)
    · exact seq (dialog _ _) fun _ => seq exits fun _ => pure fun _ => trivial
    · exact runNext hhears hjumps hspared fun h => h.2 c rfl

theorem resume : Confined r P (resume r.user) :=
  (law (p := false)).proceed exits (advance hhears hjumps hspared) _

end Lines

end Confined

end Colloquy
