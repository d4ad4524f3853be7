import Colloquy.Proofs.Confined
import Colloquy.Proofs.Sources

/-! Running another script keeps within the remit of the user.  A compiled script holds only new
lists, and what is set aside of the calling script is a copy. -/

namespace Colloquy

open Session

variable {r : Remit} {P : Prop} {p : Bool}

/-! ### The scripts on disk -/

namespace Still

theorem scriptPath (name : String) : Still (Library.scriptPath name) :=
  bind get fun _ _ => pure trivial

theorem load (A : Nat → Prop) (filename : Value) :
    Still (Library.load filename) fun script => script.ListsIn A := by
  refine bind (modify fun _ => ⟨rfl, rfl, rfl, rfl, rfl⟩) fun _ _ => bind get fun s _ => ?_
  refine ite (throw_bind _) (bind (lift _) fun name _ => bind (scriptPath name) fun path _ => ?_)
  split
  · rename_i text _
    cases hread : Json.read text with
    | error fault => exact throw _
    | ok script => exact pure (Json.read_listsIn hread)
  · exact throw _
  · exact pure Value.listsIn_emptyTable

end Still

/-! ### Filling a conversation -/

theorem Edits.fill (hjumps : r.jumps) {script : Value} (hscript : script.ListsIn r.lists) :
    Edits r (Command.fill script) := by
  have hkeep {g : Conversation → Conversation} (hg : ∀ c, (g c).bindings = c.bindings) :
      Edits r (Edit.update g) :=
    update_of_jumps hjumps fun c hc => by
      rw [Remit.Holds, hg]
      exact hc
  refine bind (lift _) fun lines _ => bind (hkeep fun _ => rfl) fun _ _ => ?_
  refine bind (lift _) fun speaker _ => bind (hkeep fun _ => rfl) fun _ _ => ?_
  refine bind (lift _) fun bindings hbindings => ?_
  refine bind (update_of_jumps hjumps fun _ _ => Value.item_listsIn hscript hbindings) fun _ _ => ?_
  refine bind (lift _) fun loops _ => bind (hkeep fun _ => rfl) fun _ _ => ?_
  refine bind (lift _) fun tags _ => bind (hkeep fun _ => rfl) fun _ _ => ?_
  refine bind (lift _) fun timeout _ => bind (hkeep fun _ => rfl) fun _ _ => ?_
  exact bind (lift _) fun action _ => hkeep fun _ => rfl

theorem Edits.fillCalled (hjumps : r.jumps) {script : Value} (hscript : script.ListsIn r.lists)
    (caller : Value) : Edits r (do
      Command.fill script
      Edit.update fun c => { c with pending := .ofItems [caller] }) :=
  bind (fill hjumps hscript) fun _ _ => update fun _ => ⟨rfl, rfl, rfl⟩

/-! ### The command -/

namespace Confined

theorem hasScript (name : Value) : Confined r P (Library.hasScript name) :=
  of_looks (.hasScript name)

theorem load (filename : Value) :
    Confined r P (Library.load filename) false fun script => script.ListsIn r.lists :=
  of_still (.load r.lists filename)

theorem runScript (hjumps : r.jumps) (hspared : r.spared = 0) (text : Value) :
    Confined r P (Command.call r.user text) := by
  refine seq (lift _) fun name => ?_
  extract_lets name filename
  clear_value filename name
  refine seq (hasScript _) fun found => ite ?_ ?_
  · refine bind (load _) fun script => seq current fun c => seq (lift _) fun caller => ?_
    refine seq (lift _) fun info => seq (begin hjumps hspared _ _) fun _ => ?_
    exact edit fun h => .fillCalled hjumps h.2 caller
  · exact seq (dialog _ _) fun _ => edit fun _ => .step (by decide)

end Confined

end Colloquy
