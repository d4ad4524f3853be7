import Colloquy.Proofs.Functions

/-! The commands that rephrase a text keep within the remit of their user.  What a pattern captures
goes into variables, and if the response calls a function that leaves the script, the rest of the
work is done on the conversation that was left. -/

namespace Colloquy

open Session

variable {r : Remit} {P : Prop}

/-! ### Patterns -/

namespace Edits

open Pattern

theorem prepend (name value : String) : Edits r (prepend name value) := by
  refine bind read fun c hc => bind (lift _) fun old hold => ?_
  have hold' : old.ListsIn r.lists := Value.get_listsIn hc Value.listsIn_null hold
  split
  · obtain ⟨hnumber, hitems⟩ := Value.listsIn_list.1 hold'
    refine bind (changeList ?_) fun v hv => writeVariable _ hv
    exact Value.listsIn_list.2 ⟨hnumber, List.forall_mem_cons.2 ⟨trivial, hitems⟩⟩
  · refine writeVariable _ (Value.listsIn_ofItems.2 ?_)
    split <;> simp [hold']

theorem responses : Edit.ResponseLaw (fun _ => True) fun {_} body => Edits r body where
  toBaseLaw := baseLaw
  prepend name _ := prepend name
  synonym _ _ _ := writeVariable _ (by simp)
  count _ := update fun _ => ⟨rfl, rfl, rfl⟩

end Edits

/-! ### Commands -/

namespace Confined

theorem replaceValues (text : Value) {p : Bool} :
    Confined r P (Command.replaceValues r.user text) p := by
  refine seq currentAt fun c? => ?_
  refine seq (of_looks ((Looks.law r.user).rephraseNames c? text)) fun (name, list) => ?_
  refine edit fun _ => ?_
  refine .bind (.readVariable _) fun _ _ => .bind (.lift _) fun first _ => ?_
  refine .bind (.lift _) fun input _ => .bind (.readVariable _) fun _ _ => ?_
  refine .bind (.lift _) fun pairs _ => .bind (.lift _) fun output _ => ?_
  exact .bind (.writeVariable _ trivial) fun _ _ => .step (by decide)

theorem answerPattern (text : Value) {p : Bool} (hp : p = true → ¬ r.jumps) :
    Confined r P (Command.answerPattern r.user text) p := by
  refine seq currentAt fun c? => ?_
  refine seq (of_looks ((Looks.law r.user).rephraseNames c? text)) fun (name, list) => ?_
  have hrespond : Confined r P (Session.edit r.user do
      let input ← (← Edit.readVariable (.str (Text.trim name))).needle
      let entries ← Edit.readVariable (.str (Text.trim list))
      let fuel := (← entries.size) + Pattern.extraEntries
      Pattern.firstResponse (" " ++ input ++ " ") entries fuel 0) := by
    refine edit fun _ => .bind (.readVariable _) fun _ _ => .bind (.lift _) fun input _ => ?_
    refine .bind (.readVariable _) fun entries _ => .bind (.lift _) fun size _ => ?_
    exact Edits.responses.firstResponse (fun _ => trivial) _ _ _ _
  refine seq hrespond fun response? => ?_
  cases response? with
  | none => exact throw _
  | some response =>
    refine since (substitute _ _) (fun output => ?_) hp
    exact .bind (.prepend _ _) fun _ _ => .step (by decide)

end Confined

end Colloquy
