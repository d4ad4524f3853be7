import Colloquy.Proofs.Functions

/-! The commands that speak keep within the remit of their user.  What they write besides the
conversation is the transcript. -/

namespace Colloquy.Confined

open Session

variable {r : Remit} {P : Prop} {p : Bool}

theorem languageOfData (data : Value) : Confined r P (Command.languageOfData r.user data) := by
  unfold Command.languageOfData
  extract_lets speech
  have hspeech : Confined r P speech := seq get fun _ => (lift _).forget
  clear_value speech
  refine seq hspeech fun _ => seq (lift _) fun _ => seq (lift _) fun language => ?_
  refine seq hspeech fun _ => seq (lift _) fun _ => seq (lift _) fun gender => ?_
  exact edit fun _ => .update fun _ => ⟨rfl, rfl, rfl⟩

theorem languageOfText (content : Value) :
    Confined r P (Command.languageOfText r.user content) := by
  refine seq (of_looks ((Looks.law r.user).genderIn _)) fun (gender, words) => ?_
  dsimp -zeta only
  split
  · extract_lets word rest
    have hrest : ∀ language, Confined r P (rest language) := by
      refine fun _ => edit fun _ => .bind (.update fun _ => ⟨rfl, rfl, rfl⟩) fun _ _ => ?_
      refine .bind .read fun _ _ => .bind (.lift _) fun speaker _ => ?_
      refine .bind (.update fun _ => ⟨rfl, rfl, rfl⟩) fun _ _ => .bind (.lift _) fun _ _ => ?_
      exact .update fun _ => ⟨rfl, rfl, rfl⟩
    clear_value rest word
    exact ite (seq get fun _ => seq (lift _) hrest) (pure_bind (hrest _))
  · exact throw _

theorem reconvey (text : Value) : Confined r P (Command.reconvey r.user text) p := by
  refine law.reconvey (fun name => edit fun _ => ?_) text
  exact .bind .read fun c _ => .bind (.lift _) fun speaker _ => .update fun _ => ⟨rfl, rfl, rfl⟩

theorem language (content : Value) : Confined r P (Command.language r.user content) p :=
  law.language languageOfData languageOfText content

end Colloquy.Confined
