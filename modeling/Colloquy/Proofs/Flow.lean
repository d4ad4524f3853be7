import Colloquy.Proofs.Leaving

/-! The commands that decide which line comes next keep within the remit of their user.  `if` and
`else` only go ahead, while `loop`, `goto` and `case` are jumps. -/

namespace Colloquy

open Session Command

variable {r : Remit} {P : Prop} {p : Bool}

namespace Edits

theorem steps : Edit.StepLaw fun {_} body => Edits r body :=
  ⟨baseLaw, step (by decide)⟩

theorem places (hjumps : r.jumps) : Edit.PlaceLaw fun {_} body => Edits r body where
  toBaseLaw := baseLaw
  goTo := goTo hjumps
  indent _ := update fun _ => ⟨rfl, rfl, rfl⟩

theorem enterIf (holds : Bool) : Edits r (enterIf holds) p := by
  refine bind (here _) fun indent _ => bind_left (step (by decide)) fun _ _ => ?_
  refine ite ?_ (pure trivial)
  exact bind read fun _ _ => bind (lift _) fun _ _ => steps.seekElse _ _

theorem passElse : Edits r passElse p := by
  refine bind (here _) fun indent _ => bind_left (step (by decide)) fun _ _ => ?_
  exact bind read fun _ _ => bind (lift _) fun _ _ => steps.seekOutdent _ _

end Edits

namespace Confined

theorem loop (hjumps : r.jumps) (text : Value) : Confined r P (loop r.user text) :=
  (law (p := false)).loop (fun _ => edit fun _ => (Edits.places hjumps).endLoop _)
    (edit fun _ => .step (by decide)) text

theorem goto (hjumps : r.jumps) (text : Value) : Confined r P (goto r.user text) :=
  (law (p := false)).goto (fun _ _ => edit fun _ => .bind (.lift _) fun _ _ => (Edits.places hjumps).jump _ _ _)
    (edit fun _ => .step (by decide)) text

theorem case (hjumps : r.jumps) (text : Value) : Confined r P (case r.user text) :=
  (law (p := false)).case (fun value => edit fun _ => (Edits.places hjumps).chooseCase value)
    (edit fun _ => .step_of_jumps hjumps _) exits text

theorem branch (text : Value) : Confined r P (branch r.user text) p :=
  law.branch (fun holds => edit fun _ => .enterIf holds) text

theorem otherwise : Confined r P (otherwise r.user) p :=
  law.otherwise (edit fun _ => .passElse) exits

end Confined

end Colloquy
