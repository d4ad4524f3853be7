import Colloquy.Proofs.Functions

/-! The commands that give variables values keep within the remit of their user: a variable gets new
lists, lists of the user's and lists that a function gives, and only these are changed. -/

namespace Colloquy

open Session Value Command

variable {r : Remit} {P : Prop} {p : Bool}

/-! ### Values -/

theorem Command.keptValues_listsIn {old : Value} (h : old.ListsIn r.lists) :
    ∀ x ∈ keptValues old, x.ListsIn r.lists := by
  cases old with
  | list items number =>
    simp only [keptValues]
    split
    · exact (listsIn_list.1 h).2
    · simp
  | null | bool _ | int _ | float _ | str _ | tuple _ | table _ | set _ | record _ =>
    simp only [keptValues]
    split <;> simp [h]

theorem Command.tableOf_listsIn {items : List Value} {table : Entries}
    (h : tableOf items = .ok table) : ∀ e ∈ table, e.1.ListsIn r.lists ∧ e.2.ListsIn r.lists := by
  induction items generalizing table with
  | nil =>
    cases h
    simp
  | cons item rest ih =>
    obtain ⟨text, -, h⟩ := except_bind_ok_iff.1 h
    dsimp only at h
    split at h
    · obtain ⟨_, -, h⟩ := except_bind_ok_iff.1 h
      obtain ⟨entries, hentries, h⟩ := except_bind_ok_iff.1 h
      obtain rfl := Except.ok.inj h
      exact merge_listsIn (by simp) (ih hentries)
    · cases h

theorem Command.addedValues_listsIn {value : Value} {more : List Value}
    (hvalue : value.ListsIn r.lists) (h : addedValues value = .ok more) :
    ∀ x ∈ more, x.ListsIn r.lists := by
  unfold addedValues at h
  split at h
  · obtain ⟨colon, -, h⟩ := except_bind_ok_iff.1 h
    cases colon with
    | false =>
      cases h
      exact (listsIn_list.1 hvalue).2
    | true =>
      obtain ⟨table, htable, h⟩ := except_bind_ok_iff.1 h
      cases h
      simpa using tableOf_listsIn htable
  · cases h
    simpa using hvalue
  · obtain ⟨text, -, h⟩ := except_bind_ok_iff.1 h
    split at h
    · obtain ⟨v, hv, h⟩ := except_bind_ok_iff.1 h
      cases h
      simpa using Formula.readLiteral_listsIn hv
    · split at h <;> obtain rfl := Except.ok.inj h <;> simp

namespace Edits

theorem pushValue {new : Value} {old : List Value} (hnew : new.ListsIn r.lists)
    (hold : ∀ x ∈ old, x.ListsIn r.lists) :
    Edits r (pushValue new old) false fun v => v.ListsIn r.lists := by
  refine ite (pure hnew) ?_
  split
  · obtain ⟨hnumber, hitems⟩ := listsIn_list.1 hnew
    refine changeList (listsIn_list.2 ⟨hnumber, fun x hx => ?_⟩)
    obtain hx | hx := List.mem_append.1 hx
    · exact hitems x hx
    · exact hold x hx
  · exact throw _

theorem addValues (name : Value) {value : Value} (hvalue : value.ListsIn r.lists) :
    Edits r (Command.addValues name value) := by
  refine bind (readVariable name) fun old _ => ?_
  extract_lets rest
  have hrest : ∀ u, Edits r (rest u) := by
    refine fun _ => bind (readVariable name) fun old hold => ?_
    split
    · obtain ⟨hnumber, hitems⟩ := listsIn_list.1 hold
      refine bind (lift _) fun more hmore => bind (changeList ?_) fun v hv => writeVariable _ hv
      refine listsIn_list.2 ⟨hnumber, fun x hx => ?_⟩
      obtain hx | hx := List.mem_append.1 hx
      · exact hitems x hx
      · exact addedValues_listsIn hvalue hmore x hx
    · exact bind (lift _) fun _ _ => throw _
    · exact throw _
  clear_value rest
  exact ite (bind (writeVariable _ (by simp)) fun _ _ => hrest _) (hrest ())

end Edits

namespace Confined

theorem callQuietly (f : Function) (key : String) :
    Confined r P (callQuietly f key r.user) false fun v => v.ListsIn r.lists :=
  handling_none (call (r := r.deaf) f _)

theorem assignedValue (s : String) :
    Confined r P (assignedValue r.user s) false fun v => v.ListsIn r.lists := by
  refine seq known fun functions => ?_
  split
  · exact pure fun _ => by simp
  · refine bind (callQuietly _ _) fun v => ?_
    split
    · exact pure fun _ => by simp
    · exact pure And.right

theorem setVariable (text : Value) : Confined r P (setVariable r.user text) p := by
  refine bind currentAt fun c? => seq lineData fun data => ?_
  refine seq (lift _) fun (name, value) => bind (present c?) fun c => bind (lift _) fun old => ?_
  refine bind (assignedValue value) fun new => edit fun ⟨⟨⟨⟨_, hholds⟩, hc⟩, hold⟩, hnew⟩ => ?_
  have hold' := get_listsIn (hholds c hc) listsIn_null hold
  refine .bind (.pushValue hnew (keptValues_listsIn hold')) fun pushed hpushed => ?_
  refine .bind (.writeVariable _ hpushed) fun _ _ => .bind (.lift _) fun _ _ => ?_
  exact .step (by decide)

theorem declaredValue (s : String) :
    Confined r P (declaredValue r.user s) false fun v => v.ListsIn r.lists := by
  refine seq known fun functions => ?_
  split
  · exact pure fun _ => trivial
  · refine bind (callQuietly _ _) fun v => ?_
    split
    · split
      · exact pure fun _ => trivial
      · exact pure fun _ => by simp
    · exact pure And.right

theorem variableLine (text : Value) : Confined r P (Command.variableLine r.user text) p := by
  refine seq currentAt fun c? => seq lineData fun data => seq (lift _) fun (name, value) => ?_
  dsimp -zeta only
  extract_lets last
  have hlast : ∀ u, Confined r P (last u) p := fun _ => edit fun _ => .step (by decide)
  clear_value last
  refine ite (seq (lift _) fun text => ?_) (hlast ())
  extract_lets name rest
  have hrest : ∀ s, Confined r P (rest s) p := by
    refine fun s => bind (declaredValue s) fun v => ?_
    have hadd : Confined r (P ∧ v.ListsIn r.lists)
        (Session.edit r.user (Command.addValues name v)) :=
      edit fun ⟨_, hv⟩ => .addValues name hv
    exact seq hadd fun _ => (hlast _).mono And.left id fun _ => id
  clear_value rest
  exact ite (seq (lift _) fun _ => pure_bind (hrest _)) (pure_bind (hrest ""))

theorem runFormula : ∀ name formula, Confined r P (runFormula r.user name formula) := by
  refine (law (p := false)).runFormula (fun formula => of_still fun s => ?_)
    fun _ _ => edit fun _ => .writeVariable _ trivial
  obtain ⟨result, clock⟩ := Formula.evaluate formula s.clock
  cases result with
  | none => exact ⟨rfl, rfl, rfl, rfl, rfl⟩
  | some result => exact ⟨⟨rfl, rfl, rfl, rfl, rfl⟩, trivial⟩

theorem compute (text : Value) : Confined r P (compute r.user text) p :=
  law.compute runFormula text

end Confined

end Colloquy
