import Colloquy.Proofs.Leaving
import Colloquy.Proofs.Sources

/-! The functions of scripts keep within the remit of their user, and give only lists that this user
reaches. -/

namespace Colloquy.Confined

open Session Value Colloquy.Function

variable {r : Remit} {P : Prop}

theorem known : Confined r P known :=
  seq get fun _ => pure fun _ => trivial

theorem compose (kind : String) (text voice : Value) :
    Confined r P (compose kind text voice) := by
  refine seq get fun s => ?_
  cases s.message with
  | none => exact pure fun _ => trivial
  | some m => exact pure fun _ => trivial

theorem runSelectOne (key : Value) :
    Confined r P (runSelectOne key r.user) false fun v => v.ListsIn r.lists := by
  refine rescue ?_ fun _ => pure fun _ => trivial
  refine seq (lift _) fun key => seq current fun c => seq (lift _) fun s => ?_
  exact pure fun _ => trivial

theorem runVoiceInput (key : Value) :
    Confined r P (runVoiceInput key r.user) false fun v => v.ListsIn r.lists := by
  refine seq await fun _ => seq (lift _) fun inParts => ?_
  extract_lets rest
  have hrest : ∀ name, Confined r P (rest name) false fun v => v.ListsIn r.lists := fun name =>
    seq (edit fun _ => .update fun _ => ⟨rfl, rfl, rfl⟩) fun _ => pure fun _ => trivial
  exact ite (seq (lift _) fun _ => pure_bind (hrest _)) (pure_bind (hrest key))

theorem fetch (address : Value) :
    Confined r P (fetch address) false fun v => v.ListsIn r.lists := by
  refine ite (throw_bind _) (bind get fun s => ?_)
  cases hfind : Entries.find? address s.host.pages with
  | none => exact throw _
  | some v =>
    exact pure fun ⟨_, howned⟩ => find?_listsIn (entriesIn_iff.1 howned.pages) hfind

theorem runTableScrape (key : Value) :
    Confined r P (runTableScrape key r.user) false fun v => v.ListsIn r.lists := by
  refine seq current fun c => seq (lift _) fun _ => ?_
  extract_lets rest
  have hrest : ∀ address, Confined r P (rest address) false fun v => v.ListsIn r.lists :=
    fun address => rescue (fetch address) fun _ => seq exits fun _ => pure fun _ => trivial
  exact ite (seq (lift _) hrest) (pure_bind (hrest key))

theorem closestOption_listsIn {bindings v : Value} {name options : String}
    (hbindings : bindings.ListsIn r.lists)
    (h : closestOption bindings name options = .ok v) : v.ListsIn r.lists := by
  obtain ⟨value, hvalue, h⟩ := except_bind_ok_iff.1 h
  obtain ⟨first, hfirst, h⟩ := except_bind_ok_iff.1 h
  obtain ⟨_, -, h⟩ := except_bind_ok_iff.1 h
  obtain ⟨_, -, h⟩ := except_bind_ok_iff.1 h
  have hvalue' := item_listsIn hbindings hvalue
  have hchosen : ∀ {word : String} {choices : List Value} {found : Option Value},
      (∀ x ∈ choices, x.ListsIn r.lists) → Similarity.closest? word choices = .ok found →
        (found.getD "none").ListsIn r.lists := by
    intro word choices found hchoices hfound
    cases found with
    | none => trivial
    | some option => exact hchoices _ (Similarity.closest?_mem hfound)
  cases first with
  | table table =>
    have htable := listsIn_table.1 (item_listsIn hvalue' hfirst)
    obtain ⟨found, -, h⟩ := except_bind_ok_iff.1 h
    cases found with
    | none =>
      cases h
      trivial
    | some key =>
      cases h
      cases hfind : Entries.find? key table with
      | none => trivial
      | some w => exact find?_listsIn htable hfind
  | null | bool _ | int _ | float _ | str _ | list _ _ | tuple _ | set _ | record _ =>
    obtain ⟨elements, helements, h⟩ := except_bind_ok_iff.1 h
    obtain ⟨found, hfound, h⟩ := except_bind_ok_iff.1 h
    have hresult := hchosen (elements_listsIn hvalue' helements) hfound
    cases found <;> cases h <;> exact hresult

theorem runClosest (key : Value) :
    Confined r P (runClosest key r.user) false fun v => v.ListsIn r.lists := by
  refine seq (lift _) fun key => bind currentAt fun c? => ?_
  split
  · refine rescue (bind (present c?) fun c => ?_) fun _ => pure fun _ => trivial
    exact lift_of fun ⟨⟨_, hholds⟩, hc⟩ v hv => closestOption_listsIn (hholds c hc) hv
  · exact throw _

theorem ofSample_listsIn {chance : Chance} {items : List Value} {few v : Value}
    (h : ofSample chance items few = .ok v) : v.ListsIn r.lists := by
  simp only [ofSample] at h
  split at h
  · obtain ⟨_, -, h⟩ := except_bind_ok_iff.1 h
    obtain ⟨_, -, h⟩ := except_bind_ok_iff.1 h
    obtain ⟨_, -, h⟩ := except_bind_ok_iff.1 h
    cases h
    trivial
  · obtain ⟨_, -, h⟩ := except_bind_ok_iff.1 h
    obtain ⟨_, -, h⟩ := except_bind_ok_iff.1 h
    cases h
    trivial
  · cases h

theorem offer_listsIn {chance : Chance} {value v : Value} (h : offer chance value = .ok v) :
    v.ListsIn r.lists := by
  obtain ⟨first, -, h⟩ := except_bind_ok_iff.1 h
  cases first with
  | str _ =>
    obtain ⟨_, -, h⟩ := except_bind_ok_iff.1 h
    exact ofSample_listsIn h
  | list _ _ => exact ofSample_listsIn h
  | table _ =>
    obtain ⟨short, -, h⟩ := except_bind_ok_iff.1 h
    split at h
    · obtain ⟨_, -, h⟩ := except_bind_ok_iff.1 h
      obtain ⟨_, -, h⟩ := except_bind_ok_iff.1 h
      obtain ⟨_, -, h⟩ := except_bind_ok_iff.1 h
      cases h
      trivial
    · exact ofSample_listsIn h
  | null | bool _ | int _ | float _ | tuple _ | set _ | record _ =>
    cases h
    trivial

theorem runRandom (key : Value) :
    Confined r P (runRandom key r.user) false fun v => v.ListsIn r.lists := by
  refine rescue ?_ fun _ => pure fun _ => trivial
  refine seq current fun c => seq (lift _) fun value => seq get fun s => ?_
  exact lift_of fun _ v hv => offer_listsIn hv

theorem runProfile (key : Value) :
    Confined r P (runProfile key r.user) false fun v => v.ListsIn r.lists := by
  refine seq (lift _) fun hasDot => ite ?_ (seq exits fun _ => pure fun _ => trivial)
  refine seq (lift _) fun path => ?_
  split
  · split
    · refine bind get fun s => bind (lift _) fun part => lift_of fun ⟨⟨_, howned⟩, hpart⟩ v hv => ?_
      exact get_listsIn (item_listsIn howned.preferences hpart) listsIn_null hv
    · exact pure fun _ => trivial
  · exact throw _

theorem runSkill (key : Value) :
    Confined r P (runSkill key r.user) false fun v => v.ListsIn r.lists := by
  refine seq currentAt fun c? => seq (lift _) fun path => ?_
  split
  · exact throw _
  · refine seq (present c?) fun c => seq (lift _) fun found => seq (lift _) fun text => ?_
    refine seq (compose _ _ _) fun request => seq (tell _) fun _ => ?_
    refine ite (throw_bind _) (bind get fun s => ?_)
    split
    · exact throw _
    · exact throw _
    · rename_i answer _ hfind
      refine bind (lift _) fun info => bind (lift _) fun data => ?_
      refine lift_of fun ⟨⟨⟨_, howned⟩, hinfo⟩, hdata⟩ v hv => ?_
      have hanswer := find?_listsIn (entriesIn_iff.1 howned.answers) hfind
      have hinfo' := get_listsIn hanswer listsIn_emptyTable hinfo
      have hdata' := get_listsIn hinfo' listsIn_emptyTable hdata
      exact get_listsIn hdata' listsIn_null hv

theorem call (f : Function) (key : Value) :
    Confined r P (f.call key r.user) false fun v => v.ListsIn r.lists := by
  cases f with
  | selectOne => exact runSelectOne key
  | voiceInput => exact runVoiceInput key
  | tableScrape => exact runTableScrape key
  | random => exact runRandom key
  | closest => exact runClosest key
  | profile => exact runProfile key
  | skill => exact runSkill key

theorem substitute (line : Value) (wildcards : Bool) :
    Confined r P (Substitution.substitute r.user line wildcards) :=
  (law (p := false)).substitute tell fun _ _ _ _ _ _ _ _ _ f _ key => (call f key).forget

end Colloquy.Confined
