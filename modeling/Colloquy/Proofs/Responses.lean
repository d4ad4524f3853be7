import Colloquy.Proofs.Straight

/-! What a response to a pattern leaves alone.  Matching writes only to the variables that the
patterns capture into, and putting values into the response writes to none: the script is left by it,
or goes on with the variables that it had. -/

namespace Colloquy

open Session

variable {α β : Type}

def Value.listNumber : Value → Option Nat
  | .list _ number => number
  | _ => none

theorem Value.listNumber_changed (change : Change) (v : Value) :
    (v.changed change).listNumber = v.listNumber := by
  cases v with
  | list items number =>
    simp only [changed]
    split <;> rfl
  | _ => rfl

/-! ### Work that keeps a property -/

/-- Work on a conversation that keeps a property of the draft, whether or not it fails. -/
def Retains (D : Draft → Prop) (body : Edit α) : Prop :=
  ∀ d, D d → D (d.after body)

theorem Retains.baseLaw (D : Draft → Prop) : Edit.BaseLaw fun {_} body => Retains D body :=
  .of_relation (R := fun d d' => D d → D d') (fun _ => id) fun h h' => h' ∘ h

/-- A script at a line that holds a text in a variable, and a list that stands in none of the
variables that are captured into. -/
structure Draft.Apart (targets : List String) (name text : String) (list : Option Nat) (index : Value)
    (d : Draft) : Prop where
  bindings : ∃ entries : Entries, d.conversation.bindings = .table entries ∧
    entries.find? name = some (.str text) ∧
      ∀ target ∈ targets, ∀ value, entries.find? target = some value →
        value.listNumber ≠ none → value.listNumber ≠ list
  changes : ∀ change ∈ d.changes, some change.number ≠ list
  index : d.conversation.index = index

namespace Draft.Apart

variable {targets : List String} {name text : String} {list : Option Nat} {index : Value}

theorem writeVariable {target : String} (htarget : target ≠ name) {value : Value}
    (hvalue : value.listNumber ≠ none → value.listNumber ≠ list) :
    Retains (Apart targets name text list index) (Edit.writeVariable (.str target) value) := by
  intro d hd
  obtain ⟨entries, hbindings, hfind, htargets⟩ := hd.bindings
  have hwrite : d.after (Edit.writeVariable (.str target) value) = { d with conversation :=
      { d.conversation with bindings := .table (entries.insert target value) } } := by
    rw [Draft.after, Edit.writeVariable_apply hbindings]
  rw [hwrite]
  refine ⟨⟨_, rfl, ?_, ?_⟩, hd.changes, hd.index⟩
  · rw [Entries.find?_insert_ne htarget, hfind]
  · intro other hother found hfound
    by_cases hsame : other = target
    · rw [hsame, Entries.find?_insert_self] at hfound
      obtain rfl := Option.some.inj hfound
      exact hvalue
    · rw [Entries.find?_insert_ne (Ne.symm hsame)] at hfound
      exact htargets other hother found hfound

theorem changeList {number : Option Nat} (hnumber : number ≠ none → number ≠ list)
    (items : List Value) :
    Retains (Apart targets name text list index) (Edit.changeList number items) := by
  intro d hd
  cases number with
  | none => exact hd
  | some n =>
    obtain ⟨entries, hbindings, hfind, htargets⟩ := hd.bindings
    let change : Value.Change := { number := n, items }
    refine ⟨⟨Value.changedEntries change entries, ?_, ?_, ?_⟩, ?_, hd.index⟩
    · exact Conversation.bindings_changed hbindings change
    · rw [Entries.find?_changed, hfind]
      rfl
    · intro target htarget value hvalue
      rw [Entries.find?_changed] at hvalue
      obtain ⟨old, hold, rfl⟩ := Option.map_eq_some_iff.1 hvalue
      rw [Value.listNumber_changed]
      exact htargets target htarget old hold
    · intro other hother
      rcases List.mem_cons.1 hother with rfl | hother
      · exact hnumber nofun
      · exact hd.changes other hother

section

variable (hname : name ∉ targets)
include hname

theorem prepend {target : String} (htarget : target ∈ targets) (value : String) :
    Retains (Apart targets name text list index) (Pattern.prepend target value) := by
  intro d hd
  have hne : target ≠ name := by
    rintro rfl
    exact hname htarget
  obtain ⟨entries, hbindings, -, htargets⟩ := hd.bindings
  unfold Pattern.prepend
  show Apart _ _ _ _ _ (d.after (liftM (d.conversation.bindings.get (.str target)) >>= _))
  rw [Value.get_of_table hbindings]
  refine Draft.after_lift_bind hd fun old hold => ?_
  split
  · rename_i first rest number
    have hfind : entries.find? target = some (.list (first :: rest) number) := by
      cases hfind : entries.find? target with
      | none =>
        rw [hfind] at hold
        cases hold
      | some value =>
        rw [hfind] at hold
        exact congrArg some (Except.ok.inj hold)
    have hnumber := htargets target htarget _ hfind
    refine Draft.after_bind (changeList hnumber _ d hd) fun value' d' hchange hd' => ?_
    have hsame : value'.listNumber = number := by
      cases number <;> cases hchange <;> rfl
    exact writeVariable hne (hsame ▸ hnumber) d' hd'
  · exact writeVariable hne (fun h => absurd rfl h) d hd

theorem responses : Edit.ResponseLaw (· ∈ targets) fun {_} body =>
    Retains (Apart targets name text list index) body where
  toBaseLaw := Retains.baseLaw _
  prepend _ := prepend hname
  synonym _ hother _ := writeVariable (ne_of_mem_of_not_mem hother hname) fun h => absurd rfl h
  count _ _ hd := ⟨hd.bindings, hd.changes, hd.index⟩

omit hname in
theorem entryAt?_eq {table : Value} {items : List Value} (helements : table.elements = .ok items)
    {d : Draft} (hd : Apart targets name text table.listNumber index d) (position : Nat) :
    Pattern.entryAt? table position d = .ok items[position]? d := by
  have hothers : ∀ items' number, table = .list items' number →
      Edit.itemsNow number items' d = .ok items d := by
    rintro items' number rfl
    obtain rfl := Except.ok.inj helements
    have hnone : (d.changes.find? fun change => number == some change.number) = none := by
      rw [List.find?_eq_none]
      intro change hchange hsame
      exact hd.changes change hchange (beq_iff_eq.1 hsame).symm
    simp only [Edit.itemsNow, bind_apply, get_apply, hnone, pure_apply]
  unfold Pattern.entryAt?
  split
  · exact bind_of_ok (hothers _ _ rfl)
  · rw [helements]
    exact bind_of_ok (lift_ok_apply _ _)

theorem firstResponse (input : String) {table : Value} {items : List Value}
    (helements : table.elements = .ok items)
    (hentries : ∀ word, .str word ∈ items →
      ∀ target ∈ Pattern.targets (Text.replace "\" \"" "\"\"" (Text.trim word)), target ∈ targets)
    (fuel position : Nat) :
    Retains (Apart targets name text table.listNumber index)
      (Pattern.firstResponse input table fuel position) := by
  have law := Retains.baseLaw (Apart targets name text table.listNumber index)
  induction fuel generalizing position with
  | zero => exact law.pure none
  | succ fuel ih =>
    intro d hd
    refine Draft.after_bind ?_ fun entry d' hentry hd' => ?_
    · rw [Draft.after, entryAt?_eq helements hd]
      exact hd
    have hsame : items[position]? = entry := by
      rw [entryAt?_eq helements hd] at hentry
      cases hentry
      rfl
    refine (show Retains (Apart targets name text table.listNumber index) _ from ?_) d' hd'
    split
    · exact law.pure none
    · rename_i value
      refine law.lift_bind fun word hword => ?_
      have hvalue : value = .str word := by
        cases value <;> cases hword
        rfl
      have hmem := List.mem_of_getElem? hsame
      have htargets := hentries word (hvalue ▸ hmem)
      extract_lets entry
      split
      · exact ih _
      · refine law.bind ((responses hname).respond input htargets) fun response => ?_
        split
        · exact law.pure _
        · exact ih _

end

end Draft.Apart

/-! ### Putting values into a response -/

def Session.shown (user : Value) (s : Session) : Option (Value × Value) :=
  match s.stackOf user with
  | .conversation c :: _ => some (c.index, c.bindings.copied)
  | _ => none

/-- The user's running script was left, or it is at its line with its variables. -/
def Session.Remains (user : Value) (s t : Session) : Prop :=
  t.depthOf user < s.depthOf user ∨ t.depthOf user = s.depthOf user ∧ t.shown user = s.shown user

namespace Session.Remains

variable {user : Value} {s t u : Session}

theorem of_active (h : t.active = s.active) : Remains user s t := by
  right
  constructor
  · rw [depthOf, stackOf, h, depthOf, stackOf]
  · rw [shown, stackOf, h, shown, stackOf]

theorem trans (h : Remains user s t) (h' : Remains user t u) : Remains user s u := by
  rcases h with hless | ⟨hsame, hshown⟩
  · left
    rcases h' with hless' | ⟨hsame', -⟩ <;> omega
  · rcases h' with hless' | ⟨hsame', hshown'⟩
    · left
      omega
    · right
      exact ⟨hsame'.trans hsame, hshown'.trans hshown⟩

theorem edit {body : Edit α} (hbody : Fixes
      (fun d => (d.conversation.index, d.conversation.bindings.copied)) body) (s : Session) :
    Remains user s (s.after (edit user body)) := by
  right
  refine ⟨after_edit_depthOf user user body s, ?_⟩
  obtain hsame | ⟨m, c, rest, hm, hstack, hkept⟩ := after_edit user body s
  · rw [hsame]
  · have hparts := Prod.mk.inj (hbody { conversation := c })
    rw [hkept, shown, stackOf_kept_self _ hm hstack, shown, stackOf_eq hm, hstack]
    simp only [settled, Value.copied_numbered, hparts.1, hparts.2]

end Session.Remains

theorem Leaves.remains {user : Value} {s t : Session} (h : Leaves user s t) : s.Remains user t := by
  have hdepth {m : Manager} {c : Conversation} {rest : List Entry}
      (hm : managerIn s.active user = some m) (hstack : m.stack = .conversation c :: rest) :
      s.depthOf user = rest.length + 1 := by
    rw [depthOf, stackOf_eq hm, hstack, List.length_cons]
  cases h with
  | stay | idle => exact .of_active rfl
  | stuck events hm hstack =>
    left
    rw [depthOf, stackOf_replaced_self (by exact hm), hdepth hm hstack]
    exact Nat.lt_succ_self _
  | back events scope hm hstack =>
    left
    rw [after_edit_depthOf, depthOf, stackOf_replaced_self (by exact hm), hdepth hm hstack]
    exact Nat.lt_succ_self _
  | last events hm hstack =>
    left
    rw [depthOf, stackOf, managerIn_filter_self, hdepth hm hstack]
    exact Nat.succ_pos _

namespace Substitution

variable {user : Value}

theorem substitute_remains (line : Value) (wildcards : Bool) (s : Session) :
    s.Remains user (s.after (substitute user line wildcards)) := by
  have hlaw := Run.LookLaw.of_relation (R := Session.Remains user) (fun _ => .of_active rfl)
    (fun h h' => h.trans h') user
  exact hlaw.substitute_calling (fun _ _ => .of_active rfl)
    (fun s => (exitScript_leaves user s).remains) (fun _ => .of_active rfl)
    (fun _ => .edit (.update fun _ => rfl)) line wildcards s

end Substitution

end Colloquy
