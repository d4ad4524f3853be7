import Colloquy.Formula.Literal
import Colloquy.Proofs.Lists
import Colloquy.Proofs.Session
import Colloquy.Similarity

/-! Values that do not come from variables.  Documents and written-out values hold no list that has
a number, and the closest of some choices is one of them. -/

namespace Colloquy

open Value List

variable {rest : List Char} {v : Value}

variable {A : Nat → Prop}

/-! ### Documents -/

namespace Json

theorem map_ok {α β : Type} {x : Except Fault α} {f : α → β} {b : β} (h : x.map f = .ok b) :
    ∃ a, x = .ok a ∧ f a = b := by
  cases x with
  | error fault => cases h
  | ok a => exact ⟨a, rfl, Except.ok.inj h⟩

theorem number_listsIn {negative : Bool} {cs : List Char} (h : number negative cs = .ok (v, rest)) :
    v.ListsIn A := by
  simp only [number] at h
  repeat' split at h
  all_goals cases h <;> trivial

/-- A reading, if there is one, of a value whose lists have numbers from `A`. -/
def ReadsIn (A : Nat → Prop) (reading? : Option (Value × List Char)) : Prop :=
  ∀ reading, reading? = some reading → reading.1.ListsIn A

theorem ReadsIn.orElse {a b : Option (Value × List Char)} (ha : ReadsIn A a) (hb : ReadsIn A b) :
    ReadsIn A (a <|> b) := by
  intro reading h
  cases a with
  | none => exact hb reading h
  | some r => exact ha reading h

theorem ReadsIn.ite {c : Prop} [Decidable c] (hv : v.ListsIn A) :
    ReadsIn A (if c then some (v, rest) else none) := by
  intro reading h
  split at h
  · cases h
    exact hv
  · cases h

theorem scalar_listsIn {cs : List Char} (h : scalar cs = .ok (v, rest)) : v.ListsIn A := by
  simp only [scalar] at h
  split at h
  · rename_i reading hknown
    obtain rfl := Except.ok.inj h
    refine ReadsIn.orElse ?_ (.orElse ?_ (.orElse ?_ (.orElse ?_ (.orElse ?_ ?_)))) _ hknown
    all_goals exact ReadsIn.ite trivial
  · exact number_listsIn h
  · exact number_listsIn h

mutual

theorem value_listsIn {depth : Nat} : (fuel : Nat) → {cs rest : List Char} → {v : Value} →
    value depth fuel cs = .ok (v, rest) → v.ListsIn A
  | 0, _, _, _, h => by cases h
  | fuel + 1, cs, rest, v, h => by
    simp only [value] at h
    split at h
    · split at h <;> cases h
      trivial
    · split at h
      · cases h
      split at h
      · cases h
        simp
      · obtain ⟨⟨items, after⟩, hitems, hv⟩ := map_ok h
        cases hv
        exact listsIn_ofItems.2 (items_listsIn fuel (by simp) hitems)
    · split at h
      · cases h
      split at h
      · cases h
        simp
      · obtain ⟨⟨entries, after⟩, hentries, hv⟩ := map_ok h
        cases hv
        exact listsIn_table.2 (members_listsIn fuel (by simp) hentries)
    · exact scalar_listsIn h

theorem items_listsIn {depth : Nat} : (fuel : Nat) → {read result : List Value} →
    {cs rest : List Char} → (∀ x ∈ read, x.ListsIn A) →
    items depth fuel read cs = .ok (result, rest) → ∀ x ∈ result, x.ListsIn A
  | 0, _, _, _, _, _, h => by cases h
  | fuel + 1, read, result, cs, rest, hread, h => by
    simp only [items] at h
    split at h
    · cases h
    · rename_i v more hv
      have hall : ∀ x ∈ v :: read, x.ListsIn A := by
        simp only [mem_cons, forall_eq_or_imp]
        exact ⟨value_listsIn fuel hv, hread⟩
      split at h
      · exact items_listsIn fuel hall h
      · cases h
        exact fun x hx => hall x (mem_reverse.1 hx)
      · cases h

theorem members_listsIn {depth : Nat} : (fuel : Nat) → {entries result : Entries} →
    {cs rest : List Char} → (∀ e ∈ entries, e.1.ListsIn A ∧ e.2.ListsIn A) →
    members depth fuel entries cs = .ok (result, rest) →
      ∀ e ∈ result, e.1.ListsIn A ∧ e.2.ListsIn A
  | 0, _, _, _, _, _, h => by cases h
  | fuel + 1, entries, result, cs, rest, hentries, h => by
    simp only [members] at h
    split at h <;> try cases h
    split at h <;> try cases h
    rename_i name _ _
    split at h <;> try cases h
    split at h
    · cases h
    · rename_i v more hv
      have hall := insert_listsIn (listsIn_str name) (value_listsIn fuel hv) hentries
      split at h
      · exact members_listsIn fuel hall h
      · cases h
        exact hall
      · cases h

end

theorem read_listsIn {s : String} (h : read s = .ok v) : v.ListsIn A := by
  obtain ⟨⟨v', rest⟩, hvalue, hlast⟩ := except_bind_ok_iff.1 h
  simp only at hlast
  split at hlast <;> cases hlast
  exact value_listsIn _ hvalue

end Json

/-! ### Written-out values -/

namespace Formula.Operand

mutual

theorem toValue?_listsIn : (a : Operand) → {v : Value} → a.toValue? = some v → v.ListsIn A
  | null, _, h | bool _, _, h | int _, _, h | float _, _, h => by
    cases h
    trivial
  | text s, v, h => by
    obtain ⟨t, -, rfl⟩ := Option.map_eq_some_iff.1 h
    trivial
  | list items, v, h => by
    obtain ⟨xs, hxs, rfl⟩ := Option.map_eq_some_iff.1 h
    exact listsIn_ofItems.2 (toValues?_listsIn items hxs)
  | tuple items, v, h => by
    obtain ⟨xs, hxs, rfl⟩ := Option.map_eq_some_iff.1 h
    exact listsIn_tuple.2 (toValues?_listsIn items hxs)
  | set items, v, h => by
    obtain ⟨xs, hxs, rfl⟩ := Option.map_eq_some_iff.1 h
    exact listsIn_set.2 (toValues?_listsIn items hxs)
  | table entries, v, h => by
    obtain ⟨xs, hxs, rfl⟩ := Option.map_eq_some_iff.1 h
    exact listsIn_table.2 (toEntries?_listsIn entries hxs)
  | complex _, _, h | bytes _, _, h | ellipsis, _, h | function _, _, h | clock, _, h => by
    cases h

theorem toValues?_listsIn : (items : List Operand) → {xs : List Value} →
    toValues? items = some xs → ∀ x ∈ xs, x.ListsIn A
  | [], _, h => by
    cases h
    simp
  | a :: rest, xs, h => by
    simp only [toValues?, Option.bind_eq_bind, Option.bind_eq_some_iff] at h
    obtain ⟨v, hv, vs, hvs, hxs⟩ := h
    cases hxs
    simp only [mem_cons, forall_eq_or_imp]
    exact ⟨toValue?_listsIn a hv, toValues?_listsIn rest hvs⟩

theorem toEntries?_listsIn : (entries : List (Operand × Operand)) →
    {xs : List (Value × Value)} → toEntries? entries = some xs →
      ∀ e ∈ xs, e.1.ListsIn A ∧ e.2.ListsIn A
  | [], _, h => by
    cases h
    simp
  | (k, a) :: rest, xs, h => by
    simp only [toEntries?, Option.bind_eq_bind, Option.bind_eq_some_iff] at h
    obtain ⟨key, hkey, v, hv, vs, hvs, hxs⟩ := h
    cases hxs
    simp only [mem_cons, forall_eq_or_imp]
    exact ⟨⟨toValue?_listsIn k hkey, toValue?_listsIn a hv⟩, toEntries?_listsIn rest hvs⟩

end

end Formula.Operand

theorem Formula.readLiteral_listsIn {s : String} (h : readLiteral s = .ok v) : v.ListsIn A := by
  obtain ⟨e, -, hrest⟩ := except_bind_ok_iff.1 h
  obtain ⟨a, -, hlast⟩ := except_bind_ok_iff.1 hrest
  cases hvalue : a.toValue? with
  | none => simp [hvalue] at hlast
  | some w =>
    simp only [hvalue] at hlast
    cases hlast
    exact Operand.toValue?_listsIn a hvalue

/-! ### Choices -/

namespace Ranking

section

variable {α : Type} {T : α → Prop} {less : α → α → Except Fault Bool}

theorem fallingRun_all {before : α} {run rest : List α} {result : List α × List α}
    (hrun : ∀ x ∈ run, T x) (hrest : ∀ x ∈ rest, T x)
    (h : fallingRun less before run rest = .ok result) :
    (∀ x ∈ result.1, T x) ∧ ∀ x ∈ result.2, T x := by
  induction rest generalizing before run with
  | nil =>
    cases h
    exact ⟨hrun, hrest⟩
  | cons y rest ih =>
    obtain ⟨falls, -, h⟩ := except_bind_ok_iff.1 h
    obtain ⟨hy, hmore⟩ := forall_mem_cons.1 hrest
    cases falls with
    | false =>
      cases h
      exact ⟨hrun, hrest⟩
    | true =>
      exact ih (forall_mem_cons.2 ⟨hy, hrun⟩) hmore h

theorem risingRun_all {before : α} {run rest : List α} {result : List α × List α}
    (hrun : ∀ x ∈ run, T x) (hrest : ∀ x ∈ rest, T x)
    (h : risingRun less before run rest = .ok result) :
    (∀ x ∈ result.1, T x) ∧ ∀ x ∈ result.2, T x := by
  have hreverse : ∀ run : List α, (∀ x ∈ run, T x) → ∀ x ∈ run.reverse, T x :=
    fun run hrun x hx => hrun x (mem_reverse.1 hx)
  induction rest generalizing before run with
  | nil =>
    cases h
    exact ⟨hreverse run hrun, hrest⟩
  | cons y rest ih =>
    obtain ⟨falls, -, h⟩ := except_bind_ok_iff.1 h
    obtain ⟨hy, hmore⟩ := forall_mem_cons.1 hrest
    cases falls with
    | true =>
      cases h
      exact ⟨hreverse run hrun, hrest⟩
    | false =>
      exact ih (forall_mem_cons.2 ⟨hy, hrun⟩) hmore h

theorem insertAll_all {sorted rest result : List α} (hsorted : ∀ x ∈ sorted, T x)
    (hrest : ∀ x ∈ rest, T x) (h : insertAll less sorted rest = .ok result) :
    ∀ x ∈ result, T x := by
  induction rest generalizing sorted with
  | nil =>
    cases h
    exact hsorted
  | cons y rest ih =>
    obtain ⟨i, -, h⟩ := except_bind_ok_iff.1 h
    refine ih (fun x hx => ?_) (forall_mem_cons.1 hrest).2 h
    obtain hx | hx := mem_append.1 hx
    · exact hsorted x (mem_of_mem_take hx)
    · obtain rfl | hx := mem_cons.1 hx
      · exact hrest x mem_cons_self
      · exact hsorted x (mem_of_mem_drop hx)

theorem firstRun_all {xs : List α} {result : List α × List α} (hxs : ∀ x ∈ xs, T x)
    (h : firstRun less xs = .ok result) : (∀ x ∈ result.1, T x) ∧ ∀ x ∈ result.2, T x := by
  match xs with
  | [] =>
    cases h
    simp
  | [x] =>
    cases h
    exact ⟨hxs, by simp⟩
  | x :: y :: rest =>
    obtain ⟨falls, -, h⟩ := except_bind_ok_iff.1 h
    obtain ⟨hx, hy, hrest⟩ : T x ∧ T y ∧ ∀ z ∈ rest, T z := by simpa using hxs
    have hstart : ∀ z ∈ [y, x], T z := by simp [hx, hy]
    cases falls with
    | true => exact fallingRun_all hstart hrest h
    | false => exact risingRun_all hstart hrest h

theorem sortedDown_all {xs result : List α} (hxs : ∀ x ∈ xs, T x)
    (h : sortedDown less xs = .ok result) : ∀ x ∈ result, T x := by
  obtain ⟨ys, hys, hresult⟩ := except_bind_ok_iff.1 h
  obtain ⟨⟨run, rest⟩, hrun, hinsert⟩ := except_bind_ok_iff.1 hys
  cases hresult
  have hall := firstRun_all (fun x hx => hxs x (mem_reverse.1 hx)) hrun
  exact fun x hx => insertAll_all hall.1 hall.2 hinsert x (mem_reverse.1 hx)

end

def Three.All (T : Value → Prop) (t : Three) : Prop :=
  T t.first.choice ∧ T t.second.choice ∧ T t.third.choice

theorem Three.All.sift {T : Value → Prop} {t t' : Three} (h : t.All T) (hsift : t.sift = .ok t') :
    t'.All T := by
  obtain ⟨hfirst, hsecond, hthird⟩ := h
  obtain ⟨below, -, hsift⟩ := except_bind_ok_iff.1 hsift
  cases below with
  | true =>
    obtain ⟨inOrder, -, hsift⟩ := except_bind_ok_iff.1 hsift
    cases inOrder <;> cases hsift
    · exact ⟨hsecond, hfirst, hthird⟩
    · exact ⟨hfirst, hsecond, hthird⟩
  | false =>
    obtain ⟨inOrder, -, hsift⟩ := except_bind_ok_iff.1 hsift
    cases inOrder <;> cases hsift
    · exact ⟨hthird, hsecond, hfirst⟩
    · exact ⟨hfirst, hsecond, hthird⟩

theorem bestThree_all {T : Value → Prop} {kept kept' : Three} {turn : Int} {rest : List Scored}
    (hkept : kept.All T) (hrest : ∀ x ∈ rest, T x.choice)
    (h : bestThree kept turn rest = .ok kept') : kept'.All T := by
  induction rest generalizing kept turn with
  | nil =>
    cases h
    exact hkept
  | cons x rest ih =>
    have hrest' : ∀ y ∈ rest, T y.choice := (forall_mem_cons.1 hrest).2
    obtain ⟨worse, -, h⟩ := except_bind_ok_iff.1 h
    cases worse with
    | false => exact ih hkept hrest' h
    | true =>
      obtain ⟨next, hnext, h⟩ := except_bind_ok_iff.1 h
      have hnew : Three.All T { kept with first := { x with turn } } :=
        ⟨hrest x mem_cons_self, hkept.2.1, hkept.2.2⟩
      exact ih (hnew.sift hnext) hrest' h

theorem best_all {T : Value → Prop} {choices result : List Scored}
    (hchoices : ∀ x ∈ choices, T x.choice) (h : best choices = .ok result) :
    ∀ x ∈ result, T x.choice := by
  simp only [best] at h
  split at h
  · rename_i a b c d rest
    obtain ⟨ha, hb, hc, hd, hrest⟩ : T a.choice ∧ T b.choice ∧ T c.choice ∧ T d.choice ∧
        ∀ x ∈ rest, T x.choice := by simpa using hchoices
    obtain ⟨kept, hkept, h⟩ := except_bind_ok_iff.1 h
    obtain ⟨kept', hkept', h⟩ := except_bind_ok_iff.1 h
    have hthree : kept.All T := Three.All.sift ⟨ha, hb, hc⟩ hkept
    have hthree' := bestThree_all hthree (by simpa using ⟨hd, hrest⟩) hkept'
    refine sortedDown_all (T := fun x => T x.choice) ?_ h
    simpa [Three.All] using hthree'
  · exact sortedDown_all (T := fun x => T x.choice) hchoices h

end Ranking

theorem filterMapM_mem {α β : Type} {f : α → Except Fault (Option β)} {xs : List α} {ys : List β}
    (h : xs.filterMapM f = .ok ys) : ∀ y ∈ ys, ∃ x ∈ xs, f x = .ok (some y) := by
  induction xs generalizing ys with
  | nil =>
    cases h
    simp
  | cons x xs ih =>
    rw [filterMapM_cons] at h
    obtain ⟨found, hfound, h⟩ := except_bind_ok_iff.1 h
    cases found with
    | none =>
      intro y hy
      obtain ⟨x', hx', hy'⟩ := ih h y hy
      exact ⟨x', mem_cons_of_mem _ hx', hy'⟩
    | some z =>
      obtain ⟨zs, hzs, h⟩ := except_bind_ok_iff.1 h
      cases h
      intro y hy
      obtain rfl | hy := mem_cons.1 hy
      · exact ⟨x, mem_cons_self, hfound⟩
      · obtain ⟨x', hx', hy'⟩ := ih hzs y hy
        exact ⟨x', mem_cons_of_mem _ hx', hy'⟩

theorem Similarity.closest?_mem {word : String} {choices : List Value}
    (h : closest? word choices = .ok (some v)) : v ∈ choices := by
  obtain ⟨scored, hscored, h⟩ := except_bind_ok_iff.1 h
  obtain ⟨ranked, hranked, h⟩ := except_bind_ok_iff.1 h
  have hmem : ∀ x ∈ scored, x.choice ∈ choices := by
    intro x hx
    obtain ⟨choice, hchoice, hscore⟩ := filterMapM_mem hscored x hx
    obtain ⟨score, -, hscore⟩ := except_bind_ok_iff.1 hscore
    obtain ⟨value, -, rfl⟩ := Option.map_eq_some_iff.1 (Except.ok.inj hscore)
    exact hchoice
  have hbest := Ranking.best_all hmem hranked
  cases ranked with
  | nil => cases h
  | cons x rest =>
    cases h
    exact hbest x mem_cons_self

end Colloquy
