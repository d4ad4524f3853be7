import Colloquy.Proofs.Rewording
import Mathlib.Data.List.Perm.Subperm

/-! What is offered of the items of a variable.  In whichever order the items come by chance, three of
them are named, or two if there are no more, and none of them twice.  A variable of two texts offers
the first two characters of its first text instead, and a table with one or two short keys nothing. -/

namespace Colloquy

open Session Value List

namespace Chance

variable {α β : Type}

theorem filterMap_range (items : List α) :
    (range items.length).filterMap (items[·]?) = items := by
  induction items with
  | nil => rfl
  | cons x xs ih =>
    rw [length_cons, range_succ_eq_map, filterMap_cons, filterMap_map]
    simpa [Function.comp_def] using ih

theorem shuffle_perm (chance : Chance) (items : List α) : (chance.shuffle items).Perm items := by
  have h := (chance.perm items.length).filterMap (items[·]?)
  rwa [filterMap_range] at h

theorem shuffle_map (chance : Chance) (f : α → β) (items : List α) :
    chance.shuffle (items.map f) = (chance.shuffle items).map f := by
  simp [shuffle, map_filterMap]

end Chance

namespace Function

/-- The text names two or three of the items, at different positions. -/
inductive Offers (items : List String) : String → Prop
  | three {a b c : String} (h : [a, b, c].Subperm items) :
      Offers items (a ++ ", " ++ b ++ ", or " ++ c)
  | two {a b : String} (h : [a, b].Subperm items) : Offers items (a ++ " or " ++ b)

def isShort (key : String) : Bool :=
  !key.isEmpty && decide ((Text.split " " key).length ≤ 3)

/-- The ways in which a variable can hold items: as its values, as the items of the list or as the keys
of the table that is its value. -/
inductive Shape where
  | texts
  | list
  | table

namespace Shape

def Holds (items : List String) (value : Value) : Shape → Prop
  | texts => ∃ number, value = .list (items.map .str) number
  | list => ∃ inner number, value = .list [.list (items.map .str) inner] number
  | table => ∃ entries number, value = .list [.table entries] number ∧
      Entries.keys entries = items.map .str

def Enough (items : List String) : Shape → Prop
  | texts => 3 ≤ items.length
  | list => True
  | table => items.countP isShort = 0 ∨ 3 ≤ items.countP isShort

end Shape

variable {chance : Chance} {items short : List String} {few value : Value} {shape : Shape}

theorem ofThree_take (h : 3 ≤ short.length) (hsubperm : short.Subperm items) :
    ∃ text, ofThree ((short.take 3).map .str) = .ok (.str text) ∧ Offers items text := by
  rcases short with _ | ⟨a, _ | ⟨b, _ | ⟨c, rest⟩⟩⟩
  · simp at h
  · simp at h
  · simp at h
  · have hfirst : [a, b, c].Sublist (a :: b :: c :: rest) := prefix_append [a, b, c] rest |>.sublist
    exact ⟨a ++ ", " ++ b ++ ", or " ++ c, rfl, .three (hfirst.subperm.trans hsubperm)⟩

theorem ofSample_many (h : 3 ≤ items.length) (few : Value) :
    ∃ text, ofSample chance (items.map .str) few = .ok (.str text) ∧ Offers items text := by
  have hperm := chance.shuffle_perm items
  obtain ⟨text, hthree, hoffers⟩ := ofThree_take (hperm.length_eq ▸ h) hperm.subperm
  refine ⟨text, ?_, hoffers⟩
  rw [ofSample, sample, length_map, if_neg (by omega), Chance.shuffle_map, ← map_take]
  exact hthree

theorem ofSample_few (h : items.length < 3) (few : Value) :
    ofSample chance (items.map .str) few = ofTwo few := by
  rw [ofSample, sample, length_map, if_pos h]

theorem ofTwo_of_item {a b : String} (hfirst : few.item (.int 0) = .ok (.str a))
    (hsecond : few.item (.int 1) = .ok (.str b)) : ofTwo few = .ok (.str (a ++ " or " ++ b)) := by
  rw [ofTwo, hfirst, hsecond]
  rfl

theorem ofSample_list (h : 2 ≤ items.length) (inner : Option Nat) :
    ∃ text, ofSample chance (items.map .str) (.list (items.map .str) inner) = .ok (.str text) ∧
      Offers items text := by
  by_cases hmany : 3 ≤ items.length
  · exact ofSample_many hmany _
  · rw [ofSample_few (by omega)]
    rcases items with _ | ⟨a, _ | ⟨b, rest⟩⟩
    · simp at h
    · simp at h
    · exact ⟨_, ofTwo_of_item (itemAt_nat (i := 0) rfl) (itemAt_nat (i := 1) rfl),
        .two (prefix_append [a, b] rest).sublist.subperm⟩

theorem shortKeys_eq (count : Nat) (keys : List String) :
    shortKeys count (keys.map .str) = .ok (((keys.filter isShort).take count).map .str) := by
  induction keys generalizing count with
  | nil => cases count <;> rfl
  | cons key rest ih =>
    cases count with
    | zero => rfl
    | succ count =>
      rw [map_cons, shortKeys, ih, ih]
      by_cases hempty : key.isEmpty = true
      · simp [truthy, isShort, hempty]
      · by_cases hshort : (Text.split " " key).length ≤ 3
        · simp [truthy, text, isShort, hempty, hshort, bind, Except.bind, pure,
            Except.pure]
        · simp [truthy, text, isShort, hempty, hshort, bind, Except.bind, pure,
            Except.pure]

theorem Offers.ne_empty {text : String} (h : Offers items text) : text ≠ "" := by
  cases h <;> simp

theorem not_offers_characters {first second : String} {p q : Char} {rest : List Char}
    (hfirst : first.toList = p :: q :: rest) :
    ¬ Offers [first, second] (p.toString ++ " or " ++ q.toString) := by
  intro h
  generalize htext : p.toString ++ " or " ++ q.toString = text at h
  cases h with
  | three h => simpa using h.length_le
  | @two a b h =>
    have hperm : [a, b].Perm [first, second] := h.perm_of_length_le (by simp)
    have hchars : [p, ' ', 'o', 'r', ' ', q] = a.toList ++ [' ', 'o', 'r', ' '] ++ b.toList := by
      simpa using congrArg String.toList htext
    have hlength := congrArg List.length hchars
    simp only [length_append, length_cons, length_nil] at hlength
    obtain rfl | rfl : a = first ∨ b = first := by
      have hmem := hperm.mem_iff.2 (mem_cons_self (a := first))
      simpa [eq_comm] using hmem
    · rw [hfirst, length_cons, length_cons] at hlength
      have hrest : rest = [] := eq_nil_of_length_eq_zero (by omega)
      have hb : b.toList = [] := eq_nil_of_length_eq_zero (by omega)
      simp [hfirst, hrest, hb] at hchars
    · rw [hfirst, length_cons, length_cons] at hlength
      have hrest : rest = [] := eq_nil_of_length_eq_zero (by omega)
      have ha : a.toList = [] := eq_nil_of_length_eq_zero (by omega)
      simp [hfirst, hrest, ha] at hchars

/-- Something is offered: items if there are enough, and otherwise no items or nothing. -/
theorem offer_cases (chance : Chance) (hholds : shape.Holds items value)
    (htwo : 2 ≤ items.length) :
    (shape.Enough items ∧ ∃ text, offer chance value = .ok (.str text) ∧ Offers items text) ∨
      ¬ shape.Enough items ∧ (offer chance value = .error .outOfRange ∨
        ∃ text, offer chance value = .ok (.str text) ∧ ¬ Offers items text) := by
  have hfirst (first : Value) (number : Option Nat) (rest : List Value) :
      (list (first :: rest) number).item (.int 0) = .ok first := itemAt_nat (i := 0) rfl
  cases shape with
  | texts =>
    obtain ⟨number, rfl⟩ := hholds
    rcases items with _ | ⟨a, _ | ⟨b, rest⟩⟩
    · simp at htwo
    · simp at htwo
    · have hoffer : offer chance (.list ((a :: b :: rest).map .str) number) =
          ofSample chance ((a :: b :: rest).map .str) (.str a) := by
        rw [offer, map_cons, hfirst]
        rfl
      rw [hoffer]
      by_cases hmany : 3 ≤ (a :: b :: rest).length
      · exact .inl ⟨hmany, ofSample_many hmany _⟩
      · refine .inr ⟨hmany, ?_⟩
        obtain rfl : rest = [] := by
          simp only [length_cons] at hmany
          exact eq_nil_of_length_eq_zero (by omega)
        rw [ofSample_few (by omega)]
        rcases hchars : a.toList with _ | ⟨p, _ | ⟨q, more⟩⟩
        · exact .inl (by simp [ofTwo, item, asInt?, characters, hchars]; rfl)
        · exact .inl (by simp [ofTwo, item, asInt?, characters, hchars]; rfl)
        · have hitem (i : Nat) (x : Char) (hx : a.toList[i]? = some x) :
              (str a).item (.int i) = .ok (.str x.toString) :=
            itemAt_nat (by simp [characters, hx])
          exact .inr ⟨_, ofTwo_of_item (hitem 0 p (by simp [hchars])) (hitem 1 q (by simp [hchars])),
            not_offers_characters hchars⟩
  | list =>
    obtain ⟨inner, number, rfl⟩ := hholds
    rw [offer, hfirst]
    exact .inl ⟨trivial, ofSample_list htwo inner⟩
  | table =>
    obtain ⟨entries, number, rfl, hkeys⟩ := hholds
    have hperm := (chance.shuffle_perm items).filter isShort
    have hcount : items.countP isShort = ((chance.shuffle items).filter isShort).length := by
      rw [hperm.length_eq, countP_eq_length_filter]
    have hoffer : offer chance (.list [.table entries] number) =
        if !(((chance.shuffle items).filter isShort).take 3).isEmpty then
          ofThree ((((chance.shuffle items).filter isShort).take 3).map .str)
        else ofSample chance (items.map .str) (.list (items.map .str) none) := by
      have hshort := shortKeys_eq 3 (chance.shuffle items)
      rw [← Chance.shuffle_map, ← hkeys] at hshort
      rw [← hkeys, ← isEmpty_map (f := str), offer, hfirst]
      simp only [bind, Except.bind, hshort]
      rfl
    rw [hoffer, Shape.Enough, hcount]
    generalize (chance.shuffle items).filter isShort = short at hperm
    rcases short with _ | ⟨a, _ | ⟨b, _ | ⟨c, rest⟩⟩⟩
    · exact .inl ⟨.inl rfl, ofSample_list htwo none⟩
    · exact .inr ⟨by simp, .inl rfl⟩
    · exact .inr ⟨by simp, .inl rfl⟩
    · exact .inl ⟨.inr (by simp), ofThree_take (by simp) (hperm.subperm.trans
        filter_sublist.subperm)⟩

end Function

namespace Running

variable {user value : Value} {c : Conversation} {bindings : Entries} {s : Session} {name : String}

/-- Of the items of a variable some are named, at different positions, exactly if there are enough. -/
theorem runRandom_offers {shape : Function.Shape} {items : List String}
    (h : Running user c bindings s) (hfind : bindings.find? name = some value)
    (hholds : shape.Holds items value) (htwo : 2 ≤ items.length) :
    ∃ text, Function.runRandom (.str name) user s = .ok (.str text) s ∧
      (Function.Offers items text ↔ shape.Enough items) := by
  have hvalue : c.bindings.item (.str name) = .ok value := by
    rw [h.bindings]
    simp [Value.item, Value.isKey, hfind]
  have hpick : (do
      let value ← (← current user).bindings.item (.str name)
      Function.offer (← get).host.chance value : Run Value) s =
        (liftM (Function.offer s.host.chance value) : Run Value) s := by
    obtain ⟨m, below, hm, hstack⟩ := h.running
    rw [bind_of_ok (current_of_stack h.isKey hm hstack), hvalue, bind_of_ok (lift_ok_apply _ _)]
    rfl
  rw [Function.runRandom]
  obtain ⟨henough, text, hoffer, hoffers⟩ | ⟨hfew, hoffer | ⟨text, hoffer, hnot⟩⟩ :=
    Function.offer_cases s.host.chance hholds htwo
  · rw [hoffer] at hpick
    exact ⟨text, rescue_of_ok hpick, iff_of_true hoffers henough⟩
  · rw [hoffer] at hpick
    exact ⟨"", rescue_of_error hpick (by decide), iff_of_false (fun h => h.ne_empty rfl) hfew⟩
  · rw [hoffer] at hpick
    exact ⟨text, rescue_of_ok hpick, iff_of_false hnot hfew⟩

theorem runRandom_offers_drinks :
    ∃ text, Function.runRandom "subs" "ann" (bureau "" ["tea", "milk", "juice"]) =
        .ok (.str text) (bureau "" ["tea", "milk", "juice"]) ∧
      Function.Offers ["tea", "milk", "juice"] text := by
  have hfind : Entries.find? "subs" [("x", .ofItems [.str ""]),
      ("subs", .ofItems (["tea", "milk", "juice"].map .str))] =
        some (.ofItems (["tea", "milk", "juice"].map .str)) := by
    simp [Entries.find?, Value.str_same]
  have hholds : Function.Shape.texts.Holds ["tea", "milk", "juice"]
      (.ofItems (["tea", "milk", "juice"].map .str)) := ⟨none, rfl⟩
  obtain ⟨text, hrun, hoffers⟩ := runRandom_offers (bureau_running "" ["tea", "milk", "juice"]) hfind
    hholds (by decide)
  exact ⟨text, hrun, hoffers.2 (Nat.le_refl 3)⟩

/-- Of two drinks, the first two letters of the first one are offered. -/
theorem runRandom_spells_tea :
    (returned (Function.runRandom "subs" "ann") (bureau "" ["tea", "coffee"])).map Value.display =
        some "t or e" ∧ ¬ Function.Offers ["tea", "coffee"] "t or e" :=
  ⟨by decide +kernel, Function.not_offers_characters (p := 't') (q := 'e') rfl⟩

end Running

end Colloquy
