import Colloquy.Value.Member
import Colloquy.Value.Shared

/-! Where the lists of a value come from.  `ListsIn A v` says that every list in `v` that has a
number has one from `A`.  A change of a list from `A` leaves alone what holds only other lists, and
reading or writing parts of values gives no list that was not there. -/

namespace Colloquy.Value

open List

variable {items : List Value} {container key value : Value} {entries : Entries}

mutual

/-- Every list in the value that has a number has one from `A`. -/
def ListsIn (A : Nat → Prop) : Value → Prop
  | list items number => (∀ n, number = some n → A n) ∧ ItemsIn A items
  | tuple items => ItemsIn A items
  | table entries => EntriesIn A entries
  | set items => ItemsIn A items
  | record fields => FieldsIn A fields
  | _ => True

def ItemsIn (A : Nat → Prop) : List Value → Prop
  | [] => True
  | x :: xs => ListsIn A x ∧ ItemsIn A xs

def EntriesIn (A : Nat → Prop) : List (Value × Value) → Prop
  | [] => True
  | (k, v) :: rest => ListsIn A k ∧ ListsIn A v ∧ EntriesIn A rest

def FieldsIn (A : Nat → Prop) : List (String × Value) → Prop
  | [] => True
  | (_, v) :: rest => ListsIn A v ∧ FieldsIn A rest

end

section

variable {A : Nat → Prop}

theorem itemsIn_iff : ItemsIn A items ↔ ∀ x ∈ items, x.ListsIn A := by
  induction items with
  | nil => exact iff_of_true trivial (forall_mem_nil _)
  | cons x xs ih =>
    rw [forall_mem_cons]
    exact and_congr_right' ih

theorem entriesIn_iff {entries : List (Value × Value)} :
    EntriesIn A entries ↔ ∀ e ∈ entries, e.1.ListsIn A ∧ e.2.ListsIn A := by
  induction entries with
  | nil => exact iff_of_true trivial (forall_mem_nil _)
  | cons e rest ih =>
    rw [forall_mem_cons]
    exact and_assoc.symm.trans (and_congr_right' ih)

theorem fieldsIn_iff {fields : List (String × Value)} :
    FieldsIn A fields ↔ ∀ e ∈ fields, e.2.ListsIn A := by
  induction fields with
  | nil => exact iff_of_true trivial (forall_mem_nil _)
  | cons e rest ih =>
    rw [forall_mem_cons]
    exact and_congr_right' ih

@[simp] theorem listsIn_null : ListsIn A null := trivial
@[simp] theorem listsIn_bool (b : Bool) : ListsIn A (bool b) := trivial
@[simp] theorem listsIn_int (n : Int) : ListsIn A (int n) := trivial
@[simp] theorem listsIn_float (x : Float) : ListsIn A (float x) := trivial
@[simp] theorem listsIn_str (s : String) : ListsIn A (str s) := trivial

@[simp] theorem listsIn_list {items : List Value} {number : Option Nat} :
    ListsIn A (list items number) ↔
      (∀ n, number = some n → A n) ∧ ∀ x ∈ items, x.ListsIn A :=
  and_congr_right' itemsIn_iff

@[simp] theorem listsIn_ofItems {items : List Value} :
    ListsIn A (ofItems items) ↔ ∀ x ∈ items, x.ListsIn A := by
  simp [ofItems]

@[simp] theorem listsIn_tuple {items : List Value} :
    ListsIn A (tuple items) ↔ ∀ x ∈ items, x.ListsIn A :=
  itemsIn_iff

@[simp] theorem listsIn_set {items : List Value} :
    ListsIn A (set items) ↔ ∀ x ∈ items, x.ListsIn A :=
  itemsIn_iff

@[simp] theorem listsIn_table {entries : List (Value × Value)} :
    ListsIn A (table entries) ↔ ∀ e ∈ entries, e.1.ListsIn A ∧ e.2.ListsIn A :=
  entriesIn_iff

@[simp] theorem listsIn_record {fields : List (String × Value)} :
    ListsIn A (record fields) ↔ ∀ e ∈ fields, e.2.ListsIn A :=
  fieldsIn_iff

@[simp] theorem listsIn_emptyTable : ListsIn A emptyTable := by
  simp [emptyTable]

end

mutual

theorem ListsIn.mono {A B : Nat → Prop} (hAB : ∀ n, A n → B n) :
    (v : Value) → v.ListsIn A → v.ListsIn B
  | list items _, h => ⟨fun n hn => hAB n (h.1 n hn), ItemsIn.mono hAB items h.2⟩
  | tuple items, h => ItemsIn.mono hAB items h
  | table entries, h => EntriesIn.mono hAB entries h
  | set items, h => ItemsIn.mono hAB items h
  | record fields, h => FieldsIn.mono hAB fields h
  | null, _ | bool _, _ | int _, _ | float _, _ | str _, _ => trivial

theorem ItemsIn.mono {A B : Nat → Prop} (hAB : ∀ n, A n → B n) :
    (items : List Value) → ItemsIn A items → ItemsIn B items
  | [], _ => trivial
  | x :: xs, h => ⟨ListsIn.mono hAB x h.1, ItemsIn.mono hAB xs h.2⟩

theorem EntriesIn.mono {A B : Nat → Prop} (hAB : ∀ n, A n → B n) :
    (entries : List (Value × Value)) → EntriesIn A entries → EntriesIn B entries
  | [], _ => trivial
  | (k, v) :: rest, h =>
    ⟨ListsIn.mono hAB k h.1, ListsIn.mono hAB v h.2.1, EntriesIn.mono hAB rest h.2.2⟩

theorem FieldsIn.mono {A B : Nat → Prop} (hAB : ∀ n, A n → B n) :
    (fields : List (String × Value)) → FieldsIn A fields → FieldsIn B fields
  | [], _ => trivial
  | (_, v) :: rest, h => ⟨ListsIn.mono hAB v h.1, FieldsIn.mono hAB rest h.2⟩

end

mutual

theorem listsIn_all : (v : Value) → v.ListsIn fun _ => True
  | list _ _ => ⟨fun _ _ => trivial, itemsIn_all _⟩
  | tuple _ | set _ => itemsIn_all _
  | table _ => entriesIn_all _
  | record _ => fieldsIn_all _
  | null | bool _ | int _ | float _ | str _ => trivial

theorem itemsIn_all : (items : List Value) → ItemsIn (fun _ => True) items
  | [] => trivial
  | x :: xs => ⟨listsIn_all x, itemsIn_all xs⟩

theorem entriesIn_all : (entries : List (Value × Value)) → EntriesIn (fun _ => True) entries
  | [] => trivial
  | (k, v) :: rest => ⟨listsIn_all k, listsIn_all v, entriesIn_all rest⟩

theorem fieldsIn_all : (fields : List (String × Value)) → FieldsIn (fun _ => True) fields
  | [] => trivial
  | (_, v) :: rest => ⟨listsIn_all v, fieldsIn_all rest⟩

end

section

variable {A : Nat → Prop}

/-! ### Changes and numbers -/

mutual

theorem ListsIn.changed {change : Change} (hitems : ∀ x ∈ change.items, x.ListsIn A) :
    (v : Value) → v.ListsIn A → (v.changed change).ListsIn A
  | list items number, h => by
    simp only [changed]
    split
    · exact listsIn_list.2 ⟨h.1, hitems⟩
    · exact ⟨h.1, ItemsIn.changed hitems items h.2⟩
  | tuple items, h => ItemsIn.changed hitems items h
  | table entries, h => EntriesIn.changed hitems entries h
  | null, h | bool _, h | int _, h | float _, h | str _, h | set _, h | record _, h => h

theorem ItemsIn.changed {change : Change} (hitems : ∀ x ∈ change.items, x.ListsIn A) :
    (items : List Value) → ItemsIn A items → ItemsIn A (changedItems change items)
  | [], _ => trivial
  | x :: xs, h => ⟨ListsIn.changed hitems x h.1, ItemsIn.changed hitems xs h.2⟩

theorem EntriesIn.changed {change : Change} (hitems : ∀ x ∈ change.items, x.ListsIn A) :
    (entries : List (Value × Value)) → EntriesIn A entries →
      EntriesIn A (changedEntries change entries)
  | [], _ => trivial
  | (_, v) :: rest, h =>
    ⟨h.1, ListsIn.changed hitems v h.2.1, EntriesIn.changed hitems rest h.2.2⟩

end

mutual

theorem ListsIn.changed_eq {change : Change} (hnumber : ¬ A change.number) :
    (v : Value) → v.ListsIn A → v.changed change = v
  | list items number, h => by
    have hother : number ≠ some change.number := fun hn => hnumber (h.1 _ hn)
    simp [changed, hother, ItemsIn.changed_eq hnumber items h.2]
  | tuple items, h => by simp [changed, ItemsIn.changed_eq hnumber items h]
  | table entries, h => by simp [changed, EntriesIn.changed_eq hnumber entries h]
  | null, _ | bool _, _ | int _, _ | float _, _ | str _, _ | set _, _ | record _, _ => rfl

theorem ItemsIn.changed_eq {change : Change} (hnumber : ¬ A change.number) :
    (items : List Value) → ItemsIn A items → changedItems change items = items
  | [], _ => rfl
  | x :: xs, h => by
    simp [changedItems, ListsIn.changed_eq hnumber x h.1, ItemsIn.changed_eq hnumber xs h.2]

theorem EntriesIn.changed_eq {change : Change} (hnumber : ¬ A change.number) :
    (entries : List (Value × Value)) → EntriesIn A entries →
      changedEntries change entries = entries
  | [], _ => rfl
  | (k, v) :: rest, h => by
    simp [changedEntries, ListsIn.changed_eq hnumber v h.2.1,
      EntriesIn.changed_eq hnumber rest h.2.2]

end

mutual

theorem le_numbered : (v : Value) → (next : Nat) → next ≤ (v.numbered next).2
  | list items number, next => by
    have := le_numberedItems items next
    cases number <;> simp only [numbered] <;> omega
  | tuple items, next => by simpa only [numbered] using le_numberedItems items next
  | table entries, next => by simpa only [numbered] using le_numberedEntries entries next
  | null, _ | bool _, _ | int _, _ | float _, _ | str _, _ | set _, _ | record _, _ => by
    simp [numbered]

theorem le_numberedItems :
    (items : List Value) → (next : Nat) → next ≤ (numberedItems next items).2
  | [], _ => by simp [numberedItems]
  | x :: xs, next => by
    have hx := le_numbered x next
    have hxs := le_numberedItems xs (x.numbered next).2
    simp only [numberedItems]
    omega

theorem le_numberedEntries :
    (entries : List (Value × Value)) → (next : Nat) → next ≤ (numberedEntries next entries).2
  | [], _ => by simp [numberedEntries]
  | (_, v) :: rest, next => by
    have hv := le_numbered v next
    have hrest := le_numberedEntries rest (v.numbered next).2
    simp only [numberedEntries]
    omega

end

mutual

theorem ListsIn.numbered : (v : Value) → {next : Nat} → (∀ n, next ≤ n → A n) → v.ListsIn A →
    (v.numbered next).1.ListsIn A
  | list items number, next, hfresh, h => by
    have hitems := ItemsIn.numbered items hfresh h.2
    cases number with
    | some n => simpa only [numbered] using ⟨h.1, hitems⟩
    | none =>
      simp only [numbered]
      refine ⟨fun n hn => hfresh n ?_, hitems⟩
      have := le_numberedItems items next
      simp only [Option.some.injEq] at hn
      omega
  | tuple items, _, hfresh, h => by
    simp only [numbered]
    exact ItemsIn.numbered items hfresh h
  | table entries, _, hfresh, h => by
    simp only [numbered]
    exact EntriesIn.numbered entries hfresh h
  | null, _, _, h | bool _, _, _, h | int _, _, _, h | float _, _, _, h | str _, _, _, h
  | set _, _, _, h | record _, _, _, h => h

theorem ItemsIn.numbered : (items : List Value) → {next : Nat} → (∀ n, next ≤ n → A n) →
    ItemsIn A items → ItemsIn A (numberedItems next items).1
  | [], _, _, _ => trivial
  | x :: xs, _, hfresh, h => by
    simp only [numberedItems]
    have hrest : ∀ n, (x.numbered _).2 ≤ n → A n :=
      fun n hn => hfresh n (Nat.le_trans (le_numbered x _) hn)
    exact ⟨ListsIn.numbered x hfresh h.1, ItemsIn.numbered xs hrest h.2⟩

theorem EntriesIn.numbered : (entries : List (Value × Value)) → {next : Nat} →
    (∀ n, next ≤ n → A n) → EntriesIn A entries → EntriesIn A (numberedEntries next entries).1
  | [], _, _, _ => trivial
  | (_, v) :: rest, _, hfresh, h => by
    simp only [numberedEntries]
    have hrest : ∀ n, (v.numbered _).2 ≤ n → A n :=
      fun n hn => hfresh n (Nat.le_trans (le_numbered v _) hn)
    exact ⟨h.1, ListsIn.numbered v hfresh h.2.1, EntriesIn.numbered rest hrest h.2.2⟩

end

mutual

theorem copied_numbered : (v : Value) → (next : Nat) → (v.numbered next).1.copied = v.copied
  | list items number, next => by
    cases number <;> simp [numbered, copied, copiedItems_numberedItems items next]
  | tuple items, next => by
    simp [numbered, copied, copiedItems_numberedItems items next]
  | table entries, next => by
    simp [numbered, copied, copiedEntries_numberedEntries entries next]
  | null, _ | bool _, _ | int _, _ | float _, _ | str _, _ | set _, _ | record _, _ => rfl

theorem copiedItems_numberedItems : (items : List Value) → (next : Nat) →
    copiedItems (numberedItems next items).1 = copiedItems items
  | [], _ => rfl
  | x :: xs, next => by
    simp [numberedItems, copiedItems, copied_numbered x next, copiedItems_numberedItems xs]

theorem copiedEntries_numberedEntries : (entries : List (Value × Value)) → (next : Nat) →
    copiedEntries (numberedEntries next entries).1 = copiedEntries entries
  | [], _ => rfl
  | (k, v) :: rest, next => by
    simp [numberedEntries, copiedEntries, copied_numbered v next,
      copiedEntries_numberedEntries rest]

end

/-! ### Parts of values -/

theorem find?_listsIn (h : ∀ e ∈ entries, e.1.ListsIn A ∧ e.2.ListsIn A)
    (hfind : Entries.find? key entries = some value) : value.ListsIn A := by
  induction entries with
  | nil => simp [Entries.find?] at hfind
  | cons e rest ih =>
    obtain ⟨k, v⟩ := e
    simp only [Entries.find?] at hfind
    split at hfind
    · obtain rfl := Option.some.inj hfind
      exact (h _ mem_cons_self).2
    · exact ih (forall_mem_cons.1 h).2 hfind

theorem insert_listsIn (hkey : key.ListsIn A) (hvalue : value.ListsIn A)
    (h : ∀ e ∈ entries, e.1.ListsIn A ∧ e.2.ListsIn A) :
    ∀ e ∈ Entries.insert key value entries, e.1.ListsIn A ∧ e.2.ListsIn A := by
  induction entries with
  | nil => simp [Entries.insert, hkey, hvalue]
  | cons e rest ih =>
    obtain ⟨k, v⟩ := e
    have hrest := ih (forall_mem_cons.1 h).2
    have hhead := h _ mem_cons_self
    simp only [Entries.insert]
    split
    · simp only [mem_cons, forall_eq_or_imp]
      exact ⟨⟨hhead.1, hvalue⟩, (forall_mem_cons.1 h).2⟩
    · simp only [mem_cons, forall_eq_or_imp]
      exact ⟨hhead, hrest⟩

theorem merge_listsIn {others : Entries} (h : ∀ e ∈ entries, e.1.ListsIn A ∧ e.2.ListsIn A)
    (hothers : ∀ e ∈ others, e.1.ListsIn A ∧ e.2.ListsIn A) :
    ∀ e ∈ Entries.merge entries others, e.1.ListsIn A ∧ e.2.ListsIn A := by
  induction others generalizing entries with
  | nil => exact h
  | cons e rest ih =>
    have hhead := hothers _ mem_cons_self
    exact ih (insert_listsIn hhead.1 hhead.2 h) (forall_mem_cons.1 hothers).2

theorem mem_of_itemAt {index : Int} (h : itemAt items index = .ok value) : value ∈ items := by
  simp only [itemAt] at h
  split at h
  · rename_i item hat
    obtain rfl := Except.ok.inj h
    obtain ⟨i, -, hi⟩ := Option.bind_eq_some_iff.1 hat
    exact mem_of_getElem? hi
  · cases h

theorem itemAt_nat {i : Nat} (h : items[i]? = some value) : itemAt items i = .ok value := by
  obtain ⟨hlt, -⟩ := List.getElem?_eq_some_iff.1 h
  have hposition : position? items.length i = some i := by
    simp [position?, hlt]
  simp only [itemAt, hposition, Option.bind_some, h]

theorem itemAt_listsIn {index : Int} (h : ∀ x ∈ items, x.ListsIn A)
    (hitem : itemAt items index = .ok value) : value.ListsIn A :=
  h _ (mem_of_itemAt hitem)

theorem characters_listsIn (s : String) : ∀ x ∈ characters s, x.ListsIn A := by
  simp [characters]

theorem field?_listsIn {name : String} {fields : List (String × Value)}
    (h : ∀ e ∈ fields, e.2.ListsIn A) (hfield : field? name fields = some value) :
    value.ListsIn A := by
  have hunder : ∀ n, (fields.find? (·.1 == n)).map (·.2) = some value → value.ListsIn A := by
    intro n hn
    obtain ⟨e, he, rfl⟩ := Option.map_eq_some_iff.1 hn
    exact h e (mem_of_find?_eq_some he)
  simp only [field?, Option.orElse_eq_orElse, Option.orElse_eq_or, Option.or_eq_some_iff] at hfield
  obtain hname | ⟨-, hname⟩ := hfield
  · exact hunder _ hname
  · exact hunder _ hname

theorem item_listsIn (h : container.ListsIn A) (hitem : container.item key = .ok value) :
    value.ListsIn A := by
  cases container with
  | table entries =>
    simp only [item] at hitem
    split at hitem <;> try cases hitem
    split at hitem <;> cases hitem
    rename_i hfind
    exact find?_listsIn (listsIn_table.1 h) hfind
  | list items number =>
    simp only [item] at hitem
    split at hitem <;> try cases hitem
    exact itemAt_listsIn (listsIn_list.1 h).2 hitem
  | tuple items =>
    simp only [item] at hitem
    split at hitem <;> try cases hitem
    exact itemAt_listsIn (listsIn_tuple.1 h) hitem
  | str s =>
    simp only [item] at hitem
    split at hitem <;> try cases hitem
    exact itemAt_listsIn (characters_listsIn s) hitem
  | record fields =>
    simp only [item] at hitem
    split at hitem <;> try cases hitem
    split at hitem <;> cases hitem
    rename_i hfield
    exact field?_listsIn (listsIn_record.1 h) hfield
  | null | bool _ | int _ | float _ | set _ => cases hitem

theorem get_listsIn {default : Value} (h : container.ListsIn A) (hdefault : default.ListsIn A)
    (hget : container.get key default = .ok value) : value.ListsIn A := by
  cases container with
  | table entries =>
    simp only [get] at hget
    split at hget <;> cases hget
    cases hfind : Entries.find? key entries with
    | none => exact hdefault
    | some v => exact find?_listsIn (listsIn_table.1 h) hfind
  | record fields =>
    simp only [get] at hget
    split at hget <;> try cases hget
    split at hget <;> cases hget
    rename_i name
    cases hfield : field? name fields with
    | none => exact hdefault
    | some v => exact field?_listsIn (listsIn_record.1 h) hfield
  | null | bool _ | int _ | float _ | str _ | list _ _ | tuple _ | set _ => cases hget

theorem elements_listsIn {v : Value} (h : v.ListsIn A) (helements : v.elements = .ok items) :
    ∀ x ∈ items, x.ListsIn A := by
  cases v with
  | list xs number => cases helements; exact (listsIn_list.1 h).2
  | tuple xs => cases helements; exact listsIn_tuple.1 h
  | set xs => cases helements; exact listsIn_set.1 h
  | str s => cases helements; exact characters_listsIn s
  | table entries =>
    cases helements
    intro x hx
    obtain ⟨e, he, rfl⟩ := mem_map.1 hx
    exact (listsIn_table.1 h e he).1
  | null | bool _ | int _ | float _ | record _ => cases helements

mutual

theorem listsIn_of_isKey : (v : Value) → v.isKey = true → v.ListsIn A
  | tuple items, h => itemsIn_of_areKeys items h
  | null, _ | bool _, _ | int _, _ | float _, _ | str _, _ => trivial

theorem itemsIn_of_areKeys : (items : List Value) → isKey.areKeys items = true → ItemsIn A items
  | [], _ => trivial
  | x :: xs, h => by
    simp only [isKey.areKeys, Bool.and_eq_true] at h
    exact ⟨listsIn_of_isKey x h.1, itemsIn_of_areKeys xs h.2⟩

end

theorem isKey_of_asInt? {v : Value} {n : Int} (h : v.asInt? = some n) : v.isKey = true := by
  cases v with
  | int _ | bool _ => rfl
  | null | float _ | str _ | list _ _ | tuple _ | set _ | table _ | record _ => cases h

theorem isKey_of_item (hitem : container.item key = .ok value) : key.isKey = true := by
  cases container with
  | table entries =>
    simp only [item] at hitem
    split at hitem
    · assumption
    · cases hitem
  | list _ _ | tuple _ | str _ =>
    simp only [item] at hitem
    split at hitem
    · exact isKey_of_asInt? ‹_›
    · cases hitem
  | record fields =>
    simp only [item] at hitem
    split at hitem
    · rfl
    · cases hitem
  | null | bool _ | int _ | float _ | set _ => cases hitem

theorem put_listsIn {result : Value} (h : container.ListsIn A) (hvalue : value.ListsIn A)
    (hput : container.put key value = .ok result) : result.ListsIn A := by
  cases container with
  | table entries =>
    simp only [put] at hput
    split at hput <;> cases hput
    rename_i hkey
    exact listsIn_table.2 (insert_listsIn (listsIn_of_isKey key hkey) hvalue (listsIn_table.1 h))
  | list items number =>
    simp only [put] at hput
    split at hput <;> try cases hput
    split at hput <;> cases hput
    refine listsIn_list.2 ⟨(listsIn_list.1 h).1, fun x hx => ?_⟩
    obtain hx | rfl := mem_or_eq_of_mem_set hx
    · exact (listsIn_list.1 h).2 x hx
    · exact hvalue
  | null | bool _ | int _ | float _ | str _ | tuple _ | set _ | record _ => cases hput

end
end Colloquy.Value
