import Colloquy.Text.Search

/-! Cutting a text at another one.  It is cut at the first place where the other one stands, and
cannot be cut exactly if the other one is no part of it.  Its pieces come from cutting it again and
again, so what holds of them is proved by induction on the cuts. -/

namespace Colloquy.Text

open List

/-! ### Characters -/

section

variable {c : Char} {sep cs before after piece rest xs ys zs : List Char}

theorem prefix_append_cons_iff (h : c ∉ xs) : xs <+: ys ++ c :: zs ↔ xs <+: ys := by
  refine ⟨fun hprefix => ?_, fun hprefix => hprefix.trans (prefix_append _ _)⟩
  obtain ⟨tail, htail⟩ := hprefix
  rcases append_eq_append_iff.1 htail with ⟨more, rfl, -⟩ | ⟨more, rfl, hmore⟩
  · exact prefix_append _ _
  · cases more with
    | nil => simp
    | cons x more =>
      obtain rfl : c = x := (List.cons.inj hmore).1
      simp at h

theorem infix_append_cons (h : c ∉ xs) (hin : xs <:+: ys ++ c :: zs) :
    xs <:+: ys ∨ xs <:+: zs := by
  induction ys with
  | nil =>
    rcases infix_cons_iff.1 hin with hprefix | hinfix
    · exact .inl ((prefix_append_cons_iff h).1 (show xs <+: [] ++ c :: zs from hprefix)).isInfix
    · exact .inr hinfix
  | cons y ys ih =>
    rcases infix_cons_iff.1 hin with hprefix | hinfix
    · exact .inl ((prefix_append_cons_iff h).1 (show xs <+: y :: ys ++ c :: zs from hprefix)).isInfix
    · exact (ih hinfix).imp_left fun h => infix_cons_iff.2 (.inr h)

theorem cutChars?_nil : cutChars? sep [] = if sep.isEmpty then some ([], []) else none := rfl

theorem cutChars?_cons : cutChars? sep (c :: cs) =
    if sep.isPrefixOf (c :: cs) then some ([], (c :: cs).drop sep.length)
    else (cutChars? sep cs).map fun (before, after) => (c :: before, after) := rfl

theorem isSome_cutChars? : (cutChars? sep cs).isSome = true ↔ sep <:+: cs := by
  induction cs with
  | nil => cases sep <;> simp [cutChars?_nil]
  | cons x rest ih =>
    rw [cutChars?_cons, infix_cons_iff, ← isPrefixOf_iff_prefix]
    split <;> simp [*]

theorem cutChars?_eq_none_iff : cutChars? sep cs = none ↔ ¬ sep <:+: cs := by
  rw [← isSome_cutChars?, Option.not_isSome_iff_eq_none]

theorem cutChars?_self (hsep : sep ≠ []) (rest : List Char) :
    cutChars? sep (sep ++ rest) = some ([], rest) := by
  obtain ⟨c, cs, rfl⟩ := exists_cons_of_ne_nil hsep
  have hprefix : (c :: cs).isPrefixOf (c :: (cs ++ rest)) = true :=
    isPrefixOf_iff_prefix.2 ⟨rest, rfl⟩
  rw [cons_append, cutChars?_cons, if_pos hprefix]
  simp

theorem cutChars?_append (h : c ∉ cs) :
    cutChars? (c :: sep) (cs ++ rest) =
      (cutChars? (c :: sep) rest).map fun (before, after) => (cs ++ before, after) := by
  induction cs with
  | nil => cases h : cutChars? (c :: sep) rest <;> simp [h]
  | cons x xs ih =>
    rw [mem_cons, not_or] at h
    have hx : ¬ (c :: sep).isPrefixOf (x :: (xs ++ rest)) = true := by simp [h.1]
    rw [cons_append, cutChars?_cons, if_neg hx, ih h.2]
    cases cutChars? (c :: sep) rest <;> rfl

/-- Both parts of a text that is cut, and that the separator does not stand any earlier. -/
theorem of_cutChars? (h : cutChars? sep cs = some (before, after)) :
    cs = before ++ sep ++ after ∧
      ∀ x rest, x :: rest <:+ before → ¬ sep <+: x :: rest ++ sep ++ after := by
  induction cs generalizing before with
  | nil =>
    cases sep with
    | nil => cases h; simp
    | cons => cases h
  | cons y cs ih =>
    rw [cutChars?_cons] at h
    split at h
    · rename_i hprefix
      obtain ⟨tail, htail⟩ := isPrefixOf_iff_prefix.1 hprefix
      cases h
      simp [← htail]
    · rename_i hprefix
      obtain ⟨⟨front, after'⟩, hcut, heq⟩ := Option.map_eq_some_iff.1 h
      cases heq
      obtain ⟨rfl, hfirst⟩ := ih hcut
      refine ⟨rfl, fun x rest hsuffix => ?_⟩
      rcases suffix_cons_iff.1 hsuffix with heq | hshort
      · cases heq
        rwa [List.isPrefixOf_iff_prefix] at hprefix
      · exact hfirst x rest hshort

theorem cutChars?_of_first (hsep : sep ≠ [])
    (h : ∀ x rest, x :: rest <:+ before → ¬ sep <+: x :: rest ++ sep ++ after) :
    cutChars? sep (before ++ sep ++ after) = some (before, after) := by
  induction before with
  | nil => exact cutChars?_self hsep after
  | cons x rest ih =>
    have hx : ¬ sep.isPrefixOf (x :: (rest ++ sep ++ after)) = true := by
      rw [List.isPrefixOf_iff_prefix]
      exact h x rest (suffix_refl _)
    rw [cons_append, cons_append, cutChars?_cons, if_neg hx,
      ih fun y more hmore => h y more (suffix_cons_iff.2 (.inr hmore))]
    rfl

theorem splitFrom_ne_nil (sep : List Char) (skip : Nat) (piece cs : List Char) :
    splitFrom sep skip piece cs ≠ [] := by
  fun_induction splitFrom sep skip piece cs with
  | case1 => exact cons_ne_nil _ _
  | case2 _ _ _ _ ih => exact ih
  | case3 => exact cons_ne_nil _ _
  | case4 _ _ _ _ ih => exact ih

theorem splitFrom_cons : splitFrom sep 0 piece (c :: cs) =
    if sep.isPrefixOf (c :: cs) then piece.reverse :: splitFrom sep (sep.length - 1) [] cs
    else splitFrom sep 0 (c :: piece) cs := rfl

theorem splitFrom_skip (xs : List Char) :
    splitFrom sep xs.length piece (xs ++ rest) = splitFrom sep 0 piece rest := by
  induction xs with
  | nil => rfl
  | cons x xs ih => exact ih

theorem splitFrom_of_none (h : cutChars? sep cs = none) :
    splitFrom sep 0 piece cs = [piece.reverse ++ cs] := by
  induction cs generalizing piece with
  | nil => exact congrArg (fun text => [text]) (append_nil _).symm
  | cons x rest ih =>
    rw [cutChars?_cons] at h
    split at h
    · cases h
    · rename_i hprefix
      rw [splitFrom_cons, if_neg hprefix, ih (Option.map_eq_none_iff.1 h)]
      simp

theorem splitFrom_of_some (hsep : sep ≠ []) (h : cutChars? sep cs = some (before, after)) :
    splitFrom sep 0 piece cs = (piece.reverse ++ before) :: splitFrom sep 0 [] after := by
  induction cs generalizing piece before with
  | nil => simp [cutChars?_nil, hsep] at h
  | cons x xs ih =>
    rw [cutChars?_cons] at h
    split at h
    · rename_i hprefix
      obtain ⟨tail, htail⟩ := isPrefixOf_iff_prefix.1 hprefix
      obtain ⟨y, ys, rfl⟩ := exists_cons_of_ne_nil hsep
      obtain ⟨rfl, rfl⟩ : y = x ∧ ys ++ tail = xs := by simpa using htail
      cases h
      rw [splitFrom_cons, if_pos hprefix, length_cons, Nat.add_sub_cancel, splitFrom_skip]
      simp
    · rename_i hprefix
      obtain ⟨⟨found, after'⟩, hfound, heq⟩ := Option.map_eq_some_iff.1 h
      cases heq
      rw [splitFrom_cons, if_neg hprefix, ih hfound]
      simp

end

/-! ### Texts -/

section

variable {sep s a b part old new : String}

theorem contains_iff_infix : contains s part = true ↔ part.toList <:+: s.toList :=
  isSome_cutChars?

theorem contains_eq_false_iff : contains s part = false ↔ ¬ part.toList <:+: s.toList := by
  rw [← contains_iff_infix, Bool.not_eq_true]

theorem contains_append (a part b : String) : contains (a ++ part ++ b) part = true :=
  contains_iff_infix.2 ⟨a.toList, b.toList, by simp [String.toList_append]⟩

theorem cut?_eq_none_iff : cut? sep s = none ↔ contains s sep = false := by
  rw [cut?, Option.map_eq_none_iff, cutChars?_eq_none_iff, contains_eq_false_iff]

theorem cutChars?_of_cut? (h : cut? sep s = some (a, b)) :
    cutChars? sep.toList s.toList = some (a.toList, b.toList) := by
  obtain ⟨⟨before, after⟩, hcut, heq⟩ := Option.map_eq_some_iff.1 h
  cases heq
  simpa using hcut

theorem eq_of_cut? (h : cut? sep s = some (a, b)) : s = a ++ sep ++ b := by
  rw [← String.toList_inj, (of_cutChars? (cutChars?_of_cut? h)).1]
  simp

theorem contains_of_cut? (hsep : sep ≠ "") (h : cut? sep s = some (a, b)) :
    contains a sep = false := by
  rw [contains_eq_false_iff]
  rintro ⟨front, back, hinfix⟩
  obtain ⟨c, rest, hc⟩ := exists_cons_of_ne_nil (show sep.toList ≠ [] by simpa using hsep)
  refine (of_cutChars? (cutChars?_of_cut? h)).2 c (rest ++ back) ⟨front, ?_⟩ ?_
  · simpa [hc] using hinfix
  · exact ⟨back ++ sep.toList ++ b.toList, by simp [hc]⟩

theorem cut?_self (sep : String) (hsep : sep ≠ "") (rest : String) :
    cut? sep (sep ++ rest) = some ("", rest) := by
  rw [cut?, String.toList_append, cutChars?_self (by simpa using hsep)]
  simp

theorem join_cons_cons (sep word next : String) (rest : List String) :
    join sep (word :: next :: rest) = word ++ sep ++ join sep (next :: rest) :=
  String.intercalate_cons_cons

theorem join_singleton (sep word : String) : join sep [word] = word :=
  String.intercalate_singleton

theorem join_cons (sep word : String) {rest : List String} (h : rest ≠ []) :
    join sep (word :: rest) = word ++ sep ++ join sep rest := by
  obtain ⟨next, more, rfl⟩ := exists_cons_of_ne_nil h
  exact join_cons_cons sep word next more

theorem split_ne_nil (sep s : String) : split sep s ≠ [] := by
  simpa [split] using splitFrom_ne_nil _ _ _ _

theorem split_of_cut?_none (h : cut? sep s = none) : split sep s = [s] := by
  rw [cut?, Option.map_eq_none_iff] at h
  simp [split, splitFrom_of_none h]

theorem split_of_cut? (hsep : sep ≠ "") (h : cut? sep s = some (a, b)) :
    split sep s = a :: split sep b := by
  rw [split, splitFrom_of_some (by simpa using hsep) (cutChars?_of_cut? h)]
  simp [split]

theorem replace_of_contains_eq_false (new : String) (hold : old ≠ "")
    (h : contains s old = false) : replace old new s = s := by
  rw [replace, String.isEmpty_eq_false_iff.2 hold, if_neg Bool.false_ne_true,
    split_of_cut?_none (cut?_eq_none_iff.2 h), join_singleton]

theorem replace_empty (hold : old ≠ "") (new : String) : replace old new "" = "" :=
  replace_of_contains_eq_false new hold (contains_eq_false_iff.2 (by simpa using hold))

theorem replace_of_cut? (new : String) (hold : old ≠ "") (h : cut? old s = some (a, b)) :
    replace old new s = a ++ new ++ replace old new b := by
  simp only [replace, String.isEmpty_eq_false_iff.2 hold, Bool.false_eq_true, if_false]
  rw [split_of_cut? hold h, join_cons _ _ (split_ne_nil _ _)]

/-- What holds of texts that cannot be cut, and of a text if it holds of what stands behind its cut,
holds of all. -/
theorem cut_induction {P : String → Prop} (hsep : sep ≠ "") (whole : ∀ s, cut? sep s = none → P s)
    (cut : ∀ s a b, cut? sep s = some (a, b) → P b → P s) (s : String) : P s := by
  cases hcut : cut? sep s with
  | none => exact whole s hcut
  | some parts => exact cut s parts.1 parts.2 hcut (cut_induction hsep whole cut parts.2)
termination_by s.length
decreasing_by
  have hpos : 0 < sep.length := Nat.pos_of_ne_zero (by simpa using hsep)
  rw [eq_of_cut? hcut, String.length_append, String.length_append]
  omega

theorem join_split (sep : String) (hsep : sep ≠ "") (s : String) : join sep (split sep s) = s := by
  induction s using cut_induction hsep with
  | whole s h => rw [split_of_cut?_none h, join_singleton]
  | cut s a b h ih =>
    rw [split_of_cut? hsep h, join_cons _ _ (split_ne_nil _ _), ih, ← eq_of_cut? h]

theorem replace_self (hold : old ≠ "") (s : String) : replace old old s = s := by
  rw [replace, String.isEmpty_eq_false_iff.2 hold, if_neg Bool.false_ne_true, join_split old hold]

end

/-! ### The first character of a separator -/

section

variable {c : Char} {rest : List Char} {s a : String} (sep : String) (hsep : sep.toList = c :: rest)

include hsep

theorem contains_eq_false (h : c ∉ s.toList) : contains s sep = false :=
  contains_eq_false_iff.2 fun hin => h (hin.subset (by simp [hsep]))

theorem contains_append_right (h : c ∉ a.toList) (b : String) :
    contains (a ++ b) sep = contains b sep := by
  rw [contains, contains, String.toList_append, hsep, cutChars?_append h, Option.isSome_map]

theorem cut?_eq_none (h : c ∉ s.toList) : cut? sep s = none :=
  cut?_eq_none_iff.2 (contains_eq_false sep hsep h)

theorem split_of_not_mem (h : c ∉ s.toList) : split sep s = [s] :=
  split_of_cut?_none (cut?_eq_none sep hsep h)

theorem cut?_append (h : c ∉ a.toList) (b : String) : cut? sep (a ++ sep ++ b) = some (a, b) := by
  rw [cut?, String.toList_append, String.toList_append, hsep, append_assoc,
    cutChars?_append h, cutChars?_self (cons_ne_nil _ _)]
  simp

theorem split_append (h : c ∉ a.toList) (b : String) :
    split sep (a ++ sep ++ b) = a :: split sep b :=
  split_of_cut? (fun hempty => by simp [hempty] at hsep) (cut?_append sep hsep h b)

end

/-! ### Cutting at a character -/

section

variable {c : Char} {s a b : String} {sep : String}

theorem contains_iff_mem (hsep : sep.toList = [c]) : contains s sep = true ↔ c ∈ s.toList := by
  rw [Text.contains_iff_infix, hsep, mem_iff_append]
  simp [IsInfix, eq_comm]

theorem toList_of_cut? (sep : String) (hsep : sep.toList = [c]) (h : cut? sep s = some (a, b)) :
    s.toList = a.toList ++ c :: b.toList := by
  simp [eq_of_cut? h, hsep]

theorem not_mem_of_cut? (hsep : sep.toList = [c]) (h : cut? sep s = some (a, b)) :
    c ∉ a.toList := by
  have hne : sep ≠ "" := fun hempty => by simp [hempty] at hsep
  rw [← contains_iff_mem hsep, contains_of_cut? hne h]
  exact Bool.false_ne_true

end

end Colloquy.Text
