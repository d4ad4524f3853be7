import Colloquy.Text.Blank
import Colloquy.Text.Case

/-! Lower case.  Apart from two letters, each character becomes one character, whatever stands
around it. -/

namespace Colloquy.Text

open List

variable {c : Char} {cs rest before : List Char} {s : String}

/-! ### Characters -/

theorem of_span {p : Char → Bool} (first size : Nat)
    (hp : (range size).all (fun k => p (Char.ofNat (first + k))) = true)
    (hfirst : first ≤ c.toNat) (hlast : c.toNat < first + size) : p c = true := by
  have hc := all_eq_true.1 hp (c.toNat - first) (mem_range.2 (by omega))
  have hsum : first + (c.toNat - first) = c.toNat := by omega
  rwa [hsum, Char.ofNat_toNat] at hc

theorem toNat_ofNat (n : Nat) : (Char.ofNat n).toNat = n ∨ (Char.ofNat n).toNat = 0 := by
  by_cases hvalid : n.isValidChar
  · rw [Char.ofNat, dif_pos hvalid]
    exact .inl rfl
  · rw [Char.ofNat, dif_neg hvalid]
    exact .inr rfl

/-- A code point that no run of capitals leads to is the small letter of itself alone. -/
theorem lowerChar_eq_self (hc : 0x80 ≤ c.toNat) (hpos : 0 < (lowerChar c).toNat)
    (hruns : ∀ run ∈ caseRuns, run.last < 0x80 ∨
      (run.last : Int) + run.shift < (lowerChar c).toNat ∨
      ((lowerChar c).toNat : Int) < run.first + run.shift) : lowerChar c = c := by
  rw [lowerChar, if_neg (Nat.not_lt.2 hc)] at hpos hruns ⊢
  dsimp only at hpos hruns ⊢
  split
  · rename_i run hrun
    simp only [hrun] at hpos hruns
    have hcovers := find?_some hrun
    simp only [Bool.and_eq_true, decide_eq_true_eq] at hcovers
    have hrun' := hruns run (mem_of_find?_eq_some hrun)
    rcases toNat_ofNat (c.toNat + run.shift).toNat with hnat | hnat <;> omega
  · rfl

/-- The code points of blanks, from the first to the last of each row. -/
def blankRows : List (Nat × Nat) :=
  [(9, 13), (28, 32), (0x85, 0x85), (0xA0, 0xA0), (0x1680, 0x1680), (0x2000, 0x200A),
    (0x2028, 0x2029), (0x202F, 0x202F), (0x205F, 0x205F), (0x3000, 0x3000)]

theorem exists_row_of_isBlank (h : isBlank c = true) :
    ∃ row ∈ blankRows, row.1 ≤ c.toNat ∧ c.toNat ≤ row.2 := by
  simp only [isBlank, Bool.or_eq_true, Bool.and_eq_true, decide_eq_true_eq, beq_iff_eq] at h
  simp only [blankRows, mem_cons, not_mem_nil, or_false, exists_eq_or_imp, exists_eq_left]
  omega

theorem caseRuns_apart : ∀ run ∈ caseRuns, ∀ row ∈ blankRows,
    (run.last : Int) + run.shift < row.1 ∨ (row.2 : Int) < run.first + run.shift := by
  decide +kernel

theorem isBlank_lowerChar (h : isBlank c = false) : isBlank (lowerChar c) = false := by
  by_cases hlt : c.toNat < 0x80
  · have hspan := of_span 0 0x80 (p := fun c => isBlank c || !isBlank c.toLower)
      (by decide) (Nat.zero_le _) (by omega)
    rw [lowerChar, if_pos hlt]
    simpa [h] using hspan
  · refine Bool.eq_false_iff.2 fun hblank => ?_
    obtain ⟨row, hrow, hfirst, hlast⟩ := exists_row_of_isBlank hblank
    have hpos : ∀ row ∈ blankRows, 0 < row.1 := by decide
    have hrow' := hpos row hrow
    have hsame : lowerChar c = c := by
      refine lowerChar_eq_self (Nat.not_lt.1 hlt) (by omega) fun run hrun => ?_
      have hapart := caseRuns_apart run hrun row hrow
      omega
    simp [hsame, h] at hblank

/-! ### Texts -/

theorem solid_of_all (h : (cs.all fun c => !isBlank c) = true) :
    ∀ c ∈ cs, isBlank c = false := by
  simpa using h

/-- The characters that become one character each, whatever stands around them: all but two. -/
def isSteady (c : Char) : Bool :=
  c != 'Σ' && c != 'İ'

theorem lowerAfter_cons (before : List Char) (c : Char) (rest : List Char) :
    ∃ small, lowerAfter before (c :: rest) = small ++ lowerAfter (c :: before) rest ∧
      (small = [lowerChar c] ∨ c = 'Σ' ∧ small = ['ς'] ∨
        c = 'İ' ∧ small = ['i', Char.ofNat 0x307]) := by
  rw [lowerAfter]
  refine ⟨_, rfl, ?_⟩
  split
  · rename_i hc
    obtain rfl : c = 'Σ' := by simpa using hc
    split
    · exact .inr (.inl ⟨rfl, rfl⟩)
    · exact .inl (by decide)
  · split
    · rename_i hc
      exact .inr (.inr ⟨by simpa using hc, rfl⟩)
    · exact .inl rfl

theorem lowerAfter_append_map (h : cs.all isSteady = true) :
    lowerAfter before (cs ++ rest) =
      cs.map lowerChar ++ lowerAfter (cs.reverse ++ before) rest := by
  induction cs generalizing before with
  | nil => rfl
  | cons x xs ih =>
    simp only [all_cons, isSteady, Bool.and_eq_true, bne_iff_ne] at h
    obtain ⟨⟨hsigma, hdotted⟩, hrest⟩ := h
    rw [cons_append, lowerAfter, ih hrest]
    simp [hsigma, hdotted]

theorem lowerAfter_append_solid (before rest : List Char) (h : ∀ c ∈ cs, isBlank c = false) :
    ∃ small, (∀ c ∈ small, isBlank c = false) ∧
      lowerAfter before (cs ++ rest) = small ++ lowerAfter (cs.reverse ++ before) rest := by
  induction cs generalizing before with
  | nil => exact ⟨[], by simp, rfl⟩
  | cons x xs ih =>
    obtain ⟨hx, hxs⟩ := forall_mem_cons.1 h
    obtain ⟨small, hsmall, hlower⟩ := ih (x :: before) hxs
    obtain ⟨first, hstep, hcases⟩ := lowerAfter_cons before x (xs ++ rest)
    have hfirst : ∀ c ∈ first, isBlank c = false := by
      rcases hcases with rfl | ⟨rfl, rfl⟩ | ⟨rfl, rfl⟩
      · simpa using isBlank_lowerChar hx
      · exact solid_of_all (by decide)
      · exact solid_of_all (by decide)
    refine ⟨first ++ small, forall_mem_append.2 ⟨hfirst, hsmall⟩, ?_⟩
    rw [cons_append, hstep, hlower, append_assoc]
    simp

/-- Of characters without blanks that others stand between and behind, the others are in lower case
each by itself. -/
theorem lowerAfter_between (before : List Char) {left middle right last : List Char}
    (hleft : ∀ c ∈ left, isBlank c = false) (hright : ∀ c ∈ right, isBlank c = false)
    (hmiddle : middle.all isSteady = true) (hlast : last.all isSteady = true) :
    ∃ left' right', (∀ c ∈ left', isBlank c = false) ∧ (∀ c ∈ right', isBlank c = false) ∧
      lowerAfter before (left ++ (middle ++ (right ++ last))) =
        left' ++ (middle.map lowerChar ++ (right' ++ last.map lowerChar)) := by
  obtain ⟨left', hleft', hlower⟩ :=
    lowerAfter_append_solid before (middle ++ (right ++ last)) hleft
  obtain ⟨right', hright', hlower'⟩ :=
    lowerAfter_append_solid (middle.reverse ++ (left.reverse ++ before)) last hright
  have hend (before : List Char) : lowerAfter before (last ++ []) =
      last.map lowerChar ++ lowerAfter (last.reverse ++ before) [] := lowerAfter_append_map hlast
  refine ⟨left', right', hleft', hright', ?_⟩
  rw [append_nil] at hend
  rw [hlower, lowerAfter_append_map hmiddle, hlower', hend, lowerAfter, append_nil]

/-! ### Small letters -/

/-- Whether a character is the same in lower case, wherever it stands. -/
def isSmall (c : Char) : Bool :=
  c != 'Σ' && c != 'İ' && lowerChar c == c

theorem lowerAfter_of_small (h : ∀ c ∈ cs, isSmall c = true) : lowerAfter before cs = cs := by
  induction cs generalizing before with
  | nil => rfl
  | cons x xs ih =>
    have hx := h x mem_cons_self
    simp only [isSmall, Bool.and_eq_true, bne_iff_ne, beq_iff_eq] at hx
    rw [lowerAfter, ih (forall_mem_cons.1 h).2]
    simp [hx]

theorem lower_of_small (h : ∀ c ∈ s.toList, isSmall c = true) : lower s = s := by
  rw [lower, lowerAfter_of_small h, String.ofList_toList]

end Colloquy.Text
