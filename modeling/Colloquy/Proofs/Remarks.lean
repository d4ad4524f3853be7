import Colloquy.Library
import Colloquy.Proofs.Session

/-! Remarks and blank lines, and the title behind them that tells a script from other texts. -/

namespace Colloquy

open Session Text

/-- A blank line, or one that has `#` as its first character that is no blank. -/
def IsRemark (line : String) : Prop :=
  ∀ mark ∈ (line.toList.dropWhile isBlank).head?, mark = '#'

theorem head?_trim (line : String) :
    (trim line).toList.head? = (line.toList.dropWhile isBlank).head? := by
  have hfirst := List.head?_dropWhile_not isBlank line.toList
  rw [trim, dropStart, dropEnd, String.toList_ofList]
  cases hrest : line.toList.dropWhile isBlank with
  | nil => rfl
  | cons x rest =>
    -- The first character is no blank, so nothing is dropped beyond it from the end.
    simp only [hrest, List.head?_cons] at hfirst
    rw [List.reverse_cons, List.dropWhile_append]
    split <;> simp [hfirst]

theorem isRemark_iff (line : String) :
    IsRemark line ↔ ((trim line).isEmpty || startsWith (trim line) "#") = true := by
  rw [IsRemark, ← head?_trim, Bool.or_eq_true, String.isEmpty_iff, ← String.toList_eq_nil_iff,
    startsWith]
  change _ ↔ _ ∨ ['#'].isPrefixOf _ = true
  cases (trim line).toList with
  | nil => simp
  | cons x rest => simp [@eq_comm _ '#' x]

instance (line : String) : Decidable (IsRemark line) :=
  decidable_of_iff _ (isRemark_iff line).symm

namespace Library

/-- Some line starts with the title, and only remarks and blank lines come before the first one that
does. -/
def Titled (lines : List String) : Prop :=
  ∃ before title after, lines = before ++ title :: after ∧ startsWith title "Script: " = true ∧
    ∀ line ∈ before, startsWith line "Script: " = false ∧ IsRemark line

theorem titled_cons (line : String) (rest : List String) :
    Titled (line :: rest) ↔
      startsWith line "Script: " = true ∨ IsRemark line ∧ Titled rest := by
  cases htitle : startsWith line "Script: " with
  | true => exact iff_of_true ⟨[], line, rest, rfl, htitle, by simp⟩ (.inl rfl)
  | false =>
    constructor
    · rintro ⟨_ | ⟨first, before⟩, title, after, hlines, hfound, hbefore⟩
      · cases hlines
        simp [htitle] at hfound
      · cases hlines
        rw [List.forall_mem_cons] at hbefore
        exact .inr ⟨hbefore.1.2, before, title, after, rfl, hfound, hbefore.2⟩
    · rintro (h | ⟨hremark, before, title, after, rfl, hfound, hbefore⟩)
      · cases h
      · exact ⟨line :: before, title, after, rfl, hfound,
          List.forall_mem_cons.2 ⟨⟨htitle, hremark⟩, hbefore⟩⟩

theorem hasTitle_iff (lines : List String) : hasTitle lines = true ↔ Titled lines := by
  induction lines with
  | nil => simp [hasTitle, Titled]
  | cons line rest ih =>
    rw [hasTitle, titled_cons, isRemark_iff, ← ih]
    split <;> simp [*]

/-- A text is told to be a script exactly if it has a title. -/
theorem check_text_iff {s : Session} {name text : String}
    (htext : (s.files.resolve s.root ["cwd"] (joinPath (s.path scriptFolder) name) >>=
      s.files.readTarget) = .ok text) :
    ∃ found, check (.str name) false s = .ok found s ∧
      (found = true ↔ Titled (Files.lines text)) := by
  refine ⟨hasTitle (Files.lines text), ?_, hasTitle_iff _⟩
  obtain ⟨target, htarget, hread⟩ := except_bind_ok_iff.1 htext
  simp [check, isScriptText, scriptPath, resolve, Value.needle, bind_apply, htarget, hread,
    -bind_pure_comp]

def shelf : Session :=
  { root := "/r"
    files := { files := [(["script_txt", "demo.nct"], "\n  # a remark\nScript: demo\nExit\n")],
               folders := [["script_txt"]] } }

theorem shelf_demo_titled :
    ∃ found, check (.str "demo.nct") false shelf = .ok found shelf ∧ (found = true ↔
      Titled (Files.lines "\n  # a remark\nScript: demo\nExit\n")) :=
  check_text_iff rfl

end Library

end Colloquy
