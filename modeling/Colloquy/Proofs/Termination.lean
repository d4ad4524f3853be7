import Colloquy.Proofs.Execution
import Mathlib.Algebra.GroupWithZero.Nat

/-! Scripts without jumps come to an end.  Each script on the stack of a user counts for its lines
from its place on and for one more, which is for leaving it.  A line after which the script goes on
lowers the sum, so the sum bounds how many lines are run. -/

namespace Colloquy

open Session Value Command Conversation List

variable {command indent line parent user : Value} {c : Conversation} {r : Remit} {s t : Session}

/-! ### The work that is left -/

def Conversation.linesAhead (c : Conversation) : Nat :=
  match c.lines.size, c.index with
  | .ok size, .int n => (size - n).toNat
  | _, _ => 0

def Entry.work : Entry → Nat
  | .conversation c => 1 + c.linesAhead
  | .foreign _ => 1

def Session.workLeft (s : Session) (user : Value) : Nat :=
  ((s.stackOf user).map Entry.work).sum

/-- A conversation without jumps, at a place that is a natural number.  A line that stands one deeper
than a case around it must be deeper than that case, which fails only for fractional numbers so large
that adding one does not change them. -/
structure Conversation.JumpFree (c : Conversation) : Prop where
  index : ∃ n : Nat, c.index = .int n
  command : ∀ (n : Nat) (line command : Value), c.lines.item (.int n) = .ok line →
    line.item "command" = .ok command → ∀ k : Keyword, k.jumps = true → command.same k.name = false
  outdent : ∀ (n : Nat) (line indent : Value) (parents : List Value),
    c.lines.item (.int n) = .ok line → line.item "indent" = .ok indent →
    (line.item "parent_case_indents" >>= Value.elements) = .ok parents →
    ∀ parent ∈ parents, ∀ option, parent.addInt 1 = .ok option → indent.same option = true →
    indent.compare .greater parent = .ok true

def Entry.JumpFree : Entry → Prop
  | .conversation c => c.JumpFree
  | .foreign _ => False

def Session.JumpFree (s : Session) (user : Value) : Prop :=
  ∀ e ∈ s.stackOf user, e.JumpFree

def Ready (stack : List Entry) : Prop :=
  ∃ c rest, stack = .conversation c :: rest ∧ 0 < c.linesAhead

section

variable {c c' : Conversation}

theorem Conversation.linesAhead_congr (hlines : c'.lines = c.lines) (hindex : c'.index = c.index) :
    c'.linesAhead = c.linesAhead := by
  rw [linesAhead, linesAhead, hlines, hindex]

theorem Conversation.JumpFree.of_lines (h : c.JumpFree) (hlines : c'.lines = c.lines)
    (hindex : ∃ n : Nat, c'.index = .int n) : c'.JumpFree :=
  ⟨hindex, hlines ▸ h.command, hlines ▸ h.outdent⟩

theorem Entry.work_changedBy (changes : List Value.Change) (e : Entry) :
    (e.changedBy changes).work = e.work := by
  cases e with
  | foreign v => simp
  | conversation c => simp [Entry.work, changedBy_eq, linesAhead]

theorem Entry.JumpFree.changedBy (changes : List Value.Change) {e : Entry} (h : e.JumpFree) :
    (e.changedBy changes).JumpFree := by
  cases e with
  | foreign v => exact h.elim
  | conversation c =>
    rw [Entry.changedBy_conversation, changedBy_eq]
    exact JumpFree.of_lines h rfl h.index

theorem sum_work_changedBy (changes : List Value.Change) (stack : List Entry) :
    ((stack.map (Entry.changedBy changes)).map Entry.work).sum = (stack.map Entry.work).sum := by
  rw [map_map]
  exact congrArg sum (map_congr_left fun e _ => Entry.work_changedBy changes e)

end

/-! ### Lines that can be checked -/

theorem Number.scale_pos (num : Nat) (exponent : Int) : 0 < (scale num 1 exponent).2 := by
  unfold scale
  split
  · exact Nat.one_pos
  · exact Nat.mul_pos Nat.one_pos (Nat.pow_pos Nat.two_pos)

theorem Number.ratio?_pos {x : Float} {num : Int} {den : Nat} (h : ratio? x = some (num, den)) :
    0 < den := by
  unfold ratio? at h
  split at h
  · obtain ⟨-, rfl⟩ := Prod.mk.inj (Option.some.inj h)
    exact scale_pos _ _
  · cases h

namespace Value

theorem Worth.compare?_succ {a : Worth} {m : Int} (h : a.compare? (.exact (m + 1)) = some .eq) :
    a.compare? (.exact m) = some .gt := by
  have heq {n k : Int} (h : Ord.compare n k = .eq) : n = k := Std.compare_eq_iff_eq.1 h
  have hgt {n k : Int} (h : k < n) : Ord.compare n k = .gt := Std.compare_eq_gt.2 h
  cases a with
  | exact n =>
    have hn := heq (Option.some.inj h)
    exact congrArg some (hgt (by omega))
  | approximate x =>
    simp only [Worth.compare?] at h ⊢
    split at h
    · rename_i negative _
      cases negative <;> cases h
    · rename_i num den hratio hparts
      have hn := heq (Option.some.inj h)
      have hpos := Number.ratio?_pos hratio
      refine congrArg some (hgt ?_)
      rw [hn, Int.add_mul]
      omega
    · cases h

theorem greater_of_same_succ {option : Value} {m : Int} (hparent : parent.asInt? = some m)
    (hoption : parent.addInt 1 = .ok option) (hsame : indent.same option = true) :
    indent.compare .greater parent = .ok true := by
  obtain ⟨hworth, rfl⟩ : parent.worth? = some (.exact m) ∧ option = .int (m + 1) := by
    cases parent <;> simp_all [asInt?, addInt, worth?]
  have hdeeper {a : Worth} (ha : indent.worth? = some a)
      (heq : a.compare? (.exact (m + 1)) = some .eq) :
      indent.compare .greater parent = .ok true := by
    have hgt := Worth.compare?_succ heq
    cases indent <;> cases parent <;>
      simp_all [compare, worth?, asInt?, Comparison.accepts]
  cases indent with
  | int _ | bool _ | float _ =>
    refine hdeeper rfl ?_
    simpa [same, sameLeaf, worth?] using hsame
  | null | str _ => simp [same, sameLeaf, worth?] at hsame
  | list _ _ | tuple _ | table _ | set _ | record _ => simp [same] at hsame

end Value

def Value.keepsPlace (line : Value) : Bool :=
  match line.item "command" with
  | .ok command => (Keyword.all.filter Keyword.jumps).all fun k => !command.same k.name
  | .error _ => true

/-- Whether the cases around a line have whole numbers for indents. -/
def Value.hasWholeCases (line : Value) : Bool :=
  match line.item "parent_case_indents" >>= Value.elements with
  | .ok parents => parents.all fun parent => parent.asInt?.isSome
  | .error _ => true

theorem Value.same_jump_of_keepsPlace (h : line.keepsPlace = true)
    (hcommand : line.item "command" = .ok command) (k : Keyword) (hk : k.jumps = true) :
    command.same k.name = false := by
  rw [keepsPlace, hcommand] at h
  have hmem : k ∈ Keyword.all.filter Keyword.jumps :=
    mem_filter.2 ⟨by cases k <;> decide, hk⟩
  simpa using all_eq_true.1 h k hmem

theorem Conversation.JumpFree.of_items {items : List Value} {number : Option Nat}
    (hlines : c.lines = .list items number) (hindex : ∃ n : Nat, c.index = .int n)
    (hplace : ∀ line ∈ items, line.keepsPlace = true)
    (hwhole : ∀ line ∈ items, line.hasWholeCases = true) : c.JumpFree := by
  have hitem {n : Nat} {line : Value} (hline : c.lines.item (.int n) = .ok line) : line ∈ items := by
    rw [hlines] at hline
    exact mem_of_itemAt hline
  refine ⟨hindex, fun n line command hline hcommand => ?_, ?_⟩
  · exact same_jump_of_keepsPlace (hplace line (hitem hline)) hcommand
  · intro n line indent parents hline hindent hparents parent hmem option hoption hsame
    have hcases := hwhole line (hitem hline)
    rw [hasWholeCases, hparents] at hcases
    obtain ⟨m, hm⟩ := Option.isSome_iff_exists.1 (all_eq_true.1 hcases parent hmem)
    exact greater_of_same_succ hm hoption hsame

/-! ### Steps -/

/-- What a step without jumps does to the stack of the user. -/
inductive StackStep : Bool → List Entry → List Entry → Prop
  | changed (changes : List Value.Change) (stack : List Entry) :
      StackStep false stack (stack.map (Entry.changedBy changes))
  | ahead {moves : Bool} {c c' : Conversation} (changes : List Value.Change) (rest : List Entry)
      (hlines : c'.lines = c.lines) (hindex : Ahead moves c.index c'.index) :
      StackStep moves (.conversation c :: rest)
        (.conversation c' :: rest.map (Entry.changedBy changes))
  | pop (e : Entry) (rest : List Entry) : StackStep true (e :: rest) rest
  | drop {moves : Bool} {stack : List Entry} (hmoves : moves = true → stack ≠ []) :
      StackStep moves stack []

theorem StackStep.same (stack : List Entry) : StackStep false stack stack := by
  have h := StackStep.changed [] stack
  rwa [show stack.map (Entry.changedBy []) = stack from map_id stack] at h

theorem Step.stackStep {moves : Bool} (hstep : Step r moves s t) (hjumps : ¬ r.jumps) :
    StackStep moves (s.stackOf r.user) (t.stackOf r.user) := by
  cases hstep with
  | quiet hactive =>
    rw [stackOf, stackOf, hactive]
    exact .same _
  | await | release => exact .same _
  | edit _ hm hstack hrevision =>
    rw [stackOf_kept_self _ hm hstack, stackOf_eq hm, hstack]
    exact .ahead _ _ (hrevision.lines hjumps) (hrevision.index hjumps)
  | @answer _ user m c rest _ _ hm hstack =>
    obtain hnew | ⟨hold, hnew⟩ := stackOf_kept_cases
      { conversation := { c with lastRequest := "" } } hm hstack r.user
    · rw [hnew]
      exact .changed _ _
    · rw [hold, hnew]
      exact .ahead _ _ rfl (Ahead.refl _)
  | share =>
    rw [stackOf_withChanges]
    exact .changed _ _
  | push h => exact absurd h hjumps
  | pop _ hm hstack =>
    rw [stackOf_replaced_self hm, stackOf_eq hm, hstack]
    exact .pop _ _
  | publish scope hm =>
    rw [stackOf_replaced_self hm, stackOf_eq hm]
    exact .same _
  | drop _ hmoves =>
    refine (congrArg (StackStep moves _) ?_).mpr (.drop hmoves)
    simp [stackOf, managerIn_filter_self]

namespace StackStep

variable {moves : Bool} {stack stack' : List Entry}

theorem jumpFree (h : StackStep moves stack stack') (hfree : ∀ e ∈ stack, e.JumpFree) :
    ∀ e ∈ stack', e.JumpFree := by
  have hchanged {changes : List Value.Change} {rest : List Entry} (hrest : ∀ e ∈ rest, e.JumpFree) :
      ∀ e ∈ rest.map (Entry.changedBy changes), e.JumpFree := by
    intro e he
    obtain ⟨e', he', rfl⟩ := mem_map.1 he
    exact (hrest e' he').changedBy changes
  cases h with
  | changed changes => exact hchanged hfree
  | ahead changes rest hlines hindex =>
    obtain ⟨hc, hrest⟩ := forall_mem_cons.1 hfree
    obtain ⟨n, hn⟩ := hc.index
    obtain ⟨k, hk, -⟩ := hindex n hn
    refine forall_mem_cons.2 ⟨hc.of_lines hlines ⟨n + k, ?_⟩, hchanged hrest⟩
    rw [hk]
    rfl
  | pop e => exact (forall_mem_cons.1 hfree).2
  | drop => simp

theorem linesAhead_of_ahead {c' : Conversation} (hlines : c'.lines = c.lines)
    (hindex : Ahead moves c.index c'.index) (hnat : ∃ n : Nat, c.index = .int n) :
    c'.linesAhead ≤ c.linesAhead ∧
      (0 < c.linesAhead → c'.linesAhead < c.linesAhead ∨
        c'.linesAhead = c.linesAhead ∧ moves = false) := by
  obtain ⟨n, hn⟩ := hnat
  obtain ⟨k, hk, hmoves⟩ := hindex n hn
  cases hsize : c.lines.size with
  | error fault => simp [linesAhead, hlines, hsize]
  | ok size =>
    have hbefore : c.linesAhead = ((size : Int) - n).toNat := by
      simp [linesAhead, hsize, hn]
    have hafter : c'.linesAhead = ((size : Int) - (n + k)).toNat := by
      simp [linesAhead, hlines, hsize, hk]
    refine ⟨by omega, fun hpos => ?_⟩
    by_cases hzero : k = 0
    · exact .inr ⟨by omega, by simpa [hzero] using hmoves⟩
    · exact .inl (by omega)

theorem work_le (h : StackStep moves stack stack') (hfree : ∀ e ∈ stack, e.JumpFree) :
    (stack'.map Entry.work).sum ≤ (stack.map Entry.work).sum := by
  cases h with
  | changed changes => exact Nat.le_of_eq (sum_work_changedBy changes stack)
  | ahead changes rest hlines hindex =>
    have hc := (forall_mem_cons.1 hfree).1
    have hle := (linesAhead_of_ahead hlines hindex hc.index).1
    simp only [map_cons, sum_cons, sum_work_changedBy, Entry.work]
    omega
  | pop e => simp
  | drop => simp

/-- A step from a script that has a line to run lowers the work, or it does not move and leaves the
script ready. -/
theorem work_lt (h : StackStep moves stack stack') (hfree : ∀ e ∈ stack, e.JumpFree)
    (hready : Ready stack) :
    (stack'.map Entry.work).sum < (stack.map Entry.work).sum ∨
      (stack'.map Entry.work).sum = (stack.map Entry.work).sum ∧ Ready stack' ∧ moves = false := by
  obtain ⟨c₀, rest₀, hstack, hpos⟩ := hready
  cases h with
  | changed changes =>
    refine .inr ⟨sum_work_changedBy changes stack, ?_, rfl⟩
    subst hstack
    refine ⟨c₀.changedBy changes, rest₀.map (Entry.changedBy changes), by simp, ?_⟩
    rwa [linesAhead_congr (c := c₀)] <;> simp [changedBy_eq]
  | ahead changes rest hlines hindex =>
    have hc := (forall_mem_cons.1 hfree).1
    obtain rfl := Entry.conversation.inj (List.cons.inj hstack).1
    simp only [map_cons, sum_cons, sum_work_changedBy, Entry.work]
    obtain hlt | ⟨heq, hmoves⟩ := (linesAhead_of_ahead hlines hindex hc.index).2 hpos
    · exact .inl (by omega)
    · exact .inr ⟨by omega, ⟨_, _, rfl, by omega⟩, hmoves⟩
  | pop e =>
    obtain ⟨rfl, -⟩ := List.cons.inj hstack
    simp only [map_cons, sum_cons, Entry.work]
    omega
  | drop =>
    subst hstack
    simp only [map_cons, sum_cons, map_nil, sum_nil, Entry.work]
    omega

end StackStep

theorem Path.work_lt {moves : Bool} (hpath : Path r moves s t) (hjumps : ¬ r.jumps)
    (hfree : s.JumpFree r.user) :
    t.JumpFree r.user ∧ t.workLeft r.user ≤ s.workLeft r.user ∧
      (Ready (s.stackOf r.user) → moves = true → t.workLeft r.user < s.workLeft r.user) := by
  induction hpath with
  | refl s => exact ⟨hfree, Nat.le_refl _, fun _ h => absurd h (by simp)⟩
  | @step p q b s t u hstep _ hb ih =>
    have hstack := hstep.stackStep hjumps
    obtain ⟨hfree', hle, hlt⟩ := ih (hstack.jumpFree hfree)
    have hle' : t.workLeft r.user ≤ s.workLeft r.user := hstack.work_le hfree
    refine ⟨hfree', Nat.le_trans hle hle', fun hready hmoves => ?_⟩
    obtain hless | ⟨heq, hready', hstill⟩ := hstack.work_lt hfree hready
    · exact Nat.lt_of_le_of_lt hle hless
    · have hq : q = true := (hb hmoves).resolve_left (by simp [hstill])
      exact Nat.lt_of_lt_of_le (hlt hready' hq) hle'

/-! ### Lines -/

def Remit.ahead (user : Value) : Remit :=
  { user, lists := fun _ => True, spared := 0, hears := fun _ => True, jumps := False }

theorem Remit.ahead_owned (user : Value) (s : Session) : Owned (Remit.ahead user) s :=
  ⟨⟨fun _ _ => trivial, listsIn_all _, entriesIn_all _, entriesIn_all _⟩,
    fun _ _ => listsIn_all _⟩

theorem Confined.moves {α : Type} {m : Run α} {Q : α → Prop}
    (h : Confined (Remit.ahead user) True m true Q) {a : α} (hrun : m s = .ok a t) :
    Path (Remit.ahead user) true s t := by
  have hm := h s
  rw [hrun] at hm
  exact (hm.2 trivial (Remit.ahead_owned user s) (fun _ => trivial) (.inl rfl)).1

namespace Execution

theorem advance_ok (h : advance user s = .ok true t) :
    ∃ m c rest size, user.isKey = true ∧ managerIn s.active user = some m ∧
      m.stack = .conversation c :: rest ∧ c.lines.size = .ok size ∧
      c.index.compare .atLeast (.int size) = .ok false ∧ runNext c user s = .ok true t := by
  obtain ⟨c?, s₁, hcurrent, h₁⟩ := bind_ok_iff.1 h
  obtain ⟨awaits, s₂, hawaits, h₂⟩ := bind_ok_iff.1 h₁
  cases hawaits
  split at h₂
  · cases h₂
  cases c? with
  | none => cases h₂
  | some c =>
    obtain ⟨rfl, hkey, m, rest, hm, hstack⟩ := currentOf_ok hcurrent
    simp only at h₂
    split at h₂
    · cases h₂
    obtain ⟨size, s₃, hsize, h₃⟩ := bind_ok_iff.1 h₂
    obtain ⟨atEnd, s₄, hatEnd, h₄⟩ := bind_ok_iff.1 h₃
    rw [lift_ok_iff] at hsize hatEnd
    obtain ⟨hsize, rfl⟩ := hsize
    obtain ⟨hatEnd, rfl⟩ := hatEnd
    cases atEnd with
    | false => exact ⟨m, c, rest, size, hkey, hm, hstack, hsize, hatEnd, h₄⟩
    | true =>
      obtain ⟨_, _, -, h₅⟩ := bind_ok_iff.1 h₄
      obtain ⟨_, _, -, h₆⟩ := bind_ok_iff.1 h₅
      cases h₆

theorem outdent_ok {parents : List Value} (h : outdent indent parents = .ok (.otherOption parent)) :
    parent ∈ parents ∧ ∃ option, parent.addInt 1 = .ok option ∧ indent.same option = true := by
  induction parents with
  | nil => cases h
  | cons first outer ih =>
    obtain ⟨option, hoption, hrest⟩ := except_bind_ok_iff.1 h
    split at hrest
    · cases hrest
      exact ⟨mem_cons_self, option, hoption, ‹_›⟩
    · obtain ⟨deeper, -, hlast⟩ := except_bind_ok_iff.1 hrest
      split at hlast
      · cases hlast
      · obtain ⟨hmem, hparent⟩ := ih hlast
        exact ⟨mem_cons_of_mem _ hmem, hparent⟩

theorem runNext_ok {goes : Bool} (h : runNext c user s = .ok goes t) :
    ∃ line indent command text u, c.lines.item c.index = .ok line ∧
      line.item "indent" = .ok indent ∧ line.item "command" = .ok command ∧
      line.item "text" = .ok text ∧
      edit user (Edit.update fun c => { c with lastIndent := indent }) s = .ok () u ∧
      ((goes = true ∧ ∃ parents parent option,
          (line.item "parent_case_indents" >>= elements) = .ok parents ∧
          parent ∈ parents ∧ parent.addInt 1 = .ok option ∧ indent.same option = true ∧
          leaveCase user parent u = .ok () t) ∨
        runLine c user line command text u = .ok goes t) := by
  obtain ⟨line, s₁, hline, h₁⟩ := bind_ok_iff.1 h
  obtain ⟨indent, s₂, hindent, h₂⟩ := bind_ok_iff.1 h₁
  obtain ⟨_, u, hedit, h₃⟩ := bind_ok_iff.1 h₂
  obtain ⟨command, s₃, hcommand, h₄⟩ := bind_ok_iff.1 h₃
  obtain ⟨text, s₄, htext, h₅⟩ := bind_ok_iff.1 h₄
  obtain ⟨outside, s₅, houtside, h₆⟩ := bind_ok_iff.1 h₅
  rw [lift_ok_iff] at hline hindent hcommand htext houtside
  obtain ⟨hline, rfl⟩ := hline
  obtain ⟨hindent, rfl⟩ := hindent
  obtain ⟨hcommand, rfl⟩ := hcommand
  obtain ⟨htext, rfl⟩ := htext
  obtain ⟨-, rfl⟩ := houtside
  refine ⟨line, indent, command, text, _, hline, hindent, hcommand, htext, hedit, ?_⟩
  cases outside with
  | false => exact .inr h₆
  | true =>
    obtain ⟨value, s₆, hvalue, h₇⟩ := bind_ok_iff.1 h₆
    obtain ⟨parents, s₇, hparents, h₈⟩ := bind_ok_iff.1 h₇
    obtain ⟨place, s₈, hplace, h₉⟩ := bind_ok_iff.1 h₈
    rw [lift_ok_iff] at hvalue hparents hplace
    obtain ⟨hvalue, rfl⟩ := hvalue
    obtain ⟨hparents, rfl⟩ := hparents
    obtain ⟨hplace, rfl⟩ := hplace
    cases place with
    | inside => exact .inr h₉
    | otherOption parent =>
      obtain ⟨_, _, hleave, h₁₀⟩ := bind_ok_iff.1 h₉
      cases h₁₀
      obtain ⟨hmem, option, hoption, hsame⟩ := outdent_ok hplace
      refine .inl ⟨rfl, parents, parent, option, ?_, mem_reverse.1 hmem, hoption, hsame, hleave⟩
      exact except_bind_ok_iff.2 ⟨value, hvalue, hparents⟩

/-- From a line that is deeper than the case, looking for the line behind the case passes some line,
unless it stays at the last one. -/
theorem seekOutdent_moves {draft : Draft} {fuel : Nat} (hline : c.lines.item c.index = .ok line)
    (hindent : line.item "indent" = .ok indent)
    (hdeeper : indent.compare .greater parent = .ok true) (hc : r.Holds c)
    (h : seekOutdent parent (fuel + 1) { conversation := c } = .ok false draft) :
    Revision r true { conversation := c } draft := by
  have hhere : Edit.here "indent" { conversation := c } = .ok indent { conversation := c } := by
    simp only [Edit.here, Edit.read, bind_apply, get_apply, pure_apply, hline, hindent,
      lift_ok_apply]
  rw [seekOutdent, bind_of_ok hhere, hdeeper, bind_of_ok (lift_ok_apply _ _), if_pos rfl] at h
  obtain ⟨c', d, hread, h₁⟩ := bind_ok_iff.1 h
  obtain ⟨size, d', hsize, h₂⟩ := bind_ok_iff.1 h₁
  cases hread
  obtain ⟨-, rfl⟩ := lift_ok_iff.1 hsize
  split at h₂
  · cases h₂
  · have hedits : Edits r (do Edit.step 1; seekOutdent parent fuel) true :=
      .bind_left (.step (by decide)) fun _ _ => Edits.steps.seekOutdent _ _
    have hmoved := hedits { conversation := c } hc
    rw [h₂] at hmoved
    exact hmoved.1

/-- Leaving a case moves: from a line that is deeper than the case some line is passed, if it is not
the last one, and else the script is left. -/
theorem leaveCase_moves {m : Manager} {rest : List Entry} {fuel : Nat} (hkey : user.isKey = true)
    (hm : managerIn s.active user = some m) (hstack : m.stack = .conversation c :: rest)
    (hline : c.lines.item c.index = .ok line) (hindent : line.item "indent" = .ok indent)
    (hdeeper : indent.compare .greater parent = .ok true)
    (hfuel : linesLeft c = .ok (fuel + 1)) (h : leaveCase user parent s = .ok () t) :
    Path (Remit.ahead user) true s t := by
  obtain ⟨atEnd, u, hedit, hlast⟩ := bind_ok_iff.1 h
  have hbody : (do seekOutdent parent (← linesLeft (← Edit.read)) : Edit Bool)
      { conversation := c } = seekOutdent parent (fuel + 1) { conversation := c } := by
    simp only [Edit.read, bind_apply, get_apply, pure_apply, hfuel, lift_ok_apply]
  rw [edit_eq hkey hm hstack, hbody] at hedit
  have hc : (Remit.ahead user).Holds c := listsIn_all _
  cases hrun : seekOutdent parent (fuel + 1) { conversation := c } with
  | error fault draft => simp [hrun] at hedit
  | ok a draft =>
    have hrevision := Edits.steps.seekOutdent parent (fuel + 1) { conversation := c } hc
    rw [hrun] at hedit hrevision
    cases hedit
    have hstep {moves : Bool} (h : Revision (Remit.ahead user) moves { conversation := c } draft) :=
      Path.single (Step.edit (.inl rfl) hm hstack h (listsIn_all _))
    cases atEnd with
    | true => exact (hstep hrevision.1).trans (Confined.exitScript.moves hlast) .inr
    | false =>
      cases hlast
      exact hstep (seekOutdent_moves hline hindent hdeeper hc hrun)

theorem known?_ok {k : Keyword} (h : Keyword.known? command s = .ok (some k) t) :
    command = .str k.name := by
  unfold Keyword.known? at h
  split at h
  · rename_i name
    obtain ⟨s', t', hget, hfound⟩ := bind_ok_iff.1 h
    obtain ⟨hfound, -⟩ := EStateM.Result.ok.inj hfound
    split at hfound
    · have hname := find?_some hfound
      rw [eq_of_beq hname]
    · cases hfound
  · split at h <;> cases h

theorem runLine_moves {text : Value}
    (hcommand : ∀ k : Keyword, k.jumps = true → command.same k.name = false)
    (h : runLine c user line command text s = .ok true t) : Path (Remit.ahead user) true s t := by
  obtain ⟨k?, s₁, hknown, h₁⟩ := bind_ok_iff.1 h
  have hfirst : Path (Remit.ahead user) false s s₁ :=
    ((Still.of_looks (.known? command)).quiet_of_ok hknown).path
  cases k? with
  | some k =>
    have hk : k.jumps = false := by
      cases hjumps : k.jumps with
      | false => rfl
      | true =>
        have hname := hcommand k hjumps
        simp [known?_ok hknown, str_same] at hname
    have hperform (text : Value) : Confined (Remit.ahead user) True (k.perform user text) true :=
      .performAhead ⟨user, trivial⟩ hk (fun _ h => h) text
    exact hfirst.trans ((Confined.runCommand hperform line text).moves h₁) .inr
  | none =>
    obtain ⟨functions, s₂, hfunctions, h₂⟩ := bind_ok_iff.1 h₁
    cases hfind : functions.find? fun f => command.same f.name with
    | some f =>
      simp only [hfind] at h₂
      obtain ⟨_, _, -, h₃⟩ := bind_ok_iff.1 h₂
      cases h₃
    | none =>
      simp only [hfind] at h₂
      obtain ⟨_, s₃, hedit, h₃⟩ := bind_ok_iff.1 h₂
      cases h₃
      have hquiet : Quiet s₁ s₂ := Still.quiet_of_ok (Q := fun _ => True)
        (.bind .get fun _ _ => .pure trivial) hfunctions
      have hstep : Confined (Remit.ahead user) True (edit user (Edit.step 1)) true :=
        .edit fun _ => .step (by decide)
      exact (hfirst.trans hquiet.path (b := false) nofun).trans (hstep.moves hedit) .inr

theorem advance_moves (hfree : s.JumpFree user) (h : advance user s = .ok true t) :
    Ready (s.stackOf user) ∧ Path (Remit.ahead user) true s t := by
  obtain ⟨m, c, rest, size, hkey, hm, hstack, hsize, hinside, hnext⟩ := advance_ok h
  obtain ⟨line, indent, command, text, u, hline, hindent, hcommand, -, hedit, hrest⟩ :=
    runNext_ok hnext
  have hc : c.JumpFree := hfree (.conversation c) (by simp [stackOf_eq hm, hstack])
  obtain ⟨n, hn⟩ := hc.index
  have hlt : n < size := by
    rw [hn, compare_int] at hinside
    simpa using hinside
  refine ⟨⟨c, rest, by rw [stackOf_eq hm, hstack], ?_⟩, ?_⟩
  · simp only [linesAhead, hsize, hn]
    omega
  -- The indent of the line is noted first, which changes neither place nor lines.
  have hnoted : u = kept user m { conversation := { c with lastIndent := indent } } s := by
    rw [edit_eq hkey hm hstack] at hedit
    cases hedit
    rfl
  have hfirst : Path (Remit.ahead user) false s u := by
    subst hnoted
    exact .single (.edit (.inl rfl) hm hstack
      ⟨⟨[], rfl, by simp [Remit.Allows]⟩, fun _ => rfl, fun _ => Ahead.refl _⟩ (listsIn_all _))
  refine hfirst.trans ?_ .inr
  obtain ⟨-, parents, parent, option, hparents, hmem, hoption, hsame, hleave⟩ | hrun := hrest
  · have hm' := managerIn_kept_self { conversation := { c with lastIndent := indent } } hm
    rw [← hnoted] at hm'
    have hdeeper := hc.outdent n line indent parents (hn ▸ hline) hindent hparents parent hmem option
      hoption hsame
    have hfuel : linesLeft
        (settled s.lists { conversation := { c with lastIndent := indent } }) =
          .ok (size - n + 1 + 1) := by
      refine except_bind_ok_iff.2 ⟨size, hsize, ?_⟩
      simp only [settled, hn, asInt?, Option.getD_some]
      exact congrArg Except.ok (by omega)
    exact leaveCase_moves hkey hm' rfl hline hindent hdeeper hfuel hleave
  · exact runLine_moves (hc.command n line command (hn ▸ hline) hcommand) hrun

/-- Running lines, with something else to do when the budget is used up. -/
def proceedWith (limit : Run Unit) : Nat → Value → Run Unit
  | 0, _ => limit
  | budget + 1, user => do
    let _ ← theMessage
    let report := reportFor (← get) user
    let lines : Run Unit := do
      if ← advance user then proceedWith limit budget user
    rescue lines fun _ => do
      tellError "unknown" report
      exitScript user

theorem proceed_eq (budget : Nat) (user : Value) :
    proceed budget user = proceedWith (throw .stepLimit) budget user := by
  induction budget with
  | zero => rfl
  | succ budget ih =>
    simp only [proceed, proceedWith, ih]

/-- The number of lines that are run is bounded by the work that is left. -/
theorem proceedWith_congr (limit limit' : Run Unit) {budget : Nat} :
    ∀ {s : Session}, s.JumpFree user → s.workLeft user < budget →
      proceedWith limit budget user s = proceedWith limit' budget user s := by
  induction budget with
  | zero => exact fun _ h => absurd h (Nat.not_lt_zero _)
  | succ budget ih =>
    intro s hfree hwork
    have hlines : (do if ← advance user then proceedWith limit budget user) s =
        (do if ← advance user then proceedWith limit' budget user) s := by
      cases hrun : advance user s with
      | error fault t => rw [bind_of_error hrun, bind_of_error hrun]
      | ok goesOn t =>
        rw [bind_of_ok hrun, bind_of_ok hrun]
        cases goesOn with
        | false => rfl
        | true =>
          obtain ⟨hready, hpath⟩ := advance_moves hfree hrun
          obtain ⟨hfree', -, hlt⟩ := hpath.work_lt id hfree
          have hless := hlt hready rfl
          exact ih hfree' (Nat.lt_of_lt_of_le hless (Nat.le_of_lt_succ hwork))
    cases hmessage : s.message with
    | none => simp only [proceedWith, theMessage, bind_apply, get_apply, hmessage, throw_apply]
    | some m =>
      have hthe := theMessage_of_some hmessage
      rw [proceedWith, proceedWith, bind_of_ok hthe, bind_of_ok hthe, bind_of_ok (get_apply s),
        bind_of_ok (get_apply s)]
      exact rescue_congr hlines _

/-- Scripts without jumps come to an end.  A run with a budget above the work that is left for the
scripts of the user never uses the budget up: whatever was done then, the result is the same.  With
less work than there may be calls, the limit for them is never reached. -/
theorem proceed_within_work {user : Value} {s : Session} (hfree : s.JumpFree user) :
    (∀ budget limit, s.workLeft user + 1 ≤ budget →
        proceedWith limit budget user s = proceed budget user s) ∧
      (s.workLeft user < lineLimit → ∀ limit, proceedWith limit lineLimit user s = resume user s) := by
  have hcalls (budget : Nat) (limit : Run Unit) (hbudget : s.workLeft user + 1 ≤ budget) :
      proceedWith limit budget user s = proceed budget user s := by
    rw [proceed_eq]
    exact proceedWith_congr limit _ hfree hbudget
  exact ⟨hcalls, fun hwork limit => hcalls lineLimit limit hwork⟩

/-- Four lines with a command that is not known.  Every second line stands at `indent`, in a case at
`parent`, and the others are deeper. -/
def linesInCases (deeper indent parent : Value) : List Value :=
  let line (indent : Value) (parents : List Value) : Value :=
    .object [("command", "hum"), ("text", "hum"), ("indent", indent), ("line_number", .int 1),
      ("data", .null), ("parent_case_indents", .ofItems parents)]
  [line deeper [], line indent [parent], line deeper [], line indent [parent]]

def scriptInCases (deeper indent parent : Value) : Conversation :=
  { scriptMeta := .null, filename := "demo", startTime := 0, bindings := Value.emptyTable
    lines := .ofItems (linesInCases deeper indent parent), index := .int 0 }

def sessionInCases (deeper indent parent : Value) : Session :=
  let m : Manager := { user := "ann", stack := [.conversation (scriptInCases deeper indent parent)] }
  { initialized := true, message := some {}, active := [("ann", m)] }

def faultAt (budget : Nat) (user : Value) (s : Session) : Option Fault :=
  match proceed budget user s with
  | .ok _ _ => none
  | .error fault _ => some fault

/-- Four lines in cases with whole indents are four lines of work, and the limit is far away. -/
theorem proceed_within_work_in_cases :
    (sessionInCases (.int 2) (.int 1) (.int 0)).workLeft "ann" = 5 ∧
      (∀ limit, proceedWith limit 6 "ann" (sessionInCases (.int 2) (.int 1) (.int 0)) =
        proceed 6 "ann" (sessionInCases (.int 2) (.int 1) (.int 0))) ∧
      ∀ limit, proceedWith limit lineLimit "ann" (sessionInCases (.int 2) (.int 1) (.int 0)) =
        resume "ann" (sessionInCases (.int 2) (.int 1) (.int 0)) := by
  have hwork : (sessionInCases (.int 2) (.int 1) (.int 0)).workLeft "ann" = 5 := by decide +kernel
  have hfree : (sessionInCases (.int 2) (.int 1) (.int 0)).JumpFree "ann" := by
    intro e he
    obtain rfl : e = .conversation (scriptInCases (.int 2) (.int 1) (.int 0)) := by
      simpa [sessionInCases, stackOf, managerIn, Value.str_same] using he
    exact Conversation.JumpFree.of_items rfl ⟨0, rfl⟩ (by decide +kernel) (by decide +kernel)
  have hbound := proceed_within_work hfree
  exact ⟨hwork, fun limit => hbound.1 6 limit (by omega),
    hbound.2 (by rw [hwork]; decide)⟩

/-- For indents so great that adding one does not change them a case is left without passing a
line, and the four lines take more calls than their work allows, though none of them jumps. -/
theorem proceed_beyond_work :
    (sessionInCases (.float 2e16) (.float 1e16) (.float 1e16)).workLeft "ann" = 5 ∧
      (∀ line ∈ linesInCases (.float 2e16) (.float 1e16) (.float 1e16), line.keepsPlace = true) ∧
      faultAt 6 "ann" (sessionInCases (.float 2e16) (.float 1e16) (.float 1e16)) =
        some .stepLimit ∧
      faultAt 7 "ann" (sessionInCases (.float 2e16) (.float 1e16) (.float 1e16)) = none := by
  decide +kernel

end Execution

end Colloquy
