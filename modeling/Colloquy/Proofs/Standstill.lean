import Colloquy.Proofs.Containment
import Colloquy.Proofs.Loops

/-! Commands that stand still.  Of the commands that decide which line comes next, `if` and `else`
always go ahead.  A jump stands still if no line has the number that it goes to, a case if it has no
value or if its options go on to the end of the script without a match, and the end of a loop if the
loop starts there.  The same line is then run again, for ever. -/

namespace Colloquy

open Session Value List

variable {lines : List Value} {d : Draft} {i : Int} {text : Value}

/-! ### Lines -/

namespace Value

/-- A line with all that the order of lines depends on. -/
structure Complete (line : Value) : Prop where
  indent : ∃ n : Int, line.item "indent" = .ok (.int n)
  text : ∃ text, line.item "text" = .ok text

def isNumberOf (number line : Value) : Bool :=
  match line.item "line_number" >>= toInt with
  | .ok n => (int n).same number
  | .error _ => false

/-- Whether a loop that starts at a number starts at the line. -/
def isStartOf (number line : Value) : Bool :=
  match line.item "line_number" with
  | .ok n => n.same number
  | .error _ => false

/-- A line of the options of a case at an indent, and none that has the value. -/
def PassedBy (line : Value) (indent : Int) (value : Value) : Prop :=
  ∃ (n : Int) (text : Value), line.item "indent" = .ok (.int n) ∧ line.item "text" = .ok text ∧
    indent < n ∧
    (n = indent + 1 → ∀ option ∈ Command.alternatives text, value.same (.str option) = false)

theorem itemAt_cases (items : List Value) {p : Int} (hp : -items.length ≤ p) :
    (∃ x ∈ items, p < items.length ∧ itemAt items p = .ok x) ∨
      (items.length ≤ p ∧ itemAt items p = .error .outOfRange) := by
  have hat {n : Nat} (hposition : position? items.length p = some n) (hn : n < items.length) :
      itemAt items p = .ok items[n] := by
    simp [itemAt, hposition, hn]
  by_cases hlt : p < items.length
  · left
    by_cases hneg : 0 ≤ p
    · have hn : p.toNat < items.length := by omega
      exact ⟨_, getElem_mem hn, hlt, hat (by simp [position?, hneg, hlt]) hn⟩
    · have hn : (p + items.length).toNat < items.length := by omega
      have hpos : 0 ≤ p + items.length := by omega
      exact ⟨_, getElem_mem hn, hlt, hat (by simp [position?, hneg, hpos]) hn⟩
  · right
    have hpos : 0 ≤ p := by omega
    exact ⟨by omega, by simp [itemAt, position?, hlt, hpos]⟩

theorem neg_length_le_of_itemAt {items : List Value} {p : Int} {x : Value}
    (h : itemAt items p = .ok x) : -items.length ≤ p := by
  refine Int.not_lt.1 fun hlt => ?_
  have hneg : ¬ 0 ≤ p := by omega
  have hsum : ¬ 0 ≤ p + items.length := by omega
  simp [itemAt, position?, hneg, hsum] at h

end Value

/-! ### Jumps and loops -/

namespace Command

def goal (c : Conversation) (data text : Value) : Except Fault Value := do
  let given ← if data.truthy then data.get "destination" else pure .null
  if given.truthy then c.tags.get given given
  else if Text.isNumeric text.display then return .int (← text.toInt)
  else if ← Value.member text c.tags then return .int (← (← c.tags.item text).toInt)
  else return .null

theorem destination_some (c : Conversation) (data text : Value) :
    destination (some c) data text = liftM (goal c data text) := by
  unfold destination goal
  extract_lets rest pureRest
  have hrest (given : Value) : rest given = liftM (pureRest given) := by
    simp only [rest, pureRest, present, pure_bind]
    split
    · rfl
    · split
      · rw [lift_bind]
        rfl
      · rw [lift_bind]
        refine congrArg _ (funext fun found => ?_)
        split
        · rw [lift_bind]
          refine congrArg _ (funext fun value => ?_)
          rw [lift_bind]
          rfl
        · rfl
  clear_value rest pureRest
  split
  · rw [lift_bind]
    exact congrArg _ (funext hrest)
  · exact hrest .null

theorem jump_index {number : Value} {position : Nat} {d' : Draft}
    (h : jump number position lines d = .ok () d') :
    d'.conversation.index = match lines.findIdx? number.isNumberOf with
      | some n => .int ((position + n : Nat))
      | none => d.conversation.index := by
  induction lines generalizing position with
  | nil =>
    cases h
    rfl
  | cons line rest ih =>
    obtain ⟨v, hitem, hrest⟩ := lift_bind_ok_iff.1 h
    obtain ⟨n, hint, hrun⟩ := lift_bind_ok_iff.1 hrest
    have hnumber : number.isNumberOf line = (int n).same number := by
      simp only [isNumberOf, hitem, bind, Except.bind, hint]
    rw [findIdx?_cons, hnumber]
    split at hrun
    · rename_i hsame
      obtain ⟨⟨⟩, d₁, hgo, hrun⟩ := bind_ok_iff.1 hrun
      cases hgo
      obtain ⟨indent, -, hset⟩ := lift_bind_ok_iff.1 hrun
      cases hset
      rw [if_pos hsame]
      rfl
    · rename_i hsame
      rw [ih hrun, if_neg hsame]
      cases rest.findIdx? number.isNumberOf with
      | none => rfl
      | some m => simp only [Option.map_some, Nat.add_assoc, Nat.add_comm 1]

theorem lineIndex_ok {number : Value} {n : Nat} (h : lineIndex number lines = .ok n) :
    n = lines.findIdx number.isStartOf := by
  induction lines generalizing n with
  | nil =>
    cases h
    rfl
  | cons line rest ih =>
    obtain ⟨v, hitem, h⟩ := except_bind_ok_iff.1 h
    have hstarts : number.isStartOf line = v.same number := by
      simp only [isStartOf, hitem]
    rw [findIdx_cons, hstarts]
    split at h
    · rename_i hsame
      cases h
      rw [hsame]
      rfl
    · rename_i hsame
      obtain ⟨m, hm, h⟩ := except_bind_ok_iff.1 h
      cases h
      rw [Bool.eq_false_iff.2 hsame, ih hm]
      rfl

/-! ### Cases -/

theorem caseStep_cases {line : Value} (hline : line.Complete) (n : Int) (value : Value) :
    (caseStep (.int n) value line = .ok .pass ∧ line.PassedBy n value) ∨
      ∃ step, caseStep (.int n) value line = .ok step ∧ step ≠ .pass ∧ ¬ line.PassedBy n value := by
  obtain ⟨⟨x, hindent⟩, text, htext⟩ := hline
  have houtside : (int x).compare .atMost (.int n) = .ok (decide (x ≤ n)) :=
    compare_int _ _ _
  have hdeeper : (int x).compare .greater (.int (n + 1)) = .ok (decide (n + 1 < x)) :=
    compare_int _ _ _
  have hnext : (int n).addInt 1 = .ok (.int (n + 1)) := rfl
  have hpassed : line.PassedBy n value ↔ n < x ∧
      (x = n + 1 → ∀ option ∈ alternatives text, value.same (.str option) = false) := by
    simp [PassedBy, hindent, htext]
  simp only [caseStep, hindent, houtside, hdeeper, hnext, htext, bind, Except.bind, hpassed,
    decide_eq_true_eq]
  by_cases hle : x ≤ n
  · right
    exact ⟨.again, by rw [if_pos hle]; rfl, by decide, by omega⟩
  rw [if_neg hle]
  by_cases hgt : n + 1 < x
  · left
    exact ⟨by rw [if_pos hgt]; rfl, by omega, by omega⟩
  rw [if_neg hgt]
  by_cases hany : (alternatives text).any (fun option => value.same (.str option)) = true
  · right
    refine ⟨.enter, by rw [if_pos hany]; rfl, by decide, fun h => ?_⟩
    obtain ⟨option, hmem, hsame⟩ := any_eq_true.1 hany
    rw [h.2 (by omega) option hmem] at hsame
    cases hsame
  · left
    refine ⟨by rw [if_neg hany]; rfl, by omega, fun _ option hmem => ?_⟩
    exact Bool.eq_false_iff.2 fun hsame => hany (any_eq_true.2 ⟨option, hmem, hsame⟩)

/-- A case finds no target exactly if it passes over all lines to the end of the script, and it
never finds its own line. -/
theorem caseTarget_cases (hlines : ∀ line ∈ lines, line.Complete) (number : Option Nat) (n i : Int)
    (value : Value) (fuel : Nat) (position : Int) (hstart : -lines.length ≤ position)
    (hfuel : lines.length < position + fuel) (hbehind : i < position) :
    let target := caseTarget (.list lines number) (.int n) value (.int i) fuel position
    (target = none ∧ ∀ p line, position ≤ p → itemAt lines p = .ok line →
        line.PassedBy n value) ∨
      ∃ index, target = some index ∧ index ≠ .int i ∧
        ∃ p line, position ≤ p ∧ itemAt lines p = .ok line ∧ ¬ line.PassedBy n value := by
  have hitem (p : Int) : (list lines number).item (.int p) = itemAt lines p := rfl
  have hnone {p : Int} {line : Value} (hp : lines.length ≤ p) :
      itemAt lines p ≠ .ok line := by
    obtain ⟨-, -, hlt, -⟩ | ⟨-, herror⟩ := itemAt_cases lines (p := p) (by omega)
    · omega
    · simp [herror]
  induction fuel generalizing position with
  | zero => exact .inl ⟨rfl, fun p line hp hline => absurd hline (hnone (by omega))⟩
  | succ fuel ih =>
    simp only [caseTarget, hitem]
    obtain ⟨line, hmem, hlt, hline⟩ | ⟨hge, hline⟩ := itemAt_cases lines hstart
    · rw [hline]
      simp only [bind, Except.bind]
      obtain ⟨hpass, hpassed⟩ | ⟨step, hstep, hne, hpassed⟩ :=
        caseStep_cases (hlines line hmem) n value
      · -- The line is passed over, and what is found is found further on.
        rw [hpass]
        have hsplit {p : Int} (hp : position ≤ p) : p = position ∨ position + 1 ≤ p := by omega
        obtain ⟨htarget, hall⟩ | ⟨index, htarget, hindex, p, found, hp, hfound⟩ :=
          ih (position + 1) (by omega) (by omega) (by omega)
        · refine .inl ⟨htarget, fun p found hp hfound => ?_⟩
          obtain rfl | hnext := hsplit hp
          · cases hline.symm.trans hfound
            exact hpassed
          · exact hall p found hnext hfound
        · exact .inr ⟨index, htarget, hindex, p, found, by omega, hfound⟩
      · right
        rw [hstep]
        cases step with
        | pass => exact absurd rfl hne
        | again =>
          refine ⟨.int (i - 1), rfl, ?_, position, line, by omega, hline, hpassed⟩
          rw [Ne, int.injEq]
          omega
        | enter =>
          refine ⟨.int (position + 1), rfl, ?_, position, line, by omega, hline, hpassed⟩
          rw [Ne, int.injEq]
          omega
    · left
      rw [hline]
      exact ⟨rfl, fun p line hp hline => absurd hline (hnone (by omega))⟩

/-- A case stays at its line if it has no value, if the line behind it is the first one of the
script, or if it passes over all lines to the end. -/
theorem chooseCase_index_iff {c : Conversation} {value line : Value} {number : Option Nat} {n : Int}
    (h : chooseCase value { conversation := c } = .ok () d) (hlines : c.lines = .list lines number)
    (hcomplete : ∀ line ∈ lines, line.Complete) (hindex : c.index = .int i)
    (hline : itemAt lines i = .ok line) (hindent : line.item "indent" = .ok (.int n)) :
    d.conversation.index = .int i ↔ value.truthy = false ∨ i = -1 ∨
      ∀ p line, i < p → itemAt lines p = .ok line → line.PassedBy n value := by
  have hhere : Edit.here "indent" { conversation := c } = .ok (.int n) { conversation := c } := by
    have hitem : c.lines.item c.index = .ok line := by
      rw [hlines, hindex]
      exact hline
    rw [Edit.here, bind_of_ok (Edit.read_apply _), hitem, bind_of_ok (lift_ok_apply _ _), hindent]
    rfl
  have hnext : c.index.addInt 1 = .ok (.int (i + 1)) := by
    rw [hindex]
    rfl
  have hsize : c.lines.size = .ok lines.length := by
    rw [hlines]
    rfl
  have hrange : -lines.length ≤ i := neg_length_le_of_itemAt hline
  rw [chooseCase, bind_of_ok (Edit.read_apply _), bind_of_ok hhere, hnext,
    bind_of_ok (lift_ok_apply _ _)] at h
  split at h
  · rename_i hboth
    obtain ⟨hfirst, hvalue⟩ := Bool.and_eq_true_iff.1 hboth
    have hi : i ≠ -1 := fun hi => by simp [hi, truthy] at hfirst
    simp only [asInt?] at h
    rw [hsize, bind_of_ok (lift_ok_apply _ _), hlines, hindex] at h
    obtain ⟨htarget, hall⟩ | ⟨index, htarget, hne, p, found, hp, hfound, hpassed⟩ :=
      caseTarget_cases hcomplete number n i value (lines.length + 1 - (i + 1)).toNat (i + 1)
        (by omega) (by omega) (by omega)
    · rw [htarget] at h
      cases h
      exact iff_of_true hindex (.inr (.inr hall))
    · rw [htarget] at h
      cases h
      refine iff_of_false hne ?_
      rintro (hfalsy | hlast | hall)
      · rw [hvalue] at hfalsy
        cases hfalsy
      · exact hi hlast
      · exact hpassed (hall p found hp hfound)
  · rename_i hnot
    cases h
    refine iff_of_true hindex ?_
    by_cases hvalue : value.truthy = true
    · have hzero : i + 1 = 0 := by
        rw [hvalue] at hnot
        simpa [truthy] using hnot
      exact .inr (.inl (by omega))
    · exact .inl (Bool.eq_false_iff.2 hvalue)

end Command

/-! ### The running script -/

section

variable {user : Value} {s t : Session} {c : Conversation} {rest : List Entry}

theorem Session.edit_ok_stack {α : Type} {body : Edit α} {a : α} (h : edit user body s = .ok a t)
    (hs : s.stackOf user = .conversation c :: rest) :
    ∃ d, body { conversation := c } = .ok a d ∧
      t.stackOf user =
        .conversation (settled s.lists d) :: rest.map (Entry.changedBy d.changes) := by
  obtain ⟨fault, herror⟩ | ⟨m, c₀, rest₀, hkey, hm, hstack, -⟩ := current_cases user s
  · rw [edit, bind_of_error herror] at h
    cases h
  · rw [stackOf_eq hm, hstack] at hs
    cases hs
    rw [edit_eq hkey hm hstack] at h
    cases hbody : body { conversation := c } with
    | error fault d =>
      rw [hbody] at h
      cases h
    | ok a' d =>
      rw [hbody] at h
      cases h
      exact ⟨d, rfl, stackOf_kept_self d hm hstack⟩

theorem Session.edit_ok_index {α : Type} {body : Edit α} {a : α} {c' : Conversation}
    {below : List Entry} (h : edit user body s = .ok a t)
    (hs : s.stackOf user = .conversation c :: rest)
    (ht : t.stackOf user = .conversation c' :: below) :
    ∃ d, body { conversation := c } = .ok a d ∧ c'.index = d.conversation.index := by
  obtain ⟨d, hd, hstack⟩ := edit_ok_stack h hs
  rw [ht] at hstack
  cases hstack
  exact ⟨d, hd, rfl⟩

theorem Session.currentAt_ok {c? : Option Conversation} (h : currentAt user s = .ok c? t)
    (hs : s.stackOf user = .conversation c :: rest) : c? = some c ∧ t = s := by
  obtain ⟨fault, herror⟩ | ⟨m, -, hm, hat⟩ := managerAt_cases user s
  · rw [currentAt, bind_of_error herror] at h
    cases h
  · rw [stackOf_eq hm] at hs
    rw [currentAt, bind_of_ok hat, top_of_stack hs] at h
    cases h
    exact ⟨rfl, rfl⟩

theorem Edits.index_lt {α : Type} (user : Value) {body : Edit α} {a : α}
    (hbody : Edits (Remit.ahead user) body true) (h : body { conversation := c } = .ok a d)
    (hindex : c.index = .int i) : ∃ j, d.conversation.index = .int j ∧ i < j := by
  have hrun := hbody { conversation := c } (listsIn_all _)
  rw [h] at hrun
  obtain ⟨k, hk, hpos⟩ := hrun.1.index id i hindex
  have := hpos rfl
  exact ⟨i + k, hk, by omega⟩

namespace Command

variable {c' : Conversation} {below : List Entry} {message : Message}

def tested (data text : Value) : Except Fault Value :=
  if data.truthy then data.get "variable" else caseValue text

theorem case_ok (h : case user text s = .ok () t) (hm : s.message = some message)
    (hs : s.stackOf user = .conversation c :: rest)
    (ht : t.stackOf user = .conversation c' :: below) (hlength : below.length = rest.length) :
    ∃ value d, tested message.lineData text = .ok value ∧
      chooseCase value { conversation := c } = .ok () d ∧ c'.index = d.conversation.index := by
  obtain ⟨c?, s₁, hcurrent, hrest⟩ := bind_ok_iff.1 h
  obtain ⟨rfl, rfl⟩ := currentAt_ok hcurrent hs
  rw [bind_of_ok (lineData_apply hm)] at hrest
  have hchosen {value : Value} (hvalue : tested message.lineData text = .ok value)
      (hedit : edit user (chooseCase value) s₁ = .ok () t) :
      ∃ value d, tested message.lineData text = .ok value ∧
        chooseCase value { conversation := c } = .ok () d ∧ c'.index = d.conversation.index := by
    obtain ⟨d, hd, hc⟩ := edit_ok_index hedit hs ht
    exact ⟨value, d, hvalue, hd, hc⟩
  split at hrest
  · rename_i htruthy
    obtain ⟨value, hget, hedit⟩ := lift_bind_ok_iff.1 hrest
    exact hchosen (by rw [tested, Message.lineData, if_pos htruthy, hget]) hedit
  · rename_i hfalsy
    cases hvalue : caseValue text with
    | ok value =>
      rw [hvalue] at hrest
      exact hchosen (by rw [tested, Message.lineData, if_neg hfalsy, hvalue]) hrest
    | error fault =>
      -- The script is left, so that there is one less on the stack.
      rw [hvalue] at hrest
      obtain ⟨⟨⟩, s₂, hstep, hleave⟩ := bind_ok_iff.1 hrest
      obtain ⟨d, -, hstack⟩ := edit_ok_stack hstep hs
      rw [bind_of_ok (show present (some c) s₂ = .ok c s₂ from rfl)] at hleave
      obtain ⟨⟨⟩, s₃, hexit, hread⟩ := bind_ok_iff.1 hleave
      obtain ⟨index, -, hread⟩ := lift_bind_ok_iff.1 hread
      obtain ⟨line, -, hread⟩ := lift_bind_ok_iff.1 hread
      obtain ⟨indent, -, hread⟩ := lift_bind_ok_iff.1 hread
      cases hread
      have hdepth := exitScript_depthOf hexit (by simp [hstack])
      simp only [depthOf, ht, hstack, length_cons, length_map] at hdepth
      omega

theorem branch_ok (h : branch user text s = .ok () t) (hm : s.message = some message)
    (hs : s.stackOf user = .conversation c :: rest)
    (ht : t.stackOf user = .conversation c' :: below) (hindex : c.index = .int i) :
    ∃ j, c'.index = .int j ∧ i < j := by
  rw [branch_apply] at h
  obtain ⟨b, s₁, hholds, hedit⟩ := bind_ok_iff.1 h
  rw [holds_eq hm] at hholds
  obtain ⟨-, rfl⟩ := lift_ok_iff.1 hholds
  obtain ⟨d, hd, hc⟩ := edit_ok_index hedit hs ht
  rw [hc]
  exact Edits.index_lt user (.enterIf b) hd hindex

theorem otherwise_ok (h : otherwise user s = .ok () t)
    (hs : s.stackOf user = .conversation c :: rest)
    (ht : t.stackOf user = .conversation c' :: below) (hlength : below.length = rest.length)
    (hindex : c.index = .int i) : ∃ j, c'.index = .int j ∧ i < j := by
  obtain ⟨last, s₁, hedit, hleave⟩ := bind_ok_iff.1 h
  cases last with
  | true =>
    obtain ⟨d, -, hstack⟩ := edit_ok_stack hedit hs
    have hdepth := exitScript_depthOf (show exitScript user s₁ = .ok () t from hleave)
      (by simp [hstack])
    simp only [depthOf, ht, hstack, length_cons, length_map] at hdepth
    omega
  | false =>
    cases hleave
    obtain ⟨d, hd, hc⟩ := edit_ok_index hedit hs ht
    rw [hc]
    exact Edits.index_lt user .passElse hd hindex

/-- The words of a line that ends a loop: the second one is the name of the loop. -/
def EndsLoop (text name : String) : Prop :=
  (Text.contains text "END" || Text.contains text "UNTIL") = true ∧
    ∃ first more, Text.split " " text = first :: name :: more

theorem loop_ok {text : String} (h : loop user (.str text) s = .ok () t)
    (hm : s.message = some message) (hs : s.stackOf user = .conversation c :: rest)
    (ht : t.stackOf user = .conversation c' :: below) :
    ∃ d : Draft, c'.index = d.conversation.index ∧
      ((∀ name, ¬ EndsLoop text name) ∧ Edit.step 1 { conversation := c } = .ok () d ∨
        ∃ name, EndsLoop text name ∧ endLoop name { conversation := c } = .ok () d) := by
  obtain ⟨m, hmanager, hstack⟩ := exists_managerIn_of_stackOf hs
  have hkey : user.isKey = true := by
    obtain ⟨c?, s₁, hcurrent, -⟩ := bind_ok_iff.1 h
    obtain ⟨m', s₂, hof, -⟩ := bind_ok_iff.1 hcurrent
    exact (managerOf_ok hof).1
  rw [loop_apply hkey hmanager hstack hm] at h
  split at h
  · rename_i hends
    split at h
    · rename_i first name more hsplit
      obtain ⟨d, hd, hindex⟩ := edit_ok_index h hs ht
      exact ⟨d, hindex, .inr ⟨name, ⟨hends, first, more, hsplit⟩, hd⟩⟩
    · cases h
  · rename_i hends
    obtain ⟨d, hd, hindex⟩ := edit_ok_index h hs ht
    exact ⟨d, hindex, .inl ⟨fun name hname => hends hname.1, hd⟩⟩

theorem endLoop_index_iff {name : String} {number : Option Nat}
    (h : endLoop name { conversation := c } = .ok () d) (hlines : c.lines = .list lines number)
    (hindex : c.index = .int i) :
    d.conversation.index = .int i ↔ ∃ entry start, c.loops.item name = .ok entry ∧
      entry.item "start" = .ok start ∧ loopDone entry c.bindings = .ok false ∧
      (lines.findIdx start.isStartOf : Int) = i := by
  rw [endLoop, bind_of_ok (Edit.read_apply _)] at h
  obtain ⟨entry, hentry, hrun⟩ := lift_bind_ok_iff.1 h
  obtain ⟨start, hstart, hrun⟩ := lift_bind_ok_iff.1 hrun
  obtain ⟨isDone, hdone, hrun⟩ := lift_bind_ok_iff.1 hrun
  split at hrun
  · rename_i hisDone
    obtain ⟨j, hj, hlt⟩ := Edits.index_lt .null (.step (by decide)) hrun hindex
    rw [hj, int.injEq]
    refine iff_of_false (by omega) ?_
    rintro ⟨entry', start', hentry', -, hdone', -⟩
    cases hentry.symm.trans hentry'
    cases hdone'.symm.trans (hisDone ▸ hdone)
  · rename_i hnotDone
    have helements : c.lines.elements = .ok lines := by
      rw [hlines]
      rfl
    rw [helements, bind_of_ok (lift_ok_apply _ _)] at hrun
    obtain ⟨n, hn, hgo⟩ := lift_bind_ok_iff.1 hrun
    cases hgo
    obtain rfl := lineIndex_ok hn
    change int _ = int i ↔ _
    rw [int.injEq]
    constructor
    · intro hi
      exact ⟨entry, start, hentry, hstart, (Bool.eq_false_iff.2 hnotDone) ▸ hdone, hi⟩
    · rintro ⟨entry', start', hentry', hstart', -, hi⟩
      cases hentry.symm.trans hentry'
      cases hstart.symm.trans hstart'
      exact hi

theorem goto_ok (h : goto user text s = .ok () t) (hm : s.message = some message)
    (hs : s.stackOf user = .conversation c :: rest)
    (ht : t.stackOf user = .conversation c' :: below) :
    ∃ (number : Value) (d : Draft), goal c message.lineData text = .ok number ∧
      c'.index = d.conversation.index ∧
      (number.truthy = false ∧ Edit.step 1 { conversation := c } = .ok () d ∨
        number.truthy = true ∧ ∃ lines, c.lines.elements = .ok lines ∧
          jump number 0 lines { conversation := c } = .ok () d) := by
  obtain ⟨c?, s₁, hcurrent, hrun⟩ := bind_ok_iff.1 h
  obtain ⟨rfl, rfl⟩ := currentAt_ok hcurrent hs
  rw [bind_of_ok (lineData_apply hm), destination_some] at hrun
  obtain ⟨number, hgoal, hrun⟩ := lift_bind_ok_iff.1 hrun
  rw [bind_of_ok (show present (some c) s₁ = .ok c s₁ from rfl)] at hrun
  split at hrun
  · rename_i htruthy
    obtain ⟨d, hd, hindex⟩ := edit_ok_index hrun hs ht
    obtain ⟨lines, hlines, hjump⟩ := lift_bind_ok_iff.1 hd
    exact ⟨number, d, hgoal, hindex, .inr ⟨htruthy, lines, hlines, hjump⟩⟩
  · rename_i hfalsy
    obtain ⟨line, -, hrun⟩ := lift_bind_ok_iff.1 hrun
    obtain ⟨n, -, hrun⟩ := lift_bind_ok_iff.1 hrun
    obtain ⟨detail, -, hrun⟩ := lift_bind_ok_iff.1 hrun
    obtain ⟨⟨⟩, s₂, hdialog, hstep⟩ := bind_ok_iff.1 hrun
    cases hdialog
    obtain ⟨d, hd, hindex⟩ := edit_ok_index hstep (by exact hs) ht
    exact ⟨number, d, hgoal, hindex, .inl ⟨Bool.eq_false_iff.2 hfalsy, hd⟩⟩

end Command

end

/-! ### Standing still -/

namespace Keyword

def isControl : Keyword → Bool
  | loop | case | branch | otherwise | goto => true
  | declare | execute | formula | speak | neonSpeak | nameSpeak | exit | subValues | subKey | set
  | reconvey | nameReconvey | email | language | run => false

/-- The ways in which a command that is run at an index stands still. -/
inductive Stalls (c : Conversation) (lines : List Value) (i : Int) (data : Value) (text : String) :
    Keyword → Prop
  /-- No line has the number that a jump goes to. -/
  | nowhere {number : Value} (hgoal : Command.goal c data text = .ok number)
      (htruthy : number.truthy = true) (hnone : ∀ line ∈ lines, number.isNumberOf line = false) :
      Stalls c lines i data text goto
  /-- A case has no value. -/
  | unvalued {value : Value} (hvalue : Command.tested data text = .ok value)
      (hfalsy : value.truthy = false) : Stalls c lines i data text case
  /-- A case is reached from the end of the script, and the first line is behind it. -/
  | wrapped (hi : i = -1) : Stalls c lines i data text case
  /-- The options of a case go on to the end of the script, and none has the value. -/
  | unmatched {value line : Value} {indent : Int} (hvalue : Command.tested data text = .ok value)
      (hline : Value.itemAt lines i = .ok line) (hindent : line.item "indent" = .ok (.int indent))
      (hpassed : ∀ p line, i < p → Value.itemAt lines p = .ok line → line.PassedBy indent value) :
      Stalls c lines i data text case
  /-- A loop that is not done starts where it ends. -/
  | tight {name : String} {entry start : Value} (hends : Command.EndsLoop text name)
      (hentry : c.loops.item name = .ok entry) (hstart : entry.item "start" = .ok start)
      (hdone : Command.loopDone entry c.bindings = .ok false)
      (hfirst : (lines.findIdx start.isStartOf : Int) = i) : Stalls c lines i data text loop

end Keyword

def Command.JumpsHere (c : Conversation) (lines : List Value) (i : Int) (data : Value)
    (text : String) : Prop :=
  ∃ (number : Value) (n : Nat), goal c data text = .ok number ∧ number.truthy = true ∧
    lines.findIdx? number.isNumberOf = some n ∧ (n : Int) = i

section

variable {user line : Value} {text : String} {message : Message} {s t : Session}
  {c c' : Conversation} {rest below : List Entry} {lines : List Value} {number : Option Nat}
  {i : Int}

theorem Command.EndsLoop.name_eq {name name' : String} (h : EndsLoop text name)
    (h' : EndsLoop text name') : name = name' := by
  obtain ⟨-, first, more, hsplit⟩ := h
  obtain ⟨-, first', more', hsplit'⟩ := h'
  cases hsplit.symm.trans hsplit'
  rfl

theorem Command.case_stays_iff (h : case user text s = .ok () t) (hm : s.message = some message)
    (hs : s.stackOf user = .conversation c :: rest)
    (ht : t.stackOf user = .conversation c' :: below) (hlength : below.length = rest.length)
    (hlines : c.lines = .list lines number) (hcomplete : ∀ line ∈ lines, line.Complete)
    (hindex : c.index = .int i) (hline : itemAt lines i = .ok line) :
    c'.index = .int i ↔ Keyword.case.Stalls c lines i message.lineData text := by
  obtain ⟨value, d, hvalue, hd, hc⟩ := case_ok h hm hs ht hlength
  obtain ⟨indent, hindent⟩ := (hcomplete line (mem_of_itemAt hline)).indent
  rw [hc, chooseCase_index_iff hd hlines hcomplete hindex hline hindent]
  constructor
  · rintro (hfalsy | hi | hpassed)
    · exact .unvalued hvalue hfalsy
    · exact .wrapped hi
    · exact .unmatched hvalue hline hindent hpassed
  · intro hstalls
    cases hstalls with
    | unvalued hvalue' hfalsy =>
      cases hvalue.symm.trans hvalue'
      exact .inl hfalsy
    | wrapped hi => exact .inr (.inl hi)
    | unmatched hvalue' hline' hindent' hpassed =>
      cases hvalue.symm.trans hvalue'
      cases hline.symm.trans hline'
      cases hindent.symm.trans hindent'
      exact .inr (.inr hpassed)

theorem Command.loop_stays_iff (h : loop user text s = .ok () t) (hm : s.message = some message)
    (hs : s.stackOf user = .conversation c :: rest)
    (ht : t.stackOf user = .conversation c' :: below) (hlines : c.lines = .list lines number)
    (hindex : c.index = .int i) :
    c'.index = .int i ↔ Keyword.loop.Stalls c lines i message.lineData text := by
  obtain ⟨d, hc, ⟨hnot, hstep⟩ | ⟨name, hends, hd⟩⟩ := loop_ok h hm hs ht
  · obtain ⟨j, hj, hlt⟩ := Edits.index_lt user (.step (by decide)) hstep hindex
    rw [hc, hj, int.injEq]
    refine iff_of_false (by omega) fun hstalls => ?_
    cases hstalls with
    | tight hends => exact hnot _ hends
  · rw [hc, endLoop_index_iff hd hlines hindex]
    constructor
    · rintro ⟨entry, start, hentry, hstart, hdone, hfirst⟩
      exact .tight hends hentry hstart hdone hfirst
    · intro hstalls
      cases hstalls with
      | tight hends' hentry hstart hdone hfirst =>
        cases hends.name_eq hends'
        exact ⟨_, _, hentry, hstart, hdone, hfirst⟩

theorem Command.goto_stays_iff (h : goto user text s = .ok () t) (hm : s.message = some message)
    (hs : s.stackOf user = .conversation c :: rest)
    (ht : t.stackOf user = .conversation c' :: below) (hlines : c.lines = .list lines number)
    (hindex : c.index = .int i) :
    c'.index = .int i ↔ Keyword.goto.Stalls c lines i message.lineData text ∨
      JumpsHere c lines i message.lineData text := by
  obtain ⟨target, d, hgoal, hc, ⟨hfalsy, hstep⟩ | ⟨htruthy, found, hfound, hjump⟩⟩ :=
    goto_ok h hm hs ht
  · obtain ⟨j, hj, hlt⟩ := Edits.index_lt user (.step (by decide)) hstep hindex
    rw [hc, hj, int.injEq]
    refine iff_of_false (by omega) ?_
    rintro (hstalls | ⟨target', n, hgoal', htruthy, -⟩)
    · cases hstalls with
      | nowhere hgoal' htruthy =>
        cases hgoal.symm.trans hgoal'
        cases hfalsy.symm.trans htruthy
    · cases hgoal.symm.trans hgoal'
      cases hfalsy.symm.trans htruthy
  · obtain rfl : lines = found := by
      rw [hlines] at hfound
      cases hfound
      rfl
    rw [hc, jump_index hjump]
    cases hfirst : lines.findIdx? target.isNumberOf with
    | none =>
      have hnone := findIdx?_eq_none_iff.1 hfirst
      exact iff_of_true hindex (.inl (.nowhere hgoal htruthy hnone))
    | some n =>
      simp only [Nat.zero_add, int.injEq]
      constructor
      · intro hi
        exact .inr ⟨target, n, hgoal, htruthy, hfirst, hi⟩
      · rintro (hstalls | ⟨target', n', hgoal', -, hfirst', hi⟩)
        · cases hstalls with
          | nowhere hgoal' _ hnone =>
            cases hgoal.symm.trans hgoal'
            rw [findIdx?_eq_none_iff.2 hnone] at hfirst
            cases hfirst
        · cases hgoal.symm.trans hgoal'
          cases hfirst.symm.trans hfirst'
          exact hi

end

/-- A command that decides which line comes next, ends well and leaves its script on the stack goes
to another line, unless it is a jump to its own line or one of the commands that stand still. -/
theorem Request.control_stays_iff {k : Keyword} (hk : k.isControl = true) {user v : Value}
    {text : String} {message : Message} {s t : Session} {c c' : Conversation}
    {rest below : List Entry} {lines : List Value} {number : Option Nat} {i : Int} {line : Value}
    (h : (Request.command k.name user text).run (some message) s = (.ok v, t))
    (hs : s.stackOf user = .conversation c :: rest)
    (ht : t.stackOf user = .conversation c' :: below) (hlength : below.length = rest.length)
    (hlines : c.lines = .list lines number) (hcomplete : ∀ line ∈ lines, line.Complete)
    (hindex : c.index = .int i) (hline : Value.itemAt lines i = .ok line) :
    c'.index = .int i ↔ k.Stalls c lines i message.lineData text ∨
      k = .goto ∧ Command.JumpsHere c lines i message.lineData text := by
  have hrun := Request.perform_of_run h
  have hmoves {j : Int} (hj : c'.index = .int j) (hlt : i < j) : c'.index ≠ .int i := by
    rw [hj, Ne, Value.int.injEq]
    omega
  have hother {k : Keyword} (hne : k ≠ .goto) (h : c'.index = .int i ↔ k.Stalls c lines i
      message.lineData text) : c'.index = .int i ↔ k.Stalls c lines i message.lineData text ∨
        k = .goto ∧ Command.JumpsHere c lines i message.lineData text := by
    rw [h]
    simp [hne]
  cases k with
  | branch =>
    obtain ⟨j, hj, hlt⟩ := Command.branch_ok hrun rfl hs ht hindex
    exact hother (by decide) (iff_of_false (hmoves hj hlt) nofun)
  | otherwise =>
    obtain ⟨j, hj, hlt⟩ := Command.otherwise_ok hrun hs ht hlength hindex
    exact hother (by decide) (iff_of_false (hmoves hj hlt) nofun)
  | case =>
    exact hother (by decide)
      (Command.case_stays_iff hrun rfl hs ht hlength hlines hcomplete hindex hline)
  | loop => exact hother (by decide) (Command.loop_stays_iff hrun rfl hs ht hlines hindex)
  | goto =>
    rw [Command.goto_stays_iff hrun rfl hs ht hlines hindex]
    simp
  | declare | execute | formula | speak | neonSpeak | nameSpeak | exit | subValues | subKey | set
  | reconvey | nameReconvey | email | language | run => cases hk

theorem lineOf_complete (command : String) (indent : Nat) (text : String) (number data : Value) :
    (lineOf command indent text number data).Complete :=
  ⟨⟨indent, lineOf_indent _ _ _ _ _⟩, text, lineOf_text _ _ _ _ _⟩

/-- The lines of a script: the second one is the one given, and behind it are the lines of an
option, up to the end. -/
def linesAround (k : Keyword) (text : String) : List Value :=
  [lineOf "" 0 "Script: demo" (.int 1) .null, lineOf k.name 0 text (.int 2) .null,
    lineOf "" 1 "yes" (.int 3) .null, lineOf "speak" 2 "Hi" (.int 4) .null]

def Conversation.ofLine (k : Keyword) (text : String) : Conversation :=
  { scriptMeta := .null, filename := "demo", startTime := 0, bindings := .emptyTable
    speaker := .emptyTable, loops := .object [("WEEKEND", .object [("start", .int 2)])]
    lines := .ofItems (linesAround k text) }

def Session.ofLine (k : Keyword) (text : String) : Session :=
  { initialized := true
    active := [("ann", { user := "ann", stack := [.conversation (.ofLine k text)] })] }

theorem Session.stackOf_ofLine (k : Keyword) (text : String) :
    (ofLine k text).stackOf "ann" = [.conversation (.ofLine k text)] := by
  simp [stackOf, managerIn, ofLine, str_same]

/-- A case that has an option of its value does not stand still. -/
theorem Request.control_stays_iff_case : ∃ c',
    (commanded "case" "case yes:" (ofLine .case "case yes:")).stackOf "ann" = [.conversation c'] ∧
      c'.index ≠ .int 1 := by
  obtain ⟨v, hrun⟩ := exists_ok_of_isOk (x := (Request.command Keyword.case.name "ann"
    "case yes:").run (some {}) (ofLine .case "case yes:")) (by decide +kernel)
  obtain ⟨c', hafter⟩ : ∃ c', (commanded "case" "case yes:"
      (ofLine .case "case yes:")).stackOf "ann" = [.conversation c'] := by
    have hplaces : ((commanded "case" "case yes:" (ofLine .case "case yes:")).stackOf "ann").map
        Entry.place = [some 3] := by decide +kernel
    obtain ⟨e, hstack, hplace⟩ := List.map_eq_singleton_iff.1 hplaces
    cases e with
    | conversation c' => exact ⟨c', hstack⟩
    | foreign v => cases hplace
  refine ⟨c', hafter, ?_⟩
  have hvalue : Command.tested .null (.str "case yes:") = .ok (.str "yes") := by
    have hmember : Value.member " " (.str "case yes:") = .ok true := rfl
    have hsplit : Text.split " " "case yes:" = ["case", "yes:"] := by decide
    have hword : Text.trim (Text.replace ":" "" "yes:") = "yes" := by decide
    simp only [Command.tested, Value.truthy, Bool.false_eq_true, if_false, Command.caseValue, hmember,
      bind, Except.bind, if_true, Value.display, hsplit, hword]
    rfl
  have hoption : Value.itemAt (linesAround .case "case yes:") 2 =
      .ok (lineOf "" 1 "yes" (.int 3) .null) := rfl
  have hlines : (Conversation.ofLine .case "case yes:").lines =
      .list (linesAround .case "case yes:") none := rfl
  have hline : Value.itemAt (linesAround .case "case yes:") 1 =
      .ok (lineOf "case" 0 "case yes:" (.int 2) .null) := rfl
  rw [Ne, control_stays_iff (k := .case) (by decide) hrun (stackOf_ofLine _ _) hafter rfl hlines
    (by simp [linesAround, lineOf_complete]) rfl hline]
  rintro (hstalls | ⟨hgoto, -⟩)
  · cases hstalls with
    | unvalued hvalue' hfalsy =>
      cases hvalue.symm.trans hvalue'
      cases hfalsy
    | wrapped hi => cases hi
    | unmatched hvalue' hline' hindent hpassed =>
      cases hvalue.symm.trans hvalue'
      cases hline.symm.trans hline'
      cases (lineOf_indent "case" 0 "case yes:" (.int 2) .null).symm.trans hindent
      obtain ⟨n, text, hn, htext, -, hother⟩ := hpassed 2 _ (by decide) hoption
      cases (lineOf_indent "" 1 "yes" (.int 3) .null).symm.trans hn
      cases (lineOf_text "" 1 "yes" (.int 3) .null).symm.trans htext
      simpa [Value.str_same] using hother rfl "yes" (by decide)
  · cases hgoto

def Keyword.Repeats (k : Keyword) (text : String) : Prop :=
  ((Request.command k.name "ann" text).run (some {}) (ofLine k text)).1.isOk = true ∧
    ((commanded k.name text (ofLine k text)).stackOf "ann").map Entry.place = [some 1]

/-- A jump to a number that no line has, a case without an option of its value and the first line of
a loop with the end in its name: all stay where they are. -/
theorem Request.control_repeats : Keyword.goto.Repeats "99" ∧ Keyword.case.Repeats "case no:" ∧
    Keyword.loop.Repeats "LOOP WEEKEND" := by
  unfold Keyword.Repeats
  decide +kernel

end Colloquy
