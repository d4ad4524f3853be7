import Colloquy.Proofs.Straight

/-! A case executes one option.  Its line looks for the first option that has the value, by the
indents of the lines behind it, and goes to the line behind that option.  That the next option is not
run as well is left to the line of that option: it is less indented than what was run before and has
the case among its parents, and so it leads behind the case. -/

namespace Colloquy

open Session Execution Command Value

variable {line : Value} {inner rest : List Value} {i : Nat}

/-! ### The script -/

/-- A spoken line in an option of a case that stands at an indent. -/
structure CaseLine (names : Entries) (indent : Nat) where
  line : Value
  phrase : String
  speaks : ∃ (k : Keyword) (text : String) (outer : List Value) (data : Value),
    (k = .speak ∨ k = .neonSpeak) ∧
    line.HasParts k.name text ((indent + 2 : Nat)) (outer ++ [Value.int indent]) data ∧
    Literal names text ∧ data.IsSpeech phrase

/-- An option of a case that stands at an indent. -/
structure CaseOption (names : Entries) (indent : Nat) where
  line : Value
  text : String
  opens : ∃ (command : String) (outer : List Value) (data : Value),
    line.HasParts command text ((indent + 1 : Nat)) (outer ++ [Value.int indent]) data
  body : List (CaseLine names indent)
  nonempty : body ≠ []

namespace CaseOption

variable {names : Entries} {indent : Nat}

def lines (o : CaseOption names indent) : List Value :=
  o.line :: o.body.map (·.line)

/-- Whether a value is one of the alternatives of the option. -/
def accepts (value : String) (o : CaseOption names indent) : Bool :=
  (alternatives (.str o.text)).contains value

def said (o : CaseOption names indent) : List Value :=
  o.body.filterMap fun l => spokenOf l.phrase

end CaseOption

/-- A case of a script with its options, and the lines behind it. -/
structure CaseBlock where
  lines : List Value
  names : Entries
  first : Nat
  first_pos : 0 < first
  indent : Nat
  /-- The value that is looked for. -/
  value : String
  value_nonempty : value ≠ ""
  options : List (CaseOption names indent)
  behind : Value
  rest : List Value
  opening : ∃ (line : Value) (text : String) (parents : List Value) (data : Value),
    lines.drop first = line :: (options.flatMap CaseOption.lines ++ behind :: rest) ∧
    line.HasParts Keyword.case.name text indent parents data ∧ Literal names text ∧
    PlainData data ∧ data.truthy = true ∧ data.get "variable" = .ok (.str value)
  closing : ∃ (command text : String) (outer : Nat) (data : Value),
    behind.IsLine command text outer data ∧ outer ≤ indent

def CaseBlock.last (b : CaseBlock) : Nat :=
  b.first + 1 + (b.options.flatMap CaseOption.lines).length

/-! ### Looking for the option -/

section

variable {names : Entries} {indent : Nat} {value : String}

theorem caseStep_of_outer {outer : Nat} (hline : line.item "indent" = .ok (.int outer))
    (houter : outer ≤ indent) : caseStep (.int indent) (.str value) line = .ok .again := by
  have hle : (Value.int outer).compare .atMost (.int indent) = .ok true := by
    rw [Value.compare_int]
    exact congrArg Except.ok (decide_eq_true (by omega))
  simp only [caseStep, hline, hle, bind, Except.bind, if_true]
  rfl

theorem CaseLine.caseStep (l : CaseLine names indent) :
    caseStep (.int indent) (.str value) l.line = .ok .pass := by
  obtain ⟨k, text, outer, data, -, hparts, -⟩ := l.speaks
  have hle : (Value.int ((indent + 2 : Nat))).compare .atMost (.int indent) = .ok false := by
    rw [Value.compare_int]
    exact congrArg Except.ok (decide_eq_false (by omega))
  have hgt : (Value.int ((indent + 2 : Nat))).compare .greater (.int (indent + 1)) = .ok true := by
    rw [Value.compare_int]
    exact congrArg Except.ok (decide_eq_true (by omega))
  have hnext : (Value.int indent).addInt 1 = .ok (.int (indent + 1)) := rfl
  simp only [Command.caseStep, hparts.indent, hle, hnext, hgt, bind, Except.bind, if_true,
    Bool.false_eq_true, if_false]
  rfl

theorem CaseOption.caseStep (o : CaseOption names indent) :
    caseStep (.int indent) (.str value) o.line =
      .ok (if o.accepts value then .enter else .pass) := by
  obtain ⟨command, outer, data, hparts⟩ := o.opens
  have hle : (Value.int ((indent + 1 : Nat))).compare .atMost (.int indent) = .ok false := by
    rw [Value.compare_int]
    exact congrArg Except.ok (decide_eq_false (by omega))
  have hgt : (Value.int ((indent + 1 : Nat))).compare .greater (.int (indent + 1)) = .ok false := by
    rw [Value.compare_int]
    exact congrArg Except.ok (decide_eq_false (by omega))
  have hnext : (Value.int indent).addInt 1 = .ok (.int (indent + 1)) := rfl
  have hany : ((alternatives (.str o.text)).any fun option => (Value.str value).same option) =
      o.accepts value := by
    simp only [CaseOption.accepts, List.contains_eq_any_beq, Value.str_same]
  simp only [Command.caseStep, hparts.indent, hparts.text, hle, hnext, hgt, bind, Except.bind,
    Bool.false_eq_true, if_false, hany]
  rfl

theorem CaseOption.caseStep_of_mem {o : CaseOption names indent} (ho : o.accepts value = false)
    (hline : line ∈ o.lines) : Command.caseStep (.int indent) (.str value) line = .ok .pass := by
  rcases List.mem_cons.1 hline with rfl | hbody
  · rw [o.caseStep, ho]
    rfl
  · obtain ⟨l, -, rfl⟩ := List.mem_map.1 hbody
    exact l.caseStep

theorem caseTarget_append {lines : List Value} {number : Option Nat} {index : Value} {fuel : Nat}
    (hdrop : lines.drop i = inner ++ rest)
    (hinner : ∀ line ∈ inner, caseStep (.int indent) (.str value) line = .ok .pass) :
    caseTarget (.list lines number) (.int indent) (.str value) index (inner.length + fuel) i =
      caseTarget (.list lines number) (.int indent) (.str value) index fuel
        ((i + inner.length : Nat)) := by
  induction inner generalizing i with
  | nil => simp
  | cons line inner ih =>
    obtain ⟨hline, hall⟩ := List.forall_mem_cons.1 hinner
    have hitem : (list lines number).item (.int i) = .ok line := by
      simp only [Value.item, asInt?, itemAt_nat (getElem?_of_drop hdrop)]
    have hlength : (line :: inner).length + fuel = inner.length + fuel + 1 := by
      rw [List.length_cons]
      omega
    have hi : i + (line :: inner).length = i + 1 + inner.length := by
      rw [List.length_cons]
      omega
    rw [hlength, hi, caseTarget, hitem]
    simp only [bind, Except.bind, hline]
    exact ih (drop_succ hdrop) hall

theorem caseTarget_stop {lines : List Value} {stop : Value} {number : Option Nat} {index fuel : Nat}
    (hdrop : lines.drop i = inner ++ stop :: rest)
    (hinner : ∀ line ∈ inner, caseStep (.int indent) (.str value) line = .ok .pass)
    {step : CaseStep} (hstop : caseStep (.int indent) (.str value) stop = .ok step)
    (hstep : step ≠ .pass) :
    caseTarget (.list lines number) (.int indent) (.str value) (.int index)
      (inner.length + (fuel + 1)) i =
        some (.int (if step = .enter then ((i + inner.length + 1 : Nat)) else index - 1)) := by
  have hitem : (list lines number).item (.int ((i + inner.length : Nat))) = .ok stop := by
    simp only [Value.item, asInt?, itemAt_nat (getElem?_of_drop (drop_append hdrop))]
  rw [caseTarget_append hdrop hinner, caseTarget, hitem]
  simp only [bind, Except.bind, hstop]
  cases step with
  | pass => exact absurd rfl hstep
  | enter => rfl
  | again => rfl

end

theorem Conversation.At.chooseCase {c : Conversation} {lines : List Value} {names : Entries}
    {indent : Nat} {value : String} (h : c.At lines names i) (hdrop : lines.drop i = line :: rest)
    (hindent : line.item "indent" = .ok (.int indent)) (hvalue : value ≠ "") {target : Value}
    (htarget : ∀ number, caseTarget (.list lines number) (.int indent) (.str value) (.int i) (rest.length + 1) (i + 1) = some target)
    : chooseCase (.str value) { conversation := c } =
      .ok () { conversation := { c with index := target } } := by
  obtain ⟨number, hlines⟩ := h.lines
  have hnext : (Value.int i).addInt 1 = .ok (.int (i + 1)) := rfl
  have htruthy : ((Value.int (i + 1)).truthy && (Value.str value).truthy) = true := by
    simp only [truthy, Bool.and_eq_true]
    refine ⟨?_, by simpa using hvalue⟩
    simp
    omega
  have hsize : c.lines.size = .ok lines.length := by rw [hlines, size]
  have hfound : caseTarget c.lines (.int indent) (.str value) (.int i) (rest.length + 1) (i + 1) =
      some target := by
    rw [hlines]
    exact htarget number
  have hfuel : ((lines.length : Int) + 1 - (i + 1)).toNat = rest.length + 1 := by
    have hlength := congrArg List.length hdrop
    rw [List.length_drop, List.length_cons] at hlength
    omega
  rw [Command.chooseCase, bind_of_ok (Edit.read_apply _),
    bind_of_ok (h.here (getElem?_of_drop hdrop) "indent" hindent), h.index, hnext,
    bind_of_ok (lift_ok_apply _ _), if_pos htruthy]
  simp only [asInt?]
  rw [hsize, bind_of_ok (lift_ok_apply _ _), hfuel, hfound]
  rfl

theorem chooseCase_fixes (value : Value) :
    Fixes (fun d => d.conversation.lastIndent) (chooseCase value) := by
  refine .bind .read fun c => .bind (.bind .read fun _ => .bind (.lift _) fun _ => .lift _)
    fun indent => .bind (.lift _) fun next => ite ?_ (.pure ())
  split
  · exact .pure ()
  · refine .bind (.lift _) fun size => ?_
    dsimp only
    split
    · exact .update fun _ => rfl
    · exact .pure ()

theorem CaseOption.deeper_of_mem {names : Entries} {indent : Nat} {o : CaseOption names indent}
    (hline : line ∈ o.lines) : line.Deeper indent := by
  rcases List.mem_cons.1 hline with rfl | hbody
  · obtain ⟨command, outer, data, hparts⟩ := o.opens
    exact ⟨command, indent + 1, hparts.command, hparts.indent, by omega⟩
  · obtain ⟨l, -, rfl⟩ := List.mem_map.1 hbody
    obtain ⟨k, text, outer, data, -, hparts, -⟩ := l.speaks
    exact ⟨k.name, indent + 2, hparts.command, hparts.indent, by omega⟩

theorem placed_option (indent : Nat) (outer : List Value) :
    placed ((indent + 1 : Nat)) ((indent + 2 : Nat)) (outer ++ [Value.int indent]) =
      .ok (.otherOption (.int indent)) := by
  have hoption : (Value.int indent).addInt 1 = .ok (.int ((indent + 1 : Nat))) := rfl
  have hsame : (Value.int ((indent + 1 : Nat))).same (.int ((indent + 1 : Nat))) = true := by
    rw [same_int]
    exact beq_self_eq_true _
  rw [placed, if_pos (by omega), List.reverse_append, List.reverse_singleton, List.singleton_append,
    outdent, hoption]
  simp only [bind, Except.bind, hsame, if_true]
  rfl

/-! ### Running lines of a case -/

/-- The line is the one that is run next. -/
def Execution.RunsNext (user : Value) (s : Session) (line : Value) : Prop :=
  ∃ c command text u, AtLine user s c line command text u ∧
    advance user s = runLine c user line command text u

theorem Session.Top.oneOn {user indent : Value} {s t : Session}
    (h : s.Top user (·.lastIndent = indent)) (hone : OneOn (s.stackOf user) (t.stackOf user)) :
    t.Top user (·.lastIndent = indent) := by
  intro m c below hm hstack
  generalize hs : s.stackOf user = old at hone
  rw [stackOf_eq hm, hstack] at hone
  cases hone with
  | @script c₀ _ rest changes hcontrol _ =>
    obtain ⟨m₀, hm₀, hstack₀⟩ := exists_managerIn_of_stackOf hs
    exact (congrArg Control.lastIndent hcontrol).trans (h m₀ c₀ rest hm₀ hstack₀)

namespace Standing

variable {user : Value} {lines rest : List Value} {names : Entries} {i j indent : Nat} {s t : Session}

theorem runsNext (h : Standing user lines names i s) (hline : lines[i]? = some line)
    {command text : String} {indent : Int} {parents : List Value} {data : Value}
    (hparts : line.HasParts command text indent parents data)
    (htop : s.Top user fun c => ∃ last : Int, c.lastIndent = .int last ∧ placed indent last parents = .ok .inside)
    : RunsNext user s line := by
  obtain ⟨c, t, hat, hstack, hedit, -, -, -, -, hadvance⟩ := h.advance_placed hline hparts htop
  obtain ⟨number, hlines⟩ := hat.lines
  have hitem : c.lines.item c.index = .ok line := by
    simp only [hlines, hat.index, Value.item, asInt?, itemAt_nat hline]
  exact ⟨c, .str command, .str text, t,
    ⟨hstack, hitem, hparts.command, hparts.text, .int indent, hparts.indent, hedit⟩, hadvance⟩

theorem advance_case (h : Standing user lines names i s) {text value : String}
    {parents : List Value} {data : Value} (hdrop : lines.drop i = line :: rest)
    (hparts : line.HasParts Keyword.case.name text indent parents data)
    (htop : s.Top user fun c => ∃ last : Int, c.lastIndent = .int last ∧ last ≤ indent)
    (htext : Literal names text) (hplain : PlainData data) (htruthy : data.truthy = true)
    (hvalue : data.get "variable" = .ok (.str value)) (hnonempty : value ≠ "")
    (htarget : ∀ number, caseTarget (.list lines number) (.int indent) (.str value) (.int i) (rest.length + 1) (i + 1) = some (.int j))
    : ∃ t, advance user s = .ok true t ∧ Standing user lines names j t ∧
      t.Top user (·.lastIndent = .int indent) ∧ Alike user s t ∧ t.spoken = s.spoken := by
  have hinside : s.Top user fun c => ∃ last : Int, c.lastIndent = .int last ∧
      placed indent last parents = .ok .inside := by
    intro m c below hm hstack
    obtain ⟨last, hlast, hle⟩ := htop m c below hm hstack
    exact ⟨last, hlast, if_neg (by omega)⟩
  obtain ⟨t, hstage, hindent, halike, hevents, hadvance⟩ :=
    h.advance_command_in (getElem?_of_drop hdrop) hparts hinside
  obtain ⟨text', hcommandText⟩ := hstage.commandText_ok (k := .case) (by decide) htext
  obtain ⟨message, hm, -⟩ := hstage.message
  obtain ⟨u, hpass, haside, hlineData⟩ := passData_ok hm .case user hparts.data hplain
  have hstage' := hstage.aside haside
  obtain ⟨m, c, below, -, hmanager, hstack, -⟩ := hstage'.current
  have hcurrent : currentAt user u = .ok (some c) u := by
    rw [currentAt, bind_of_ok (managerAt_of_some h.isKey hmanager), top_of_stack hstack]
  have hchoose (c : Conversation) (hc : c.At lines names i) :=
    hc.chooseCase hdrop hparts.indent hnonempty htarget
  obtain ⟨v, hedit, hnext, halike', -, hevents', -⟩ := hstage'.edit (j := j) (a := ())
    fun c hc => ⟨_, hchoose c hc, rfl, rfl, hc.lastIndent⟩
  have hperform : Keyword.case.perform user text' u = .ok () v := by
    rw [Keyword.perform, case, bind_of_ok hcurrent, bind_of_ok hlineData, if_pos htruthy,
      hvalue, bind_of_ok (lift_ok_apply _ _), hedit]
  have hindent' : u.Top user (·.lastIndent = .int indent) :=
    hindent.of_active (congrArg active haside.rest :)
  refine ⟨v, ?_, hnext, ?_, halike.trans ((haside.alike user).trans halike'), ?_⟩
  · rw [hadvance text' hcommandText, bind_of_ok hpass, bind_of_ok hperform, hnext.isActive]
  · refine hindent'.edit hedit fun c draft next hc hrun => ?_
    have hsame := chooseCase_fixes (.str value) { conversation := c }
    simp only [Draft.after, hrun] at hsame
    exact hsame.trans hc
  · rw [spoken_congr hevents', haside.spoken, spoken_congr hevents]

theorem advance_caseLine (h : Standing user lines names i s) (l : CaseLine names indent)
    (hline : lines[i]? = some l.line)
    (htop : s.Top user fun c => ∃ last : Int, c.lastIndent = .int last ∧ last ≤ (indent + 2 : Nat)) :
    ∃ t, advance user s = .ok true t ∧ Standing user lines names (i + 1) t ∧
      t.Top user (·.lastIndent = .int ((indent + 2 : Nat))) ∧ Alike user s t ∧
        t.spoken = s.spoken ++ (spokenOf l.phrase).toList := by
  obtain ⟨k, text, outer, data, hk, hparts, htext, hdata⟩ := l.speaks
  have hinside : s.Top user fun c => ∃ last : Int, c.lastIndent = .int last ∧
      placed ((indent + 2 : Nat)) last (outer ++ [Value.int indent]) = .ok .inside := by
    intro m c below hm hstack
    obtain ⟨last, hlast, hle⟩ := htop m c below hm hstack
    exact ⟨last, hlast, if_neg (by omega)⟩
  obtain ⟨v, hadvance, hnext, halike, hspoken⟩ :=
    h.advance_speech_in hk hline hparts hinside htext hdata
  refine ⟨v, hadvance, hnext, ?_, halike, hspoken⟩
  -- The indent is noted before the line is spoken, and speaking leaves it alone.
  obtain ⟨t, hstage, hindent, -, -, hrun⟩ := h.advance_command_in hline hparts hinside
  have hbranch : k ≠ .branch := by rcases hk with rfl | rfl <;> decide
  have hstraight : k.isStraight = true := by rcases hk with rfl | rfl <;> rfl
  obtain ⟨text', hcommandText⟩ := hstage.commandText_ok hbranch htext
  obtain ⟨message, hm, -⟩ := hstage.message
  obtain ⟨u, hpass, haside, -⟩ := passData_ok hm k user hparts.data hdata.plain
  rw [hrun text' hcommandText, bind_of_ok hpass] at hadvance
  obtain ⟨_, v', hperform, hlast⟩ := bind_ok_iff.1 hadvance
  have hone := (Keyword.perform_stepsOn hstraight user text').oneOn u _ v' hperform
  have hsame : v'.active = v.active := by
    rw [← after_of_ok hlast, after_bind_of_looks fun _ => .pure _, Looks.manager? user v']
  have hindent' : u.Top user (·.lastIndent = .int ((indent + 2 : Nat))) :=
    hindent.of_active (congrArg active haside.rest :)
  exact (hindent'.oneOn hone).of_active hsame.symm

theorem speakLines (body : List (CaseLine names indent)) (h : Standing user lines names i s)
    (hdrop : lines.drop i = body.map (·.line) ++ rest)
    (htop : s.Top user fun c => ∃ last : Int, c.lastIndent = .int last ∧ last ≤ (indent + 2 : Nat)) :
    ∃ t, Goes user body.length s t ∧ Standing user lines names (i + body.length) t ∧
      (body ≠ [] → t.Top user (·.lastIndent = .int ((indent + 2 : Nat)))) ∧ Alike user s t ∧
        t.spoken = s.spoken ++ body.filterMap fun l => spokenOf l.phrase := by
  induction body generalizing i s with
  | nil =>
    exact ⟨s, .refl s, h, fun hne => absurd rfl hne, .refl user s, (List.append_nil _).symm⟩
  | cons l body ih =>
    obtain ⟨t, hadvance, hnext, hindent, halike, hspoken⟩ :=
      h.advance_caseLine l (getElem?_of_drop hdrop) htop
    have htop' : t.Top user fun c => ∃ last : Int, c.lastIndent = .int last ∧
        last ≤ (indent + 2 : Nat) :=
      fun m c below hm hstack => ⟨_, hindent m c below hm hstack, by omega⟩
    obtain ⟨u, hgoes, hlast, hindent', halike', hspoken'⟩ := ih hnext (drop_succ hdrop) htop'
    obtain ⟨message, hm, -⟩ := h.message
    refine ⟨u, .step (by rw [hm]; rfl) hadvance hgoes, ?_, fun _ => ?_, halike.trans halike', ?_⟩
    · rw [List.length_cons, show i + (body.length + 1) = i + 1 + body.length by omega]
      exact hlast
    · by_cases hbody : body = []
      · subst hbody
        cases hgoes
        exact hindent
      · exact hindent' hbody
    · rw [hspoken', hspoken, List.append_assoc, List.filterMap_cons]
      cases spokenOf l.phrase <;> rfl

theorem advance_otherOption (h : Standing user lines names (i + 1) s) {o : CaseOption names indent}
    {later : List (CaseOption names indent)} {behind : Value} {outer : Nat}
    (hdrop : lines.drop (i + 1) = (o :: later).flatMap CaseOption.lines ++ behind :: rest)
    (hindent : behind.item "indent" = .ok (.int outer)) (houter : outer ≤ indent)
    (htop : s.Top user (·.lastIndent = .int ((indent + 2 : Nat)))) :
    ∃ t, advance user s = .ok true t ∧
      Standing user lines names (i + 1 + ((o :: later).flatMap CaseOption.lines).length) t ∧
        Alike user s t ∧ t.spoken = s.spoken := by
  obtain ⟨command, parents, data, hparts⟩ := o.opens
  have hline : lines[i + 1]? = some o.line := by
    rw [List.flatMap_cons, CaseOption.lines, List.cons_append, List.cons_append] at hdrop
    exact getElem?_of_drop hdrop
  have hother : s.Top user fun c => ∃ last : Int, c.lastIndent = .int last ∧
      placed ((indent + 1 : Nat)) last (parents ++ [Value.int indent]) =
        .ok (.otherOption (.int indent)) :=
    fun m c below hm hstack => ⟨_, htop m c below hm hstack, placed_option indent parents⟩
  obtain ⟨c, t, -, -, -, hstage, -, halike, hevents, hadvance⟩ :=
    h.advance_placed hline hparts hother
  have hdeeper : ∀ line ∈ (o :: later).flatMap CaseOption.lines, line.Deeper indent := by
    intro line hline
    obtain ⟨o', -, hmem⟩ := List.mem_flatMap.1 hline
    exact CaseOption.deeper_of_mem hmem
  generalize (o :: later).flatMap CaseOption.lines = inner at hdrop hdeeper ⊢
  have hseek : ∀ c : Conversation, c.At lines names (i + 1) → ∃ c' : Conversation,
      (do seekOutdent (.int indent) (← linesLeft (← Edit.read)) : Edit Bool) { conversation := c } =
        .ok false { conversation := c' } ∧ c'.bare = c.bare ∧
        c'.index = .int ((i + 1 + inner.length : Nat)) ∧
        ∃ indent : Int, c'.lastIndent = .int indent := by
    intro c hc
    obtain ⟨number, hlines⟩ := hc.lines
    obtain ⟨fuel, hfuel⟩ := linesLeft_ok hc.lines hc.index hdrop
    refine ⟨{ c with index := .int ((i + 1 + inner.length : Nat)) }, ?_, rfl, rfl, hc.lastIndent⟩
    have hplace : ({ conversation := c } : Draft) =
        { conversation := { c with index := .int ((i + 1 : Nat)) } } := by rw [← hc.index]
    rw [bind_of_ok (Edit.read_apply _), hfuel, bind_of_ok (lift_ok_apply _ _), hplace]
    exact seekOutdent_ok hlines hdrop hdeeper hindent houter
  obtain ⟨u, hedit, hnext, halike', -, hevents', -⟩ := hstage.edit hseek
  refine ⟨u, ?_, hnext, halike.trans halike', by rw [spoken_congr hevents', spoken_congr hevents]⟩
  have hleave : leaveCase user (.int indent) t = .ok () u := bind_of_ok hedit
  rw [hadvance]
  exact bind_of_ok hleave

end Standing

/-! ### The case -/

namespace CaseBlock

variable {user : Value} {s : Session}

/-- The line of the case leads to where the search ends: behind the line of the option that has the
value, or to the line before the case. -/
theorem opens (b : CaseBlock) (h : Standing user b.lines b.names b.first s)
    (htop : s.Top user fun c => ∃ last : Int, c.lastIndent = .int last ∧ last ≤ b.indent)
    {stop : Value} {step : CaseStep} {j : Nat}
    (hlines : b.options.flatMap CaseOption.lines ++ b.behind :: b.rest = inner ++ stop :: rest)
    (hinner : ∀ line ∈ inner, caseStep (.int b.indent) (.str b.value) line = .ok .pass)
    (hstop : caseStep (.int b.indent) (.str b.value) stop = .ok step) (hstep : step ≠ .pass)
    (hj : (j : Int) = if step = .enter then ((b.first + 1 + inner.length + 1 : Nat) : Int) else b.first - 1)
    : ∃ t, Goes user 1 s t ∧ Standing user b.lines b.names j t ∧
      t.Top user (·.lastIndent = .int b.indent) ∧ Alike user s t ∧ t.spoken = s.spoken := by
  obtain ⟨line, text, parents, data, hdrop, hparts, htext, hplain, htruthy, hvalue⟩ := b.opening
  rw [hlines] at hdrop
  have htarget (number : Option Nat) : caseTarget (.list b.lines number) (.int b.indent)
      (.str b.value) (.int b.first) ((inner ++ stop :: rest).length + 1) (b.first + 1) =
        some (.int j) := by
    rw [List.length_append, List.length_cons,
      show inner.length + (rest.length + 1) + 1 = inner.length + ((rest.length + 1) + 1) by omega, hj]
    exact caseTarget_stop (drop_succ hdrop) hinner hstop hstep
  obtain ⟨t, hadvance, hnext, hindent, halike, hspoken⟩ := h.advance_case hdrop hparts htop htext
    hplain htruthy hvalue b.value_nonempty htarget
  obtain ⟨message, hm, -⟩ := h.message
  exact ⟨t, .step (by rw [hm]; rfl) hadvance (.refl t), hnext, hindent, halike, hspoken⟩

theorem executes_option (b : CaseBlock) (h : Standing user b.lines b.names b.first s)
    (htop : s.Top user fun c => ∃ last : Int, c.lastIndent = .int last ∧ last ≤ b.indent)
    {o : CaseOption b.names b.indent} (ho : b.options.find? (·.accepts b.value) = some o) :
    ∃ n t, n ≤ o.body.length + 2 ∧ Goes user n s t ∧ Standing user b.lines b.names b.last t ∧
      Alike user s t ∧ t.spoken = s.spoken ++ o.said := by
  obtain ⟨haccepts, earlier, later, hoptions, hearlier⟩ := List.find?_eq_some_iff_append.1 ho
  obtain ⟨line, -, -, -, hdrop, -⟩ := b.opening
  obtain ⟨command, text, outer, data, hbehind, houter⟩ := b.closing
  have hlines : b.options.flatMap CaseOption.lines ++ b.behind :: b.rest =
      earlier.flatMap CaseOption.lines ++ o.line ::
        (o.body.map (·.line) ++ (later.flatMap CaseOption.lines ++ b.behind :: b.rest)) := by
    simp [hoptions, CaseOption.lines]
  have hpass : ∀ line ∈ earlier.flatMap CaseOption.lines,
      caseStep (.int b.indent) (.str b.value) line = .ok .pass := by
    intro line hline
    obtain ⟨o', ho', hmem⟩ := List.mem_flatMap.1 hline
    exact CaseOption.caseStep_of_mem (by simpa using hearlier o' ho') hmem
  have hlast : b.last = b.first + 1 + (earlier.flatMap CaseOption.lines).length + 1 +
      o.body.length + (later.flatMap CaseOption.lines).length := by
    simp only [last, hoptions, List.flatMap_append, List.flatMap_cons, CaseOption.lines,
      List.length_append, List.length_cons, List.length_map]
    omega
  obtain ⟨t, hgoes, hfirst, hindent, halike, hspoken⟩ := b.opens h htop hlines hpass o.caseStep
    (by rw [haccepts]; decide) (by rw [haccepts]; rfl)
  have hbody : b.lines.drop (b.first + 1 + (earlier.flatMap CaseOption.lines).length + 1) =
      o.body.map (·.line) ++ (later.flatMap CaseOption.lines ++ b.behind :: b.rest) :=
    drop_succ (drop_append (by rw [drop_succ hdrop, hlines]))
  obtain ⟨u, hgoes', hend, hindent', halike', hspoken'⟩ := hfirst.speakLines o.body hbody
    fun m c below hm hstack => ⟨_, hindent m c below hm hstack, by omega⟩
  have hsaid : u.spoken = s.spoken ++ o.said := by rw [hspoken', hspoken]; rfl
  cases later with
  | nil =>
    refine ⟨1 + o.body.length, u, by omega, hgoes.trans hgoes', ?_, halike.trans halike', hsaid⟩
    rw [hlast]
    exact hend
  | cons o' later =>
    -- The next line is that of another option, which leads behind the case.
    have hrest := drop_append hbody
    rw [List.length_map, Nat.add_right_comm _ 1 o.body.length] at hrest
    rw [Nat.add_right_comm _ 1 o.body.length] at hend
    obtain ⟨v, hadvance, hbehind', halike'', hspoken''⟩ :=
      hend.advance_otherOption hrest hbehind.indent houter (hindent' o.nonempty)
    obtain ⟨message, hm, -⟩ := hend.message
    refine ⟨1 + o.body.length + 1, v, by omega,
      (hgoes.trans hgoes').trans (.step (by rw [hm]; rfl) hadvance (.refl v)), ?_,
      (halike.trans halike').trans halike'', hspoken''.trans hsaid⟩
    rw [hlast, Nat.add_right_comm _ 1 o.body.length]
    exact hbehind'

theorem asks_again (b : CaseBlock) (h : Standing user b.lines b.names b.first s)
    (htop : s.Top user fun c => ∃ last : Int, c.lastIndent = .int last ∧ last ≤ b.indent)
    (hnone : ∀ o ∈ b.options, o.accepts b.value = false) :
    ∃ t, Goes user 1 s t ∧ Standing user b.lines b.names (b.first - 1) t ∧
      t.Top user (·.lastIndent = .int b.indent) ∧ Alike user s t ∧ t.spoken = s.spoken := by
  obtain ⟨command, text, outer, data, hbehind, houter⟩ := b.closing
  have hpos := b.first_pos
  refine b.opens h htop rfl (fun line hline => ?_) (caseStep_of_outer hbehind.indent houter)
    (by decide) (by simp only [reduceCtorEq, if_false]; omega)
  obtain ⟨o, ho, hmem⟩ := List.mem_flatMap.1 hline
  exact CaseOption.caseStep_of_mem (hnone o ho) hmem

/-- A case executes the first option that has the value: the phrases of its lines are spoken in
order, and then the line behind the case is run.  If no option has the value, nothing is spoken and
the line before the case comes next.  That line is run, unless it opens an option of a case around
this one; then that case is left. -/
theorem executes_one (b : CaseBlock) (h : Standing user b.lines b.names b.first s)
    (htop : s.Top user fun c => ∃ last : Int, c.lastIndent = .int last ∧ last ≤ b.indent) :
    (∀ o, b.options.find? (·.accepts b.value) = some o →
      ∃ n t, n ≤ o.body.length + 2 ∧ Goes user n s t ∧
        (∀ budget, (s.after (proceed (budget + n) user)).spoken =
          (t.after (proceed budget user)).spoken) ∧
        t.spoken = s.spoken ++ o.said ∧ Standing user b.lines b.names b.last t ∧
        RunsNext user t b.behind) ∧
    ((∀ o ∈ b.options, o.accepts b.value = false) →
      ∃ t, Goes user 1 s t ∧
        (∀ budget, (s.after (proceed (budget + 1) user)).spoken =
          (t.after (proceed budget user)).spoken) ∧
        t.spoken = s.spoken ∧ Standing user b.lines b.names (b.first - 1) t ∧
        ∀ line command text indent parents data, b.lines[b.first - 1]? = some line →
          line.HasParts command text indent parents data →
          (placed indent b.indent parents = .ok .inside → RunsNext user t line) ∧
          ∀ parent, placed indent b.indent parents = .ok (.otherOption parent) →
            ∃ u, Alike user t u ∧ u.events = t.events ∧ advance user t = (do
              leaveCase user parent
              return true) u) := by
  refine ⟨fun o ho => ?_, fun hnone => ?_⟩
  · obtain ⟨n, t, hn, hgoes, hstanding, -, hspoken⟩ := b.executes_option h htop ho
    obtain ⟨command, text, outer, data, hbehind, -⟩ := b.closing
    obtain ⟨line, -, -, -, hdrop, -⟩ := b.opening
    refine ⟨n, t, hn, hgoes, hgoes.proceed_spoken, hspoken, hstanding, ?_⟩
    exact hstanding.runsNext (getElem?_of_drop (drop_append (drop_succ hdrop))) hbehind.hasParts
      (hstanding.top_placed_nil outer)
  · obtain ⟨t, hgoes, hstanding, hindent, -, hspoken⟩ := b.asks_again h htop hnone
    refine ⟨t, hgoes, hgoes.proceed_spoken, hspoken, hstanding, ?_⟩
    intro line command text indent parents data hline hparts
    have hplace {place : Outdent} (hplaced : placed indent b.indent parents = .ok place) :
        t.Top user fun c => ∃ last : Int, c.lastIndent = .int last ∧
          placed indent last parents = .ok place :=
      fun m c below hm hstack => ⟨b.indent, hindent m c below hm hstack, hplaced⟩
    refine ⟨fun hinside => hstanding.runsNext hline hparts (hplace hinside), fun parent hother => ?_⟩
    obtain ⟨c, u, -, -, -, -, -, halike, hevents, hadvance⟩ :=
      hstanding.advance_placed hline hparts (hplace hother)
    exact ⟨u, halike, hevents, hadvance⟩

def lineIn (parents : List Value) (command : String) (indent : Nat) (text : String) (data : Value) :
    Value :=
  .object [("command", .str command), ("text", .str text), ("indent", .int indent),
    ("data", data), ("parent_case_indents", .ofItems parents)]

theorem lineIn_hasParts (parents : List Value) (command : String) (indent : Nat) (text : String)
    (data : Value) :
    (lineIn parents command indent text data).HasParts command text indent parents data := by
  constructor
  case cases => exact ⟨.ofItems parents, by simp [lineIn, Value.item_object], rfl⟩
  all_goals simp [lineIn, Value.item_object, Value.get_object]

def play (lines : List Value) (index : Nat) : Conversation :=
  { scriptMeta := .emptyTable, filename := "menu", startTime := 0, bindings := .emptyTable
    lines := .ofItems lines, index := .int index }

def scene (lines : List Value) (index : Nat) : Session :=
  { root := "/home", files := { folders := [["script_transcript"]] }, initialized := true
    message := some {}
    active := [("ann", { user := "ann", stack := [.conversation (play lines index)] })] }

theorem managerIn_scene (lines : List Value) (index : Nat) :
    managerIn (scene lines index).active "ann" =
      some { user := "ann", stack := [.conversation (play lines index)] } := by
  simp [managerIn, scene, Value.str_same]

theorem scene_standing (lines : List Value) (index : Nat) :
    Standing "ann" lines [] index (scene lines index) where
  isKey := rfl
  initialized := rfl
  canSpeak := rfl
  awaiting := rfl
  message := ⟨_, rfl, fun h => by cases h⟩
  current := by
    have hwrites : Files.Writes { folders := [["script_transcript"]] } "/home"
        (transcriptPath "/home" (play [] 0)) ["script_transcript", "menu_0.txt"] :=
      ⟨rfl, by decide, by decide⟩
    exact ⟨_, play lines index, [], _, managerIn_scene lines index, rfl,
      ⟨⟨none, rfl⟩, rfl, rfl, 0, rfl⟩, hwrites⟩

theorem scene_top (lines : List Value) (index : Nat) :
    (scene lines index).Top "ann" (·.lastIndent = .int 0) := by
  intro m c below hm hstack
  obtain rfl := Option.some.inj ((managerIn_scene lines index).symm.trans hm)
  obtain ⟨rfl, -⟩ := hstack
  rfl

def serving (phrase : String) (hphrase : '\x7b' ∉ phrase.toList) : CaseLine [] 0 where
  line := lineIn [.int 0] "neon speak" 2 "Neon speak" (speechData phrase)
  phrase := phrase
  speaks := ⟨.neonSpeak, _, [], _, .inr rfl, lineIn_hasParts _ _ _ _ _, .inl (by decide),
    speechData_isSpeech hphrase⟩

def hotDrinks : CaseOption [] 0 where
  line := lineIn [.int 0] "" 1 "\"Tea or Coffee\"" .null
  text := "\"Tea or Coffee\""
  opens := ⟨_, [], _, lineIn_hasParts _ _ _ _ _⟩
  body := [serving "Hot" (by decide), serving "Careful" (by decide)]
  nonempty := by simp

def milk : CaseOption [] 0 where
  line := lineIn [.int 0] "" 1 "milk or coffee" .null
  text := "milk or coffee"
  opens := ⟨_, [], _, lineIn_hasParts _ _ _ _ _⟩
  body := [serving "Cold" (by decide)]
  nonempty := by simp

def menu (answer : String) (hanswer : answer ≠ "" ∧ '\x7b' ∉ answer.toList) : CaseBlock where
  lines := [lineOf "" 0 "Menu" .null .null,
    lineOf "neon speak" 0 "Neon speak" .null (speechData "What?"),
    lineIn [] "case" 0 "Case" (.object [("variable", .str answer)])] ++
    ([hotDrinks, milk].flatMap CaseOption.lines ++
      [lineOf "neon speak" 0 "Neon speak" .null (speechData "Bye")])
  names := []
  first := 2
  first_pos := by decide
  indent := 0
  value := answer
  value_nonempty := hanswer.1
  options := [hotDrinks, milk]
  behind := lineOf "neon speak" 0 "Neon speak" .null (speechData "Bye")
  rest := []
  opening := ⟨_, _, _, _, rfl, lineIn_hasParts _ _ _ _ _, .inl (by decide),
    fun _ => ⟨_, rfl, by simpa using hanswer.2⟩, rfl,
    by simp [Value.get_object]⟩
  closing := ⟨_, _, 0, _, lineOf_isLine _ _ _ _ _, by decide⟩

/-- The first option with the answer is served, though another one has it as well, and an answer that
is not on the menu leads back to the question. -/
theorem menu_served :
    (∃ n t, Goes "ann" n (scene (menu "coffee" (by decide)).lines 2) t ∧
      t.spoken.map Value.display = ["Hot", "Careful"] ∧
      RunsNext "ann" t (lineOf "neon speak" 0 "Neon speak" .null (speechData "Bye"))) ∧
    ∃ t, Goes "ann" 1 (scene (menu "water" (by decide)).lines 2) t ∧ t.spoken = [] ∧
      RunsNext "ann" t (lineOf "neon speak" 0 "Neon speak" .null (speechData "What?")) := by
  have htop (lines : List Value) : (scene lines 2).Top "ann" fun c =>
      ∃ last : Int, c.lastIndent = .int last ∧ last ≤ (0 : Nat) :=
    fun m c below hm hstack => ⟨0, scene_top lines 2 m c below hm hstack, by omega⟩
  constructor
  · have hfind : [hotDrinks, milk].find? (·.accepts "coffee") = some hotDrinks :=
      List.find?_cons_of_pos (by decide)
    obtain ⟨n, t, -, hgoes, -, hspoken, -, hnext⟩ := (executes_one (menu "coffee" (by decide))
      (scene_standing _ 2) (htop _)).1 hotDrinks hfind
    refine ⟨n, t, hgoes, ?_, hnext⟩
    rw [hspoken]
    decide
  · have hnone : ∀ o ∈ [hotDrinks, milk], o.accepts "water" = false := by decide
    obtain ⟨t, hgoes, -, hspoken, -, hbefore⟩ := (executes_one (menu "water" (by decide))
      (scene_standing _ 2) (htop _)).2 hnone
    have hparts := (lineOf_isLine "neon speak" 0 "Neon speak" .null (speechData "What?")).hasParts
    exact ⟨t, hgoes, hspoken, (hbefore _ _ _ _ _ _ rfl hparts).1 (placed_nil 0 0)⟩

def nested : List Value :=
  [lineOf "" 0 "Menu" .null .null,
   lineIn [] "case" 0 "Case" (.object [("variable", "drinks")]),
   lineIn [.int 0] "exit" 1 "drinks" .null,
   lineIn [.int 0] "case" 2 "Case" (.object [("variable", "water")]),
   lineIn [.int 0, .int 2] "" 3 "milk" .null,
   lineIn [.int 0, .int 2] "neon speak" 4 "Neon speak" (speechData "Cold"),
   lineOf "neon speak" 0 "Neon speak" .null (speechData "Bye")]

/-- The line before the inner case opens an option of the outer one.  It is not run when the inner
case asks again, but leads behind both. -/
theorem nested_left :
    ¬ ∃ t, Goes "ann" 1 (scene nested 3) t ∧
      RunsNext "ann" t (lineIn [.int 0] "exit" 1 "drinks" .null) := by
  rintro ⟨t, hgoes, c, command, text, u, hat, hadvance⟩
  have hparts := lineIn_hasParts [.int 0] "exit" 1 "drinks" .null
  obtain ⟨indent, hindent, hnoted⟩ := hat.noted
  obtain rfl := Except.ok.inj (hparts.command.symm.trans hat.name)
  obtain rfl := Except.ok.inj (hparts.text.symm.trans hat.words)
  obtain rfl := Except.ok.inj (hparts.indent.symm.trans hindent)
  cases hgoes with
  | step _ hline hrest =>
    cases hrest
    -- The line behind both cases keeps the script, which an exit would drop.
    have ht := after_of_ok hline
    have hu := after_of_ok hnoted
    have hinitialized : u.initialized = true := by
      rw [← hu, ← ht]
      decide +kernel
    have hname : Keyword.ofName? "exit" = some .exit := Keyword.ofName?_name .exit
    have hknown : Keyword.known? "exit" u = .ok (some .exit) u := by
      simp [Keyword.known?, bind_apply, hinitialized, hname]
    rw [runLine, bind_of_ok hknown] at hadvance
    have hactive : (after (advance "ann") t).active.length =
        (after (runCommand .exit "ann" (lineIn [.int 0] "exit" 1 "drinks" .null) "drinks") u
          ).active.length := by
      rw [after, hadvance]
      rfl
    subst ht hu
    revert hactive
    decide +kernel

end CaseBlock

end Colloquy
