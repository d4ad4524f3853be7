import Colloquy.Proofs.References
import Colloquy.Proofs.Runs

/-! Blocks: programs that speak and branch.  A script has no blocks, only lines with indents; it
nevertheless speaks what the blocks say that its lines were made from. -/

namespace Colloquy

open Session Execution Command List

variable {indent : Nat} {rest : List Value}

/-! ### Blocks and their lines -/

/-- What a line says besides its command and its indent. -/
structure Heading where
  text : String
  number : Value := .null
  data : Value := .null

def Heading.line (head : Heading) (k : Keyword) (indent : Nat) : Value :=
  lineOf k.name indent head.text head.number head.data

theorem Heading.deeper (head : Heading) (k : Keyword) {outer : Nat} (h : outer < indent) :
    (head.line k indent).Deeper outer :=
  ⟨k.name, indent, lineOf_command _ _ _ _ _, lineOf_indent _ _ _ _ _, h⟩

/-- A program that speaks and branches. -/
inductive Block where
  | done
  | speak (named : Bool) (text : String) (number : Value) (phrase : String) (next : Block)
  | branch (head : Heading) (body next : Block)
  /-- An `if` with its branch, an `else` with its branch, and what comes after them. -/
  | choice (head : Heading) (body : Block) (other : Heading) (otherwise next : Block)

namespace Block

def speaker (named : Bool) : Keyword :=
  if named then .neonSpeak else .speak

/-- The lines of a program at an indent.  Branches are indented deeper by one. -/
def lines (indent : Nat) : Block → List Value
  | done => []
  | speak named text number phrase next =>
    lineOf (speaker named).name indent text number (speechData phrase) :: next.lines indent
  | branch head body next =>
    head.line .branch indent :: (body.lines (indent + 1) ++ next.lines indent)
  | choice head body other otherwise next =>
    head.line .branch indent :: (body.lines (indent + 1) ++
      other.line .otherwise indent :: (otherwise.lines (indent + 1) ++ next.lines indent))

/-- What a program speaks if the conditions of its branches hold as given. -/
def phrases (truth : Value → Bool) : Block → List Value
  | done => []
  | speak _ _ _ phrase next => cleanQuotes phrase :: next.phrases truth
  | branch head body next =>
    (if truth head.data then body.phrases truth else []) ++ next.phrases truth
  | choice head body _ otherwise next =>
    (if truth head.data then body.phrases truth else otherwise.phrases truth) ++
      next.phrases truth

/-- A program whose lines have plain texts, whose phrases are spoken and whose conditions are
decided. -/
def Fits (names : Entries) (decided : Value → Prop) : Block → Prop
  | done => True
  | speak _ text _ phrase next => Plain names text ∧ Speakable phrase ∧ next.Fits names decided
  | branch head body next =>
    Plain names head.text ∧ decided head.data ∧ body.Fits names decided ∧ next.Fits names decided
  | choice head body other otherwise next =>
    (Plain names head.text ∧ decided head.data ∧ body.Fits names decided) ∧
      (Plain names other.text ∧ PlainData other.data ∧ otherwise.Fits names decided) ∧
        next.Fits names decided

theorem lines_deeper (b : Block) {outer : Nat} (h : outer < indent) :
    ∀ line ∈ b.lines indent, line.Deeper outer := by
  induction b generalizing indent with
  | done => simp [lines]
  | speak named text number phrase next ih =>
    simp only [lines, mem_cons]
    rintro line (rfl | hmem)
    · exact ⟨_, indent, lineOf_command _ _ _ _ _, lineOf_indent _ _ _ _ _, h⟩
    · exact ih h line hmem
  | branch head body next ihBody ihNext =>
    simp only [lines, mem_cons, mem_append]
    rintro line (rfl | hmem | hmem)
    · exact head.deeper .branch h
    · exact ihBody (Nat.lt_succ_of_lt h) line hmem
    · exact ihNext h line hmem
  | choice head body other otherwise next ihBody ihOther ihNext =>
    simp only [lines, mem_cons, mem_append]
    rintro line (rfl | hmem | rfl | hmem | hmem)
    · exact head.deeper .branch h
    · exact ihBody (Nat.lt_succ_of_lt h) line hmem
    · exact other.deeper .otherwise h
    · exact ihOther (Nat.lt_succ_of_lt h) line hmem
    · exact ihNext h line hmem

def EndsAt (indent : Nat) (rest : List Value) : Prop :=
  ∃ stop more, rest = stop :: more ∧ stop.Bounds indent

theorem EndsAt.deeper (h : EndsAt indent rest) : EndsAt (indent + 1) rest := by
  obtain ⟨stop, more, rfl, command, outer, hcommand, hindent, hle, hname, -⟩ := h
  exact ⟨stop, more, rfl, command, outer, hcommand, hindent, by omega, hname, by omega⟩

theorem EndsAt.otherwise (head : Heading) (indent : Nat) (more : List Value) :
    EndsAt (indent + 1) (head.line .otherwise indent :: more) :=
  ⟨_, more, rfl, _, indent, lineOf_command _ _ _ _ _, lineOf_indent _ _ _ _ _, by omega,
    by decide, by omega⟩

theorem EndsAt.lines (h : EndsAt indent rest) (b : Block) :
    EndsAt indent (b.lines indent ++ rest) := by
  have hline (k : Keyword) (text : String) (number data : Value) (more : List Value)
      (hk : k.name ≠ "" ∧ k.name ≠ "else") :
      EndsAt indent (lineOf k.name indent text number data :: more) :=
    ⟨_, more, rfl, _, indent, lineOf_command _ _ _ _ _, lineOf_indent _ _ _ _ _, by omega, hk.1,
      fun h => hk.2 h.1⟩
  cases b with
  | done => exact h
  | speak named text number phrase next =>
    exact hline _ _ _ _ _ (by cases named <;> decide)
  | branch head body next => exact hline .branch _ _ _ _ (by decide)
  | choice head body other otherwise next => exact hline .branch _ _ _ _ (by decide)

end Block

/-! ### Blocks are run -/

namespace Standing

open Block

variable {user : Value} {lines inner rest : List Value} {names : Entries} {i indent : Nat}
  {s₀ s : Session} {head : Heading}

theorem leads_true (h : Standing user lines names i s)
    (hdrop : lines.drop i = head.line .branch indent :: rest) (hplain : Plain names head.text)
    (halike : Alike user s₀ s) (hdecides : Decides user s₀ head.data true) :
    Leads user lines names s 1 (i + 1) [] := by
  have hline := getElem?_of_drop hdrop
  refine .line h ?_
  rw [append_nil]
  exact h.advance_branch hline hplain halike hdecides fun c hc =>
    enterIf_true hc hline (lineOf_indent _ _ _ _ _)

theorem leads_false (h : Standing user lines names i s)
    (hdrop : lines.drop i = head.line .branch indent :: (inner ++ rest))
    (hplain : Plain names head.text) (halike : Alike user s₀ s)
    (hdecides : Decides user s₀ head.data false) (hinner : ∀ line ∈ inner, line.Deeper indent)
    (hrest : EndsAt indent rest) :
    Leads user lines names s 1 (i + 1 + inner.length) [] := by
  obtain ⟨stop, more, rfl, command, outer, hcommand, houter, hle, hname, hother⟩ := hrest
  have hline := getElem?_of_drop hdrop
  refine .line h ?_
  rw [append_nil]
  refine h.advance_branch hline hplain halike hdecides fun c hc => ?_
  rw [enterIf_false hc hline (lineOf_indent _ _ _ _ _) (drop_succ hdrop) hinner hcommand houter hle
    hname, if_neg hother]

theorem leads_other (h : Standing user lines names i s) {other : Heading}
    (hdrop : lines.drop i =
      head.line .branch indent :: (inner ++ other.line .otherwise indent :: rest))
    (hplain : Plain names head.text) (halike : Alike user s₀ s)
    (hdecides : Decides user s₀ head.data false) (hinner : ∀ line ∈ inner, line.Deeper indent) :
    Leads user lines names s 1 (i + 1 + inner.length + 1) [] := by
  have hline := getElem?_of_drop hdrop
  refine .line h ?_
  rw [append_nil]
  refine h.advance_branch hline hplain halike hdecides fun c hc => ?_
  rw [enterIf_false hc hline (lineOf_indent _ _ _ _ _) (drop_succ hdrop) hinner
    (lineOf_command _ _ _ _ _) (lineOf_indent _ _ _ _ _) (Nat.le_refl _) (by decide),
    if_pos ⟨rfl, rfl⟩]

theorem leads_else (h : Standing user lines names i s)
    (hdrop : lines.drop i = head.line .otherwise indent :: (inner ++ rest))
    (hplain : Plain names head.text) (hdata : PlainData head.data)
    (hinner : ∀ line ∈ inner, line.Deeper indent) (hrest : EndsAt indent rest) :
    Leads user lines names s 1 (i + 1 + inner.length) [] := by
  obtain ⟨stop, more, rfl, command, outer, -, houter, hle, -⟩ := hrest
  have hline := getElem?_of_drop hdrop
  refine .line h ?_
  rw [append_nil]
  exact h.advance_else hline hplain hdata fun c hc =>
    passElse_ok hc hline (lineOf_indent _ _ _ _ _) (drop_succ hdrop) hinner houter hle

end Standing

namespace Block

variable {user : Value} {lines : List Value} {names : Entries} {truth : Value → Bool}
  {s₀ : Session}

/-- The lines of a block lead to what comes after them and have the phrases of the block spoken. -/
theorem stands (b : Block) (hfits : b.Fits names fun data => Decides user s₀ data (truth data))
    {i : Nat} {s : Session} (hstage : Standing user lines names i s) (halike : Alike user s₀ s)
    (hdrop : lines.drop i = b.lines indent ++ rest) (hrest : EndsAt indent rest) :
    Leads user lines names s (b.lines indent).length (i + (b.lines indent).length)
      (b.phrases truth) := by
  induction b generalizing indent i s rest with
  | done => exact .refl hstage
  | speak named text number phrase next ih =>
    obtain ⟨hplain, hphrase, hnext⟩ := hfits
    have hk : speaker named = .speak ∨ speaker named = .neonSpeak := by
      cases named <;> simp [speaker]
    rw [Block.lines, length_cons]
    refine ((Leads.line hstage (hstage.advance_speak hk (getElem?_of_drop hdrop) hplain
      hphrase)).trans fun t ht hst => ih hnext ht (halike.trans hst) (drop_succ hdrop)
        hrest).cast (by omega) (by omega) rfl
  | branch head body next ihBody ihNext =>
    obtain ⟨hplain, hdecides, hbody, hnext⟩ := hfits
    have hend := hrest.lines next
    simp only [Block.lines, cons_append, append_assoc] at hdrop
    simp only [Block.lines, length_cons, length_append]
    have hafter (t : Session) (ht : Standing user lines names (i + 1 + (body.lines (indent + 1)).length) t)
        (hst : Alike user s t) := ihNext hnext ht (halike.trans hst) (drop_append (drop_succ hdrop)) hrest
    cases htruth : truth head.data with
    | true =>
      rw [htruth] at hdecides
      refine (((hstage.leads_true hdrop hplain halike hdecides).trans fun t ht hst =>
        ihBody hbody ht (halike.trans hst) (drop_succ hdrop) hend.deeper).trans hafter).cast (by omega) (by omega)
          (by simp [phrases, htruth])
    | false =>
      rw [htruth] at hdecides
      refine ((hstage.leads_false hdrop hplain halike hdecides
        (body.lines_deeper (Nat.lt_succ_self indent)) hend).trans hafter).cast (by omega) (by omega)
          (by simp [phrases, htruth])
  | choice head body other otherwise next ihBody ihOther ihNext =>
    obtain ⟨⟨hplain, hdecides, hbody⟩, ⟨hplainOther, hdata, hother⟩, hnext⟩ := hfits
    have hend := hrest.lines next
    simp only [Block.lines, cons_append, append_assoc] at hdrop
    simp only [Block.lines, length_cons, length_append]
    have hdropOther := drop_append (drop_succ hdrop)
    have hdropNext := drop_append (drop_succ hdropOther)
    have hafter (t : Session) (ht : Standing user lines names
        (i + 1 + (body.lines (indent + 1)).length + 1 + (otherwise.lines (indent + 1)).length) t)
        (hst : Alike user s t) := ihNext hnext ht (halike.trans hst) hdropNext hrest
    cases htruth : truth head.data with
    | true =>
      rw [htruth] at hdecides
      refine ((((hstage.leads_true hdrop hplain halike hdecides).trans fun t ht hst =>
        ihBody hbody ht (halike.trans hst) (drop_succ hdrop) (.otherwise other indent _)).trans
          fun t ht _ => ht.leads_else hdropOther hplainOther hdata
            (otherwise.lines_deeper (Nat.lt_succ_self indent)) hend).trans hafter).cast (by omega) (by omega)
          (by simp [phrases, htruth])
    | false =>
      rw [htruth] at hdecides
      refine (((hstage.leads_other hdrop hplain halike hdecides
        (body.lines_deeper (Nat.lt_succ_self indent))).trans fun t ht hst =>
          ihOther hother ht (halike.trans hst) (drop_succ hdropOther) hend.deeper).trans
            hafter).cast (by omega) (by omega)
          (by simp [phrases, htruth])

theorem leads (b : Block) (hfits : b.Fits names fun data => Decides user s₀ data (truth data))
    {i : Nat} {s : Session} (hstage : Stage user lines names i s) (halike : Alike user s₀ s)
    (hdrop : lines.drop i = b.lines indent ++ rest) (hrest : EndsAt indent rest) :
    ∃ n t, n ≤ (b.lines indent).length ∧ Goes user n s t ∧
      Stage user lines names (i + (b.lines indent).length) t ∧ Alike user s t ∧
        t.spoken = s.spoken ++ b.phrases truth := by
  obtain ⟨n, t, hn, hgoes, hnext, hst, hspoken⟩ := b.stands hfits hstage.standing halike hdrop hrest
  exact ⟨n, t, hn, hgoes, hstage.of_standing hnext hst, hst, hspoken⟩

def script (header : Value) (b : Block) (last : Heading) : List Value :=
  header :: (b.lines 0 ++ [last.line .exit 0])

/-- A script of a program, run from its first line behind the header, speaks the phrases of the
program in order, and then drops the user.  Exactly so many calls are needed for that as lines are
run, and with fewer the limit is reached. -/
theorem proceed_speaks_phrases {b : Block} {header : Value} {last : Heading} {s : Session}
    (hstage : Stage user (script header b last) names 1 s)
    (hfits : b.Fits names fun data => Decides user s data (truth data))
    (hlast : Plain names last.text) (hdata : PlainData last.data) :
    ∃ calls ≤ (b.lines 0).length + 1, ∀ budget,
      (budget < calls → ∃ t, proceed budget user s = .error .stepLimit t) ∧
      (calls ≤ budget →
        (s.after (proceed budget user)).spoken = s.spoken ++ b.phrases truth ∧
        (s.Answers user → ∃ t, proceed budget user s = .ok () t ∧
          managerIn t.active user = none)) := by
  have hend : EndsAt 0 [last.line .exit 0] :=
    ⟨_, [], rfl, _, 0, lineOf_command _ _ _ _ _, lineOf_indent _ _ _ _ _, Nat.le_refl 0,
      by decide, by decide⟩
  obtain ⟨n, t, hn, hgoes, hexit, halike, hspoken⟩ :=
    b.leads hfits hstage (.refl user s) rfl hend
  have hline : (script header b last)[1 + (b.lines 0).length]? = some (last.line .exit 0) :=
    getElem?_of_drop (drop_append (show (script header b last).drop 1 = b.lines 0 ++ _ from rfl))
  refine ⟨n + 1, Nat.succ_le_succ hn, fun budget => ⟨fun hlt => ?_, fun hle => ?_⟩⟩
  · exact hgoes.proceed_stepLimit (Nat.le_of_lt_succ hlt)
  · obtain ⟨more, rfl⟩ := Nat.exists_eq_add_of_le' hle
    obtain ⟨hsilent, hdone⟩ := hexit.proceed_exit hline hlast hdata more
    rw [show more + (n + 1) = more + 1 + n by omega]
    refine ⟨?_, fun hanswers => ?_⟩
    · rw [hgoes.proceed_spoken, hsilent, hspoken]
    · obtain ⟨u, hu, hnone⟩ := hdone (hstage.answers halike hanswers)
      exact ⟨u, hgoes.proceed_ok hu, hnone⟩

def ifGood (side : String) : Heading where
  text := "if so"
  data := .object [("comparator", "=="), ("left", .str side), ("right", "good")]

def greeting (side : String) : Block :=
  .speak true "Neon: Hello" .null "\"Hello\"" <|
  .choice (ifGood side)
    (.branch (ifGood "bad") (.speak false "Oh" .null "Oh" .done) <|
      .speak false "Glad" .null "Glad" .done)
    { text := "else" }
    (.speak false "Sorry" .null "Sorry" .done) <|
  .speak true "Neon: Bye" .null "Bye" .done

def greeter (side : String) (data : Entries) : Session :=
  let c : Conversation :=
    { scriptMeta := .emptyTable, filename := "greeter", startTime := 0
      bindings := .object [("mood", .ofItems ["good"])]
      lines := .ofItems (script .emptyTable (greeting side) { text := "exit" }) }
  { root := "/home", files := { folders := [["script_transcript"]] }, initialized := true
    message := some { data }, active := [("ann", { user := "ann", stack := [.conversation c] })] }

def heldBy (s : Session) (data : Value) : Bool :=
  (condition? "ann" data s).getD false

def spokenAndSaid (side : String) (data : Entries) : List String × List String :=
  let s := greeter side data
  ((s.after (resume "ann")).spoken.map Value.display,
    ((greeting side).phrases (heldBy s)).map Value.display)

/-- The value of a variable decides which phrases are spoken. -/
theorem greeting_spoken :
    ((greeter "\x7bmood\x7d" []).after (resume "ann")).spoken.map Value.display =
        ["Hello", "Glad", "Bye"] ∧
      ∃ t, resume "ann" (greeter "\x7bmood\x7d" []) = .ok () t ∧
        managerIn t.active "ann" = none := by
  have hstage : Stage "ann" (script .emptyTable (greeting "\x7bmood\x7d") { text := "exit" })
      [("mood", .ofItems ["good"])] 1 (greeter "\x7bmood\x7d" []) :=
    { isKey := rfl
      initialized := rfl
      canSpeak := rfl
      awaiting := rfl
      message := ⟨_, rfl, fun h => by cases h⟩
      current := by
        refine ⟨?m, ?c, ["script_transcript", "greeter_0.txt"], ?found, ?stack, ?place, ?writes⟩
        case found =>
          simp only [managerIn, greeter, List.find?, Value.str_same]
          rfl
        case stack => rfl
        case place => exact ⟨⟨none, rfl⟩, rfl, rfl, 0, rfl⟩
        case writes => exact ⟨rfl, by decide, by decide⟩ }
  have hdecides (side : String)
      (hfree : Substitution.callFree (.object [("mood", .ofItems ["good"])]) side = true) {b : Bool}
      (hheld : condition? "ann" (ifGood side).data (greeter "\x7bmood\x7d" []) = some b) :
      Decides "ann" (greeter "\x7bmood\x7d" []) (ifGood side).data
        (heldBy (greeter "\x7bmood\x7d" []) (ifGood side).data) := by
    rw [heldBy, hheld]
    refine hstage.decides ?_ hheld
    intro e he text htext
    simp only [List.map_cons, List.map_nil, List.mem_cons, List.not_mem_nil, or_false] at he
    obtain rfl | rfl | rfl := he <;> obtain rfl := Value.str.inj htext
    · decide +kernel
    · exact hfree
    · decide +kernel
  have hmood := hdecides "\x7bmood\x7d" (by decide +kernel) (b := true) (by decide +kernel)
  have hbad := hdecides "bad" (by decide +kernel) (b := false) (by decide +kernel)
  have hfits : (greeting "\x7bmood\x7d").Fits [("mood", .ofItems ["good"])] fun data =>
      Decides "ann" (greeter "\x7bmood\x7d" []) data (heldBy (greeter "\x7bmood\x7d" []) data) := by
    refine ⟨by decide +kernel, by decide +kernel, ⟨by decide +kernel, hmood, ⟨by decide +kernel, hbad,
      ⟨by decide +kernel, by decide +kernel, trivial⟩,
      ⟨by decide +kernel, by decide +kernel, trivial⟩⟩⟩, ?_, ?_⟩
    · exact ⟨by decide +kernel, .null, by decide +kernel, by decide +kernel, trivial⟩
    · exact ⟨by decide +kernel, by decide +kernel, trivial⟩
  obtain ⟨calls, hcalls, hrun⟩ := proceed_speaks_phrases hstage hfits (by decide +kernel)
    .null
  have hlines : ((greeting "\x7bmood\x7d").lines 0).length + 1 ≤ lineLimit := by decide
  obtain ⟨hspoken, hdone⟩ := (hrun lineLimit).2 (Nat.le_trans hcalls hlines)
  refine ⟨?_, hdone ?_⟩
  · rw [resume, hspoken]
    decide +kernel
  · intro m c hm hstack
    simp only [managerIn, greeter, List.find?, Value.str_same] at hm
    obtain rfl := Option.some.inj hm
    obtain ⟨rfl⟩ := hstack
    rfl

/-- A message whose words cannot be noted ends the script behind the first phrase, and so does a
branch whose data wait for the user. -/
theorem greeting_cut_short :
    spokenAndSaid "\x7bmood\x7d" [("utterances", .int 5)] = (["Hello"], ["Hello", "Glad", "Bye"]) ∧
      spokenAndSaid "\x7bvoice_input(mood)\x7d" [] = (["Hello"], ["Hello", "Sorry", "Bye"]) := by
  decide +kernel

end Block

end Colloquy
