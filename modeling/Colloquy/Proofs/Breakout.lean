import Colloquy.Proofs.Tags
import Colloquy.Proofs.Utterances
import Mathlib.Data.List.Pairwise

/-! Leaving a loop.  A user who says `exit` is taken behind a loop around the current line, and out of
the script if there is none.  The loop is searched for by the index of the line, although the table
has the numbers of lines, and the first one that fits is taken.  So what is left is the innermost loop
only if this search finds it. -/

namespace Colloquy

open Session Value List

/-! ### Nested loops -/

/-- A loop, given by the numbers of its first and of its last line. -/
structure Span where
  first : Int
  last : Int
deriving DecidableEq

namespace Span

/-- A loop stands around a place that is strictly between its ends. -/
def Around (span : Span) (place : Int) : Prop :=
  span.first < place ∧ place < span.last

instance (span : Span) (place : Int) : Decidable (span.Around place) :=
  inferInstanceAs (Decidable (_ ∧ _))

def Within (span outer : Span) : Prop :=
  outer.first < span.first ∧ span.last < outer.last

instance (span outer : Span) : Decidable (span.Within outer) :=
  inferInstanceAs (Decidable (_ ∧ _))

/-- Two loops have no line in common, or one is a part of the other. -/
def Nested (a b : Span) : Prop :=
  a.last < b.first ∨ b.last < a.first ∨ a.Within b ∨ b.Within a

instance (a b : Span) : Decidable (a.Nested b) :=
  inferInstanceAs (Decidable (_ ∨ _))

/-- A loop around a place that is a part of all others around it. -/
structure Innermost (spans : List Span) (place : Int) (span : Span) : Prop where
  mem : span ∈ spans
  around : span.Around place
  least : ∀ other ∈ spans, other.Around place → other = span ∨ span.Within other

variable {spans : List Span} {span other : Span} {place : Int}

theorem Nested.within_or (h : other.Nested span) (hother : other.Around place)
    (hspan : span.Around place) : other.Within span ∨ span.Within other := by
  unfold Nested Around Within at *
  omega

theorem Innermost.cons_of_around {first : Span} (h : Innermost spans place span)
    (hfirst : first.Around place → span.Within first) :
    Innermost (first :: spans) place span := by
  refine ⟨mem_cons_of_mem _ h.mem, h.around, ?_⟩
  intro other hother haround
  rcases mem_cons.1 hother with rfl | hother
  · exact .inr (hfirst haround)
  · exact h.least other hother haround

theorem exists_innermost (hnested : spans.Pairwise Nested)
    (haround : ∃ span ∈ spans, span.Around place) : ∃ span, Innermost spans place span := by
  induction spans with
  | nil => simp at haround
  | cons first rest ih =>
    obtain ⟨hfirst, hrest⟩ := pairwise_cons.1 hnested
    by_cases hinner : ∃ span ∈ rest, span.Around place
    · obtain ⟨span, hspan⟩ := ih hrest hinner
      by_cases hat : first.Around place
      · rcases (hfirst span hspan.mem).within_or hat hspan.around with hin | hout
        · -- The first loop is a part of the innermost one of the others, hence of all of them.
          refine ⟨first, mem_cons_self, hat, ?_⟩
          intro other hother h
          rcases mem_cons.1 hother with rfl | hother
          · exact .inl rfl
          · rcases hspan.least other hother h with rfl | hwithin
            · exact .inr hin
            · exact .inr ⟨Int.lt_trans hwithin.1 hin.1, Int.lt_trans hin.2 hwithin.2⟩
        · exact ⟨span, hspan.cons_of_around fun _ => hout⟩
      · exact ⟨span, hspan.cons_of_around fun h => absurd h hat⟩
    · obtain ⟨span, hmem, hspan⟩ := haround
      rcases mem_cons.1 hmem with rfl | hmem
      · refine ⟨span, mem_cons_self, hspan, ?_⟩
        intro other hother h
        rcases mem_cons.1 hother with rfl | hother
        · exact .inl rfl
        · exact absurd ⟨other, hother, h⟩ hinner
      · exact absurd ⟨span, hmem, hspan⟩ hinner

instance : Std.Symm Nested where
  symm a b h := by
    unfold Nested Within at *
    omega

theorem eq_of_last_eq (hnested : spans.Pairwise Nested)
    (hends : ∀ span ∈ spans, span.first < span.last) (hspan : span ∈ spans)
    (hother : other ∈ spans) (hlast : span.last = other.last) : span = other := by
  by_contra hne
  have happart : span.Nested other := hnested.forall hspan hother hne
  have hleft := hends span hspan
  have hright := hends other hother
  unfold Nested Within at happart
  omega

end Span

/-! ### The loops of a script -/

def Conversation.HasLoop (c : Conversation) (name : Value) (span : Span) : Prop :=
  ∃ loop, c.loops.item name = .ok loop ∧ loop.item "start" = .ok (.int span.first) ∧
    loop.item "end" = .ok (.int span.last)

def Span.table (span : Span) : Value :=
  .object [("start", .int span.first), ("end", .int span.last)]

theorem Conversation.hasLoop_of_item {c : Conversation} {name : Value} {span : Span}
    (h : c.loops.item name = .ok span.table) : c.HasLoop name span :=
  ⟨_, h, by simp [Span.table, item_object], by simp [Span.table, item_object]⟩

/-- The lines of a script have indents and rising numbers, and its loops, in the order of their table,
are nested and begin and end with lines of the script. -/
structure Looped (c : Conversation) (lines : List Value) (spans : List Span) : Prop where
  listed : c.lines.elements = .ok lines
  numbered : ∀ line ∈ lines, line.lineNumber?.isSome = true ∧ (line.item "indent").isOk = true
  rising : Rising lines
  loops : ∃ names, c.loops.elements = .ok names ∧ List.Forall₂ c.HasLoop names spans
  ends : ∀ span ∈ spans, span.first < span.last ∧
    (∃ line ∈ lines, line.lineNumber? = some span.first) ∧
      ∃ line ∈ lines, line.lineNumber? = some span.last
  nested : spans.Pairwise Span.Nested

namespace Looped

variable {c : Conversation} {lines : List Value} {line : Value} {spans : List Span} {span : Span}

theorem exists_indent (h : Looped c lines spans) (hline : line ∈ lines) :
    ∃ v, line.item "indent" = .ok v := by
  have hok := (h.numbered line hline).2
  cases hindent : line.item "indent" with
  | ok v => exact ⟨v, rfl⟩
  | error fault =>
    rw [hindent] at hok
    cases hok

theorem exists_last (h : Looped c lines spans) (hspan : span ∈ spans) :
    ∃ (k : Nat) (line v : Value), lines[k]? = some line ∧ line.lineNumber? = some span.last ∧
      line.item "indent" = .ok v := by
  obtain ⟨-, -, line, hmem, hnumber⟩ := h.ends span hspan
  obtain ⟨k, hline⟩ := mem_iff_getElem?.1 hmem
  obtain ⟨v, hindent⟩ := h.exists_indent hmem
  exact ⟨k, line, v, hline, hnumber, hindent⟩

end Looped

/-- The script stands at the line of an index, which has a number. -/
structure Conversation.StandsAt (c : Conversation) (i n : Int) : Prop where
  index : c.index = .int i
  line : ∃ line, c.lines.item (.int i) = .ok line ∧ line.lineNumber? = some n

namespace Listening

variable {s t : Session} {m : Message} {c : Conversation} {lines : List Value} {line v : Value}
  {spans : List Span} {i n : Int} {position k : Nat}

def found? (spans : List Span) (i : Int) : Option Span :=
  spans.find? fun span => span.Around i

/-- If the index is in the same loops as the number of the line, and if a loop stands in the table before
those around it, the search comes to the innermost loop. -/
theorem found?_of_innermost {span : Span} (hsame : ∀ span ∈ spans, span.Around i ↔ span.Around n)
    (horder : spans.Pairwise fun a b => ¬ b.Within a) (h : Span.Innermost spans n span) :
    found? spans i = some span := by
  induction spans with
  | nil => cases h.mem
  | cons first rest ih =>
    obtain ⟨hfirst, hrest⟩ := pairwise_cons.1 horder
    obtain ⟨hsame, hsames⟩ := forall_mem_cons.1 hsame
    rw [found?, find?_cons]
    by_cases hat : first.Around n
    · -- If the innermost loop came later, the first one would stand before a part of it.
      have hbefore : first = span := by
        rcases mem_cons.1 h.mem with hspan | hspan
        · exact hspan.symm
        · rcases h.least first mem_cons_self hat with heq | hwithin
          · exact heq
          · exact absurd hwithin (hfirst span hspan)
      rw [decide_eq_true (hsame.2 hat), hbefore]
    · have hmem : span ∈ rest := by
        rcases mem_cons.1 h.mem with rfl | hspan
        · exact absurd h.around hat
        · exact hspan
      rw [decide_eq_false fun hi => hat (hsame.1 hi)]
      exact ih hsames hrest ⟨hmem, h.around, fun other hother =>
        h.least other (mem_cons_of_mem _ hother)⟩

theorem found?_eq_none : found? spans i = none ↔ ∀ span ∈ spans, ¬ span.Around i := by
  simp [found?]

theorem loopEnd?_eq {names : List Value} (hindex : c.index = .int i)
    (hloops : Forall₂ c.HasLoop names spans) :
    loopEnd? c names = .ok ((found? spans i).map fun span => .int span.last) := by
  induction hloops with
  | nil => rfl
  | @cons name span names spans hloop _ ih =>
    obtain ⟨loop, hitem, hstart, hend⟩ := hloop
    simp only [loopEnd?, hitem, hstart, hend, hindex, compare_int, bind, Except.bind]
    by_cases hfirst : span.first < i
    · by_cases hlast : i < span.last
      · simp [found?, Span.Around, hfirst, hlast]
        rfl
      · simp [found?, Span.Around, hfirst, hlast]
        exact ih
    · simp [found?, Span.Around, hfirst]
      exact ih

theorem lineAfter?_of_getElem? (hnumbered : ∀ line ∈ lines, line.lineNumber?.isSome = true)
    (hrising : Rising lines) (hline : lines[k]? = some line) (hnumber : line.lineNumber? = some n)
    (hindent : line.item "indent" = .ok v) :
    lineAfter? (.int n) position lines = .ok (some (position + k + 1, v)) := by
  induction lines generalizing position k with
  | nil => cases hline
  | cons first rest ih =>
    obtain ⟨hfirst, hrest⟩ := pairwise_cons.1 hrising
    obtain ⟨hsome, hnumbered⟩ := forall_mem_cons.1 hnumbered
    obtain ⟨n', hn'⟩ := Option.isSome_iff_exists.1 hsome
    have hitem : first.item "line_number" = .ok (.int n') := mem_lineNumber?.1 hn'
    simp only [lineAfter?, hitem, bind, Except.bind, same_int]
    cases k with
    | zero =>
      obtain rfl : first = line := by simpa using hline
      obtain rfl : n' = n := Option.some.inj (hn'.symm.trans hnumber)
      simp [hindent]
      rfl
    | succ k =>
      have hbefore : n' < n := hfirst line (mem_of_getElem? hline) n' hn' n hnumber
      have hne : (n' == n) = false := by simpa using Int.ne_of_lt hbefore
      rw [hne, if_neg (by decide), ih hnumbered hrest hline]
      congr 3
      omega

theorem loopExit?_of_found {span : Span} (h : Looped c lines spans) (hindex : c.index = .int i)
    (hfound : found? spans i = some span) (hline : lines[k]? = some line)
    (hnumber : line.lineNumber? = some span.last) (hindent : line.item "indent" = .ok v) :
    loopExit? c = .ok (some (k + 1, v)) := by
  obtain ⟨names, hnames, hloops⟩ := h.loops
  -- The place is counted from the head of the list.
  have hplace : lineAfter? (.int span.last) 0 lines = .ok (some (0 + k + 1, v)) :=
    lineAfter?_of_getElem? (fun line hmem => (h.numbered line hmem).1) h.rising hline hnumber
      hindent
  rw [Nat.zero_add] at hplace
  simp only [loopExit?, hnames, h.listed, loopEnd?_eq hindex hloops, hfound, bind, Except.bind,
    Option.map_some, hplace]

theorem loopExit?_of_none (h : Looped c lines spans) (hindex : c.index = .int i)
    (hfound : found? spans i = none) : loopExit? c = .ok none := by
  obtain ⟨names, hnames, hloops⟩ := h.loops
  simp only [loopExit?, hnames, loopEnd?_eq hindex hloops, hfound, bind, Except.bind,
    Option.map_none]
  rfl

theorem loopExit?_iff {span : Span} (h : Looped c lines spans) (hindex : c.index = .int i)
    (hspan : span ∈ spans) (hline : lines[k]? = some line)
    (hnumber : line.lineNumber? = some span.last) :
    (∃ v, loopExit? c = .ok (some (k + 1, v))) ↔ found? spans i = some span := by
  constructor
  · rintro ⟨v, hexit⟩
    cases hfound : found? spans i with
    | none =>
      rw [loopExit?_of_none h hindex hfound] at hexit
      cases hexit
    | some other =>
      have hother : other ∈ spans := mem_of_find?_eq_some hfound
      obtain ⟨k', line', v', hline', hnumber', hindent'⟩ := h.exists_last hother
      rw [loopExit?_of_found h hindex hfound hline' hnumber' hindent'] at hexit
      obtain rfl : k' = k := by
        cases hexit
        rfl
      obtain rfl : line' = line := Option.some.inj (hline'.symm.trans hline)
      have hlast : other.last = span.last := Option.some.inj (hnumber'.symm.trans hnumber)
      rw [Span.eq_of_last_eq h.nested (fun span hspan => (h.ends span hspan).1) hother hspan hlast]
  · intro hfound
    obtain ⟨v, hindent⟩ := h.exists_indent (mem_of_getElem? hline)
    exact ⟨v, loopExit?_of_found h hindex hfound hline hnumber hindent⟩

theorem loopExit?_none_iff (h : Looped c lines spans) (hindex : c.index = .int i) :
    loopExit? c = .ok none ↔ found? spans i = none := by
  constructor
  · intro hexit
    cases hfound : found? spans i with
    | none => rfl
    | some span =>
      obtain ⟨k, line, v, hline, hnumber, hindent⟩ :=
        h.exists_last (mem_of_find?_eq_some hfound)
      rw [loopExit?_of_found h hindex hfound hline hnumber hindent] at hexit
      cases hexit
  · exact loopExit?_of_none h hindex

/-! ### A user who has enough -/

/-- A user whose script waits for words has said `exit`. -/
structure Quits (s : Session) (m : Message) (c : Conversation) : Prop where
  message : s.message = some m
  words : ∃ heard first words, Entries.find? "utterances" m.data = some heard ∧
    heard.item (.int 0) = .ok first ∧ spoken first = .ok words ∧ Text.trim words = "exit"
  isKey : m.user.isKey = true
  running : ∃ below, s.stackOf m.user = .conversation c :: below
  named : c.filename.truthy = true
  waits : s.awaiting.any (·.same m.user) = true

/-- The script of a user is at another place, the user is not waited for any more, and the host was
told that the words were of use. -/
structure Moved (s : Session) (user : Value) (c : Conversation) (place : Nat × Value) (t : Session) :
    Prop where
  script : ∃ below bindings, s.stackOf user = .conversation c :: below ∧
    bindings.copied = c.bindings.copied ∧ t.stackOf user = .conversation
      { c with index := .int place.1, lastIndent := place.2, bindings } :: below
  awaiting : t.awaiting = dropFirst user s.awaiting
  events : ∃ e, t.events = e :: s.events ∧ said e = none

def leave (user : Value) : Option (Nat × Value) → Run Unit
  | some (index, indent) => do
    edit user (Edit.update fun c => { c with index := .int index, lastIndent := indent })
    confirm
    Execution.resume user
  | none => leaveScript user

theorem leaveLoop_eq {user : Value} {place? : Option (Nat × Value)}
    (hwaits : s.awaiting.any (·.same user) = true) (hexit : loopExit? c = .ok place?) :
    leaveLoop user c s = rescue (leave user place?) (fun _ => leaveScript user)
      { s with awaiting := dropFirst user s.awaiting } := by
  have hwaiting : isAwaiting user s = .ok true s := by
    simp only [isAwaiting, bind_apply, get_apply, pure_apply, hwaits]
  have hlooks : (liftM (loopExit? c) : Run _) { s with awaiting := dropFirst user s.awaiting } =
      .ok place? { s with awaiting := dropFirst user s.awaiting } := by rw [hexit, lift_ok_apply]
  unfold leaveLoop
  -- What comes after the waiting is shared by both branches.
  extract_lets rest
  have hrest (u : Unit) : rest u { s with awaiting := dropFirst user s.awaiting } =
      leave user place? { s with awaiting := dropFirst user s.awaiting } :=
    (bind_of_ok hlooks).trans (by cases place? <;> rfl)
  clear_value rest
  unfold rescue
  rw [bind_of_ok hwaiting, if_pos rfl, stopAwaiting, bind_of_ok (modify_apply _ _), hrest]

theorem Quits.respond_eq (h : Quits s m c) {place? : Option (Nat × Value)}
    (hexit : loopExit? c = .ok place?) :
    respond s = (do
      rescue (leave m.user place?) fun _ => leaveScript m.user
      return true) { s with awaiting := dropFirst m.user s.awaiting } := by
  obtain ⟨heard, first, words, hheard, hfirst, hspoken, hwords⟩ := h.words
  obtain ⟨below, hstack⟩ := h.running
  obtain ⟨manager, hm, htop⟩ := exists_managerIn_of_stackOf hstack
  have hdatum : (datum "utterances" : Run Value) s = .ok heard s := by
    rw [datum_of_some h.message, hheard, Option.getD_some]
  have hhear : hear m.user m c s = (do
      leaveLoop m.user c
      return true : Run Bool) s := by
    rw [hear, bind_of_ok hdatum, hfirst, bind_of_ok (lift_ok_apply _ _), hspoken,
      bind_of_ok (lift_ok_apply _ _), if_pos (by simpa using hwords)]
  rw [respond, bind_of_ok (theMessage_of_some h.message), bind_of_ok (manager?_of_isKey h.isKey s),
    hm]
  dsimp only
  rw [bind_of_ok (top_of_stack htop s), bind_of_ok (by exact pure_apply c s), if_pos h.named, hhear,
    bind_apply, leaveLoop_eq h.waits hexit, ← bind_apply]

theorem Quits.goes_on (h : Quits s m c) {place : Nat × Value}
    (hexit : loopExit? c = .ok (some place)) :
    ∃ t, Moved s m.user c place t ∧ respond s = (do
      rescue (Execution.resume m.user) fun _ => leaveScript m.user
      return true) t := by
  obtain ⟨below, hstack⟩ := h.running
  obtain ⟨manager, hm, htop⟩ := exists_managerIn_of_stackOf hstack
  let s' := { s with awaiting := dropFirst m.user s.awaiting }
  let draft : Draft := { conversation := { c with index := .int place.1, lastIndent := place.2 } }
  let t := kept m.user manager draft s'
  have ht : t = { s' with
      lists := (c.bindings.numbered s.lists).2
      active := withManager m.user (manager.setTop (settled s.lists draft)) s.active } :=
    kept_of_unchanged ..
  have hmessage : t.message = some m := by rw [ht]; exact h.message
  obtain ⟨e, hconfirm, hsaid⟩ := AskLoop.confirm_ok hmessage
  have hedit : edit m.user
      (Edit.update fun c => { c with index := .int place.1, lastIndent := place.2 }) s' = .ok () t :=
    (edit_eq h.isKey (by exact hm) htop _).trans rfl
  have hleave : leave m.user (some place) s' =
      Execution.resume m.user { t with events := e :: t.events } := by
    rw [leave, bind_of_ok hedit, bind_of_ok hconfirm]
  have hmoved : Moved s m.user c place { t with events := e :: t.events } := by
    refine ⟨⟨below, (c.bindings.numbered s.lists).1, hstack, copied_numbered _ _, ?_⟩, ?_, e, ?_,
      hsaid⟩
    · have hbelow := stackOf_kept_self (s := s') draft hm htop
      exact hbelow.trans (congrArg _ (map_id below))
    · rw [ht]
    · rw [ht]
  refine ⟨_, hmoved, ?_⟩
  rw [h.respond_eq hexit, bind_apply, bind_apply, rescue, hleave, rescue]

theorem Quits.leaves (h : Quits s m c) (hexit : loopExit? c = .ok none)
    (hinitialized : s.initialized = true) (hleavable : Entry.Leavable (s.stackOf m.user)) :
    ∃ t, respond s = .ok true t ∧ t.depthOf m.user + 1 = s.depthOf m.user := by
  obtain ⟨below, hstack⟩ := h.running
  have hne : s.stackOf m.user ≠ [] := by simp [hstack]
  obtain ⟨t, hleave⟩ := exitScript_of_stack
    (s := { s with awaiting := dropFirst m.user s.awaiting }) h.isKey (by simp [h.message])
    hleavable hne
  have hscript : leaveScript m.user { s with awaiting := dropFirst m.user s.awaiting } =
      .ok () t := by
    rw [leaveScript, bind_of_ok (get_apply _), if_pos hinitialized, hleave]
  have hdepth := exitScript_depthOf hleave hne
  refine ⟨t, ?_, hdepth⟩
  rw [h.respond_eq hexit, leave, bind_of_ok (rescue_of_ok hscript)]
  rfl

/-- A user has said `exit` to a script at a line of index `i` and number `n`.  The script goes on behind
a loop exactly if the search comes to this loop, and it is left exactly if the search comes to none.
The search comes to the innermost loop around the line if `i` is in the same loops as `n` and the table
has each loop before those around it. -/
theorem Quits.respond_behind_loop (h : Quits s m c) (hlooped : Looped c lines spans)
    (hstands : c.StandsAt i n) :
    (∀ span ∈ spans, ∀ k last, lines[k]? = some last → last.lineNumber? = some span.last →
      ((∃ v, loopExit? c = .ok (some (k + 1, v))) ↔ found? spans i = some span)) ∧
    (loopExit? c = .ok none ↔ found? spans i = none) ∧
    (∀ place, loopExit? c = .ok (some place) →
      ∃ t, Moved s m.user c place t ∧ respond s = (do
        rescue (Execution.resume m.user) fun _ => leaveScript m.user
        return true) t) ∧
    (loopExit? c = .ok none → s.initialized = true → Entry.Leavable (s.stackOf m.user) →
      ∃ t, respond s = .ok true t ∧ t.depthOf m.user + 1 = s.depthOf m.user) ∧
    ((∃ span ∈ spans, span.Around n) → ∃ span, Span.Innermost spans n span) ∧
    ((∀ span ∈ spans, span.Around i ↔ span.Around n) →
      (spans.Pairwise fun a b => ¬ b.Within a) →
        (∀ span, Span.Innermost spans n span → found? spans i = some span) ∧
          ((∀ span ∈ spans, ¬ span.Around n) → found? spans i = none)) := by
  refine ⟨?_, loopExit?_none_iff hlooped hstands.index, fun place => h.goes_on, h.leaves,
    Span.exists_innermost hlooped.nested, ?_⟩
  · intro span hspan k last hlast hend
    exact loopExit?_iff hlooped hstands.index hspan hlast hend
  · intro hsame horder
    refine ⟨fun span => found?_of_innermost hsame horder, fun hnone => ?_⟩
    exact found?_eq_none.2 fun span hspan haround => hnone span hspan ((hsame span hspan).1 haround)

/-! ### Two scripts with loops -/

def quitting (c : Conversation) : Session :=
  { ofAnswer "y" "exit" [] with active := [("ann", { user := "ann", stack := [.conversation c] })] }

theorem quits_quitting (hnamed : c.filename.truthy = true) : Quits (quitting c) (.saying "exit") c where
  message := rfl
  words := ⟨.ofItems ["exit"], "exit", "exit", by simp [Message.saying, Entries.find?, str_same],
    rfl, by decide, by decide⟩
  isKey := by rw [Message.user_saying]; rfl
  running := ⟨[], by rw [Message.user_saying]; simp [stackOf, managerIn, quitting, str_same]⟩
  named := hnamed
  waits := by rw [Message.user_saying]; simp [quitting, ofAnswer, str_same]

def looping (lines : List Value) (loops : List (String × Value)) (index : Nat) : Conversation :=
  { Conversation.ofAnswer "y" [] with
    lines := .ofItems lines
    loops := .object loops
    index := .int index }

section

variable (command text : String) (number indent : Int) (cases : List Value)

@[simp] theorem lineNumber?_ofLine :
    (Value.ofLine command text number indent cases).lineNumber? = some number :=
  mem_lineNumber?.2 (by simp [Value.ofLine, item_object])

@[simp] theorem indent_ofLine :
    (Value.ofLine command text number indent cases).item "indent" = .ok (.int indent) := by
  simp [Value.ofLine, item_object]

end

def roundLines : List Value :=
  [.ofLine "loop" "LOOP a" 1 0 [], .ofLine "loop" "LOOP b" 2 0 [],
    .ofLine "voice_input" "voice_input(y)" 3 0 [], .ofLine "note" "" 4 0 [],
    .ofLine "loop" "LOOP b END" 5 0 [], .ofLine "note" "" 6 0 [],
    .ofLine "loop" "LOOP a END" 7 0 []]

def rounds : Conversation :=
  looping roundLines [("b", Span.table ⟨2, 5⟩), ("a", Span.table ⟨1, 7⟩)] 3

theorem looped_rounds : Looped rounds roundLines [⟨2, 5⟩, ⟨1, 7⟩] := by
  refine ⟨rfl, ?_, ?_, ⟨["b", "a"], rfl, ?_⟩, ?_, by decide⟩
  · simp [roundLines, Except.isOk, Except.toBool]
  · simp [Rising, roundLines]
  · refine .cons (Conversation.hasLoop_of_item ?_) (.cons (Conversation.hasLoop_of_item ?_) .nil)
    · simp [rounds, looping, item_object]
    · simp [rounds, looping, item_object]
  · simp [roundLines]

/-- From the line between the ends of both loops, the script goes on behind the inner one. -/
theorem Quits.respond_behind_loop_rounds : ∃ v t,
    Quits (quitting rounds) (.saying "exit") rounds ∧
      Looped rounds roundLines [⟨2, 5⟩, ⟨1, 7⟩] ∧ rounds.StandsAt 3 4 ∧
      Moved (quitting rounds) "ann" rounds (5, v) t ∧ respond (quitting rounds) = (do
        rescue (Execution.resume "ann") fun _ => leaveScript "ann"
        return true) t := by
  have hquits : Quits (quitting rounds) (.saying "exit") rounds := quits_quitting rfl
  have hstands : rounds.StandsAt 3 4 := ⟨rfl, _, rfl, lineNumber?_ofLine ..⟩
  obtain ⟨hbehind, -, hgoes, -, -, -⟩ := hquits.respond_behind_loop looped_rounds hstands
  obtain ⟨v, hexit⟩ := (hbehind ⟨2, 5⟩ (by decide) 4 _ rfl (lineNumber?_ofLine ..)).2 (by decide)
  obtain ⟨t, hmoved, hresponds⟩ := hgoes _ hexit
  rw [Message.user_saying] at hmoved hresponds
  exact ⟨v, t, hquits, looped_rounds, hstands, hmoved, hresponds⟩

def gapLines : List Value :=
  [.ofLine "note" "" 1 0 [], .ofLine "loop" "LOOP a" 10 0 [],
    .ofLine "voice_input" "voice_input(y)" 11 0 [], .ofLine "note" "" 12 0 [],
    .ofLine "loop" "LOOP a END" 13 0 [], .ofLine "voice_input" "voice_input(y)" 14 0 []]

def gaps : Conversation :=
  looping gapLines [("a", Span.table ⟨10, 13⟩)] 3

/-- The line of number 12 is in the loop, but its index 3 is not between the numbers 10 and 13, and
so the whole script is left. -/
theorem Quits.respond_leaves_in_loop :
    Quits (quitting gaps) (.saying "exit") gaps ∧ Looped gaps gapLines [⟨10, 13⟩] ∧
      gaps.StandsAt 3 12 ∧ Span.Innermost [⟨10, 13⟩] 12 ⟨10, 13⟩ ∧
      Running.returned respond (quitting gaps) = some true ∧
      ((quitting gaps).after respond).depthOf "ann" = 0 := by
  have hlooped : Looped gaps gapLines [⟨10, 13⟩] := by
    refine ⟨rfl, ?_, ?_, ⟨["a"], rfl, .cons (Conversation.hasLoop_of_item ?_) .nil⟩, ?_, by decide⟩
    · simp [gapLines, Except.isOk, Except.toBool]
    · simp [Rising, gapLines]
    · simp [gaps, looping, item_object]
    · simp [gapLines]
  have hinner : Span.Innermost [⟨10, 13⟩] 12 ⟨10, 13⟩ :=
    ⟨List.mem_cons_self, by decide, fun other hother _ => .inl (List.mem_singleton.1 hother)⟩
  exact ⟨quits_quitting rfl, hlooped, ⟨rfl, _, rfl, lineNumber?_ofLine ..⟩, hinner, by decide +kernel⟩

end Listening

end Colloquy
