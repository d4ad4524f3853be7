import Colloquy.Launch
import Colloquy.Proofs.Session

/-! Work on a conversation is put together from few pieces.  What holds of each piece, and is kept
when pieces are put together, holds of all work that assigns variables and matches patterns, and also
of the work that looks for the next line if it holds of the pieces that move the script. -/

namespace Colloquy

open Command Pattern

variable {α β : Type}

/-- The draft after some work, whether or not it failed. -/
def Draft.after (body : Edit α) (d : Draft) : Draft :=
  match body d with
  | .ok _ d' | .error _ d' => d'

theorem Draft.after_bind {D : Draft → Prop} {d : Draft} {body : Edit α} {f : α → Edit β}
    (hbody : D (d.after body)) (hf : ∀ a d', body d = .ok a d' → D d' → D (d'.after (f a))) :
    D (d.after (body >>= f)) := by
  simp only [Draft.after, bind_apply] at hbody ⊢
  cases hrun : body d with
  | ok a d' =>
    rw [hrun] at hbody
    exact hf a d' hrun hbody
  | error fault d' =>
    rw [hrun] at hbody
    exact hbody

theorem Draft.after_lift_bind {D : Draft → Prop} {d : Draft} {x : Except Fault α} {f : α → Edit β}
    (hd : D d) (hf : ∀ a, x = .ok a → D (d.after (f a))) : D (d.after (liftM x >>= f)) := by
  cases x with
  | ok a => exact hf a rfl
  | error fault => exact hd

/-- The variable that a piece of a pattern is captured into, if it is. -/
def Pattern.Segment.target : Segment → Option String
  | .capture name => some name
  | .synonym name => some ("_" ++ name ++ "_")
  | .gap | .literal _ => none

/-- The variables that the pattern of an entry captures into. -/
def Pattern.targets (entry : String) : List String :=
  match texts entry with
  | [] => []
  | pattern :: _ =>
    match search (numberWildcards pattern) with
    | .ok (.pieces parts) => parts.filterMap fun part => (Segment.of part).target
    | _ => []

namespace Edit

/-- A property of work on a conversation that is kept when work is put together. -/
structure BaseLaw (P : {α : Type} → Edit α → Prop) : Prop where
  pure : ∀ {α : Type} (a : α), P (pure a : Edit α)
  lift : ∀ {α : Type} (x : Except Fault α), P (liftM x : Edit α)
  bind : ∀ {α β : Type} {body : Edit α} {f : α → Edit β}, P body → (∀ a, P (f a)) → P (body >>= f)
  rescue : ∀ {α : Type} {body : Edit α} {handler : Fault → Edit α}, P body →
    (∀ fault, P (handler fault)) → P (rescue body handler)
  read : P read
  itemsNow : ∀ number items, P (itemsNow number items)

structure Law (P : {α : Type} → Edit α → Prop) : Prop extends BaseLaw P where
  writeVariable : ∀ name value, P (writeVariable name value)
  changeList : ∀ number items, P (changeList number items)

/-- A law that work has which captures into the variables of `T`. -/
structure CaptureLaw (T : String → Prop) (P : {α : Type} → Edit α → Prop) : Prop
    extends BaseLaw P where
  prepend : ∀ name, T name → ∀ value, P (Pattern.prepend name value)
  synonym : ∀ name, T name → ∀ option, P (writeVariable (.str name) (.ofItems [.str option]))

structure ResponseLaw (T : String → Prop) (P : {α : Type} → Edit α → Prop) : Prop
    extends CaptureLaw T P where
  count : ∀ counters, P (update fun c => { c with counters })

variable {P : {α : Type} → Edit α → Prop}

namespace BaseLaw

variable (h : BaseLaw P)

theorem of_relation {R : Draft → Draft → Prop} (hrefl : ∀ d, R d d)
    (htrans : ∀ {d d' d''}, R d d' → R d' d'' → R d d'') :
    BaseLaw fun {_} body => ∀ d : Draft, R d (d.after body) where
  pure _ := hrefl
  lift x d := by cases x <;> exact hrefl d
  bind hbody hf d :=
    Draft.after_bind (D := R d) (hbody d) fun a d' _ hd' => htrans hd' (hf a d')
  rescue {_ body handler} hbody hhandler d := by
    have hfirst := hbody d
    simp only [Draft.after] at hfirst ⊢
    obtain hsame | ⟨fault, d', hrun, hrescue⟩ := rescue_cases body handler d
    · rwa [hsame]
    · rw [hrun] at hfirst
      rw [hrescue]
      exact htrans hfirst (hhandler fault d')
  read := hrefl
  itemsNow number items d := by
    simp only [Draft.after, Edit.itemsNow, bind_apply, get_apply]
    cases d.changes.find? fun change => number == some change.number <;> exact hrefl d

include h

theorem throw {α : Type} (fault : Fault) : P (throw fault : Edit α) :=
  h.lift (.error fault)

theorem lift_bind {α β : Type} {x : Except Fault α} {f : α → Edit β}
    (hf : ∀ a, x = .ok a → P (f a)) : P (liftM x >>= f) := by
  cases x with
  | error fault => exact h.lift (.error fault)
  | ok a => exact hf a rfl

theorem readVariable (name : Value) : P (readVariable name) :=
  h.bind h.read fun _ => h.lift _

theorem here (name : String) : P (here name) :=
  h.bind h.read fun _ => h.bind (h.lift _) fun _ => h.lift _

theorem entryAt? (entries : Value) (position : Nat) : P (Pattern.entryAt? entries position) := by
  unfold Pattern.entryAt?
  split
  · exact h.bind (h.itemsNow _ _) fun _ => h.pure _
  · exact h.bind (h.lift _) fun _ => h.pure _

end BaseLaw

namespace Law

open BaseLaw

variable (h : Law P)

include h

theorem pushValue (new : Value) (old : List Value) : P (pushValue new old) := by
  refine ite (h.pure new) ?_
  split
  · exact h.changeList _ _
  · exact h.throw _

theorem addValues (name value : Value) : P (addValues name value) := by
  refine h.bind (h.readVariable name) fun old => ?_
  extract_lets rest
  have hrest : ∀ u, P (rest u) := by
    refine fun _ => h.bind (h.readVariable name) fun old => ?_
    split
    · exact h.bind (h.lift _) fun _ => h.bind (h.changeList _ _) fun _ => h.writeVariable _ _
    · exact h.bind (h.lift _) fun _ => h.throw _
    · exact h.throw _
  clear_value rest
  exact ite (h.bind (h.writeVariable _ _) fun _ => hrest _) (hrest ())

theorem prepend (name value : String) : P (prepend name value) := by
  refine h.bind h.read fun c => h.bind (h.lift _) fun old => ?_
  split
  · exact h.bind (h.changeList _ _) fun _ => h.writeVariable _ _
  · exact h.writeVariable _ _

theorem captures : CaptureLaw (fun _ => True) P where
  toBaseLaw := h.toBaseLaw
  prepend name _ := h.prepend name
  synonym _ _ _ := h.writeVariable _ _

end Law

/-! ### Patterns -/

namespace CaptureLaw

open BaseLaw

variable {T : String → Prop} (h : CaptureLaw T P)

include h

theorem takeSynonym {name : String} (hname : T ("_" ++ name ++ "_")) (piece input : String)
    (options : List Value) : P (takeSynonym name piece input options) := by
  induction options with
  | nil => exact h.pure none
  | cons option rest ih =>
    refine h.bind (h.lift _) fun text => ?_
    extract_lets option start rest
    have hrest : P (rest ()) := by
      cases hcut : Text.cut? start input with
      | none =>
        simp only [rest, hcut]
        exact h.throw _
      | some parts =>
        simp only [rest, hcut]
        exact h.pure _
    clear_value rest start option
    exact ite (h.bind (h.synonym _ hname _) fun _ => ite (h.throw _) hrest) ih

theorem capture (pieces : List String) {rest : List String}
    (hrest : ∀ piece ∈ rest, ∀ name, (Segment.of piece).target = some name → T name)
    (input : String) {pending : Option String} (hpending : ∀ name, pending = some name → T name) :
    P (Pattern.capture pieces rest input pending) := by
  induction rest generalizing input pending with
  | nil => exact h.pure true
  | cons piece rest ih =>
    obtain ⟨hpiece, hrest⟩ := List.forall_mem_cons.1 hrest
    unfold Pattern.capture
    split
    case h_1 =>
      split
      · exact ih hrest _ hpending
      · exact h.bind (h.prepend _ (hpending _ rfl) _) fun _ => ih hrest _ hpending
    case h_2 synonym hsegment =>
      have hname := hpiece _ (congrArg Segment.target hsegment)
      refine h.bind (h.readVariable _) fun _ => h.bind (h.lift _) fun _ => ?_
      refine h.bind (h.takeSynonym hname _ _ _) fun left => ?_
      split
      · exact ih hrest _ hpending
      · exact h.pure _
    case h_3 name hsegment =>
      have hname := hpiece _ (congrArg Segment.target hsegment)
      have hnext (input : String) :
          P (Pattern.capture pieces rest input (if name.isEmpty then none else some name)) := by
        refine ih hrest input fun other hother => ?_
        split at hother
        · cases hother
        · obtain rfl := Option.some.inj hother
          exact hname
      exact ite (h.bind (h.prepend _ hname _) fun _ => hnext _) (hnext _)
    case h_4 literal _ =>
      extract_lets found next
      have hnext : ∀ u, P (next u) := by
        intro u
        cases hfound : found with
        | none =>
          simp only [next, hfound]
          exact h.throw _
        | some parts =>
          simp only [next, hfound]
          exact ih hrest _ nofun
      clear_value next found
      split
      · exact h.bind (h.prepend _ (hpending _ rfl) _) fun _ => hnext _
      · exact hnext _

theorem captured (input : String) {search : Search}
    (hsearch : ∀ parts, search = .pieces parts →
      ∀ piece ∈ parts, ∀ name, (Segment.of piece).target = some name → T name) :
    P (captured input search) := by
  cases search with
  | whole text => exact h.pure true
  | pieces parts => exact h.rescue (h.capture parts (hsearch parts rfl) _ nofun) fun _ => h.pure true

end CaptureLaw

namespace ResponseLaw

open BaseLaw

variable {T : String → Prop} (h : ResponseLaw T P)

include h

theorem nextResponse (entry : String) (responses : List String) :
    P (nextResponse entry responses) := by
  refine h.bind h.read fun c => h.bind (h.lift _) fun count => h.bind (h.lift _) fun isOver => ?_
  extract_lets rest
  have hrest : ∀ turn, P (rest turn) := by
    intro turn
    refine h.bind (h.lift _) fun response => h.bind h.read fun c => h.bind (h.lift _) fun next => ?_
    exact h.bind (h.lift _) fun counters => h.bind (h.count counters) fun _ => h.lift _
  clear_value rest
  exact ite (hrest _) (hrest _)

theorem startCounting (entry : String) : P (startCounting entry) := by
  refine h.bind h.read fun c => h.bind (h.lift _) fun names => ite ?_ (h.pure _)
  exact h.bind (h.lift _) fun counters => h.count counters

theorem respond (input : String) {entry : String} (hentry : ∀ name ∈ targets entry, T name) :
    P (respond input entry) := by
  refine h.bind (h.startCounting entry) fun _ => ?_
  split
  · exact h.throw _
  · rename_i pattern responses htexts
    refine h.lift_bind fun search hsearch => ?_
    refine h.bind h.read fun c => h.bind (h.lift _) fun synonyms => ite ?_ (h.pure _)
    refine h.bind (h.nextResponse _ _) fun _ => h.bind (h.captured _ ?_) fun found => h.pure _
    rintro parts rfl piece hpiece name hname
    apply hentry
    simp only [targets, htexts]
    rw [hsearch]
    exact List.mem_filterMap.2 ⟨piece, hpiece, hname⟩

theorem firstResponse (hT : ∀ name, T name) (input : String) (entries : Value) (fuel : Nat) :
    ∀ position, P (firstResponse input entries fuel position) := by
  induction fuel with
  | zero => exact fun _ => h.pure none
  | succ fuel ih =>
    intro position
    refine h.bind (h.entryAt? entries position) fun entry => ?_
    split
    · exact h.pure none
    · refine h.bind (h.lift _) fun text => ?_
      extract_lets text
      clear_value text
      refine ite (ih _) (h.bind (h.respond _ fun name _ => hT name) fun response => ?_)
      split
      · exact h.pure _
      · exact ih _

end ResponseLaw

/-! ### The next line -/

structure StepLaw (P : {α : Type} → Edit α → Prop) : Prop extends BaseLaw P where
  next : P (step 1)

structure PlaceLaw (P : {α : Type} → Edit α → Prop) : Prop extends BaseLaw P where
  goTo : ∀ index, P (goTo index)
  indent : ∀ lastIndent, P (update fun c => { c with lastIndent })

structure WorkLaw (P : {α : Type} → Edit α → Prop) : Prop extends Law P, PlaceLaw P

open BaseLaw

namespace StepLaw

variable (h : StepLaw P)

include h

theorem seekElse (indent : Value) (fuel : Nat) : P (seekElse indent fuel) := by
  induction fuel with
  | zero => exact h.pure _
  | succ fuel ih =>
    refine h.bind h.read fun c => h.bind (h.lift _) fun _ => h.bind (h.lift _) fun _ => ?_
    refine ite (h.bind (h.lift _) fun line => h.bind (h.lift _) fun command => ?_) (h.pure _)
    extract_lets rest
    have hrest : ∀ isElse, P (rest isElse) := by
      refine fun _ => ite h.next ?_
      refine h.bind (h.lift _) fun _ => h.bind (h.lift _) fun _ => ite (h.pure _) ?_
      exact h.bind h.next fun _ => ih
    clear_value rest
    exact ite (h.bind (h.lift _) fun _ => hrest _) (hrest _)

theorem enterIf (holds : Bool) : P (enterIf holds) := by
  refine h.bind (h.here _) fun indent => h.bind h.next fun _ => ite ?_ (h.pure _)
  exact h.bind h.read fun _ => h.bind (h.lift _) fun _ => h.seekElse _ _

theorem seekOutdent (indent : Value) (fuel : Nat) : P (seekOutdent indent fuel) := by
  induction fuel with
  | zero => exact h.pure _
  | succ fuel ih =>
    refine h.bind (h.here _) fun _ => h.bind (h.lift _) fun isDeeper => ite ?_ (h.pure _)
    refine h.bind h.read fun c => h.bind (h.lift _) fun size => ite (h.pure _) ?_
    exact h.bind h.next fun _ => ih

theorem passElse : P passElse := by
  refine h.bind (h.here _) fun indent => h.bind h.next fun _ => ?_
  exact h.bind h.read fun _ => h.bind (h.lift _) fun _ => h.seekOutdent _ _

theorem skipHeader (fuel : Nat) : P (Launch.skipHeader fuel) := by
  induction fuel with
  | zero => exact h.pure _
  | succ fuel ih =>
    refine h.bind h.read fun c => h.bind (h.lift _) fun _ => h.bind (h.lift _) fun _ => ?_
    refine ite (h.bind (h.lift _) fun _ => h.bind (h.lift _) fun command => ?_) (h.pure _)
    exact ite (h.bind h.next fun _ => ih) (h.pure _)

end StepLaw

namespace PlaceLaw

variable (h : PlaceLaw P)

include h

theorem step (n : Int) : P (step n) :=
  h.bind h.read fun _ => h.bind (h.lift _) fun _ => h.goTo _

theorem steps : StepLaw P :=
  ⟨h.toBaseLaw, h.step 1⟩

theorem endLoop (name : String) : P (endLoop name) := by
  refine h.bind h.read fun c => h.bind (h.lift _) fun loop => h.bind (h.lift _) fun start => ?_
  refine h.bind (h.lift _) fun isDone => ite (h.step 1) ?_
  exact h.bind (h.lift _) fun _ => h.bind (h.lift _) fun _ => h.goTo _

theorem jump (number : Value) (lines : List Value) :
    ∀ position, P (jump number position lines) := by
  induction lines with
  | nil => exact fun _ => h.pure _
  | cons line rest ih =>
    intro position
    refine h.bind (h.lift _) fun _ => h.bind (h.lift _) fun _ => ite ?_ (ih _)
    exact h.bind (h.goTo _) fun _ => h.bind (h.lift _) fun _ => h.indent _

theorem chooseCase (value : Value) : P (chooseCase value) := by
  refine h.bind h.read fun c => h.bind (h.here _) fun indent => h.bind (h.lift _) fun next => ?_
  refine ite ?_ (h.pure _)
  split
  · exact h.pure _
  · refine h.bind (h.lift _) fun size => ?_
    extract_lets fuel
    split
    · exact h.goTo _
    · exact h.pure _

theorem enter (utterance : Value) (name : String) :
    P (do
      let start ← Launch.startIndex (← read).tags utterance name
      Launch.enter start) := by
  refine h.bind h.read fun c => h.bind (h.lift _) fun start => ite (h.goTo start) ?_
  exact h.bind h.read fun _ => h.bind (h.lift _) fun fuel => h.steps.skipHeader fuel

end PlaceLaw

end Edit

end Colloquy
