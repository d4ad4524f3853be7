import Colloquy.Proofs.Turns

/-! References to variables.  What a reference is replaced by only depends on the variables, up to
the numbers of lists, and on what stays as it is while a script speaks and branches.  So data that
call no function decide the condition of a branch. -/

namespace Colloquy

open Value Text Entries Colloquy.Function

variable {data v w : Value} {s t : Session} {entries : Entries}

/-! ### Values up to the numbers of lists -/

namespace Value

theorem copiedEntries_eq_map (entries : List (Value × Value)) :
    copiedEntries entries = entries.map fun e => (e.1, e.2.copied) := by
  induction entries with
  | nil => rfl
  | cons e rest ih => rw [copiedEntries, ih, List.map_cons]

theorem truthy_copied (v : Value) : v.copied.truthy = v.truthy := by
  cases v <;> simp [copied, truthy, copiedItems_eq, copiedEntries_eq_map]

theorem size_copied (v : Value) : v.copied.size = v.size := by
  cases v <;> simp [copied, size, copiedItems_eq, copiedEntries_eq_map]

theorem needle_copied (v : Value) : v.copied.needle = v.needle := by
  cases v <;> rfl

mutual

theorem literal_copied : (v : Value) → v.copied.literal = v.literal
  | list items _ => by simp only [copied, literal, literals_copied items]
  | tuple [] => rfl
  | tuple [x] => by simp only [copied, copiedItems, literal, literal_copied x]
  | tuple (x :: y :: rest) => by
    simp only [copied, copiedItems, literal, literals, literal_copied x, literal_copied y,
      literals_copied rest]
  | table entries => by simp only [copied, literal, literalEntries_copied entries]
  | null | bool _ | int _ | float _ | str _ | set _ | record _ => by simp only [copied]

theorem literals_copied : (items : List Value) → literals (copiedItems items) = literals items
  | [] => rfl
  | x :: xs => by simp only [copiedItems, literals, literal_copied x, literals_copied xs]

theorem literalEntries_copied : (entries : List (Value × Value)) →
    literalEntries (copiedEntries entries) = literalEntries entries
  | [] => rfl
  | (k, v) :: rest => by
    simp only [copiedEntries, literalEntries, literal_copied v, literalEntries_copied rest]

end

mutual

theorem copied_copied : (v : Value) → v.copied.copied = v.copied
  | list items _ => by simp only [copied, copiedItems_copied items]
  | tuple items => by simp only [copied, copiedItems_copied items]
  | table entries => by simp only [copied, copiedEntries_copied entries]
  | null | bool _ | int _ | float _ | str _ | set _ | record _ => by simp only [copied]

theorem copiedItems_copied : (items : List Value) →
    copiedItems (copiedItems items) = copiedItems items
  | [] => rfl
  | x :: xs => by simp only [copiedItems, copied_copied x, copiedItems_copied xs]

theorem copiedEntries_copied : (entries : List (Value × Value)) →
    copiedEntries (copiedEntries entries) = copiedEntries entries
  | [] => rfl
  | (k, v) :: rest => by simp only [copiedEntries, copied_copied v, copiedEntries_copied rest]

end

theorem display_copied (v : Value) : v.copied.display = v.display := by
  cases v with
  | str s => rfl
  | list items number => exact literal_copied (list items number)
  | tuple items => exact literal_copied (tuple items)
  | table entries => exact literal_copied (table entries)
  | _ => rfl

theorem needles_copied (v : Value) :
    (v.copied.elements >>= fun items => items.mapM needle) =
      v.elements >>= fun items => items.mapM needle := by
  have hitems (items : List Value) : (copiedItems items).mapM needle = items.mapM needle := by
    induction items with
    | nil => rfl
    | cons x xs ih => rw [copiedItems, List.mapM_cons, List.mapM_cons, needle_copied, ih]
  cases v with
  | list items number => exact hitems items
  | tuple items => exact hitems items
  | table entries =>
    simp [copied, elements, Entries.keys, copiedEntries_eq_map, Function.comp_def]
  | _ => rfl

theorem itemAt_copied (items : List Value) (index : Int) :
    itemAt (copiedItems items) index = (itemAt items index).map copied := by
  simp only [itemAt, copiedItems_eq, List.length_map]
  cases position? items.length index with
  | none => rfl
  | some position =>
    simp only [Option.bind_some, List.getElem?_map]
    cases items[position]? <;> rfl

/-- Values that are the same up to the numbers of lists. -/
def Like (v w : Value) : Prop :=
  v.copied = w.copied

namespace Like

variable {v w : Value}

theorem truthy (h : Like v w) : v.truthy = w.truthy := by
  rw [← truthy_copied v, h, truthy_copied]

theorem size (h : Like v w) : v.size = w.size := by
  rw [← size_copied v, h, size_copied]

theorem display (h : Like v w) : v.display = w.display := by
  rw [← display_copied v, h, display_copied]

theorem needles (h : Like v w) : (v.elements >>= fun items => items.mapM needle) =
    w.elements >>= fun items => items.mapM needle := by
  rw [← needles_copied v, h, needles_copied]

end Like

def LikeResult (x y : Except Fault Value) : Prop :=
  x.map copied = y.map copied

theorem likeResult_copied (x : Except Fault Value) : LikeResult (x.map copied) x := by
  cases x with
  | error fault => rfl
  | ok v => exact congrArg Except.ok (copied_copied v)

theorem item_copied (v key : Value) : LikeResult (v.copied.item key) (v.item key) := by
  have hitems (items : List Value) :
      LikeResult ((tuple (copiedItems items)).item key) ((tuple items).item key) := by
    simp only [item]
    cases key.asInt? with
    | none => rfl
    | some index =>
      simp only [itemAt_copied]
      exact likeResult_copied _
  cases v with
  | list items number => exact hitems items
  | tuple items => exact hitems items
  | table entries =>
    simp only [copied, item, find?_copied]
    split
    · cases Entries.find? key entries with
      | none => rfl
      | some value => exact likeResult_copied (.ok value)
    · rfl
  | _ => rfl

theorem get_copied (entries : Entries) (key default : Value) :
    LikeResult ((table (copiedEntries entries)).get key default) ((table entries).get key default) := by
  simp only [get, find?_copied]
  split
  · cases Entries.find? key entries with
    | none => rfl
    | some value => exact likeResult_copied (.ok value)
  · rfl

theorem Like.item (h : Like v w) (key : Value) : LikeResult (v.item key) (w.item key) := by
  have hv := item_copied v key
  rw [LikeResult] at hv ⊢
  rw [← hv, show v.copied = w.copied from h, item_copied w key]

theorem LikeResult.bind {x y : Except Fault Value} {f g : Value → Except Fault Value}
    (h : LikeResult x y) (hf : ∀ v w, Like v w → LikeResult (f v) (g w)) :
    LikeResult (x >>= f) (y >>= g) := by
  cases x with
  | ok v =>
    cases y with
    | ok w => exact hf v w (Except.ok.inj h)
    | error fault => cases h
  | error fault =>
    cases y with
    | ok w => cases h
    | error fault' =>
      obtain rfl := Except.error.inj h
      rfl

theorem get_like {es es' : Entries} (h : copiedEntries es = copiedEntries es')
    (key default : Value) : LikeResult ((table es).get key default) ((table es').get key default) := by
  have hes := get_copied es key default
  rw [LikeResult] at hes ⊢
  rw [← hes, h, get_copied es' key default]

theorem Like.isList (h : Like v w) : v.isList = w.isList := by
  have hcopied (v : Value) : v.copied.isList = v.isList := by cases v <;> rfl
  rw [← hcopied v, h, hcopied]

theorem Like.list {items : List Value} {number : Option Nat} (h : Like (list items number) w) :
    ∃ items' number', w = list items' number' ∧ copiedItems items = copiedItems items' := by
  have hlist := h.isList
  cases w with
  | list items' number' =>
    exact ⟨items', number', rfl, (list.inj h).1⟩
  | _ => cases hlist

theorem itemAt_like {items items' : List Value} (h : copiedItems items = copiedItems items')
    (index : Int) : LikeResult (itemAt items index) (itemAt items' index) := by
  rw [LikeResult, ← itemAt_copied, h, itemAt_copied]

theorem item_ne_stepLimit {key : Value} {fault : Fault} (h : v.item key = .error fault) :
    fault ≠ .stepLimit := by
  rintro rfl
  simp only [item, itemAt] at h
  grind

end Value

/-! ### Computations that agree -/

open Session Execution Command

/-- Nothing has changed but silent requests to the host. -/
def Session.Hushed (s t : Session) : Prop :=
  { t with events := s.events } = s ∧ t.spoken = s.spoken

theorem Session.Hushed.aside (h : Hushed s t) : Aside s t where
  rest := (congrArg (fun u : Session => { u with message := s.message }) h.1 :)
  message := (congrArg (fun u : Session => u.message.map Message.bare) h.1 :)
  spoken := h.2

theorem Session.Hushed.lineData (h : Hushed s t) (hs : Session.lineData s = .ok data s) :
    Session.lineData t = .ok data t := by
  have hmessage : t.message = s.message := (congrArg Session.message h.1 :)
  cases hm : s.message with
  | none => simp [Session.lineData, datum, theMessage, bind_apply, hm] at hs
  | some m =>
    rw [lineData_apply hm] at hs
    rw [lineData_apply (hmessage.trans hm), (EStateM.Result.ok.inj hs).1]

theorem Session.Aside.refl (s : Session) : Aside s s :=
  ⟨rfl, rfl, rfl⟩

theorem Session.Aside.trans {u : Session} (h : Aside s t) (h' : Aside t u) : Aside s u where
  rest := by
    have hrest := congrArg (fun v : Session => { v with events := s.events, message := s.message }) h'.rest
    exact hrest.trans h.rest
  message := h'.message.trans h.message
  spoken := h'.spoken.trans h.spoken

/-- Two sessions in which only the data of the line have changed, to the same data. -/
structure Filled (s t : Session) (data : Value) (s' t' : Session) : Prop where
  left : Aside s s'
  right : Aside t t'
  leftData : lineData s' = .ok data s'
  rightData : lineData t' = .ok data t'

theorem Filled.trans {s' t' s₁ t₁ : Session} {data' : Value} (h : Filled s t data s' t')
    (h' : Filled s' t' data' s₁ t₁) : Filled s t data' s₁ t₁ :=
  ⟨h.left.trans h'.left, h.right.trans h'.right, h'.leftData, h'.rightData⟩

/-- A computation ends alike from two sessions: well and without a change, with results in the
relation, or with a fault and nothing but silent requests to the host. -/
def Agrees {α : Type} (s t : Session) (R : α → α → Prop) (m m' : Run α) : Prop :=
  (∃ a a', m s = .ok a s ∧ m' t = .ok a' t ∧ R a a') ∨
    ∃ fault fault' s' t', m s = .error fault s' ∧ m' t = .error fault' t' ∧
      (fault = .stepLimit ↔ fault' = .stepLimit) ∧ Hushed s s' ∧ Hushed t t'

namespace Agrees

variable {α β : Type} {s t : Session} {R : α → α → Prop} {Q : β → β → Prop} {m m' : Run α}
  {f f' : α → Run β}

theorem pure {a a' : α} (h : R a a') : Agrees s t R (Pure.pure a) (Pure.pure a') :=
  .inl ⟨a, a', rfl, rfl, h⟩

theorem throw {fault fault' : Fault} (h : fault = .stepLimit ↔ fault' = .stepLimit) :
    Agrees s t R (MonadExcept.throw fault) (MonadExcept.throw fault') :=
  .inr ⟨fault, fault', s, t, rfl, rfl, h, ⟨rfl, rfl⟩, rfl, rfl⟩

theorem bind (hm : Agrees s t R m m') (hf : ∀ a a', R a a' → Agrees s t Q (f a) (f' a')) :
    Agrees s t Q (m >>= f) (m' >>= f') := by
  obtain ⟨a, a', hs, ht, hR⟩ | ⟨fault, fault', s', t', hs, ht, hfault, hs', ht'⟩ := hm
  · obtain ⟨b, b', hs', ht', hQ⟩ | ⟨fault, fault', s', t', hs', ht', hrest⟩ := hf a a' hR
    · exact .inl ⟨b, b', (bind_of_ok hs).trans hs', (bind_of_ok ht).trans ht', hQ⟩
    · exact .inr ⟨fault, fault', s', t', (bind_of_ok hs).trans hs', (bind_of_ok ht).trans ht',
        hrest⟩
  · exact .inr ⟨fault, fault', s', t', bind_of_error hs, bind_of_error ht, hfault, hs', ht'⟩

theorem mono {R' : α → α → Prop} (h : Agrees s t R m m') (hR : ∀ a a', R a a' → R' a a') :
    Agrees s t R' m m' :=
  h.imp_left fun ⟨a, a', hs, ht, hra⟩ => ⟨a, a', hs, ht, hR a a' hra⟩

theorem lift' (x : Except Fault α) :
    Agrees s t (fun a a' => a = a' ∧ x = .ok a') (liftM x : Run α) (liftM x) := by
  cases x with
  | ok a => exact pure ⟨rfl, rfl⟩
  | error fault => exact throw Iff.rfl

theorem lift (x : Except Fault α) : Agrees s t Eq (liftM x : Run α) (liftM x) :=
  (lift' x).mono fun _ _ h => h.1

theorem liftLike {x y : Except Fault Value} (h : LikeResult x y) :
    Agrees s t Like (liftM x) (liftM y) := by
  cases x with
  | ok v =>
    cases y with
    | ok w => exact pure (Except.ok.inj h)
    | error fault => cases h
  | error fault =>
    cases y with
    | ok w => cases h
    | error fault' =>
      obtain rfl := Except.error.inj h
      exact throw Iff.rfl

theorem mapM_needle (parts : List Value) : (parts.mapM fun x => (liftM x.needle : Run String)) =
    liftM (parts.mapM needle) := by
  induction parts with
  | nil => rfl
  | cons x xs ih =>
    rw [List.mapM_cons, List.mapM_cons, ih]
    cases x.needle with
    | error fault => rfl
    | ok word => cases xs.mapM needle <;> rfl

theorem joined (h : v.Like w) : Agrees s t Eq
    (do
      let parts ← liftM v.elements
      let words ← parts.mapM fun x => liftM x.needle
      Pure.pure (join "," words) : Run String)
    (do
      let parts ← liftM w.elements
      let words ← parts.mapM fun x => liftM x.needle
      Pure.pure (join "," words)) := by
  have hlift {x : Except Fault (List Value)} : (do
      let parts ← liftM x
      let words ← parts.mapM fun x => liftM x.needle
      Pure.pure (join "," words) : Run String) =
        liftM (x >>= fun parts => parts.mapM needle) >>= fun words =>
          Pure.pure (join "," words) := by
    cases x with
    | error fault => rfl
    | ok parts =>
      exact congrArg (fun m : Run (List String) => m >>= fun words =>
        Pure.pure (join "," words)) (mapM_needle parts)
  rw [hlift, hlift, h.needles]
  exact bind (lift _) fun words _ hwords => pure (hwords ▸ rfl)

theorem reads {a a' : α} (hs : m s = .ok a s) (ht : m' t = .ok a' t) (h : R a a') :
    Agrees s t R m m' :=
  .inl ⟨a, a', hs, ht, h⟩

end Agrees

/-! ### References -/

namespace Substitution

variable {es es' : Entries}

theorem has_like (h : Value.copiedEntries es = Value.copiedEntries es') (key : Value) :
    has es key = has es' key := by
  rw [has, has, ← Option.isSome_map (f := copied), ← find?_copied, h,
    find?_copied, Option.isSome_map]

theorem find?_like (h : Value.copiedEntries es = Value.copiedEntries es') (key : Value) :
    ((Entries.find? key es).getD .null).Like ((Entries.find? key es').getD .null) := by
  have hfind : (Entries.find? key es).map copied = (Entries.find? key es').map copied := by
    rw [← find?_copied, h, find?_copied]
  cases hes : Entries.find? key es <;> cases hes' : Entries.find? key es' <;>
    simp only [hes, hes', Option.map_some, Option.map_none, Option.some.injEq] at hfind
  · rfl
  · cases hfind
  · cases hfind
  · exact hfind

theorem tokens_like (h : Value.copiedEntries es = Value.copiedEntries es')
    (functions : List Function) (line : String) :
    tokens (.table es) functions line = tokens (.table es') functions line := by
  have hname : isName (.table es) functions = isName (.table es') functions := by
    funext word
    simp only [isName, Value.entries, bind, Except.bind, pure, Except.pure, has_like h]
  have hopen (fuel : Nat) (rest : String) : openTokens (.table es) functions fuel rest =
      openTokens (.table es') functions fuel rest := by
    induction fuel generalizing rest with
    | zero => rfl
    | succ fuel ih => simp only [openTokens, hname, ih]
  simp only [tokens, hopen]

theorem newest_cons (user : Value) (c : Conversation) (line name : String) {x : Value}
    (xs : List Value) (number : Option Nat) (h : x.isList = false) :
    newest user c line name (.list (x :: xs) number) = pure (.list (x :: xs) number) := by
  cases x with
  | list => cases h
  | _ => rfl

theorem newest_of_not_list (user : Value) (c : Conversation) (line name : String)
    (h : v.isList = false) : newest user c line name v = pure (.ofItems [v]) := by
  cases v with
  | list => cases h
  | _ => rfl

theorem wordOf_of_not_list (bindings : Value) (name : String) (h : v.isList = false) :
    wordOf bindings name v = pure (trimOf "\"" (trim v.display)) := by
  cases v with
  | list => cases h
  | _ => rfl

def calls (functions : List Function) (token : String) : Bool :=
  Text.startsWith token "\x7b" && Text.endsWith token "\x7d" &&
    functions.any fun f =>
      Text.contains (Text.trimEndOf "\x7d" (Text.trimStartOf "\x7b" token)) f.name

def callFree (bindings : Value) (text : String) : Bool :=
  match tokens bindings Function.all (Text.trim text) with
  | .ok (pieces, _) => pieces.all fun piece => !calls Function.all piece
  | .error _ => true

theorem callFree_like (h : Value.copiedEntries es = Value.copiedEntries es') (text : String) :
    callFree (.table es) text = callFree (.table es') text := by
  delta callFree
  rw [tokens_like h]

theorem replaceToken_getElem? {token word : String} {pieces : List String} {p q : Nat}
    (hp : pieces[p]? = some token) (hq : p < q) :
    (replaceToken token word pieces)[q]? = pieces[q]? := by
  induction pieces generalizing p q with
  | nil => rfl
  | cons piece rest ih =>
    obtain ⟨q, rfl⟩ := Nat.exists_eq_succ_of_ne_zero (Nat.ne_of_gt (Nat.lt_of_le_of_lt p.zero_le hq))
    rw [replaceToken]
    split
    · rfl
    · rename_i hpiece
      cases p with
      | zero =>
        obtain rfl := Option.some.inj hp
        simp at hpiece
      | succ p => exact ih hp (Nat.lt_of_succ_lt_succ hq)

end Substitution

/-- Two sessions like each other, with the only script of the user and its variables in each. -/
structure Sides (user : Value) (s t : Session) (c c' : Conversation) (es es' : Entries) : Prop where
  isKey : user.isKey = true
  manager : ∃ m m', managerIn s.active user = some m ∧ managerIn t.active user = some m' ∧
    m.stack = [.conversation c] ∧ m'.stack = [.conversation c'] ∧ m'.scope = m.scope
  bare : c'.bare = c.bare
  left : c.bindings = .table es
  right : c'.bindings = .table es'
  like : Value.copiedEntries es = Value.copiedEntries es'
  initialized : s.initialized = true ∧ t.initialized = true
  message : ∃ m m', s.message = some m ∧ t.message = some m' ∧ m'.bare = m.bare

namespace Sides

open Substitution

variable {user : Value} {s t : Session} {c c' : Conversation} {es es' : Entries}

theorem rawValue (h : Sides user s t c c' es es') (name : String) :
    Agrees s t Like (rawValue user c name) (rawValue user c' name) := by
  have hown := find?_like h.like (.str name)
  have hpending : c'.pending = c.pending := (congrArg Conversation.pending h.bare :)
  obtain ⟨m, m', hm, hm', -, -, hscope⟩ := h.manager
  simp only [Substitution.rawValue, h.left, h.right, Value.entries, hpending]
  refine .bind (R := fun a a' => a = es ∧ a' = es') (.reads rfl rfl ⟨rfl, rfl⟩) ?_
  rintro _ _ ⟨rfl, rfl⟩
  rw [hown.truthy]
  split
  · exact .pure hown
  · split
    · refine .bind (R := fun a a' => a'.scope = a.scope) (.reads (managerAt_of_some h.isKey hm)
        (managerAt_of_some h.isKey hm') hscope) fun a a' ha => ?_
      simp only [Manager.lookupScope, ha]
      exact (Agrees.lift _).mono fun _ _ h => congrArg copied h
    · refine .bind (.lift _) fun a a' ha => ?_
      subst ha
      refine .bind (.lift _) fun b b' hb => ?_
      subst hb
      exact .pure rfl

theorem indexed_like (hlike : Value.copiedEntries es = Value.copiedEntries es') {raw raw' : Value}
    (hraw : raw.Like raw') (name index : String) :
    LikeResult (indexed (.table es) raw name index) (indexed (.table es') raw' name index) := by
  simp only [indexed]
  split
  · have hwords : (raw.elements >>= listed) = raw'.elements >>= listed := by
      have hneedles := congrArg (fun x => x >>= fun words => pure (join ", " words))
        hraw.needles
      simp only [bind_assoc] at hneedles
      exact hneedles
    have hresult : (do return str (← listed (← raw.elements)) : Except Fault Value) =
        (do return str (← listed (← raw'.elements))) := by
      have h := congrArg (fun x => x >>= fun word => (pure (str word) : Except Fault Value)) hwords
      simpa only [bind_assoc] using h
    exact congrArg (Except.map copied) hresult
  · rw [hraw.size]
    cases raw'.size with
    | error fault => rfl
    | ok n =>
      exact (get_like hlike (.str name) (.ofItems [.str ""])).bind fun v w hvw =>
        hvw.item (.int 0)

variable (h : Sides user s t c c' es es')

include h

theorem symm : Sides user t s c' c es' es := by
  obtain ⟨m, m', hm, hm', hstack, hstack', hscope⟩ := h.manager
  obtain ⟨message, message', hs, ht, hbare⟩ := h.message
  exact ⟨h.isKey, ⟨m', m, hm', hm, hstack', hstack, hscope.symm⟩, h.bare.symm, h.right, h.left,
    h.like.symm, h.initialized.symm, message', message, ht, hs, hbare.symm⟩

theorem reportUndeclared_cases (line : String) :
    (∃ fault, reportUndeclared user line s = .error fault s ∧ fault ≠ .stepLimit) ∨
      ∃ u, reportUndeclared user line s = .ok () u ∧ Hushed s u := by
  obtain ⟨m, m', hm, -, hstack, -⟩ := h.manager
  rw [reportUndeclared, bind_of_ok (current_of_stack h.isKey hm hstack)]
  cases hline : c.lines.item c.index with
  | error fault => exact .inl ⟨fault, rfl, item_ne_stepLimit hline⟩
  | ok line =>
    rw [bind_of_ok (lift_ok_apply _ _)]
    cases hnumber : line.item "line_number" with
    | error fault => exact .inl ⟨fault, rfl, item_ne_stepLimit hnumber⟩
    | ok number =>
      refine .inr ⟨_, rfl, rfl, ?_⟩
      exact (spoken_cons _ s).trans (List.append_nil _)

theorem undeclared_error (line name : String) :
    ∃ fault u, (do
        if !(← member name c.bindings) then reportUndeclared user line
        throw .outOfRange : Run Value) s = .error fault u ∧ fault ≠ .stepLimit ∧ Hushed s u := by
  have hmember : member name c.bindings = .ok (has es name) := by
    rw [h.left]
    rfl
  rw [hmember, bind_of_ok (lift_ok_apply _ _)]
  split
  · obtain ⟨fault, hreport, hfault⟩ | ⟨u, hreport, hhushed⟩ := h.reportUndeclared_cases line
    · exact ⟨fault, s, bind_of_error hreport, hfault, rfl, rfl⟩
    · exact ⟨.outOfRange, u, bind_of_ok hreport, by decide, hhushed⟩
  · exact ⟨.outOfRange, s, rfl, by decide, rfl, rfl⟩

theorem newest (line name : String) {raw raw' : Value}
    (hraw : raw.Like raw') :
    Agrees s t Like (newest user c line name raw) (newest user c' line name raw') := by
  by_cases hlist : raw.isList = true
  · cases raw with
    | list items number =>
      obtain ⟨items', number', rfl, hitems⟩ := hraw.list
      cases items with
      | nil =>
        cases items' with
        | cons x xs => cases hitems
        | nil =>
          obtain ⟨fault, s', hs, hfault, hs'⟩ := h.undeclared_error line name
          obtain ⟨fault', t', ht, hfault', ht'⟩ := h.symm.undeclared_error line name
          exact .inr ⟨fault, fault', s', t', hs, ht, by simp [hfault, hfault'], hs', ht'⟩
      | cons x xs =>
        cases items' with
        | nil => cases hitems
        | cons x' xs' =>
          have hx : x.Like x' := (List.cons.inj hitems).1
          by_cases hinner : x.isList = true
          · cases x with
            | list inner n =>
              obtain ⟨inner', n', rfl, -⟩ := hx.list
              exact .pure hx
            | _ => cases hinner
          · have hinner' := hx.isList ▸ hinner
            rw [newest_cons user c line name xs number (by simpa using hinner),
              newest_cons user c' line name xs' number' (by simpa using hinner')]
            exact .pure hraw
    | _ => cases hlist
  · have hlist' := hraw.isList ▸ hlist
    rw [newest_of_not_list user c line name (by simpa using hlist),
      newest_of_not_list user c' line name (by simpa using hlist')]
    refine .pure ?_
    simp only [Like, ofItems, copied, copiedItems]
    rw [show raw.copied = raw'.copied from hraw]

theorem datum {name : String} (hname : name ≠ "parser_data")
    (default : Value) : Agrees s t Eq (datum name default) (datum name default) := by
  obtain ⟨m, m', hm, hm', hbare⟩ := h.message
  have hfind : Entries.find? name m'.data = Entries.find? name m.data := by
    rw [← find?_erase hname m.data, ← find?_erase hname m'.data]
    exact congrArg (fun m => Entries.find? name m.data) hbare
  refine .reads (bind_of_ok (theMessage_of_some hm)) (bind_of_ok (theMessage_of_some hm')) ?_
  rw [hfind]

theorem wordOf (name : String) {v' : Value} (hv : v.Like v') :
    Agrees s t Eq (wordOf (.table es) name v) (wordOf (.table es') name v') := by
  by_cases hlist : v.isList = true
  · cases v with
    | list items number =>
      obtain ⟨items', number', rfl, hitems⟩ := hv.list
      have hlength : items.length = items'.length := by
        have := congrArg List.length hitems
        simpa [copiedItems_eq] using this
      have hrest (whole : Bool) : Agrees s t Eq
          (if whole = true then do
            let value ← liftM ((table es).get (.str name))
            let parts ← liftM value.elements
            let words ← parts.mapM fun x => liftM x.needle
            pure (join "," words)
          else do
            let first ← liftM (itemAt items 0)
            pure (trimOf "\"" (trim first.display)) : Run String)
          (if whole = true then do
            let value ← liftM ((table es').get (.str name))
            let parts ← liftM value.elements
            let words ← parts.mapM fun x => liftM x.needle
            pure (join "," words)
          else do
            let first ← liftM (itemAt items' 0)
            pure (trimOf "\"" (trim first.display))) := by
        split
        · exact .bind (.liftLike (get_like h.like _ _)) fun v w hvw => .joined hvw
        · refine .bind (.liftLike (itemAt_like hitems 0)) fun v w hvw => ?_
          rw [hvw.display]
          exact .pure rfl
      simp only [Substitution.wordOf, hlength]
      split
      · refine .bind (h.datum (by decide) _) fun data _ hdata => ?_
        subst hdata
        refine .bind (.lift _) fun asked _ hasked => ?_
        subst hasked
        exact hrest asked.truthy
      · exact hrest false
    | _ => cases hlist
  · have hlist' := hv.isList ▸ hlist
    rw [wordOf_of_not_list _ name (by simpa using hlist),
      wordOf_of_not_list _ name (by simpa using hlist'), hv.display]
    exact .pure rfl

theorem variableWord (line reference : String) :
    Agrees s t Eq (variableWord user c line reference) (variableWord user c' line reference) := by
  have hword (name : String) {v v' : Value} (hv : v.Like v') : Agrees s t Eq
      (do return tidy (← Substitution.wordOf (.table es) name v))
      (do return tidy (← Substitution.wordOf (.table es') name v')) :=
    .bind (h.wordOf name hv) fun word _ heq => .pure (heq ▸ rfl)
  simp only [Substitution.variableWord, h.left, h.right]
  split
  · refine .bind (h.rawValue _) fun raw raw' hraw => ?_
    exact .bind (.liftLike (indexed_like h.like hraw _ _)) fun v v' hv => hword _ hv
  · refine .bind (h.rawValue _) fun raw raw' hraw => ?_
    exact .bind (h.newest line reference hraw) fun v v' hv => hword _ hv

theorem replaceFrom (functions : List Function) (gap : String)
    (left position : Nat) (pieces : List String) (line : String)
    (hfree : ∀ q token, position ≤ q → pieces[q]? = some token → calls functions token = false) :
    Agrees s t Eq (replaceFrom user c functions gap left position pieces line)
      (replaceFrom user c' functions gap left position pieces line) := by
  induction left generalizing position pieces line with
  | zero => exact .pure rfl
  | succ left ih =>
    simp only [Substitution.replaceFrom, pure_bind]
    split
    · rename_i hbraced
      obtain ⟨hstart, hend⟩ := Bool.and_eq_true_iff.1 hbraced
      cases hpiece : pieces[position]? with
      | none => simp [hpiece, startsWith] at hstart
      | some token =>
        simp only [hpiece, Option.getD_some] at hstart hend ⊢
        have hcall := hfree position token (Nat.le_refl _) hpiece
        rw [calls, hstart, hend, Bool.true_and, Bool.true_and] at hcall
        simp only [hcall, Bool.false_eq_true, if_false]
        refine .bind (h.variableWord line _) fun word _ hword => ?_
        subst hword
        refine ih _ _ _ fun q token' hq hq' => ?_
        rw [replaceToken_getElem? hpiece hq] at hq'
        exact hfree q token' (Nat.le_of_succ_le hq) hq'
    · exact ih _ _ _ fun q token hq => hfree q token (Nat.le_of_succ_le hq)

/-- The text that comes of replacing the references in a text that calls no function. -/
theorem substitute {text : String}
    (hfree : callFree c.bindings text = true) :
    Agrees s t Eq (substitute user (.str text) false) (substitute user (.str text) false) := by
  obtain ⟨m, m', hm, hm', hstack, hstack', -⟩ := h.manager
  have hcurrent : currentAt user s = .ok (some c) s := by
    rw [currentAt, bind_of_ok (managerAt_of_some h.isKey hm), top_of_stack hstack]
  have hcurrent' : currentAt user t = .ok (some c') t := by
    rw [currentAt, bind_of_ok (managerAt_of_some h.isKey hm'), top_of_stack hstack']
  have hknown {u : Session} (hu : u.initialized = true) : known u = .ok all u := by
    simp only [known, bind_apply, get_apply, pure_apply, hu, if_true]
  refine .bind (R := fun a a' => a = some c ∧ a' = some c') (.reads hcurrent hcurrent' ⟨rfl, rfl⟩) ?_
  rintro _ _ ⟨rfl, rfl⟩
  simp only [Value.text, present, Bool.false_eq_true, if_false, pure_bind]
  refine .bind (.lift' _) ?_
  rintro _ line ⟨rfl, hline⟩
  obtain rfl := Except.ok.inj hline
  have hlike : (table es).Like (.table es') := congrArg table h.like
  have hsize : c'.bindings.size = c.bindings.size := by rw [h.left, h.right, hlike.size]
  have htokens : tokens c'.bindings all = tokens c.bindings all := by
    funext line
    rw [h.left, h.right, tokens_like h.like]
  rw [hsize]
  refine .bind (.lift _) fun _ _ _ => ?_
  refine .bind (R := fun a a' => a = all ∧ a' = all)
    (.reads (hknown h.initialized.1) (hknown h.initialized.2) ⟨rfl, rfl⟩) ?_
  rintro _ _ ⟨rfl, rfl⟩
  rw [htokens]
  refine .bind (.lift' _) ?_
  rintro _ ⟨pieces, gap⟩ ⟨rfl, hpieces⟩
  refine h.replaceFrom _ _ _ _ _ _ fun q token _ hq => ?_
  delta callFree at hfree
  rw [hpieces] at hfree
  simpa using List.all_eq_true.1 hfree token (List.mem_of_getElem? hq)

theorem setDatum (value : Value) :
    ∃ s' t', setDatum "parser_data" value s = .ok () s' ∧
      setDatum "parser_data" value t = .ok () t' ∧ Sides user s' t' c c' es es' ∧
        Filled s t value s' t' := by
  obtain ⟨m, m', hm, hm', hbare⟩ := h.message
  have hinsert (m : Message) : { m with data := insert "parser_data" value m.data }.bare =
      m.bare := by
    simp only [Message.bare, erase_insert]
  have hdatum (m : Message) : (Entries.find? "parser_data"
      (insert "parser_data" value m.data)).getD .null = value := by
    rw [find?_insert_self, Option.getD_some]
  refine ⟨_, _, setDatum_apply hm _ _, setDatum_apply hm' _ _,
    ⟨h.isKey, h.manager, h.bare, h.left, h.right, h.like, h.initialized, _, _, rfl, rfl, ?_⟩,
    ⟨rfl, by rw [hm, Option.map_some, Option.map_some, hinsert], rfl⟩,
    ⟨rfl, by rw [hm', Option.map_some, Option.map_some, hinsert], rfl⟩, ?_, ?_⟩
  · rw [hinsert, hinsert, hbare]
  · rw [lineData_apply rfl, hdatum]
  · rw [lineData_apply rfl, hdatum]

theorem fillData (hs : lineData s = .ok data s)
    (ht : lineData t = .ok data t)
    (hfree : ∀ e ∈ entries, ∀ text, e.2 = .str text → callFree c.bindings text = true) :
    (∃ data' s' t', fillData user entries s = .ok () s' ∧ fillData user entries t = .ok () t' ∧
        Filled s t data' s' t') ∨
      ∃ fault fault' data' s' t', fillData user entries s = .error fault s' ∧
        fillData user entries t = .error fault' t' ∧
          (fault = .stepLimit ↔ fault' = .stepLimit) ∧ Filled s t data' s' t' := by
  induction entries generalizing s t data with
  | nil => exact .inl ⟨data, s, t, rfl, rfl, .refl s, .refl t, hs, ht⟩
  | cons e rest ih =>
    obtain ⟨hfirst, hrest⟩ := List.forall_mem_cons.1 hfree
    obtain ⟨key, value⟩ := e
    cases value with
    | str text =>
      simp only [Execution.fillData]
      split
      · obtain ⟨filled, _, hs₁, ht₁, rfl⟩ | ⟨fault, fault', s', t', hs₁, ht₁, hfault, hhush⟩ :=
          h.substitute (hfirst text rfl)
        · cases hput : data.put key (.str filled) with
          | error fault =>
            refine .inr ⟨fault, fault, data, s, t, ?_, ?_, Iff.rfl, .refl s, .refl t, hs, ht⟩
            · rw [bind_of_ok hs₁, bind_of_ok hs, hput]
              rfl
            · rw [bind_of_ok ht₁, bind_of_ok ht, hput]
              rfl
          | ok value =>
            obtain ⟨s₂, t₂, hs₂, ht₂, hsides, hfilled⟩ := h.setDatum value
            rw [bind_of_ok hs₁, bind_of_ok hs, hput, bind_of_ok (lift_ok_apply _ _), bind_of_ok hs₂,
              bind_of_ok ht₁, bind_of_ok ht, hput, bind_of_ok (lift_ok_apply _ _), bind_of_ok ht₂]
            obtain ⟨data', s', t', hs', ht', hf⟩ |
              ⟨fault, fault', data', s', t', hs', ht', hfault, hf⟩ :=
              ih hsides hfilled.leftData hfilled.rightData hrest
            · exact .inl ⟨data', s', t', hs', ht', hfilled.trans hf⟩
            · exact .inr ⟨fault, fault', data', s', t', hs', ht', hfault, hfilled.trans hf⟩
        · exact .inr ⟨fault, fault', data, s', t', bind_of_error hs₁, bind_of_error ht₁, hfault,
            hhush.1.aside, hhush.2.aside, hhush.1.lineData hs, hhush.2.lineData ht⟩
      · exact ih h hs ht hrest
    | _ => exact ih h hs ht hrest

theorem passData {line line' : Value}
    (hline : line.get "data" = .ok (.table entries))
    (hline' : line'.get "data" = .ok (.table entries))
    (hfree : ∀ e ∈ entries, ∀ text, e.2 = .str text → callFree c.bindings text = true)
    {s' : Session} (hs : passData .branch user line s = .ok () s') :
    ∃ data' t', passData .branch user line' t = .ok () t' ∧ Filled s t data' s' t' := by
  obtain ⟨s₁, t₁, hs₁, ht₁, hsides, hfilled⟩ := h.setDatum (.table entries)
  rw [Execution.passData, hline, bind_of_ok (lift_ok_apply _ _), bind_of_ok hs₁] at hs
  rw [Execution.passData, hline', bind_of_ok (lift_ok_apply _ _), bind_of_ok ht₁]
  have hfill {u : Session} (hu : lineData u = .ok (.table entries) u) : (do
      let data ← lineData
      if data.truthy && Keyword.branch != Keyword.declare then
        Execution.fillData user (← data.entries) : Run Unit) u =
      Execution.fillData user entries u := by
    rw [bind_of_ok hu]
    cases entries <;> rfl
  rw [rescue_congr (hfill hfilled.leftData)] at hs
  rw [rescue_congr (hfill hfilled.rightData)]
  obtain ⟨data', s₂, t₂, hs₂, ht₂, hf⟩ | ⟨fault, fault', data', s₂, t₂, hs₂, ht₂, hfault, hf⟩ :=
    hsides.fillData hfilled.leftData hfilled.rightData hfree
  · rw [rescue_of_ok hs₂] at hs
    obtain ⟨-, rfl⟩ := EStateM.Result.ok.inj hs
    exact ⟨data', t₂, rescue_of_ok ht₂, hfilled.trans hf⟩
  · by_cases hlimit : fault = .stepLimit
    · simp [rescue, hs₂, hlimit] at hs
    · rw [rescue_of_error hs₂ hlimit] at hs
      obtain ⟨-, rfl⟩ := EStateM.Result.ok.inj hs
      exact ⟨data', t₂, rescue_of_error ht₂ (mt hfault.2 hlimit), hfilled.trans hf⟩

end Sides

/-! ### Conditions -/

/-- Whether data hold as the condition of a branch, if that can be found out. -/
def Command.condition? (user data : Value) (s : Session) : Option Bool :=
  let held : Run (Option Bool) := do
    passData .branch user (.object [("data", data)])
    let filled ← lineData
    if filled.truthy then return some (← Condition.ofData filled) else return none
  match held s with
  | .ok held _ => held
  | .error _ _ => none

namespace Stage

variable {user : Value} {lines : List Value} {names : Entries} {i : Nat} {s t : Session}

theorem sides (h : Stage user lines names i s) (halike : Alike user s t) :
    ∃ c c' es es', Sides user s t c c' es es' ∧ Value.copiedEntries es = names := by
  obtain ⟨m, c, place, hm, hstack, hat, -⟩ := h.current
  obtain ⟨m', c', hm', hstack', hscope, hbare⟩ := halike.current hm hstack
  obtain ⟨-, hbindings, -⟩ := Conversation.of_bare_eq hbare
  obtain ⟨es, hes, hnames⟩ := table_of_copied hat.bindings
  obtain ⟨es', hes', hnames'⟩ := table_of_copied (hbindings.trans hat.bindings)
  obtain ⟨message, hmessage, -⟩ := h.message
  have hmessages := halike.message
  rw [hmessage] at hmessages
  obtain ⟨message', hmessage', hmessageBare⟩ := Option.map_eq_some_iff.1 hmessages
  exact ⟨c, c', es, es', ⟨h.isKey, ⟨m, m', hm, hm', hstack, hstack', hscope⟩, hbare, hes, hes',
    hnames.trans hnames'.symm, ⟨h.initialized, halike.initialized.trans h.initialized⟩,
    message, message', hmessage, hmessage', hmessageBare⟩, hnames⟩

theorem decides (h : Stage user lines names i s) {b : Bool}
    (hfree : ∀ e ∈ entries, ∀ text, e.2 = .str text → Substitution.callFree (.table names) text = true)
    (hheld : Command.condition? user (.table entries) s = some b) :
    Decides user s (.table entries) b := by
  intro t halike line text hline
  obtain ⟨c, c', es, es', hsides, hnames⟩ := h.sides halike
  have hlike : Value.copiedEntries names = Value.copiedEntries es := by
    rw [← hnames, copiedEntries_copied]
  have hfree' : ∀ e ∈ entries, ∀ text, e.2 = .str text →
      Substitution.callFree c.bindings text = true := fun e he text htext => by
    have hnone := hfree e he text htext
    rwa [Substitution.callFree_like hlike, ← hsides.left] at hnone
  cases hpass : passData .branch user (.object [("data", .table entries)]) s with
  | error fault s' => simp only [Command.condition?, bind_apply, hpass] at hheld; cases hheld
  | ok _ s' =>
    obtain ⟨data', t', hpass', hfilled⟩ := hsides.passData (by simp [Value.get_object]) hline hfree'
      hpass
    simp only [Command.condition?, bind_apply, hpass, hfilled.leftData] at hheld
    refine ⟨t', ?_, hfilled.right⟩
    rw [bind_of_ok hpass', Command.holds, bind_of_ok hfilled.rightData]
    cases htruthy : data'.truthy with
    | false => simp [htruthy] at hheld
    | true =>
      simp only [htruthy, if_true] at hheld ⊢
      cases hcondition : Condition.ofData data' with
      | error fault => simp [hcondition, bind_apply] at hheld
      | ok held => simpa [hcondition, bind_apply] using hheld

end Stage

end Colloquy
