import Colloquy.Proofs.History
import Colloquy.Proofs.Templates

/-! Names of functions in other texts.  A reference is taken for a call as soon as the name of a
function occurs in it, and so is a text that is assigned.  A variable with such a name cannot be
referred to, and in place of such a text the variable gets what the function makes of it. -/

namespace Colloquy

open Session Command Text Substitution Colloquy.Function

variable {s : Session} {t : String}

/-- The first function whose name occurs in a text. -/
def Function.within (s : String) : Option Function :=
  all.find? fun f => Text.contains s f.name

/-- What a function gives to a variable that it is assigned to: of a text the part in front of the
first comma, and any other value as it is. -/
def Function.gives (f : Function) (key : String) (user : Value) : Run Value := do
  match ← callQuietly f key user with
  | .str result => return .ofItems [.str ((Text.split "," result).headD "")]
  | result => return result

theorem Function.within_eq_none {s : String} :
    within s = none ↔ ∀ f ∈ all, contains s f.name = false := by
  simp only [within, List.find?_eq_none, Bool.not_eq_true]

theorem Function.contains_of_within {s : String} {f : Function} (h : within s = some f) :
    contains s f.name = true :=
  List.find?_some (p := fun f : Function => contains s f.name) h

/-! ### References -/

namespace Substitution

variable {user : Value} {c : Conversation} {s : Session} {name gap line : String}
  {pieces : List String} {f : Function}

theorem replaceFrom_clash (left : Nat) {position : Nat} (hopens : '\x7b' ∉ name.toList)
    (hcloses : '\x7d' ∉ name.toList) (hparen : '(' ∉ name.toList)
    (hwithin : within name = some f) (hpiece : pieces[position]? = some (braced name)) :
    replaceFrom user c all gap (left + 1) position pieces line s = .error .badValue s := by
  have hfunctions : (all.any fun f => contains name f.name) = true :=
    List.any_eq_true.2 ⟨f, f.mem_all, contains_of_within hwithin⟩
  have hcut : cut? "(" name = none := cut?_eq_none "(" rfl hparen
  simp only [replaceFrom, hpiece, Option.getD_some, braced_isReference, if_true,
    trim_braced hopens hcloses, hfunctions, callWord, hcut, bind_apply, throw_apply]

end Substitution

def Template.single (name : String) : Template :=
  { start := "", parts := [(name, "")] }

theorem Template.fill_single (name : String) (f : String → String) :
    (single name).fill f = inQuotes (f name) := by
  simp [single, fill]

namespace Running

variable {user : Value} {c : Conversation} {bindings : Entries} {s : Session} {name w : String}

theorem substitute_single (h : Running user c bindings s) {message : Message}
    (hmessage : s.message = some message) (hsingle : message.Single) {older : List Value}
    {number : Option Nat} (hfind : bindings.find? name = some (.list (.str w :: older) number))
    (hw : '\x7b' ∉ w.toList) (hchars : ∀ c ∈ ['(', '[', '\x7b', '\x7d'], c ∉ name.toList) :
    substitute user (.str (inQuotes (braced name))) false s =
      match within name with
      | none => .ok (inQuotes (shown w)) s
      | some _ => .error .badValue s := by
  have hclear : (Template.single name).Clear :=
    ⟨by simp [Template.single], by simp [Template.single],
      by simpa [Template.single] using hchars '\x7d' (by decide)⟩
  rw [← Template.fill_single name braced]
  cases hwithin : within name with
  | none =>
    have hname : Referable name :=
      { opens := hchars _ (by decide)
        closes := hchars _ (by decide)
        unindexed := by
          rw [contains_eq_false "[" rfl (hchars '[' (by decide)), Bool.false_and]
        function := within_eq_none.1 hwithin }
    rw [← Template.fill_single name fun _ => shown w]
    refine h.substitute_fill hclear fun name' hmem => ?_
    obtain rfl : name' = name := by simpa [Template.single, Template.names] using hmem
    exact ⟨hname, not_mem_shown hw,
      h.variableWord_newest hmessage hsingle hname hfind⟩
  | some f =>
    obtain ⟨m, below, hm, hstack⟩ := h.running
    have htrim : trim ((Template.single name).fill braced) =
        (Template.single name).fill braced := trim_inQuotes _
    have htokens := Template.tokens_fill hclear (.table bindings) all
    rw [← htrim] at htokens
    have hpieces : Template.pieces braced ("\"" ++ (Template.single name).start)
        (Template.single name).parts = ["\"", braced name, "\""] := by
      simp [Template.single, Template.pieces]
    rw [hpieces] at htokens
    rw [substitute_apply h.isKey h.initialized hm hstack h.bindings htokens]
    have hpass := @Substitution.replaceFrom_pass all user c ""
      (trim ((Template.single name).fill braced))
      ["\"", braced name, "\""] 2 1 0
      (by simpa using isReference_eq_false (by decide)) (by simp)
    rw [show ["\"", braced name, "\""].length = 2 + 1 from rfl, hpass]
    exact replaceFrom_clash 1 (hchars _ (by decide)) (hchars _ (by decide))
      (hchars _ (by decide)) hwithin rfl

end Running

/-! ### Assignments -/

theorem Session.handling_of_error {α : Type} {body : Run α} {message : Option Message}
    {fault : Fault} (h : body { s with message } = .error fault { s with message }) :
    handling message body s = .error fault s := by
  rw [handling, h]

theorem Session.handling_of_ok {α : Type} {body : Run α} {message : Option Message} {a : α}
    (h : body { s with message } = .ok a { s with message }) :
    handling message body s = .ok a s := by
  rw [handling, h]

/-- A text that is handed to a function as a whole: it has no braces, parentheses and commas. -/
structure Command.Undivided (t : String) : Prop where
  brace : '\x7b' ∉ t.toList
  parenthesis : '(' ∉ t.toList
  comma : ',' ∉ t.toList

theorem Command.Undivided.argument_eq (h : Undivided t) : argument t = t := by
  rw [argument, contains_eq_false "\x7b" rfl h.brace, if_neg Bool.false_ne_true,
    contains_eq_false "(" rfl h.parenthesis, if_neg Bool.false_ne_true]

theorem Command.Undivided.assignedValue_eq (h : Undivided t) (hinitialized : s.initialized = true)
    (user : Value) :
    assignedValue user t s = match within t with
      | none => .ok (.ofItems [.str t]) s
      | some f => f.gives t user s := by
  cases hwithin : within t with
  | none =>
    have hverbatim : Verbatim t := ⟨h.comma, within_eq_none.1 hwithin⟩
    exact hverbatim.assignedValue_eq hinitialized user
  | some f =>
    have hknown : known s = .ok all s := by
      simp only [known, bind_apply, get_apply, hinitialized, pure_apply, if_true]
    have hfind : (all.find? fun f => contains t f.name) = some f := hwithin
    rw [assignedValue, bind_of_ok hknown, hfind]
    dsimp only
    rw [h.argument_eq]
    rfl

/-- The variable that a function looks for when a text is handed to it. -/
def Function.sought (t : String) : Function → Option String
  | selectOne => some (Text.replace selectOne.name "" t)
  | random => some t
  | _ => none

/-- The running script of a user while no message is being handled. -/
structure Unheard (user : Value) (c : Conversation) (bindings : Entries) (s : Session) : Prop where
  isKey : user.isKey = true
  running : ∃ m below, managerIn s.active user = some m ∧ m.stack = .conversation c :: below
  bindings : c.bindings = .table bindings
  message : s.message = none

namespace Unheard

variable {user : Value} {c : Conversation} {bindings : Entries} {s : Session} {t : String}
  {f : Function}

variable (h : Unheard user c bindings s)

include h

theorem currentAt : Session.currentAt user s = .ok (some c) s := by
  obtain ⟨m, below, hm, hstack⟩ := h.running
  rw [Session.currentAt, bind_of_ok (managerAt_of_some h.isKey hm), top_of_stack hstack]

theorem current : Session.current user s = .ok c s := by
  rw [Session.current, bind_of_ok h.currentAt]
  rfl

theorem exitScript_eq :
    exitScript user s = .error .missingOperation s := by
  obtain ⟨m, below, hm, hstack⟩ := h.running
  rw [exitScript, bind_of_ok (currentOf_of_stack h.isKey hm hstack),
    bind_of_error (setDatum_of_none h.message _ _)]

theorem call_divided (hcomma : ',' ∉ t.toList)
    (hf : f = .closest ∨ f = .skill) : f.call (.str t) user s = .error .badValue s := by
  rcases hf with rfl | rfl
  · have hrest : ',' ∉ (replace closest.name "" t).toList := by
      intro hmem
      rcases mem_replace (by decide) hmem with htext | hnone
      · exact hcomma htext
      · cases hnone
    rw [Function.call, runClosest, Value.text, bind_of_ok (lift_ok_apply _ _),
      bind_of_ok h.currentAt, split_of_not_mem "," rfl hrest]
    rfl
  · have hcut : cut? "," t = none := cut?_eq_none "," rfl hcomma
    rw [Function.call, Function.runSkill, bind_of_ok h.currentAt, Value.text,
      bind_of_ok (lift_ok_apply _ _), hcut]
    rfl

theorem call_profile (hdot : '.' ∉ t.toList) :
    Function.profile.call (.str t) user s = .error .missingOperation s := by
  have hmember : Value.member "." (.str t) = .ok false :=
    congrArg Except.ok (contains_eq_false "." rfl hdot)
  rw [Function.call, Function.runProfile, hmember, bind_of_ok (lift_ok_apply _ _),
    if_neg Bool.false_ne_true, bind_of_error h.exitScript_eq]

theorem call_tableScrape
    (hpage : Entries.find? t s.host.pages = none) :
    Function.tableScrape.call (.str t) user s = .error .missingOperation s := by
  have hfetch : fetch (.str t) s = .error .badValue s := by
    have hkey : (!(Value.str t).isKey) = false := rfl
    simp only [fetch, hkey, Bool.false_eq_true, if_false, bind_apply, get_apply, hpage,
      throw_apply]
  have hlist : (Value.str t).isList = false := rfl
  rw [Function.call, Function.runTableScrape, bind_of_ok h.current, h.bindings, Value.entries,
    bind_of_ok (lift_ok_apply _ _), hlist, if_neg Bool.false_ne_true]
  exact (rescue_of_error hfetch (by decide)).trans (bind_of_error h.exitScript_eq)

theorem call_sought {name : String} (hsought : f.sought t = some name)
    (hundeclared : bindings.find? name = none) : f.call (.str t) user s = .ok (.str "") s := by
  have hitem : c.bindings.item (.str name) = .error .missingEntry := by
    rw [h.bindings]
    simp [Value.item, Value.isKey, hundeclared]
  have hrescued : Fault.missingEntry ≠ .stepLimit := by decide
  cases f with
  | selectOne =>
    obtain rfl := Option.some.inj hsought
    have hchoices : choices c.bindings (.str t) = .error .missingEntry := by
      simp [choices, Value.text, hitem, bind, Except.bind]
    rw [Function.call, Function.runSelectOne]
    dsimp only [Value.text]
    refine (rescue_of_error ?_ hrescued).trans rfl
    rw [bind_of_ok (lift_ok_apply _ _), bind_of_ok h.current, hchoices]
    rfl
  | random =>
    obtain rfl := Option.some.inj hsought
    rw [Function.call, Function.runRandom]
    refine (rescue_of_error ?_ hrescued).trans rfl
    rw [bind_of_ok h.current, hitem]
    rfl
  | voiceInput | tableScrape | closest | profile | skill => cases hsought

theorem call_voiceInput (hcomma : ',' ∉ t.toList) :
    ∃ u, Function.voiceInput.call (.str t) user s = .ok .null u ∧
      u.awaiting = s.awaiting ++ [user] := by
  obtain ⟨m, below, hm, hstack⟩ := h.running
  have hmember : Value.member "," (.str t) = .ok false :=
    congrArg Except.ok (contains_eq_false "," rfl hcomma)
  let waiting : Session := { s with awaiting := s.awaiting ++ [user] }
  let draft : Draft := { conversation := { c with awaited := .str t } }
  have hm' : managerIn waiting.active user = some m := hm
  have hwaits : await user s = .ok () waiting := rfl
  have hedit : edit user (Edit.update fun c => { c with awaited := .str t }) waiting =
      .ok () (kept user m draft waiting) := by
    rw [edit_eq h.isKey hm' hstack]
    rfl
  refine ⟨kept user m draft waiting, ?_, kept_awaiting _ _ _ _⟩
  rw [Function.call, Function.runVoiceInput, bind_of_ok hwaits, hmember,
    bind_of_ok (lift_ok_apply _ _), if_neg Bool.false_ne_true]
  exact bind_of_ok hedit

end Unheard

/-- What comes of an assignment of a text in which the name of a function occurs.  It fails where the
function needs more than the text; and a choice among the values of something that is no variable is
the empty text. -/
structure Command.Misreads (user : Value) (name t : String) (bindings : Entries) (s : Session)
    (assigns : Run Unit) (f : Function) : Prop where
  divided : f = .closest ∨ f = .skill → assigns s = .error .badValue s
  profile : f = .profile → '.' ∉ t.toList → assigns s = .error .missingOperation s
  page : f = .tableScrape → Entries.find? t s.host.pages = none →
    assigns s = .error .missingOperation s
  voice : f = .voiceInput → ∃ fault u, assigns s = .error fault u ∧
    u.awaiting = s.awaiting ++ [user]
  choice : ∀ v, f.sought t = some v → bindings.find? v = none → ∃ u, assigns s = .ok () u ∧
    u.held user name = some (.list (.str "" :: Value.history (s.held user name)) none)

theorem Function.gives_of_error {f : Function} {user : Value} {fault : Fault}
    (h : f.call (.str t) user { s with message := none } = .error fault { s with message := none })
    : f.gives t user s = .error fault s := by
  rw [gives, callQuietly, bind_of_error (handling_of_error h)]

theorem Command.store_null (user : Value) (name : String) (old : Value) (s : Session) :
    ∃ fault u, store user name old .null s = .error fault u ∧ u.awaiting = s.awaiting := by
  have hbody (draft : Draft) : ∃ fault draft', (do
      let pushed ← pushValue .null (keptValues old)
      Edit.writeVariable name pushed
      let _ ← pushed.item (.int 0)
      Edit.step 1) draft = .error fault draft' := by
    cases hold : (keptValues old).isEmpty with
    | false => exact ⟨.missingOperation, draft, by simp [pushValue, hold, bind_apply]⟩
    | true =>
      cases hwrite : Edit.writeVariable name .null draft with
      | error fault draft' =>
        exact ⟨fault, draft', by simp [pushValue, hold, bind_apply, hwrite]⟩
      | ok _ draft' =>
        refine ⟨.wrongKind, draft', ?_⟩
        simp [pushValue, hold, bind_apply, hwrite, Value.item]
  obtain ⟨fault, hcurrent⟩ | ⟨m, c, rest, hkey, hm, hstack, -⟩ := current_cases user s
  · exact ⟨fault, s, by rw [store, edit, bind_of_error hcurrent], rfl⟩
  · obtain ⟨fault, draft, hdraft⟩ := hbody { conversation := c }
    exact ⟨fault, kept user m draft s, by rw [store, edit_eq hkey hm hstack, hdraft],
      kept_awaiting _ _ _ _⟩

namespace Running

variable {user : Value} {c : Conversation} {bindings : Entries} {s : Session}

theorem unheard (h : Running user c bindings s) :
    Unheard user c bindings { s with message := none } :=
  ⟨h.isKey, h.running, h.bindings, rfl⟩

theorem misreads (h : Running user c bindings s) {i : Int} (hindex : c.index = .int i)
    (name : String) (ht : Undivided t) (f : Function) : Misreads user name t bindings s (do
      let new ← f.gives t user
      store user name ((bindings.find? name).getD .null) new) f where
  divided hf := bind_of_error (gives_of_error (h.unheard.call_divided ht.comma hf))
  profile hf hdot := by
    rw [hf]
    exact bind_of_error (gives_of_error (h.unheard.call_profile hdot))
  page hf hpage := by
    rw [hf]
    exact bind_of_error (gives_of_error (h.unheard.call_tableScrape hpage))
  voice hf := by
    obtain ⟨u, hcall, hwaits⟩ := h.unheard.call_voiceInput ht.comma
    have hquiet : callQuietly f t user s = .ok .null { u with message := s.message } := by
      rw [hf, callQuietly, handling, hcall]
    have hgives : f.gives t user s = .ok .null { u with message := s.message } := by
      rw [gives, bind_of_ok hquiet]
      rfl
    obtain ⟨fault, v, hstore, hawaiting⟩ := store_null user name
      ((bindings.find? name).getD .null) { u with message := s.message }
    exact ⟨fault, v, by rw [bind_of_ok hgives, hstore], hawaiting.trans hwaits⟩
  choice v hsought hundeclared := by
    have hgives : f.gives t user s = .ok (.ofItems [.str ""]) s := by
      rw [gives, callQuietly,
        bind_of_ok (handling_of_ok (h.unheard.call_sought hsought hundeclared))]
      rfl
    rw [bind_of_ok hgives]
    exact h.store_held hindex ""

/-- What the names of functions do in other texts.  A reference to a variable is replaced by its newest
text exactly if no name of a function occurs in the name of the variable, and fails otherwise.  A text
without commas, parentheses and braces is stored by an assignment if no name of a function occurs in
it.  Otherwise the first of these functions is called with the text, and what it gives is stored in
its place, if it gives anything. -/
theorem function_names (h : Running user c bindings s) {message : Message}
    (hmessage : s.message = some message) (hsingle : message.Single) {i : Int}
    (hindex : c.index = .int i) :
    (∀ (name w : String) older number, bindings.find? name = some (.list (.str w :: older) number) →
      '\x7b' ∉ w.toList → (∀ c ∈ ['(', '[', '\x7b', '\x7d'], c ∉ name.toList) →
        Substitution.substitute user (.str (Text.inQuotes (Substitution.braced name))) false s =
          match Function.within name with
          | none => .ok (Text.inQuotes (Substitution.shown w)) s
          | some _ => .error .badValue s) ∧
    ∀ data text name given, lineData s = .ok data s → Assigns data text name given →
      Undivided (Text.trim given) →
        (Function.within (Text.trim given) = none → ∃ t, setVariable user text s = .ok () t ∧
          t.held user name =
            some (.list (.str (Text.trim given) :: Value.history (s.held user name)) none)) ∧
        ∀ f, Function.within (Text.trim given) = some f →
          setVariable user text s = (do
            let new ← f.gives (Text.trim given) user
            store user name ((bindings.find? name).getD .null) new) s ∧
          Misreads user name (Text.trim given) bindings s (setVariable user text) f := by
  refine ⟨fun name w older number hfind hw hchars =>
    h.substitute_single hmessage hsingle hfind hw hchars, ?_⟩
  intro data text name given hdata hassigns hgiven
  refine ⟨fun hnone => ?_, fun f hwithin => ?_⟩
  · exact h.setVariable_held hindex hdata hassigns
      ⟨hgiven.comma, Function.within_eq_none.1 hnone⟩
  · have hassigned : assignedValue user (Text.trim given) s = f.gives (Text.trim given) user s := by
      rw [hgiven.assignedValue_eq h.initialized user, hwithin]
    have hset : setVariable user text s = (do
        let new ← f.gives (Text.trim given) user
        store user name ((bindings.find? name).getD .null) new) s := by
      rw [h.setVariable_eq hdata hassigns, bind_apply, hassigned, bind_apply]
    obtain ⟨hdivided, hprofile, hpage, hvoice, hchoice⟩ := h.misreads hindex name hgiven f
    rw [← hset] at hdivided hprofile hpage hvoice hchoice
    exact ⟨hset, hdivided, hprofile, hpage, hvoice, hchoice⟩

def labels : Entries :=
  [("profile_name", .ofItems ["Ann"]), ("color", .ofItems [" red "])]

def labelled : Conversation :=
  { scriptMeta := .emptyTable, filename := "demo", startTime := 0, bindings := .table labels }

def desk : Session :=
  { initialized := true, message := some {}
    active := [("ann", { user := "ann", stack := [.conversation labelled] })] }

theorem desk_running : Running "ann" labelled labels desk where
  isKey := rfl
  initialized := rfl
  running := ⟨{ user := "ann", stack := [.conversation labelled] }, [], by
    simp [managerIn, desk, Value.str_same], rfl⟩
  bindings := rfl
  message := ⟨{}, rfl⟩

/-- One of the variables can be referred to and the other one cannot; and of three texts one is
stored, one fails and one is lost. -/
theorem function_names_desk :
    Substitution.substitute "ann" "\"\x7bcolor\x7d\"" false desk = .ok "\"red\"" desk ∧
    Substitution.substitute "ann" "\"\x7bprofile_name\x7d\"" false desk = .error .badValue desk ∧
    (∃ t, setVariable "ann" "color = calm" desk = .ok () t ∧
      t.held "ann" "color" = some (.list ["calm", " red "] none)) ∧
    setVariable "ann" "color = skilled" desk = .error .badValue desk ∧
    ∃ t, setVariable "ann" "color = random thoughts" desk = .ok () t ∧
      t.held "ann" "color" = some (.list ["", " red "] none) := by
  obtain ⟨hrefer, hassign⟩ := function_names desk_running rfl single_empty rfl
  have hcolor : Entries.find? "color" labels = some (.list (.str " red " :: []) none) := by
    simp [labels, Entries.find?, Value.str_same, Value.ofItems]
  have hprofile : Entries.find? "profile_name" labels = some (.list (.str "Ann" :: []) none) := by
    simp [labels, Entries.find?, Value.str_same, Value.ofItems]
  have hundeclared : Entries.find? "random thoughts" labels = none := by
    simp [labels, Entries.find?, Value.str_same]
  have hheld : Value.history (desk.held "ann" "color") = [.str " red "] := by
    rw [desk_running.held, hcolor]
    rfl
  have hdata : lineData desk = .ok .null desk := rfl
  have hassigns (line given : String) (hcut : Text.cut? "=" line = some ("color ", given)) :
      Assigns .null (.str line) "color" given := .line rfl rfl hcut (by decide)
  have hcalm := hassign .null "color = calm" "color" " calm" hdata
    (hassigns _ _ (by decide)) ⟨by decide, by decide, by decide⟩
  have hskilled := hassign .null "color = skilled" "color" " skilled" hdata
    (hassigns _ _ (by decide)) ⟨by decide, by decide, by decide⟩
  have hrandom := hassign .null "color = random thoughts" "color" " random thoughts" hdata
    (hassigns _ _ (by decide)) ⟨by decide, by decide, by decide⟩
  have htrim : Text.trim " calm" = "calm" ∧ Text.trim " skilled" = "skilled" ∧
      Text.trim " random thoughts" = "random thoughts" ∧ Substitution.shown " red " = "red" := by
    decide
  rw [htrim.1, hheld] at hcalm
  rw [htrim.2.1] at hskilled
  rw [htrim.2.2.1] at hrandom
  have hwithin : Function.within "color" = none ∧
      Function.within "profile_name" = some .profile ∧ Function.within "calm" = none ∧
      Function.within "skilled" = some .skill ∧
      Function.within "random thoughts" = some .random := by decide
  obtain ⟨hcolorFree, hnameTaken, hcalmFree, hskilledTaken, hrandomTaken⟩ := hwithin
  have hred := hrefer _ _ _ _ hcolor (by decide) (by simp)
  rw [hcolorFree, htrim.2.2.2] at hred
  have hname := hrefer _ _ _ _ hprofile (by decide) (by simp)
  rw [hnameTaken] at hname
  have hlost := (hrandom.2 .random hrandomTaken).2.choice "random thoughts" rfl hundeclared
  rw [hheld] at hlost
  have hfails := (hskilled.2 .skill hskilledTaken).2.divided (.inr rfl)
  exact ⟨hred, hname, hcalm.1 hcalmFree, hfails, hlost⟩

/-- A variable with the name of a function in its own is not referred to, and a text with such a name
in it is not stored. -/
theorem function_names_clash :
    returned (Substitution.substitute "ann" "\"\x7bprofile_name\x7d\"" false) desk = none ∧
      returned (setVariable "ann" "color = skilled") desk = none := by
  decide +kernel

end Running

end Colloquy
