import Colloquy.Proofs.Spelling

/-! Tests for a word in a list.  The line of an `if` refers to a word and to a list of words.  It is
spelled out, the references are replaced by the word and by all words of the list with commas
between them, and the text that comes of it is taken apart again.  What is found is whether the word
is in the list. -/

namespace Colloquy

open Value Text Entries Colloquy.Function Execution

/-! ### Words with commas -/

namespace Text

def listing : List String → List String
  | [] => []
  | [w] => [w]
  | w :: next :: more => (w ++ ",") :: listing (next :: more)

theorem join_listing (ws : List String) : join " " (listing ws) = join ", " ws := by
  induction ws with
  | nil => rfl
  | cons w more ih =>
    cases more with
    | nil => rfl
    | cons next more =>
      obtain ⟨v, vs, hlisting⟩ : ∃ v vs, listing (next :: more) = v :: vs := by
        cases more <;> exact ⟨_, _, rfl⟩
      rw [listing, hlisting, join_cons_cons, ← hlisting, ih, join_cons_cons]
      simp only [String.append_assoc]
      rfl

theorem mem_listing {ws : List String} {v : String} (h : v ∈ listing ws) :
    ∃ w ∈ ws, v = w ∨ v = w ++ "," := by
  induction ws with
  | nil => cases h
  | cons w more ih =>
    cases more with
    | nil =>
      rw [listing, List.mem_singleton] at h
      exact ⟨w, List.mem_cons_self, .inl h⟩
    | cons next more =>
      rcases List.mem_cons.1 h with rfl | hmore
      · exact ⟨w, List.mem_cons_self, .inr rfl⟩
      · obtain ⟨u, hu, hv⟩ := ih hmore
        exact ⟨u, List.mem_cons_of_mem w hu, hv⟩

theorem listing_ne_nil {ws : List String} (h : ws ≠ []) : listing ws ≠ [] := by
  match ws, h with
  | [_], _ => exact List.cons_ne_nil _ _
  | _ :: _ :: _, _ => exact List.cons_ne_nil _ _

end Text

namespace Condition

variable {ws : List String}

theorem term_of_mem_listing (hws : ∀ w ∈ ws, Plain w) : ∀ v ∈ listing ws, Term v := by
  intro v hv
  obtain ⟨w, hw, rfl | rfl⟩ := mem_listing hv
  · exact (hws v hw).term
  · obtain ⟨⟨-, hsolid⟩, hmarks⟩ := (hws w hw).term
    refine ⟨⟨by simp, fun c hc => ?_⟩, fun c hc => ?_⟩
    · rw [String.toList_append, List.mem_append] at hc
      rcases hc with hc | hc
      · exact hsolid c hc
      · obtain rfl : c = ',' := by simpa using hc
        decide
    · rw [String.toList_append, List.mem_append, not_or]
      refine ⟨hmarks c hc, fun hcomma => ?_⟩
      obtain rfl : c = ',' := by simpa using hcomma
      exact absurd hc (by decide)

theorem bare_join (hne : ws ≠ []) (hws : ∀ w ∈ ws, Plain w) : Bare (join ", " ws) := by
  have hquote : '"' ∉ (Text.join ", " ws).toList := by
    intro hmem
    rcases Text.mem_join hmem with hsep | ⟨w, hw, hc⟩
    · revert hsep
      decide
    · exact (hws w hw).not_mem (by decide) hc
  have hwords : ∀ v ∈ Text.listing ws, Text.IsWord v :=
    fun v hv => (term_of_mem_listing hws v hv).toIsWord
  refine ⟨?_, ?_, Text.startsWith_eq_false "\"" rfl hquote, ?_, ?_⟩
  · rw [← join_listing]
    exact join_ne_empty hwords (listing_ne_nil hne)
  · rw [← join_listing]
    exact (solid_join hwords).trim_eq
  · refine Bool.eq_false_iff.2 fun hends => hquote ?_
    exact (List.isSuffixOf_iff_suffix.1 hends).subset (by simp)
  · refine Bool.eq_false_iff.2 fun hfound => hquote ?_
    exact (Text.contains_iff_infix.1 hfound).subset (by simp)

theorem compareSides_membership {w : String} (hw : Plain w) (hne : ws ≠ [])
    (hws : ∀ v ∈ ws, Plain v) :
    compareSides "IN" (w ++ " ") (" " ++ join ", " ws) = ws.contains w ∧
      compareSides "!IN" (w ++ " ") (" " ++ join ", " ws) = !ws.contains w := by
  simp [compareSides, sideOptions_left hw, sideOptions_right hne hws,
    (Solid.of_chars hw.solid).trim_eq]

theorem verdict_membership {op w : String} (hop : op = "IN" ∨ op = "!IN") (hw : Plain w)
    (hne : ws ≠ []) (hws : ∀ v ∈ ws, Plain v) {data : Value} (hfalsy : data.truthy = false) :
    verdict data (.str (join " " ["if", w, op, join ", " ws])) =
      .ok (decide (w ∈ ws ↔ op = "IN")) := by
  have hcomparator : op ∈ comparators ∧ op ≠ "BOOL" := by
    rcases hop with rfl | rfl <;> decide
  have hleft : ∀ v ∈ [w], Term v := by simpa using hw.term
  have hcompares := Compares.of_terms hcomparator.1 hfalsy hleft (term_of_mem_listing hws) (by simp)
    (listing_ne_nil hne)
  have hline : join " " ("if" :: ([w] ++ op :: listing ws)) =
      join " " ["if", w, op, join ", " ws] := by
    obtain ⟨v, vs, hlisting⟩ := List.exists_cons_of_ne_nil (listing_ne_nil hne)
    rw [← join_listing, hlisting]
    simp only [List.singleton_append, join_cons_cons, join_singleton]
  rw [hline, join_listing, join_singleton] at hcompares
  rw [hcompares.verdict_eq hcomparator.2]
  obtain ⟨hin, hnot⟩ := compareSides_membership hw hne hws
  rcases hop with rfl | rfl
  · simp [Operands.outcome, hin]
  · simp [Operands.outcome, hnot]

end Condition

/-! ### Putting the values in -/

namespace Substitution

variable {bindings : Entries} {word name w : String} {words ws : List String} {user : Value}
  {c : Conversation} {s : Session}

/-- A word that is a piece of a line as it is: it names nothing or stands between braces. -/
structure Kept (bindings : Entries) (word : String) : Prop where
  blank : ' ' ∉ word.toList
  parenthesis : Text.contains word "(" = true → Text.contains word ")" = true
  unnamed : isName (.table bindings) Function.all word = .ok true →
    Text.startsWith word "\x7b" = true

theorem openTokens_kept {fuel : Nat} (h : ∀ word ∈ words, Kept bindings word) (hne : words ≠ [])
    (hfuel : words.length ≤ fuel) :
    openTokens (.table bindings) all fuel (join " " words) = .ok words := by
  induction words generalizing fuel with
  | nil => exact absurd rfl hne
  | cons word more ih =>
    obtain ⟨hword, hmore⟩ := List.forall_mem_cons.1 h
    obtain ⟨left, rfl⟩ : ∃ left, fuel = left + 1 := ⟨fuel - 1, by simp at hfuel; omega⟩
    obtain ⟨named, hnamed⟩ : ∃ named, isName (.table bindings) all word = .ok named :=
      ⟨_, rfl⟩
    have hbrace : (named && !startsWith word "\x7b") = false := by
      cases named with
      | false => rfl
      | true => rw [hword.unnamed hnamed]; rfl
    cases more with
    | nil =>
      have hcut : cut? " " word = none := cut?_eq_none " " rfl hword.blank
      rw [join_singleton]
      simp only [openTokens, hcut, hnamed, bind, Except.bind, hbrace, Bool.false_eq_true, if_false]
      rfl
    | cons next more =>
      have hopen : (contains word "(" && !contains word ")") = false := by
        cases hparen : contains word "(" with
        | false => rfl
        | true => simp [hword.parenthesis hparen]
      have hrest := @ih left hmore (by simp) (by simp at hfuel ⊢; omega)
      rw [join_cons_cons, openTokens, cut?_append " " rfl hword.blank]
      simp only [hopen, Bool.false_eq_true, if_false, bind, Except.bind, pure, Except.pure, hnamed,
        hbrace, Bool.false_and, hrest]

/-- The name of a variable that a line can refer to. -/
structure Reference (name : String) : Prop extends Referable name where
  solid : ∀ c ∈ name.toList, Text.isBlank c = false
  parenthesis : '(' ∈ name.toList → ')' ∈ name.toList

theorem Kept.of_solid (hsolid : ∀ c ∈ name.toList, isBlank c = false)
    (hparen : '(' ∈ name.toList → ')' ∈ name.toList) (bindings : Entries) :
    Kept bindings (braced name) := by
  refine ⟨fun hmem => ?_, fun hopens => ?_, fun _ => ?_⟩
  · have hblank := (isWord_braced hsolid).solid ' ' hmem
    revert hblank
    decide
  · rw [contains_iff_mem (c := '(') rfl, toList_braced] at hopens
    rw [contains_iff_mem (c := ')') rfl, toList_braced]
    simp only [List.mem_cons, List.mem_append, List.not_mem_nil, or_false] at hopens ⊢
    rcases hopens with heq | hmem | heq
    · cases heq
    · exact .inr (.inl (hparen hmem))
    · cases heq
  · exact (Bool.and_eq_true_iff.1 (braced_isReference name)).1

theorem mapM_needle (ws : List String) : (ws.map str).mapM needle = .ok ws := by
  induction ws with
  | nil => rfl
  | cons w more ih =>
    rw [List.map_cons, List.mapM_cons, ih]
    rfl

theorem variableWord_all {number : Option Nat} (hindexed : '[' ∉ name.toList)
    (hbindings : c.bindings = .table bindings)
    (hfind : find? name bindings = some (.list (ws.map .str) number)) (hne : ws ≠ [])
    (hbare : Bare (join ", " ws)) (line : String) :
    variableWord user c line (name ++ "[*]") s = .ok (join ", " ws) s := by
  have hreference : name ++ "[*]" = name ++ "[" ++ "*]" := by rw [String.append_assoc]; rfl
  have hboth : (contains (name ++ "[*]") "[" && contains (name ++ "[*]") "]") = true := by
    rw [(contains_iff_mem (c := '[') rfl).2 (by simp),
      (contains_iff_mem (c := ']') rfl).2 (by simp)]
    rfl
  have hsplit : (split "[" (name ++ "[*]")).headD "" = name := by
    rw [hreference, split_append "[" rfl hindexed]
    rfl
  have hcut : cut? "[" (name ++ "[*]") = some (name, "*]") := by
    rw [hreference, cut?_append "[" rfl hindexed]
  have hraw : rawValue user c name s = .ok (.list (ws.map .str) number) s := by
    have htruthy : (list (ws.map .str) number).truthy = true := by
      simpa [truthy] using hne
    rw [rawValue, hbindings, entries, bind_of_ok (lift_ok_apply _ _)]
    simp only [hfind, Option.getD_some, htruthy, if_true, pure_apply]
  have hall : indexed c.bindings (.list (ws.map .str) number) name "*" =
      .ok (.str (join ", " ws)) := by
    simp only [indexed, elements, listed, mapM_needle, bind, Except.bind]
    rfl
  rw [variableWord, if_pos hboth, hsplit, bind_of_ok hraw, hcut]
  dsimp only [Option.getD_some]
  rw [show (splitOnce "]" "*]").headD "" = "*" by decide, hall,
    bind_of_ok (lift_ok_apply _ _), ← congrArg (EStateM.Result.ok · s) (tidy_of_bare hbare)]
  rfl

theorem Kept.of_undeclared (hword : word ∈ "if" :: memberships)
    (hundeclared : has bindings word = false) : Kept bindings word := by
  obtain ⟨hblank, hparen, hfunctions⟩ : ' ' ∉ word.toList ∧ contains word "(" = false ∧
      (all.any fun f => f.name == (split "(" word).headD "") = false := by
    have hall : ∀ word ∈ "if" :: memberships, ' ' ∉ word.toList ∧
        contains word "(" = false ∧
        (all.any fun f => f.name == (split "(" word).headD "") = false := by
      decide
    exact hall word hword
  have hname : isName (.table bindings) all word = .ok false := by
    simp only [isName, entries, bind, Except.bind, pure, Except.pure, hundeclared, hfunctions,
      Bool.or_self]
  refine ⟨hblank, fun hopens => ?_, fun hnamed => ?_⟩
  · rw [hparen] at hopens
    cases hopens
  · rw [hname] at hnamed
    cases hnamed

theorem solid_starred (hname : ∀ c ∈ name.toList, isBlank c = false) :
    ∀ c ∈ (name ++ "[*]").toList, isBlank c = false := by
  intro c hc
  rw [String.toList_append, List.mem_append] at hc
  rcases hc with hc | hc
  · exact hname c hc
  · exact solid_of_all (by decide) c hc

section

variable {op x opts : String} (hop : op ∈ Execution.memberships) (hx : Reference x)
  (hopts : Reference opts)

include hop hx hopts

theorem tokens_condition (hundeclared : ∀ word ∈ ["if", op], has bindings word = false) :
    trim (conditionOf op x (opts ++ "[*]")) =
        conditionOf op x (opts ++ "[*]") ∧
      tokens (.table bindings) all (conditionOf op x (opts ++ "[*]")) =
        .ok (["if", braced x, op, braced (opts ++ "[*]")], " ") := by
  have hkept : ∀ word ∈ ["if", braced x, op, braced (opts ++ "[*]")], Kept bindings word := by
    intro word hmem
    simp only [List.mem_cons, List.not_mem_nil, or_false] at hmem
    rcases hmem with rfl | rfl | rfl | rfl
    · exact .of_undeclared (by simp) (hundeclared _ (by simp))
    · exact .of_solid hx.solid hx.parenthesis bindings
    · exact .of_undeclared (List.mem_cons_of_mem _ hop) (hundeclared _ (by simp))
    · refine .of_solid (solid_starred hopts.solid) ?_ bindings
      simpa [String.toList_append] using hopts.parenthesis
  have hwords : ∀ word ∈ ["if", braced x, op, braced (opts ++ "[*]")], IsWord word := by
    have hfixed : ∀ word ∈ "if" :: memberships, IsWord word := by decide
    intro word hmem
    simp only [List.mem_cons, List.not_mem_nil, or_false] at hmem
    rcases hmem with rfl | rfl | rfl | rfl
    · exact hfixed _ List.mem_cons_self
    · exact isWord_braced hx.solid
    · exact hfixed _ (List.mem_cons_of_mem _ hop)
    · exact isWord_braced (solid_starred hopts.solid)
  have hquoted : isQuoted (conditionOf op x (opts ++ "[*]")) = false := by
    have hfirst : ∃ rest, (conditionOf op x (opts ++ "[*]")).toList = 'i' :: rest :=
      ⟨_, by simp [conditionOf, join_cons_cons, String.toList_append]; rfl⟩
    obtain ⟨rest, hrest⟩ := hfirst
    simp [isQuoted, startsWith, hrest]
  exact ⟨(solid_join hwords).trim_eq,
    tokens_of_open hquoted (openTokens_kept hkept (by simp) (length_le_join _))⟩

theorem replaceFrom_condition {listed line : String} (hw : '\x7b' ∉ w.toList)
    (hword : ∀ line, variableWord user c line x s = .ok w s)
    (hlist : ∀ line, variableWord user c line (opts ++ "[*]") s = .ok listed s) :
    replaceFrom user c all " " 4 0 ["if", braced x, op, braced (opts ++ "[*]")] line s =
      .ok (join " " ["if", w, op, listed]) s := by
  have hopens : '\x7b' ∉ "if".toList ∧ '\x7b' ∉ op.toList := by
    have hall : ∀ op ∈ memberships, '\x7b' ∉ op.toList := by decide
    exact ⟨by decide, hall op hop⟩
  have hpass {piece : String} (hpiece : '\x7b' ∉ piece.toList) :
      (startsWith piece "\x7b" && endsWith piece "\x7d") = false := by
    rw [startsWith_eq_false "\x7b" rfl hpiece, Bool.false_and]
  have hfunction : ∀ f ∈ all, contains (opts ++ "[*]") f.name = false := by
    have hnames : ∀ f ∈ all, f.name ≠ "" ∧
        (f.name.toList.all fun c => !"[*]".toList.contains c) = true := by decide
    intro f hf
    have hapart : ∀ c ∈ f.name.toList, c ∉ "[*]".toList := by
      simpa only [List.all_eq_true, Bool.not_eq_true', List.contains_eq_mem,
        decide_eq_false_iff_not] using (hnames f hf).2
    exact contains_append_eq_false (hnames f hf).1 hapart (hopts.function f hf)
  have hfirst : replaceToken (braced x) w ["if", braced x, op, braced (opts ++ "[*]")] =
      ["if", w, op, braced (opts ++ "[*]")] :=
    replaceToken_append (show braced x ∉ ["if"] by simpa using braced_ne hopens.1 x)
  have hsecond : replaceToken (braced (opts ++ "[*]")) listed
      ["if", w, op, braced (opts ++ "[*]")] = ["if", w, op, listed] :=
    replaceToken_append (show braced (opts ++ "[*]") ∉ ["if", w, op] by
      simpa using ⟨braced_ne hopens.1 _, braced_ne hw _,
        braced_ne hopens.2 _⟩)
  rw [replaceFrom_pass 3 (n := 1) (by simpa using hpass hopens.1) (by simp), Nat.zero_add,
    replaceFrom_variable 2 hx.toReferable rfl (hword _), hfirst,
    replaceFrom_pass 1 (n := 1) (by simpa using hpass hopens.2) (by simp),
    replaceFrom_reference 0 ?_ ?_ hfunction rfl (hlist _), hsecond]
  · rfl
  · simpa [String.toList_append] using hopts.opens
  · simpa [String.toList_append] using hopts.closes

theorem substitute_condition {m : Manager} {below : List Entry} (hkey : user.isKey = true)
    (hinitialized : s.initialized = true) (hm : Session.managerIn s.active user = some m)
    (hstack : m.stack = .conversation c :: below) (hbindings : c.bindings = .table bindings)
    (hundeclared : ∀ word ∈ ["if", op], has bindings word = false) {listed : String}
    (hw : '\x7b' ∉ w.toList) (hword : ∀ line, variableWord user c line x s = .ok w s)
    (hlist : ∀ line, variableWord user c line (opts ++ "[*]") s = .ok listed s) :
    substitute user (.str (conditionOf op x (opts ++ "[*]"))) false s =
      .ok (join " " ["if", w, op, listed]) s := by
  obtain ⟨htrim, htokens⟩ := tokens_condition hop hx hopts hundeclared
  refine substitute_of_tokens hkey hinitialized hm hstack hbindings (htrim.symm ▸ htokens) ?_
  exact replaceFrom_condition hop hx hopts hw hword hlist

end

end Substitution

/-! ### Running the line -/

/-- A session in which the running script of the user is at the line `i` and can go on with a
message. -/
structure Session.Poised (user : Value) (lines : List Value) (names : Entries) (i : Nat)
    (message : Message) (s : Session) : Prop where
  isKey : user.isKey = true
  initialized : s.initialized = true
  awaiting : s.awaiting.any (·.same user) = false
  message : s.message = some message
  current : ∃ m c below, managerIn s.active user = some m ∧ m.stack = .conversation c :: below ∧
    c.At lines names i

theorem Entries.find?_of_copied {entries : Entries} {name : String} {values : List Value}
    (h : find? name (copiedEntries entries) = some (.list values none)) :
    ∃ items number, find? name entries = some (.list items number) ∧
      items.map copied = values := by
  rw [find?_copied] at h
  obtain ⟨v, hv, hcopied⟩ := Option.map_eq_some_iff.1 h
  obtain ⟨items, number, rfl, hitems⟩ := list_of_copied hcopied
  exact ⟨items, number, hv, hitems⟩

theorem Value.texts_of_copied {items : List Value} {ws : List String}
    (h : items.map copied = ws.map .str) : items = ws.map .str := by
  induction ws generalizing items with
  | nil => exact List.map_eq_nil_iff.1 h
  | cons w more ih =>
    obtain ⟨item, rest, rfl, hitem, hrest⟩ := List.map_eq_cons_iff.1 h
    rw [str_of_copied hitem, ih hrest]
    rfl

namespace Session.Poised

open Execution Substitution

variable {user line : Value} {lines : List Value} {names : Entries} {i : Nat} {message : Message}
  {s t : Session} {op test x opts w : String} {ws : List String} {older : List Value} {indent : Int}

theorem note (h : s.Poised user lines names i message) (indent : Int) :
    ∃ t, edit user (Edit.update fun c => { c with lastIndent := .int indent }) s = .ok () t ∧
      t.Poised user lines names i message := by
  obtain ⟨m, c, below, hm, hstack, hat⟩ := h.current
  refine ⟨kept user m { conversation := { c with lastIndent := .int indent } } s, ?_, ?_⟩
  · rw [edit_eq h.isKey hm hstack]
    rfl
  · refine ⟨h.isKey, h.initialized, h.awaiting, h.message, _, _, _, managerIn_kept_self _ hm, rfl,
      hat.lines, ?_, hat.index, indent, rfl⟩
    rw [← hat.bindings]
    exact copied_numbered _ _

theorem commandText_membership (h : t.Poised user lines names i message) (hsingle : message.Single)
    (hop : op ∈ memberships) (htest : test = op ∨ test = lower op) (hx : Reference x)
    (hopts : Reference opts) (hindexed : '[' ∉ opts.toList) (hw : Condition.Plain w) (hne : ws ≠ [])
    (hws : ∀ v ∈ ws, Condition.Plain v)
    (hundeclared : ∀ word ∈ ["if", op], has names word = false)
    (hvalue : find? x names = some (.list (.str w :: older) none))
    (hoptions : find? opts names = some (.list (ws.map .str) none)) :
    commandText .branch user (.str (conditionOf test x opts)) t =
      .ok (.str (join " " ["if", w, op, join ", " ws])) t := by
  obtain ⟨m, c, below, hm, hstack, hat⟩ := h.current
  obtain ⟨entries, hentries, rfl⟩ := table_of_copied hat.bindings
  obtain ⟨items, number, hfind, hitems⟩ := find?_of_copied hvalue
  obtain ⟨first, rest, rfl, hfirst, -⟩ := List.map_eq_cons_iff.1 hitems
  obtain rfl := str_of_copied hfirst
  obtain ⟨items', number', hfind', hitems'⟩ := find?_of_copied hoptions
  obtain rfl := texts_of_copied hitems'
  have hbare : Bare w := by
    have hjoin : Bare (join ", " [w]) :=
      Condition.bare_join (by simp) (by simpa using hw)
    rwa [join_singleton] at hjoin
  have hword (line : String) : variableWord user c line x t = .ok w t := by
    rw [← congrArg (EStateM.Result.ok · t) (tidy_of_bare hbare)]
    exact variableWord_eq hx.toReferable hentries hfind rfl rfl
      (wordOf_list h.message hsingle c.bindings x w rest number)
  have hspell := spellOut_membership hop htest hx.solid hopts.solid hopts.closes hindexed
  have hsubstitute := substitute_condition hop hx hopts h.isKey h.initialized hm hstack hentries
    (fun word hmem => (has_copied entries word).symm.trans (hundeclared word hmem))
    (hw.not_mem (by decide)) hword
    (variableWord_all hindexed hentries hfind' hne (Condition.bare_join hne hws))
  have hsubstitutes : (!Keyword.branch.substitutes) = false ∧
      (Keyword.branch == .branch) = true := by decide
  simp only [commandText, hsubstitutes.1, hsubstitutes.2, Bool.false_eq_true, if_false, if_true,
    bind_apply, text, lift_ok_apply, hspell, pure_apply, hsubstitute]

theorem passData_null (h : t.Poised user lines names i message) (k : Keyword)
    (hdata : line.get "data" = .ok .null) :
    passData k user line t = setDatum "parser_data" .null t := by
  rw [passData, hdata, bind_of_ok (lift_ok_apply _ _), bind_of_ok (setDatum_apply h.message _ _),
    setDatum_apply h.message]
  refine rescue_of_ok ?_
  rw [bind_of_ok (lineData_apply rfl), find?_insert_self]
  rfl

/-- Running the line of a test for a word in a list decides the test that is spelled out, and the
branch is entered if the word is in the list, or else if the test is for a word that is not. -/
theorem advance_membership (h : s.Poised user lines names i message) (hsingle : message.Single)
    (hop : op ∈ memberships) (htest : test = op ∨ test = Text.lower op) (hx : Reference x)
    (hopts : Reference opts) (hindexed : '[' ∉ opts.toList) (hw : Condition.Plain w) (hne : ws ≠ [])
    (hws : ∀ v ∈ ws, Condition.Plain v)
    (hundeclared : ∀ word ∈ ["if", op], Entries.has names word = false)
    (hvalue : Entries.find? x names = some (.list (.str w :: older) none))
    (hoptions : Entries.find? opts names = some (.list (ws.map .str) none))
    (hline : lines[i]? = some line)
    (hparts : line.IsLine Keyword.branch.name (conditionOf test x opts) indent .null) :
    ∃ m t, (do
        edit user (Edit.update fun c => { c with lastIndent := .int indent })
        setDatum "parser_data" .null : Run Unit) s = .ok () t ∧ t.message = some m ∧
      advance user s = (do
        Command.branch user (.str (Text.join " " ["if", w, op, Text.join ", " ws]))
        return (← manager? user).isSome : Run Bool) t ∧
      Command.Takes m (.str (Text.join " " ["if", w, op, Text.join ", " ws]))
        (decide (w ∈ ws ↔ op = "IN")) := by
  obtain ⟨manager, c, below, hm, hstack, hat⟩ := h.current
  obtain ⟨last, hlast⟩ := hat.lastIndent
  obtain ⟨t, hedit, hready⟩ := h.note indent
  have htext := hready.commandText_membership hsingle hop htest hx hopts hindexed hw hne hws
    hundeclared hvalue hoptions
  have hpass := hready.passData_null .branch hparts.data
  rw [setDatum_apply hready.message] at hpass
  have hknown : Keyword.known? (.str Keyword.branch.name) t = .ok (some .branch) t := by
    simp [Keyword.known?, bind_apply, hready.initialized, Keyword.ofName?_name]
  have hfalsy : ({ message with data := Entries.insert "parser_data" .null message.data } :
      Message).lineData.truthy = false := by
    rw [Message.lineData, Entries.find?_insert_self]
    rfl
  have hverdict := Condition.verdict_membership (by simpa [memberships] using hop) hw hne hws hfalsy
  refine ⟨_, { t with message := some _ }, ?_, rfl, ?_, .of_verdict hverdict⟩
  · rw [bind_of_ok hedit, setDatum_apply hready.message]
  · rw [advance_eq_runNext h.isKey h.awaiting hm hstack hat.lines hat.index hline,
      runNext_eq hat hline hparts.hasParts hedit hlast (placed_nil indent last)]
    dsimp only
    rw [runLine, bind_of_ok hknown]
    dsimp only
    rw [runCommand, bind_of_ok htext, bind_of_ok hpass]
    rfl

def branching (text : String) : List Value :=
  [lineOf "" 0 "Script: demo" (.int 1) .null, lineOf "if" 0 text (.int 2) .null,
    lineOf "speak" 1 "Hi" (.int 3) .null, lineOf "else" 0 "else:" (.int 4) .null,
    lineOf "speak" 1 "Ho" (.int 5) .null, lineOf "exit" 0 "exit" (.int 6) .null]

def chooser (text : String) (names : Entries) : Conversation :=
  { scriptMeta := .null, filename := "demo", startTime := 0, bindings := .table names
    speaker := .emptyTable, lines := .ofItems (branching text) }

def choosing (text : String) (names : Entries) : Session :=
  { initialized := true, message := some {}
    active := [("ann", { user := "ann", stack := [.conversation (chooser text names)] })] }

theorem choosing_poised (text : String) {names : Entries} (h : copiedEntries names = names) :
    (choosing text names).Poised "ann" (branching text) names 1 {} := by
  refine ⟨rfl, rfl, rfl, rfl, { user := "ann", stack := [.conversation (chooser text names)] },
    chooser text names, [], ?_, rfl, ⟨none, rfl⟩, ?_, rfl, _, rfl⟩
  · simp [choosing, managerIn, str_same]
  · rw [chooser, copied_table, h]

/-- A color is in a list of colors. -/
theorem advance_membership_colors :
    let names : Entries := [("x", .ofItems ["red", "old"]), ("opts", .ofItems ["blue", "red"])]
    ∃ m t, (do
        edit "ann" (Edit.update fun c => { c with lastIndent := .int 0 })
        setDatum "parser_data" .null : Run Unit) (choosing "if \x7bx\x7d in \x7bopts\x7d" names) =
          .ok () t ∧ t.message = some m ∧
      advance "ann" (choosing "if \x7bx\x7d in \x7bopts\x7d" names) = (do
        Command.branch "ann" "if red IN blue, red"
        return (← manager? "ann").isSome : Run Bool) t ∧
      Command.Takes m "if red IN blue, red" true := by
  intro names
  have hplain {w : String} (hw : w ∈ ["red", "blue"]) : Condition.Plain w := by
    have hall : ∀ w ∈ ["red", "blue"], w ≠ "" ∧ w.toList.all Char.isLower = true := by decide
    exact (Condition.Operand.of_letters (hall w hw).1 (hall w hw).2).plain
  have hreference {name : String} (hname : name ∈ ["x", "opts"]) : Reference name := by
    obtain ⟨hopens, hcloses, hbrackets, hfunction, hword, hparen⟩ : '\x7b' ∉ name.toList ∧
        '\x7d' ∉ name.toList ∧ (Text.contains name "[" && Text.contains name "]") = false ∧
        (∀ f ∈ Function.all, Text.contains name f.name = false) ∧
        Text.IsWord name ∧ '(' ∉ name.toList := by
      revert name
      decide
    exact ⟨⟨hopens, hcloses, hbrackets, hfunction⟩, hword.solid, fun hmem => absurd hmem hparen⟩
  have hwritten : conditionOf "in" "x" "opts" = "if \x7bx\x7d in \x7bopts\x7d" := by decide
  have hspelled : Text.join " " ["if", "red", "IN", Text.join ", " ["blue", "red"]] =
      "if red IN blue, red" := by decide
  have htaken : decide ("red" ∈ ["blue", "red"] ↔ "IN" = "IN") = true := by decide
  have hpoised : (choosing (conditionOf "in" "x" "opts") names).Poised "ann"
      (branching (conditionOf "in" "x" "opts")) names 1 {} := choosing_poised _ rfl
  have hvalue : Entries.find? "x" names = some (.list (.str "red" :: [.str "old"]) none) := by
    simp [names, Entries.find?, Value.str_same, Value.ofItems]
  have hoptions : Entries.find? "opts" names = some (.list (["blue", "red"].map .str) none) := by
    simp [names, Entries.find?, Value.str_same, Value.ofItems]
  have hin : "IN" ∈ memberships := by decide
  have htest : "in" = "IN" ∨ "in" = Text.lower "IN" := .inr (by decide)
  have hrun := advance_membership hpoised Running.single_empty hin htest (hreference (by decide))
    (hreference (by decide)) (by decide) (hplain (by decide)) (by decide)
    (fun v hv => hplain (by simpa [or_comm] using hv))
    (by simp [names, Entries.has, Entries.find?, Value.str_same]) hvalue hoptions rfl
    (lineOf_isLine "if" 0 _ (.int 2) .null)
  rw [hwritten, hspelled, htaken] at hrun
  exact hrun

/-- A variable that is named like the test itself is put in its place, and then there is nothing to
decide. -/
theorem advance_membership_named :
    let names : Entries := [("IN", .ofItems ["red"]), ("opts", .ofItems ["blue", "green"])]
    Running.places (after (advance "ann") (choosing "if \x7bIN\x7d in \x7bopts\x7d" names)) =
      [[some 2]] ∧ "red" ∉ ["blue", "green"] := by
  decide +kernel

end Session.Poised

end Colloquy
