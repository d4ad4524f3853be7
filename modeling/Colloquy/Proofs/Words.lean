import Colloquy.Proofs.Lists
import Colloquy.Proofs.Plain

/-! Lines of words.  In a line that is not quoted, the words that name nothing stay as they are, and
a word that names a variable is replaced by what the variable holds; what is put in its place does
not change the words around it. -/

namespace Colloquy

open Value Text Session List

/-! ### Texts put together -/

namespace Text

variable {c : Char} {cs : List Char} {s : String}

theorem dropWhile_eq_self {p : Char → Bool} (h : ∀ c ∈ cs, p c = false) : cs.dropWhile p = cs := by
  cases cs with
  | nil => rfl
  | cons x rest => rw [dropWhile_cons_of_neg (by simp [h x mem_cons_self])]

theorem replace_of_not_mem (old : String) (hold : old.toList = [c]) (h : c ∉ s.toList) :
    replace old "" s = s :=
  replace_of_contains_eq_false "" (fun hempty => by simp [hempty] at hold)
    (contains_eq_false old hold h)

theorem length_le_join (words : List String) : words.length ≤ (join " " words).length + 1 := by
  induction words with
  | nil => exact Nat.zero_le _
  | cons word rest ih =>
    cases rest with
    | nil => exact Nat.le_add_left _ _
    | cons next rest =>
      rw [join_cons_cons, String.length_append, String.length_append, length_cons]
      have hblank : " ".length = 1 := rfl
      omega

theorem exists_join_eq {word : String} {words : List String} (h : word ∈ words) (sep : String) :
    ∃ a b, join sep words = a ++ word ++ b := by
  induction words with
  | nil => cases h
  | cons first rest ih =>
    cases rest with
    | nil =>
      obtain rfl := mem_singleton.1 h
      exact ⟨"", "", by rw [join_singleton, String.empty_append, String.append_empty]⟩
    | cons next rest =>
      rw [join_cons_cons]
      rcases mem_cons.1 h with rfl | hrest
      · exact ⟨"", sep ++ join sep (next :: rest), by
          rw [String.empty_append, String.append_assoc]⟩
      · obtain ⟨a, b, hab⟩ := ih hrest
        exact ⟨first ++ sep ++ a, b, by rw [hab]; simp only [String.append_assoc]⟩

theorem contains_join {word : String} {words : List String} (h : word ∈ words) (sep : String) :
    contains (join sep words) word = true := by
  obtain ⟨a, b, hab⟩ := exists_join_eq h sep
  rw [hab]
  exact contains_append a word b

end Text

/-! ### Pieces -/

namespace Substitution

/-- A word that stays as it is: it has no blank, it is no reference in braces and names neither a
variable nor a function, and it closes the parenthesis that it opens. -/
structure Stays (bindings : Entries) (word : String) : Prop where
  blank : ' ' ∉ word.toList
  reference : (Text.startsWith word "\x7b" && Text.endsWith word "\x7d") = false
  undeclared : Entries.has bindings word = false
  function : ∀ f ∈ Function.all, f.name ≠ (Text.split "(" word).headD ""
  parenthesis : Text.contains word "(" = true → Text.contains word ")" = true

instance (bindings : Entries) (word : String) : Decidable (Stays bindings word) :=
  decidable_of_iff (_ ∧ _ ∧ _ ∧ _ ∧ _) ⟨fun ⟨hblank, href, hundeclared, hfunction, hparen⟩ =>
    ⟨hblank, href, hundeclared, hfunction, hparen⟩,
    fun h => ⟨h.blank, h.reference, h.undeclared, h.function, h.parenthesis⟩⟩

/-- The name of a variable that can be told from the words around it. -/
structure Names (bindings : Entries) (name : String) : Prop where
  declared : Entries.has bindings name = true
  characters : ∀ c ∈ [' ', '(', ')', ',', '[', '\x7b', '\x7d'], c ∉ name.toList
  function : ∀ f ∈ Function.all, Text.contains name f.name = false

/-- The name of a variable that can be referred to between braces. -/
structure Referable (name : String) : Prop where
  opens : '\x7b' ∉ name.toList
  closes : '\x7d' ∉ name.toList
  unindexed : (Text.contains name "[" && Text.contains name "]") = false
  function : ∀ f ∈ Function.all, Text.contains name f.name = false

variable {bindings : Entries} {functions : List Function} {word name next : String}
  {words before after rest : List String}

theorem Names.referable (h : Names bindings name) : Referable name where
  opens := h.characters _ (by decide)
  closes := h.characters _ (by decide)
  unindexed := by rw [contains_eq_false "[" rfl (h.characters _ (by decide)), Bool.false_and]
  function := h.function

theorem Stays.congr {others : Entries} (h : Stays bindings word)
    (hnames : ∀ word : String, others.has word = bindings.has word) : Stays others word :=
  { h with undeclared := (hnames word).trans h.undeclared }

theorem Names.congr {others : Entries} (h : Names bindings name)
    (hnames : ∀ word : String, others.has word = bindings.has word) : Names others name :=
  { h with declared := (hnames name).trans h.declared }

theorem isName_of_unnamed (hundeclared : Entries.has bindings word = false)
    (hfunction : ∀ f ∈ Function.all, f.name ≠ (split "(" word).headD "") :
    isName (.table bindings) functions word = .ok false := by
  have hfunctions : (functions.any fun f => f.name == (split "(" word).headD "") = false := by
    simpa using fun f _ => hfunction f f.mem_all
  simp only [isName, entries, bind, Except.bind, pure, Except.pure, hundeclared, hfunctions,
    Bool.or_self]

theorem Stays.isName_eq (h : Stays bindings word) :
    isName (.table bindings) functions word = .ok false :=
  isName_of_unnamed h.undeclared h.function

theorem Names.isName_eq (h : Names bindings name) :
    isName (.table bindings) functions name = .ok true := by
  simp only [isName, entries, bind, Except.bind, pure, Except.pure, h.declared, Bool.true_or]

theorem openTokens_cons (fuel : Nat) {named : Bool} {bindings : Value}
    (hblank : ' ' ∉ word.toList)
    (hparen : contains word "(" = true → contains word ")" = true)
    (hname : isName bindings functions word = .ok named)
    (hassign : named = true → contains (join " " (next :: rest)) "==" = true) :
    openTokens bindings functions (fuel + 1) (join " " (word :: next :: rest)) =
      (openTokens bindings functions fuel (join " " (next :: rest))).map
        ((if named && !startsWith word "\x7b" then braced word else word) :: ·) := by
  have hopen : (contains word "(" && !contains word ")") = false := by
    cases h : contains word "(" with
    | false => rfl
    | true => simp [hparen h]
  rw [join_cons_cons, openTokens, cut?_append " " rfl hblank]
  simp only [hopen, Bool.false_eq_true, if_false, bind, Except.bind, pure, Except.pure, hname]
  cases named with
  | false => simp [Except.map]
  | true => simp [Except.map, hassign rfl]

theorem openTokens_last (fuel : Nat) (hblank : ' ' ∉ word.toList)
    (hname : isName (.table bindings) functions word = .ok false) :
    openTokens (.table bindings) functions (fuel + 1) word = .ok [word] := by
  have hcut : cut? " " word = none := cut?_eq_none " " rfl hblank
  simp only [openTokens, hcut, hname]
  rfl

theorem openTokens_append (fuel : Nat) (h : ∀ word ∈ before, Stays bindings word)
    (hrest : rest ≠ []) :
    openTokens (.table bindings) functions (fuel + before.length) (join " " (before ++ rest)) =
      (openTokens (.table bindings) functions fuel (join " " rest)).map (before ++ ·) := by
  induction before with
  | nil =>
    rw [length_nil, Nat.add_zero, nil_append]
    cases openTokens (.table bindings) functions fuel (join " " rest) <;> rfl
  | cons word more ih =>
    obtain ⟨hword, hmore⟩ := forall_mem_cons.1 h
    obtain ⟨next, others, hnext⟩ := exists_cons_of_ne_nil (l := more ++ rest) (by simp [hrest])
    have hfirst : openTokens (.table bindings) functions (fuel + more.length + 1)
          (join " " (word :: next :: others)) =
        (openTokens (.table bindings) functions (fuel + more.length)
          (join " " (next :: others))).map (word :: ·) :=
      openTokens_cons _ hword.blank hword.parenthesis hword.isName_eq (by simp)
    rw [cons_append, hnext, length_cons, ← Nat.add_assoc, hfirst, ← hnext, ih hmore]
    cases openTokens (.table bindings) functions fuel (join " " rest) <;> rfl

theorem openTokens_words {fuel : Nat} (h : ∀ word ∈ words, Stays bindings word) (hne : words ≠ [])
    (hfuel : words.length ≤ fuel) :
    openTokens (.table bindings) functions fuel (join " " words) = .ok words := by
  obtain ⟨before, last, rfl⟩ : ∃ before last, words = before ++ [last] :=
    ⟨words.dropLast, words.getLast hne, (dropLast_concat_getLast hne).symm⟩
  rw [length_append, length_singleton] at hfuel
  obtain ⟨more, rfl⟩ : ∃ more, fuel = more + 1 + before.length := ⟨fuel - 1 - before.length, by omega⟩
  have hlast := h last (by simp)
  rw [openTokens_append _ (fun word hword => h word (by simp [hword])) (cons_ne_nil _ _),
    join_singleton, openTokens_last more hlast.blank hlast.isName_eq]
  rfl

theorem openTokens_variable {fuel : Nat} (hbefore : ∀ word ∈ before, Stays bindings word)
    (hafter : ∀ word ∈ after, Stays bindings word) (hname : Names bindings name)
    (hequals : "==" ∈ after) (hfuel : (before ++ name :: after).length ≤ fuel) :
    openTokens (.table bindings) functions fuel (join " " (before ++ name :: after)) =
      .ok (before ++ braced name :: after) := by
  rw [length_append, length_cons] at hfuel
  obtain ⟨more, rfl⟩ : ∃ more, fuel = more + 1 + before.length := ⟨fuel - 1 - before.length, by omega⟩
  obtain ⟨next, rest, rfl⟩ := exists_cons_of_ne_nil (ne_nil_of_mem hequals)
  have hparen : contains name "(" = false :=
    contains_eq_false "(" rfl (hname.characters '(' (by decide))
  have hbrace : startsWith name "\x7b" = false :=
    startsWith_eq_false "\x7b" rfl (hname.characters '\x7b' (by decide))
  rw [openTokens_append _ hbefore (cons_ne_nil _ _),
    openTokens_cons more (hname.characters ' ' (by decide)) (by simp [hparen]) hname.isName_eq
      fun _ => contains_join hequals " ",
    openTokens_words hafter (cons_ne_nil _ _) (by omega), hbrace]
  rfl

/-! ### Replacing -/

variable {user : Value} {c : Conversation} {gap line : String} {pieces : List String} {s : Session}

theorem replaceFrom_pass (left : Nat) {n position : Nat}
    (h : ∀ piece ∈ (pieces.drop position).take n,
      (startsWith piece "\x7b" && endsWith piece "\x7d") = false)
    (hn : position + n ≤ pieces.length) :
    replaceFrom user c functions gap (left + n) position pieces line =
      replaceFrom user c functions gap left (position + n) pieces
        (if n = 0 then line else join gap pieces) := by
  induction n generalizing position line with
  | zero => rfl
  | succ n ih =>
    have hlt : position < pieces.length := by omega
    rw [drop_eq_getElem_cons hlt, take_succ_cons] at h
    obtain ⟨hpiece, hrest⟩ := forall_mem_cons.1 h
    have hget : (pieces[position]?).getD "" = pieces[position] := by
      rw [getElem?_eq_getElem hlt, Option.getD_some]
    rw [← Nat.add_assoc, replaceFrom]
    simp only [hget, hpiece, Bool.false_eq_true, if_false]
    have hnext := @ih (join gap pieces) _ hrest (by omega)
    rw [ite_self] at hnext
    rw [if_neg (Nat.succ_ne_zero n), show position + (n + 1) = position + 1 + n by omega, ← hnext]
    rfl

theorem replaceFrom_rest {n position : Nat}
    (h : ∀ piece ∈ (pieces.drop position).take n,
      (startsWith piece "\x7b" && endsWith piece "\x7d") = false)
    (hn : position + n ≤ pieces.length) :
    replaceFrom user c functions gap n position pieces (join gap pieces) s =
      .ok (join gap pieces) s := by
  calc replaceFrom user c functions gap n position pieces (join gap pieces) s
      = replaceFrom user c functions gap (0 + n) position pieces (join gap pieces) s := by
        rw [Nat.zero_add]
    _ = .ok (join gap pieces) s := by
        rw [replaceFrom_pass 0 h hn, ite_self]
        rfl

theorem replaceToken_front {token : String} (h : token ∉ before) :
    replaceToken token word (before ++ after) = before ++ replaceToken token word after := by
  induction before with
  | nil => rfl
  | cons first more ih =>
    rw [mem_cons, not_or] at h
    simp [replaceToken, Ne.symm h.1, ih h.2]

theorem replaceToken_append {token : String} (h : token ∉ before) :
    replaceToken token word (before ++ token :: after) = before ++ word :: after := by
  rw [replaceToken_front h]
  simp [replaceToken]

theorem toList_braced (name : String) :
    (braced name).toList = '\x7b' :: (name.toList ++ ['\x7d']) := by
  simp [braced, String.toList_append]

theorem braced_isReference (name : String) :
    (startsWith (braced name) "\x7b" && endsWith (braced name) "\x7d") = true := by
  have hsuffix : ['\x7d'] <:+ (braced name).toList := ⟨'\x7b' :: name.toList, by simp [toList_braced]⟩
  rw [startsWith, endsWith, Bool.and_eq_true]
  exact ⟨by simp [toList_braced], isSuffixOf_iff_suffix.2 hsuffix⟩

theorem trim_braced (hopens : '\x7b' ∉ name.toList) (hcloses : '\x7d' ∉ name.toList) :
    trimEndOf "\x7d" (trimStartOf "\x7b" (braced name)) = name := by
  have hstart : trimStartOf "\x7b" (braced name) = name ++ "\x7d" := by
    have hrest : ∀ c ∈ name.toList ++ ['\x7d'], "\x7b".toList.contains c = false := by
      intro c hc
      have hne : c ≠ '\x7b' := by
        rintro rfl
        rcases mem_append.1 hc with hmem | hmem
        · exact hopens hmem
        · simp at hmem
      simpa using hne
    rw [trimStartOf, dropStart, toList_braced,
      dropWhile_cons_of_pos (by decide), dropWhile_eq_self hrest, String.ofList_append]
    simp
  have hrest : ∀ c ∈ name.toList.reverse, "\x7d".toList.contains c = false := by
    intro c hc
    have hne : c ≠ '\x7d' := by
      rintro rfl
      exact hcloses (mem_reverse.1 hc)
    simpa using hne
  rw [hstart, trimEndOf, dropEnd, String.toList_append, reverse_append,
    show "\x7d".toList.reverse = ['\x7d'] from rfl, singleton_append,
    dropWhile_cons_of_pos (by decide), dropWhile_eq_self hrest, reverse_reverse,
    String.ofList_toList]

theorem replaceFrom_reference (left : Nat) {position : Nat} (hopens : '\x7b' ∉ name.toList)
    (hcloses : '\x7d' ∉ name.toList)
    (hfunction : ∀ f ∈ Function.all, contains name f.name = false)
    (hpiece : pieces[position]? = some (braced name))
    (hword : variableWord user c line name s = .ok word s) :
    replaceFrom user c Function.all gap (left + 1) position pieces line s =
      replaceFrom user c Function.all gap left (position + 1)
        (replaceToken (braced name) word pieces)
        (join gap (replaceToken (braced name) word pieces)) s := by
  have hfunctions : (Function.all.any fun f => contains name f.name) = false := by
    simpa using hfunction
  simp only [replaceFrom, hpiece, Option.getD_some, braced_isReference, if_true,
    trim_braced hopens hcloses, hfunctions, Bool.false_eq_true, if_false, bind_apply, hword,
    pure_apply]

theorem replaceFrom_variable (left : Nat) {position : Nat} (hname : Referable name)
    (hpiece : pieces[position]? = some (braced name))
    (hword : variableWord user c line name s = .ok word s) :
    replaceFrom user c Function.all gap (left + 1) position pieces line s =
      replaceFrom user c Function.all gap left (position + 1)
        (replaceToken (braced name) word pieces)
        (join gap (replaceToken (braced name) word pieces)) s :=
  replaceFrom_reference left hname.opens hname.closes hname.function hpiece hword

theorem replaceFrom_pieces
    (hbefore : ∀ piece ∈ before,
      (startsWith piece "\x7b" && endsWith piece "\x7d") = false)
    (hafter : ∀ piece ∈ after,
      (startsWith piece "\x7b" && endsWith piece "\x7d") = false)
    (hname : Referable name) (hword : ∀ line, variableWord user c line name s = .ok word s) :
    replaceFrom user c Function.all gap (before ++ braced name :: after).length 0
        (before ++ braced name :: after) line s =
      .ok (join gap (before ++ word :: after)) s := by
  have hreference : braced name ∉ before := fun hmem => by
    have hstays := hbefore _ hmem
    rw [braced_isReference] at hstays
    cases hstays
  have hlength : (before ++ braced name :: after).length = after.length + 1 + before.length := by
    simp only [length_append, length_cons]
    omega
  rw [hlength, replaceFrom_pass _ (by simpa using hbefore) (by simp),
    replaceFrom_variable after.length hname (by simp) (hword _), replaceToken_append hreference]
  have hdrop : (before ++ word :: after).drop (before.length + 1) = after := by
    simp
  rw [Nat.zero_add]
  exact replaceFrom_rest (by simpa [hdrop] using hafter) (by simp; omega)

/-! ### Lines -/

theorem tokens_of_open (hquoted : isQuoted line = false)
    (h : openTokens (.table bindings) functions (line.length + 1) line = .ok pieces) :
    tokens (.table bindings) functions line = .ok (pieces, " ") := by
  simp only [tokens, hquoted, Bool.not_false, if_true, h]
  rfl

section

variable {m : Manager} {below : List Entry} {text : String} (hkey : user.isKey = true)
  (hinitialized : s.initialized = true) (hm : Session.managerIn s.active user = some m)
  (hstack : m.stack = .conversation c :: below) (hbindings : c.bindings = .table bindings)

include hkey hinitialized hm hstack hbindings

theorem substitute_eq (text : String) :
    substitute user (.str text) false s = (do
      let (pieces, gap) ← tokens (.table bindings) Function.all (Text.trim text)
      replaceFrom user c Function.all gap pieces.length 0 pieces (Text.trim text) : Run String) s := by
  simp only [substitute, currentAt, bind_apply, managerAt_of_some hkey hm,
    top_of_stack hstack, Value.text, lift_ok_apply, Bool.false_eq_true, if_false,
    present, pure_apply, hbindings, size, Function.known, get_apply, hinitialized,
    if_true]

theorem substitute_apply
    (htokens : tokens (.table bindings) Function.all (Text.trim text) = .ok (pieces, gap)) :
    substitute user (.str text) false s =
      replaceFrom user c Function.all gap pieces.length 0 pieces (Text.trim text) s := by
  rw [substitute_eq hkey hinitialized hm hstack hbindings, htokens, bind_of_ok (lift_ok_apply _ _)]

theorem substitute_of_tokens {result : String}
    (htokens : tokens (.table bindings) Function.all (Text.trim text) = .ok (pieces, gap))
    (hresult : replaceFrom user c Function.all gap pieces.length 0 pieces (Text.trim text) s =
      .ok result s) :
    substitute user (.str text) false s = .ok result s :=
  (substitute_apply hkey hinitialized hm hstack hbindings htokens).trans hresult

theorem substitute_words (htext : Text.trim text = join " " words)
    (hquoted : isQuoted (Text.trim text) = false) (hne : words ≠ [])
    (hwords : ∀ word ∈ words, Stays bindings word) :
    substitute user (.str text) false s = .ok (join " " words) s := by
  have hopen : openTokens (.table bindings) Function.all ((Text.trim text).length + 1)
      (Text.trim text) = .ok words := by
    rw [htext]
    exact openTokens_words hwords hne (length_le_join words)
  refine substitute_of_tokens hkey hinitialized hm hstack hbindings (tokens_of_open hquoted hopen) ?_
  rw [htext]
  exact replaceFrom_rest (by simpa using fun word hmem => (hwords word hmem).reference) (by simp)

theorem substitute_variable
    (htext : Text.trim text = join " " (before ++ name :: after))
    (hquoted : isQuoted (Text.trim text) = false) (hequals : "==" ∈ after)
    (hbefore : ∀ word ∈ before, Stays bindings word)
    (hafter : ∀ word ∈ after, Stays bindings word) (hname : Names bindings name)
    (hword : ∀ line, variableWord user c line name s = .ok word s) :
    substitute user (.str text) false s = .ok (join " " (before ++ word :: after)) s := by
  have hopen : openTokens (.table bindings) Function.all ((Text.trim text).length + 1)
      (Text.trim text) = .ok (before ++ braced name :: after) := by
    rw [htext]
    exact openTokens_variable hbefore hafter hname hequals (length_le_join _)
  exact substitute_of_tokens hkey hinitialized hm hstack hbindings (tokens_of_open hquoted hopen)
    (replaceFrom_pieces (fun word hmem => (hbefore word hmem).reference)
      (fun word hmem => (hafter word hmem).reference) hname.referable hword)

end

/-- A text of which the message does not ask for a list, or whose list has only texts. -/
def Listable (m : Message) (values : List Value) : Prop :=
  ∃ flag, ((Entries.find? "cc_data" m.data).getD .emptyTable).get "return_list" (.bool false) =
    .ok flag ∧ (flag.truthy = true → ∀ value ∈ values, ∃ text, value = .str text)

theorem mapM_needle_ok {values : List Value} (h : ∀ value ∈ values, ∃ text, value = .str text)
    (s : Session) :
    ∃ texts, values.mapM (fun v => (liftM v.needle : Run String)) s = .ok texts s := by
  induction values with
  | nil => exact ⟨[], rfl⟩
  | cons value rest ih =>
    obtain ⟨⟨text, rfl⟩, hrest⟩ := forall_mem_cons.1 h
    obtain ⟨texts, htexts⟩ := ih hrest
    refine ⟨text :: texts, ?_⟩
    rw [mapM_cons, show (str text).needle = .ok text from rfl,
      bind_of_ok (lift_ok_apply _ _), bind_of_ok htexts, pure_apply]

theorem variableWord_eq {value newest' : Value} (hname : Referable name)
    (hbindings : c.bindings = .table bindings) (hfind : Entries.find? name bindings = some value)
    (htruthy : value.truthy = true) (hnewest : newest user c line name value s = .ok newest' s)
    (hword : wordOf c.bindings name newest' s = .ok word s) :
    variableWord user c line name s = .ok (tidy word) s := by
  have hraw : rawValue user c name s = .ok value s := by
    rw [rawValue, hbindings, entries, bind_of_ok (lift_ok_apply _ _)]
    simp only [hfind, Option.getD_some, htruthy, if_true, pure_apply]
  rw [variableWord, hname.unindexed, if_neg Bool.false_ne_true, bind_of_ok hraw,
    bind_of_ok hnewest, bind_of_ok hword, pure_apply]

theorem variableWord_ok {message : Message} {first : String} {values : List Value}
    {number : Option Nat} (hmessage : s.message = some message)
    (hlist : Listable message values) (hbindings : c.bindings = .table bindings)
    (hfind : Entries.find? name bindings = some (.list (.str first :: values) number))
    (hname : Names bindings name) :
    ∃ word, ∀ line, variableWord user c line name s = .ok word s := by
  obtain ⟨word, hword⟩ : ∃ word, wordOf c.bindings name (.list (.str first :: values) number) s =
      .ok word s := by
    obtain ⟨flag, hflag, htexts⟩ := hlist
    have hparts : c.bindings.get name = .ok (.list (.str first :: values) number) := by
      simp only [hbindings, Value.get, hfind]
      rfl
    have hfirst : itemAt (.str first :: values) 0 = .ok (.str first) :=
      itemAt_nat (i := 0) rfl
    have hdatum : datum "cc_data" .emptyTable s =
        .ok ((Entries.find? "cc_data" message.data).getD .emptyTable) s := by
      rw [datum, bind_of_ok (theMessage_of_some hmessage), pure_apply]
    have hrest (whole : Bool) (hall : whole = true → ∀ value ∈ values, ∃ text, value = .str text) :
        ∃ word, (if whole then do
            let parts ← (← c.bindings.get name).elements
            return join "," (← parts.mapM (liftM ·.needle))
          else do
            let item ← itemAt (.str first :: values) 0
            return trimOf "\"" (Text.trim item.display) : Run String) s = .ok word s := by
      cases whole with
      | false => exact ⟨_, bind_of_ok (by rw [hfirst]; rfl)⟩
      | true =>
        obtain ⟨texts, hneedles⟩ := mapM_needle_ok
          (forall_mem_cons.2 ⟨⟨first, rfl⟩, hall rfl⟩) s
        refine ⟨join "," texts, ?_⟩
        rw [if_pos rfl, hparts, bind_of_ok (lift_ok_apply _ _), elements,
          bind_of_ok (lift_ok_apply _ _), bind_of_ok hneedles, pure_apply]
    rw [wordOf]
    split
    · rw [bind_of_ok hdatum, hflag, bind_of_ok (lift_ok_apply _ _)]
      exact hrest flag.truthy htexts
    · exact hrest false (by simp)
  exact ⟨tidy word, fun line => variableWord_eq hname.referable hbindings hfind rfl rfl hword⟩

end Substitution

end Colloquy
