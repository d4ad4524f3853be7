import Colloquy.Proofs.Departure
import Colloquy.Proofs.Words

/-! The scope of a user over any number of scripts that have ended.  The name of a script has no dot,
so the first dot of a name in the scope tells the script from the variable, and the scripts do not get
into each other's way.  What is found is what the last script of the name has left. -/

namespace Colloquy

open Entries

/-- A conversation whose script has a name without a dot and whose variables are a table that can be
asked for. -/
structure Conversation.Scoped (c : Conversation) : Prop where
  named : ∃ script : String, c.filename = .str script ∧ '.' ∉ script.toList
  bindings : ∃ vars : List (String × Value), c.bindings = .object vars ∧ (vars.map Prod.fst).Nodup
  callable : c.callable "get" = .ok ()

/-- The value of a variable in a conversation that runs the script and has the variable. -/
def Conversation.declared? (script name : String) (c : Conversation) : Option Value :=
  if c.filename.same script then c.bindings.entries.toOption.bind (Entries.find? name) else none

/-- The value of a variable in the last conversation that runs the script and has the variable. -/
def Conversation.lastDeclared? (script name : String) : List Conversation → Option Value
  | [] => none
  | c :: rest => (lastDeclared? script name rest).or (c.declared? script name)

def Entries.ofTexts (vars : List (String × Value)) : Entries :=
  vars.map fun (name, value) => (.str name, value)

theorem Entries.find?_ofTexts_eq_none {vars : List (String × Value)} {name : String}
    (h : name ∉ vars.map Prod.fst) : find? name (.ofTexts vars) = none := by
  induction vars with
  | nil => rfl
  | cons e rest ih =>
    rw [List.map_cons, List.mem_cons, not_or] at h
    simpa [ofTexts, find?, Value.str_same, Ne.symm h.1] using ih h.2

namespace Manager

variable {script other name : String} {m : Manager} {c : Conversation} {old : Entries}
  {vars : List (String × Value)} {conversations : List Conversation}

theorem scopeName_inj {name' : String} (hscript : '.' ∉ script.toList) (hother : '.' ∉ other.toList)
    (h : scopeName (.str other) (.str name') = script ++ "." ++ name) :
    other = script ∧ name' = name := by
  have hcut := congrArg (Text.cut? ".") h
  rw [Text.cut?_append "." rfl hscript] at hcut
  simpa using (Text.cut?_append "." rfl hother name').symm.trans hcut

theorem find?_merge_ofTexts (hscript : '.' ∉ script.toList) (hother : '.' ∉ other.toList)
    (hvars : (vars.map Prod.fst).Nodup) :
    find? (.str (script ++ "." ++ name))
        (merge old (published (.str other) (.ofTexts vars))) =
      (if other = script then find? name (.ofTexts vars) else none).or
        (find? (.str (script ++ "." ++ name)) old) := by
  induction vars generalizing old with
  | nil => simp [ofTexts, published, merge, find?]
  | cons e rest ih =>
    obtain ⟨hnew, hrest⟩ := List.nodup_cons.1 hvars
    refine (@ih (old.insert (scopeName other e.1) e.2) hrest).trans ?_
    by_cases hkey : scopeName other e.1 = script ++ "." ++ name
    · obtain ⟨rfl, rfl⟩ := scopeName_inj hscript hother hkey
      rw [hkey, find?_insert_self, if_pos rfl, if_pos rfl,
        find?_ofTexts_eq_none hnew]
      simp [ofTexts, find?, Value.str_same]
    · rw [find?_insert_ne hkey]
      by_cases hsame : other = script
      · have hne : e.1 ≠ name := fun h => hkey (by rw [hsame, h]; rfl)
        simp [hsame, ofTexts, find?, Value.str_same, hne]
      · rw [if_neg hsame, if_neg hsame]

theorem publish_found (hc : c.Scoped) (m : Manager) :
    ∃ m', m.publish c = .ok m' ∧ ∀ script name : String, '.' ∉ script.toList →
      find? (.str (script ++ "." ++ name)) m'.scope =
        (c.declared? script name).or (find? (.str (script ++ "." ++ name)) m.scope) := by
  obtain ⟨other, hfilename, hother⟩ := hc.named
  obtain ⟨vars, hbindings, hvars⟩ := hc.bindings
  have hentries : c.bindings.entries = .ok (.ofTexts vars) := by
    rw [hbindings]
    rfl
  refine ⟨_, publish_of_entries hc.callable hentries m, fun script name hscript => ?_⟩
  rw [hfilename, find?_merge_ofTexts hscript hother hvars, Conversation.declared?, hfilename,
    Value.str_same, hentries]
  simp [Except.toOption]

theorem publishAll_found (hconversations : ∀ c ∈ conversations, c.Scoped) (m : Manager) :
    ∃ m', conversations.foldlM publish m = .ok m' ∧ ∀ script name : String, '.' ∉ script.toList →
      find? (.str (script ++ "." ++ name)) m'.scope =
        (Conversation.lastDeclared? script name conversations).or
          (find? (.str (script ++ "." ++ name)) m.scope) := by
  induction conversations generalizing m with
  | nil => exact ⟨m, rfl, fun _ _ _ => rfl⟩
  | cons c rest ih =>
    obtain ⟨hc, hrest⟩ := List.forall_mem_cons.1 hconversations
    obtain ⟨m₁, hpublish, hfirst⟩ := publish_found hc m
    obtain ⟨m', hpublishes, hfound⟩ := ih hrest m₁
    refine ⟨m', ?_, fun script name hscript => ?_⟩
    · rw [List.foldlM_cons, hpublish]
      exact hpublishes
    · rw [hfound script name hscript, hfirst script name hscript, Conversation.lastDeclared?,
        Option.or_assoc]

/-- After any number of scripts were published, each variable has the value that the last script of the
name has left that has it, and those that none of them has are absent. -/
theorem lookupScope_published (hconversations : ∀ c ∈ conversations, c.Scoped)
    (hm : m.scope = []) :
    ∃ m', conversations.foldlM publish m = .ok m' ∧ ∀ script name : String, '.' ∉ script.toList →
      m'.lookupScope (.str (script ++ "." ++ name)) =
        .ok ((Conversation.lastDeclared? script name conversations).getD .null) := by
  obtain ⟨m', hpublishes, hfound⟩ := publishAll_found hconversations m
  refine ⟨m', hpublishes, fun script name hscript => ?_⟩
  simp [lookupScope, Value.get, Value.isKey, hfound script name hscript, hm, Entries.find?]

def leaving (script : String) (mood : Value) : Conversation :=
  { scriptMeta := .emptyTable, filename := .str script, startTime := 0
    bindings := .object [("mood", mood), ("a.mood", "none")] }

/-- A script leaves the mood of another one as it is, but not that of its own first run. -/
theorem lookupScope_published_moods :
    ∃ m', [leaving "a" "glad", leaving "a" "calm", leaving "b" "sad"].foldlM publish
        { user := "ann" } = .ok m' ∧
      m'.lookupScope "a.mood" = .ok "calm" ∧ m'.lookupScope "b.a.mood" = .ok "none" ∧
      m'.lookupScope "c.mood" = .ok .null := by
  have hscoped (script : String) (mood : Value) (h : '.' ∉ script.toList) :
      (leaving script mood).Scoped := ⟨⟨script, rfl, h⟩, ⟨_, rfl, by simp⟩, rfl⟩
  have hall : ∀ c ∈ [leaving "a" "glad", leaving "a" "calm", leaving "b" "sad"], c.Scoped := by
    simp [hscoped]
  obtain ⟨m', hpublish, hfound⟩ := lookupScope_published (m := { user := "ann" }) hall rfl
  simp only [Conversation.lastDeclared?, Conversation.declared?, leaving, Value.str_same,
    Value.entries, Value.object, Except.toOption, Option.bind, List.map, Entries.find?] at hfound
  exact ⟨m', hpublish, hfound "a" "mood" (by decide), hfound "b" "a.mood" (by decide),
    hfound "c" "mood" (by decide)⟩

end Manager

end Colloquy
