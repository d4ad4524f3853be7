import Colloquy.Workbench
import Colloquy.Proofs.Session

/-! Assignments to the fields of a conversation.  What identifies a conversation outlasts them all,
and a reset takes back those to the fields that a new conversation has. -/

namespace Colloquy

open Text

namespace Conversation

variable {c : Conversation} {name other : String} {key value : Value}
  {fields : List (String × Value)}

/-- A key under which nothing can be assigned: one that is no text, that starts with an underscore,
or that names a part of the identity. -/
def Refuses (key : Value) : Prop :=
  ∀ name, key = .str name → startsWith name "_" = true ∨ name ∈ identityNames

/-- The metadata and the file name of the script, and the time at which it started. -/
def identity (c : Conversation) : Value × Value × Int :=
  (c.scriptMeta, c.filename, c.startTime)

/-- The names of the fields that every new conversation has beside its identity. -/
def ownNames : List String :=
  (start .null .null 0).ownFields.map (·.1)

theorem find?_withExtra :
    (withExtra name value fields).find? (·.1 == other) =
      if other = name then some (name, value) else fields.find? (·.1 == other) := by
  induction fields with
  | nil => grind [withExtra]
  | cons e rest ih => grind [withExtra]

theorem ne_of_protected {n : String} (h : startsWith name "_" = false)
    (hn : startsWith n "_" = true) : name ≠ n := by
  rintro rfl
  simp [hn] at h

/-- The value takes the place that its name has among the fields, or comes behind all of them. -/
theorem fields_setField (h : startsWith name "_" = false) :
    (c.setField name value).fields = withExtra name value c.fields := by
  have hmeta : name ≠ "_script_meta" := ne_of_protected h (by decide)
  have hfile : name ≠ "_script_filename" := ne_of_protected h (by decide)
  have htime : name ≠ "_script_start_time" := ne_of_protected h (by decide)
  unfold setField
  split
  case h_20 =>
    simp only [imp_false] at *
    simp [Conversation.fields, ownFields, withExtra, @eq_comm String _ name, *]
  all_goals simp [Conversation.fields, ownFields, withExtra]

theorem field?_setField (h : startsWith name "_" = false) :
    (c.setField name value).field? name = some value := by
  simp [Conversation.field?, Value.field?, fields_setField h, find?_withExtra]

theorem field?_setField_ne (h : startsWith name "_" = false) (hne : other ≠ name) :
    (c.setField name value).field? other = c.field? other := by
  have hunder : "_" ++ other ≠ name :=
    (ne_of_protected h (by simp [startsWith, List.isPrefixOf])).symm
  simp only [Conversation.field?, Value.field?, fields_setField h, find?_withExtra, hne, hunder,
    if_false]

theorem identity_setField (c : Conversation) (name : String) (value : Value) :
    (c.setField name value).identity = c.identity := by
  unfold setField
  split <;> rfl

theorem extras_setField (hname : name ∈ ownNames) :
    (c.setField name value).extras = c.extras := by
  unfold setField
  split
  case h_20 => simp_all [ownNames, ownFields]
  all_goals rfl

end Conversation

namespace Workbench

open Conversation

variable {w : Workbench} {n : Nat} {c : Conversation}

/-- What is left of a workbench when values have been assigned to one of its conversations, each
with or without success. -/
def assigned (w : Workbench) (n : Nat) (writes : List (Value × Value)) : Workbench :=
  writes.foldl (fun w write => (w.run (.assign n write.1 write.2)).2) w

theorem run_assign (hc : w.conversations[n]? = some c) (key value : Value) :
    (Refuses key ∧ ∃ fault, w.run (.assign n key value) = (.error fault, w)) ∨
      (¬ Refuses key ∧ ∃ name, key = .str name ∧ startsWith name "_" = false ∧
        w.run (.assign n key value) = (.ok .null, w.replace n (c.setField name value))) := by
  have hrun : w.run (.assign n key value) = w.settle (w.replace n <$> c.assign key value) := by
    simp only [run, conversation, hc, bind, Except.bind]
    cases c.assign key value <;> rfl
  rw [hrun]
  cases key
  case str name =>
    have hassign : c.assign (.str name) value =
        if startsWith name "_" then .error .protectedField
        else if identityNames.contains name then .error .missingOperation
        else .ok (c.setField name value) := rfl
    rw [hassign]
    by_cases hunder : startsWith name "_" = true
    · exact .inl ⟨by simp [Refuses, hunder], _, by simp [hunder, settle]; rfl⟩
    by_cases hname : name ∈ identityNames
    · exact .inl ⟨by simp [Refuses, hname], _, by simp [hunder, hname, settle]; rfl⟩
    · exact .inr ⟨by simp [Refuses, hunder, hname], name, rfl, by simpa using hunder,
        by simp [hunder, hname]; rfl⟩
  all_goals exact .inl ⟨by simp [Refuses], _, rfl⟩

theorem run_reset (hc : w.conversations[n]? = some c) (hnone : c.extras = []) :
    w.run (.reset n) = (.ok .null, w.replace n c.reset) := by
  simp only [run, conversation, hc, callable, hnone, bind, Except.bind]
  rfl

theorem conversations_replace (hc : w.conversations[n]? = some c) (c' : Conversation) :
    (w.replace n c').conversations[n]? = some c' := by
  have hlt : n < w.conversations.length := (List.getElem?_eq_some_iff.1 hc).1
  simp [replace, hlt]

/-- Whatever is assigned, the conversation is the same one afterwards, and it has no further fields
if the names were those of the fields that every conversation has. -/
theorem conversations_assigned (writes : List (Value × Value))
    (hc : w.conversations[n]? = some c) :
    ∃ c', (w.assigned n writes).conversations[n]? = some c' ∧ c'.identity = c.identity ∧
      ((∀ write ∈ writes, Refuses write.1 ∨ ∃ name ∈ ownNames, write.1 = .str name) →
        c'.extras = c.extras) := by
  induction writes generalizing w c with
  | nil => exact ⟨c, hc, rfl, fun _ => rfl⟩
  | cons write writes ih =>
    rw [assigned, List.foldl_cons, ← assigned]
    obtain ⟨hrefuses, fault, hrun⟩ | ⟨hrefuses, name, hname, hunder, hrun⟩ :=
      run_assign hc write.1 write.2
    · obtain ⟨c', hc', hsame, hextras⟩ := ih hc
      rw [hrun]
      exact ⟨c', hc', hsame, fun h => hextras (List.forall_mem_cons.1 h).2⟩
    · obtain ⟨c', hc', hsame, hextras⟩ :=
        ih (conversations_replace hc (c.setField name write.2))
      rw [hrun]
      refine ⟨c', hc', hsame.trans (c.identity_setField name write.2), fun h => ?_⟩
      obtain ⟨hwrite, hwrites⟩ := List.forall_mem_cons.1 h
      obtain ⟨own, hown, hkey⟩ := hwrite.resolve_left hrefuses
      obtain rfl : name = own := by simpa [hname] using hkey
      rw [hextras hwrites, extras_setField hown]

/-- An assignment to a conversation fails, and changes nothing, exactly when its key is refused, and
another changes the field of that name alone.  Whatever is assigned, the identity stays, and when all
went to the fields that every conversation has, a reset gives the conversation back as it was made. -/
theorem assigned_keeps_identity (hc : w.conversations[n]? = some c) :
    (∀ key value,
      (Refuses key ∧ ∃ fault, w.run (.assign n key value) = (.error fault, w)) ∨
      (¬ Refuses key ∧ ∃ name c', key = .str name ∧
        w.run (.assign n key value) = (.ok .null, w.replace n c') ∧
        c'.field? name = some value ∧ ∀ other ≠ name, c'.field? other = c.field? other)) ∧
    ∀ writes, ∃ c', (w.assigned n writes).conversations[n]? = some c' ∧
      c'.identity = c.identity ∧
      ∀ scriptMeta filename startTime, c = start scriptMeta filename startTime →
        (∀ write ∈ writes, Refuses write.1 ∨ ∃ name ∈ ownNames, write.1 = .str name) →
        (w.assigned n writes).run (.reset n) = (.ok .null, (w.assigned n writes).replace n c) := by
  refine ⟨fun key value => ?_, fun writes => ?_⟩
  · obtain ⟨hrefuses, hrun⟩ | ⟨hrefuses, name, hname, hunder, hrun⟩ := run_assign hc key value
    · exact .inl ⟨hrefuses, hrun⟩
    · exact .inr ⟨hrefuses, name, _, hname, hrun, field?_setField hunder,
        fun other hne => field?_setField_ne hunder hne⟩
  · obtain ⟨c', hc', hsame, hextras⟩ := conversations_assigned writes hc
    refine ⟨c', hc', hsame, ?_⟩
    rintro scriptMeta filename startTime rfl howned
    have hnone : c'.extras = [] := hextras howned
    simp only [identity, Prod.mk.injEq] at hsame
    have hreset : c'.reset = start scriptMeta filename startTime := by
      simp only [reset, hsame, hnone, start]
    rw [run_reset hc' hnone, hreset]

def fresh : Workbench :=
  { user := .str "ann", conversations := [start .emptyTable (.str "demo") 0] }

theorem fresh_after_reset :
    ((fresh.assigned 0 [(.str "line", .str "hello"), (.str "_script_meta", .null),
      (.int 5, .null)]).run (.reset 0)).2.conversations = fresh.conversations := by
  have hc : fresh.conversations[0]? = some (start .emptyTable (.str "demo") 0) := rfl
  obtain ⟨c, -, -, hreset⟩ := (assigned_keeps_identity hc).2
    [(.str "line", .str "hello"), (.str "_script_meta", .null), (.int 5, .null)]
  rw [hreset .emptyTable (.str "demo") 0 rfl]
  · rfl
  · simp [Refuses, ownNames, ownFields, startsWith]

/-- A key that is no text is refused, too. -/
theorem number_refused :
    ¬ ∀ key value, (∃ fault, (fresh.run (.assign 0 key value)).1 = .error fault) →
      ∃ name, key = .str name ∧ (startsWith name "_" = true ∨ name ∈ identityNames) := by
  intro h
  obtain ⟨name, hname, -⟩ := h (.int 5) .null ⟨.missingOperation, rfl⟩
  cases hname

end Workbench

end Colloquy
