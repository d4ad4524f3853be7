import Colloquy.Proofs.Stacks
import Colloquy.Proofs.Stage

/-! The voices of scripts.  A command that sets no language leaves the voices of the user's scripts
alone, whether or not it fails, where no voice holds a list that can stand elsewhere.  The one
exception is a text that is reconveyed to a chat: its speaker becomes the name of the voice, for
this line and all that follow. -/

namespace Colloquy

open Session Entry List

variable {user v w : Value} {s t : Session} {sets : Value → Value → Prop}
  {old rest : List (Option Value)} {stack : List Entry}

/-- Two voices that differ at most in their names. -/
def Value.Renamed (v w : Value) : Prop :=
  ∃ entries entries' : Entries, v = .table entries ∧ w = .table entries' ∧
    ∀ key : String, key ≠ "name" → entries'.find? key = entries.find? key

namespace Value.Renamed

theorem trans {x : Value} (h : v.Renamed w) (h' : w.Renamed x) : v.Renamed x := by
  obtain ⟨entries, entries', rfl, rfl, hsame⟩ := h
  obtain ⟨_, entries'', heq, rfl, hsame'⟩ := h'
  cases heq
  exact ⟨entries, entries'', rfl, rfl, fun key hkey => (hsame' key hkey).trans (hsame key hkey)⟩

theorem of_put {name : Value} (h : v.put "name" name = .ok w) : v.Renamed w := by
  cases v with
  | table entries =>
    obtain rfl := Except.ok.inj h
    exact ⟨entries, _, rfl, rfl, fun key hkey => Entries.find?_insert_ne (Ne.symm hkey) name entries⟩
  | null | bool _ | int _ | float _ | str _ | tuple _ | set _ | record _ | list _ _ => cases h

theorem changed (h : v.Renamed w) (hplain : v.ListsIn fun _ => False) (change : Change) :
    v.Renamed (w.changed change) := by
  obtain ⟨entries, entries', rfl, rfl, hsame⟩ := h
  refine ⟨entries, _, rfl, rfl, fun key hkey => ?_⟩
  rw [Entries.find?_changed, hsame key hkey]
  cases hfind : entries.find? key with
  | none => rfl
  | some value =>
    exact congrArg some (ListsIn.changed_eq id _ (find?_listsIn (listsIn_table.1 hplain) hfind))

end Value.Renamed

theorem Value.Revoiced.renamed {names : Prop}
    (h : v.Revoiced (fun v w => names ∧ ∃ name, v.put "name" name = .ok w) w)
    (hplain : v.ListsIn fun _ => False) : w = v ∨ names ∧ v.Renamed w := by
  induction h with
  | refl => exact .inl rfl
  | changed change _ ih =>
    rcases ih with rfl | ⟨hnames, hrenamed⟩
    · exact .inl (ListsIn.changed_eq id _ hplain)
    · exact .inr ⟨hnames, hrenamed.changed hplain change⟩
  | set _ hset ih =>
    obtain ⟨hnames, name, hput⟩ := hset
    rcases ih with rfl | ⟨-, hrenamed⟩
    · exact .inr ⟨hnames, .of_put hput⟩
    · exact .inr ⟨hnames, hrenamed.trans (.of_put hput)⟩

theorem Value.Revoiced.changedBy (h : v.Revoiced sets w) (changes : List Change) :
    v.Revoiced sets (w.changedBy changes) := by
  induction changes with
  | nil => exact h
  | cons change changes ih => exact ih.changed change

/-! ### The voices of a stack -/

def Entry.voice : Entry → Option Value
  | .conversation c => some c.speaker
  | .foreign _ => none

def Session.voices (user : Value) (s : Session) : List (Option Value) :=
  (s.stackOf user).map Entry.voice

theorem Entry.map_voice_changedBy (changes : List Value.Change)
    (hplain : ∀ v, some v ∈ stack.map voice → v.ListsIn fun _ => False) :
    (stack.map (changedBy changes)).map voice = stack.map voice := by
  rw [map_map]
  refine map_congr_left fun e he => ?_
  cases e with
  | foreign v => simp [voice]
  | conversation c =>
    have hc : c.speaker.ListsIn fun _ => False := hplain _ (mem_map_of_mem (f := voice) he)
    have hsame : c.speaker.changedBy changes = c.speaker :=
      foldr_eq_self fun _ _ => Value.ListsIn.changed_eq id _ hc
    simp [voice, Conversation.changedBy_eq, hsame]

/-- What becomes of the voices of a stack where scripts are left and only that of the running one is
set. -/
def VoicesFrom (sets : Value → Value → Prop) (old voices : List (Option Value)) : Prop :=
  voices <:+ old ∨
    ∃ v w rest, some v :: rest <:+ old ∧ v.Revoiced sets w ∧ voices = some w :: rest

namespace VoicesFrom

theorem below {voice : Option Value} (h : VoicesFrom sets old (voice :: rest)) :
    rest <:+ old := by
  rcases h with h | ⟨v, w, rest', hold, -, heq⟩
  · exact (suffix_cons _ _).trans h
  · obtain ⟨-, rfl⟩ := List.cons.inj heq
    exact (suffix_cons _ _).trans hold

theorem revoiced (h : VoicesFrom sets old (some v :: rest)) (hvoice : v.Revoiced sets w) :
    VoicesFrom sets old (some w :: rest) := by
  rcases h with h | ⟨v', w', rest', hold, hrevoiced, heq⟩
  · exact .inr ⟨v, w, rest, h, hvoice, rfl⟩
  · obtain ⟨hw, rfl⟩ := List.cons.inj heq
    obtain rfl := Option.some.inj hw
    exact .inr ⟨v', w, rest, hold, hrevoiced.trans hvoice, rfl⟩

theorem shared (h : VoicesFrom sets old (stack.map voice))
    (hplain : ∀ v, some v ∈ old → v.ListsIn fun _ => False) (changes : List Value.Change) :
    VoicesFrom sets old ((stack.map (changedBy changes)).map voice) := by
  have hrest {rest : List Entry} (hrest : rest.map voice <:+ old) :=
    map_voice_changedBy changes fun v hv => hplain v (hrest.subset hv)
  cases stack with
  | nil => exact h
  | cons e rest =>
    have hbelow := hrest h.below
    rw [map_cons, map_cons, hbelow]
    cases e with
    | foreign v => simpa using h
    | conversation c =>
      rw [changedBy_conversation, Conversation.changedBy_eq]
      exact h.revoiced (.changedBy .refl changes)

end VoicesFrom

/-! ### Commands -/

/-- A command for a user that runs no other script and sets only the voices given. -/
def Role.voicing (user : Value) (message : Option Message) (sets : Value → Value → Prop) : Role :=
  { Role.ofMessage user message with
    calls := False, voices := sets, chats := ∃ m, message = some m ∧ m.isChat = true }

theorem Aware.voicing (user : Value) (s : Session) (sets : Value → Value → Prop) :
    Aware (.voicing user s.message sets) s :=
  { Aware.ofMessage user s with
    stack := fun _ _ => ⟨nofun, nofun⟩, chats := fun m hm hchat => ⟨m, hm, hchat⟩ }

theorem Stable.voices {r : Role} (hcalls : ¬ r.calls)
    (hplain : ∀ v, some v ∈ old → v.ListsIn fun _ => False) :
    Stable r fun t => VoicesFrom r.voices old (t.voices r.user) := by
  have hkept {s : Session} {user : Value} {m : Manager} {c : Conversation} {rest : List Entry}
      {draft : Draft} (hm : managerIn s.active user = some m)
      (hstack : m.stack = .conversation c :: rest) (hlike : c.Like r draft.conversation)
      (h : VoicesFrom r.voices old (s.voices r.user)) :
      VoicesFrom r.voices old ((kept user m draft s).voices r.user) := by
    obtain hnew | ⟨hold, hnew⟩ := stackOf_kept_cases draft hm hstack r.user
    · rw [Session.voices, hnew]
      exact h.shared hplain _
    · rw [Session.voices, hold] at h
      rw [Session.voices, hnew, map_cons,
        map_voice_changedBy _ fun v hv => hplain v (h.below.subset hv)]
      exact h.revoiced hlike.voice
  have hpopped {s : Session} {m : Manager} {c : Conversation} {rest : List Entry}
      (events : List Event) (scope : Entries) (hm : managerIn s.active r.user = some m)
      (hstack : m.stack = .conversation c :: rest)
      (h : VoicesFrom r.voices old (s.voices r.user)) :
      VoicesFrom r.voices old ((replaced r.user { m with stack := rest, scope }
        { s with message := s.message.map (·.voiceless), events }).voices r.user) := by
    rw [Session.voices, stackOf_eq hm, hstack] at h
    rw [Session.voices, stackOf_replaced_self (by exact hm)]
    exact .inl h.below
  refine ⟨?_, ?_, hkept, ?_, ?_, fun h => absurd h hcalls, fun _ _ h => h, fun _ _ h => h⟩
  · intro s t h hcalm
    rwa [Session.voices, stackOf, hcalm.active]
  · intro s text filename startTime h
    obtain ⟨files, hafter⟩ := after_addTranscript text filename startTime s
    rwa [hafter]
  · intro s changes h
    rw [Session.voices, stackOf_withChanges]
    exact h.shared hplain changes
  · intro s t hleaves h
    cases hleaves with
    | stay | idle => exact h
    | stuck events hm hstack => exact hpopped events _ hm hstack h
    | back events scope hm hstack =>
      obtain hsame | ⟨m, c, rest, hm', hstack', hkept'⟩ := after_edit r.user (Edit.step 1) _
      · rw [hsame]
        exact hpopped events scope hm hstack h
      · rw [hkept']
        exact hkept hm' hstack' (Amends.step 1 { conversation := c })
          (hpopped events scope hm hstack h)
    | last events hm hstack =>
      rw [Session.voices, stackOf, managerIn_filter_self]
      exact .inl nil_suffix

/-- A command other than `language` leaves the voices of the user's scripts alone, but for the name
of the running one's where a text is reconveyed to a chat. -/
theorem Keyword.perform_voices {k : Keyword} (hlanguage : k ≠ .language) (hrun : k ≠ .run)
    (hplain : ∀ v, some v ∈ s.voices user → v.ListsIn fun _ => False) (text : Value) :
    (s.after (k.perform user text)).voices user <:+ s.voices user ∨
      (k = .reconvey ∨ k = .nameReconvey) ∧ (∃ m, s.message = some m ∧ m.isChat = true) ∧
        ∃ v w rest, some v :: rest <:+ s.voices user ∧ v.Renamed w ∧
          (s.after (k.perform user text)).voices user = some w :: rest := by
  let names : Prop := (k = .reconvey ∨ k = .nameReconvey) ∧ ∃ m, s.message = some m ∧ m.isChat = true
  let sets (v w : Value) : Prop := names ∧ ∃ name, v.put "name" name = .ok w
  have hfits : k.Fits (.voicing user s.message sets) := by
    cases k with
    | language => exact absurd rfl hlanguage
    | run => exact absurd rfl hrun
    | execute => exact ⟨_, rfl⟩
    | declare | set | subKey => trivial
    | reconvey => exact fun hchat v name w hput => ⟨⟨.inl rfl, hchat⟩, name, hput⟩
    | nameReconvey => exact fun hchat v name w hput => ⟨⟨.inr rfl, hchat⟩, name, hput⟩
    | loop | formula | speak | neonSpeak | nameSpeak | case | exit | branch | otherwise | goto
    | subValues | email => trivial
  have hstable := Stable.voices (r := .voicing user s.message sets) id hplain
  have hafter := ((Acts.perform hfits text).after_keeps hstable (fun h => absurd h id)
    (.voicing user s sets) (.inl (List.suffix_refl _))).2
  rcases hafter with hafter | ⟨v, w, rest, hold, hrevoiced, hvoices⟩
  · exact .inl hafter
  · rcases hrevoiced.renamed (hplain v (hold.subset List.mem_cons_self)) with rfl | ⟨hnames, hw⟩
    · exact .inl (hvoices ▸ hold)
    · exact .inr ⟨hnames.1, hnames.2, v, w, rest, hold, hw, hvoices⟩

def Session.ofReconveying (chat : Value) : Session :=
  { root := "/home", initialized := true
    message := some { data := [("parser_data", .object [("name", "bob"), ("reconvey_text", "'hi'")])]
                      context := [("klat_data", chat)] }
    active := [("ann", { user := "ann", stack := [.conversation
      { filename := "demo", scriptMeta := .emptyTable, startTime := 0, index := .int 1
        speaker := .object [("name", "Neon"), ("language", "en-us")] }] })] }

theorem Keyword.perform_voices_here :
    ((ofReconveying .null).after (nameReconvey.perform "ann" "x")).voices "ann" <:+
      (ofReconveying .null).voices "ann" := by
  refine (perform_voices (by decide) (by decide) (fun v hv => ?_) "x").resolve_right ?_
  · obtain rfl : v = .object [("name", "Neon"), ("language", "en-us")] := by
      simpa [Session.voices, stackOf, ofReconveying, managerIn, Value.str_same, Entry.voice] using hv
    simp [Value.object]
  · rintro ⟨-, ⟨m, hm, hchat⟩, -⟩
    obtain rfl := Option.some.inj hm
    simp [Message.isChat, Entries.find?, Value.str_same, Value.truthy] at hchat

/-- In a chat the script goes on speaking in the name of the one whose words were reconveyed. -/
theorem Keyword.reconvey_renames_voice :
    (((ofReconveying (.object [("cid", "1")])).after (nameReconvey.perform "ann" "x")).voices
      "ann").map (Option.map Value.display) = [some "\x7b'name': 'bob', 'language': 'en-us'\x7d"] := by
  decide +kernel

end Colloquy
