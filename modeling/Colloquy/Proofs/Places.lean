import Colloquy.Proofs.Plain
import Colloquy.Proofs.Stable

/-! Where paths lead that end in an extension.  Transcripts and compiled scripts have different
extensions, so that writing a transcript leaves all compiled scripts as they are. -/

namespace Colloquy

open List

variable {ext : List Char} {s : Session} {filename : String} {script : Value}

/-! ### The last name of a path -/

namespace Text

theorem getLast?_splitFrom {c : Char} (hext : c ∉ ext) (cs piece : List Char) :
    ∃ x, (splitFrom [c] 0 piece (cs ++ ext)).getLast? = some (x ++ ext) := by
  induction cs generalizing piece with
  | nil =>
    have hcut : cutChars? [c] ext = none :=
      cutChars?_eq_none_iff.2 fun h => hext (h.subset mem_cons_self)
    exact ⟨piece.reverse, by simp [splitFrom_of_none hcut]⟩
  | cons y rest ih =>
    by_cases hy : c = y
    · obtain ⟨x, hx⟩ := ih []
      refine ⟨x, ?_⟩
      have hstep : splitFrom [c] 0 piece (y :: rest ++ ext) =
          piece.reverse :: splitFrom [c] 0 [] (rest ++ ext) := by
        simp [splitFrom, hy]
      rw [hstep, getLast?_cons, hx]
      rfl
    · obtain ⟨x, hx⟩ := ih (y :: piece)
      refine ⟨x, ?_⟩
      rw [← hx]
      simp [splitFrom, hy]

theorem getLast?_split {c : Char} (sep : String) (hsep : sep.toList = [c]) (hext : c ∉ ext)
    (cs : List Char) :
    ∃ x, (split sep (String.ofList (cs ++ ext))).getLast? = some (String.ofList (x ++ ext)) := by
  obtain ⟨x, hx⟩ := getLast?_splitFrom hext cs []
  refine ⟨x, ?_⟩
  rw [split, hsep, String.toList_ofList, getLast?_map, hx]
  rfl

end Text

namespace Files

theorem followAbove_ne_inside (names : List String) (place : Place) :
    followAbove names ≠ .ok (.inside place) := by
  induction names with
  | nil => simp [followAbove]
  | cons name rest ih =>
    simp only [followAbove]
    split
    · exact ih
    · split <;> simp

theorem getLast?_follow {fs : Files} {names : List String} {start place : Place} {name : String}
    (h : fs.follow start names = .ok (.inside place)) (hlast : names.getLast? = some name)
    (hname : isHere name = false) (hup : name ≠ "..") : place.getLast? = some name := by
  induction names generalizing start with
  | nil => simp at hlast
  | cons first rest ih =>
    cases rest with
    | nil =>
      obtain rfl : first = name := by simpa using hlast
      simp only [follow, hname] at h
      grind
    | cons second more =>
      rw [getLast?_cons_cons] at hlast
      rw [follow] at h
      have habove := followAbove_ne_inside (second :: more) place
      grind

theorem getLast?_resolve_ofList {fs : Files} {root : String} {start place : Place}
    {stem : List Char} (hslash : '/' ∉ ext) (hlength : 2 < ext.length)
    (h : fs.resolve root start (String.ofList (stem ++ ext)) = .ok (.inside place)) :
    ∀ name ∈ place.getLast?, ∃ x, name = String.ofList (x ++ ext) := by
  have hfollow {start : Place} {cs : List Char}
      (h : fs.follow start (Text.split "/" (String.ofList (cs ++ ext))) = .ok (.inside place)) :
      ∀ name ∈ place.getLast?, ∃ x, name = String.ofList (x ++ ext) := by
    obtain ⟨x, hx⟩ := Text.getLast?_split "/" rfl hslash cs
    have hne {short : String} (hshort : short.length ≤ 2) : String.ofList (x ++ ext) ≠ short := by
      intro heq
      rw [← heq, String.length_ofList, length_append] at hshort
      omega
    have hhere : isHere (String.ofList (x ++ ext)) = false := by
      simp only [isHere, Bool.or_eq_false_iff, beq_eq_false_iff_ne]
      exact ⟨hne (by decide), hne (by decide)⟩
    intro name hname
    rw [getLast?_follow h hx hhere (hne (by decide))] at hname
    exact ⟨x, (Option.some.inj hname).symm⟩
  simp only [resolve] at h
  split at h
  · cases h
  split at h
  · cases h
  split at h
  · cases h
  split at h
  · obtain rfl : [] = place := by simpa using h
    nofun
  split at h
  · -- The slash behind the root is no part of the extension, so the rest of the path has it.
    rename_i hprefix
    obtain ⟨rest, hrest⟩ := isPrefixOf_iff_prefix.1 hprefix
    have hparts : (root.toList ++ ['/']) ++ rest = stem ++ ext := by
      simpa using hrest
    have hdrop : (stem ++ ext).drop (root.length + 1) = rest := by
      rw [← hparts, drop_left']
      simp [String.length_toList]
    obtain ⟨more, hmore⟩ : ∃ more, rest = more ++ ext := by
      obtain ⟨more, -, hmore⟩ | ⟨cut, hroot, hcut⟩ := append_eq_append_iff.1 hparts
      · exact ⟨more, hmore⟩
      · rcases eq_nil_or_concat cut with rfl | ⟨front, last, rfl⟩
        · exact ⟨[], by simpa using hcut.symm⟩
        · have hlast : last = '/' := by
            have := congrArg getLast? hroot
            simpa using this.symm
          refine absurd ?_ hslash
          rw [hcut, hlast]
          simp
    rw [String.toList_ofList, hdrop, hmore] at h
    exact hfollow h
  split at h
  · exact absurd h (followAbove_ne_inside _ _)
  · exact hfollow h

theorem getLast?_resolve {fs : Files} {root folder name ext : String} {start place : Place}
    (hslash : '/' ∉ ext.toList) (hlength : 2 < ext.length)
    (h : fs.resolve root start (joinPath folder (name ++ ext)) = .ok (.inside place)) :
    ∀ last ∈ place.getLast?, ∃ x, last = x ++ ext := by
  obtain ⟨stem, hstem⟩ : ∃ stem, joinPath folder (name ++ ext) = stem ++ ext := by
    unfold joinPath
    split
    · exact ⟨name, rfl⟩
    · split
      · exact ⟨folder ++ name, (String.append_assoc ..).symm⟩
      · exact ⟨folder ++ "/" ++ name, (String.append_assoc ..).symm⟩
  have hlist (s : String) : s ++ ext = String.ofList (s.toList ++ ext.toList) := by
    rw [← String.toList_append, String.ofList_toList]
  rw [hstem, hlist] at h
  intro last hlast
  obtain ⟨x, hx⟩ := getLast?_resolve_ofList hslash (by rwa [String.length_toList]) h last hlast
  exact ⟨String.ofList x, by rw [hx, hlist, String.toList_ofList]⟩

theorem mem_of_append {fs fs' : Files} {place : Place} {text : String}
    (h : fs.append place text = .ok fs') :
    fs.isFolder place = false ∧ ∀ p ∈ fs'.files, p ∈ fs.files ∨ p.1 = place := by
  unfold append at h
  split at h
  · cases h
  rename_i hfree
  split at h
  · cases h
  refine ⟨by simpa using hfree, ?_⟩
  split at h
  · obtain rfl := Except.ok.inj h
    intro p hp
    obtain ⟨⟨q, t⟩, hq, rfl⟩ := mem_map.1 hp
    by_cases heq : q = place
    · simp [heq]
    · simp [heq, hq]
  · obtain rfl := Except.ok.inj h
    intro p hp
    obtain hold | hnew := mem_append.1 hp
    · exact .inl hold
    · exact .inr (by rw [mem_singleton.1 hnew])

end Files

/-! ### Compiled scripts -/

/-- A compiled script has ten parts or more, of which the third is the table of its variables. -/
def Value.isScript : Value → Bool
  | .list items _ => decide (10 ≤ items.length) && items[2]?.any (·.isTable)
  | _ => false

theorem Value.isScript_iff {v : Value} : v.isScript = true ↔ ∃ items number bindings,
    v = .list items number ∧ 10 ≤ items.length ∧ items[2]? = some bindings ∧
      isTable bindings = true := by
  cases v with
  | list items number => simp [isScript, Option.any_eq_true]
  | _ => simp [isScript]

/-- What is read from each file with the extension of compiled scripts is as in `T`. -/
def Files.Hold (T : Except Fault Value → Prop) (fs : Files) : Prop :=
  ∀ place text, (place, text) ∈ fs.files →
    (∀ name ∈ place.getLast?, ∃ stem, name = stem ++ Library.compiledExtension) →
    T (Json.read (String.ofList (unifyLines text.toList)))

namespace Files.Hold

variable {T : Except Fault Value → Prop} {fs fs' : Files}

theorem mono (h : fs.Hold T) (hfiles : ∀ p ∈ fs'.files, p ∈ fs.files) : fs'.Hold T :=
  fun place text hmem => h place text (hfiles _ hmem)

theorem makeFolder (h : fs.Hold T) {place : Place} (hmake : fs.makeFolder place = .ok fs') :
    fs'.Hold T := by
  unfold Files.makeFolder at hmake
  split at hmake
  · cases hmake
  split at hmake
  · cases hmake
  obtain rfl := Except.ok.inj hmake
  exact h.mono fun _ hp => hp

theorem appendTarget (h : fs.Hold T) {target : Target} {text : String}
    (hlast : ∀ place, target = .inside place → ∀ name ∈ place.getLast?, ∃ x, name = x ++ ".txt")
    (happend : fs.appendTarget text target = .ok fs') : fs'.Hold T := by
  cases target with
  | above => cases happend
  | inside place =>
    obtain ⟨hfree, hfiles⟩ := mem_of_append happend
    intro q t hmem hcompiled
    obtain hold | rfl := hfiles _ hmem
    · exact h q t hold hcompiled
    cases hname : q.getLast? with
    | none =>
      rw [getLast?_eq_none_iff.1 hname] at hfree
      cases hfree
    | some name =>
      obtain ⟨x, hx⟩ := hlast q rfl name hname
      obtain ⟨stem, hstem⟩ := hcompiled name hname
      have hends := congrArg (·.toList.getLast?) (hx.symm.trans hstem)
      simp [Library.compiledExtension] at hends

theorem addTranscript (h : s.files.Hold T) (text filename startTime : Value) :
    (s.after (Colloquy.addTranscript text filename startTime)).files.Hold T := by
  unfold Colloquy.addTranscript
  rw [Session.after_bind_of_ok (get_apply s)]
  extract_lets name
  refine (Looks.lift _).bind_after (T := (·.files.Hold T)) h fun target htarget => ?_
  have hlast : ∀ place, target = .inside place →
      ∀ name ∈ place.getLast?, ∃ x, name = x ++ ".txt" := by
    rintro place rfl
    exact getLast?_resolve (by decide) (by decide) (lift_ok_iff.1 htarget).1
  refine (Looks.lift _).bind_after (T := (·.files.Hold T)) h fun files hfiles => ?_
  have hfirst : files.Hold T := h.appendTarget hlast (lift_ok_iff.1 hfiles).1
  rw [Session.after_bind_of_ok (set_apply _ _)]
  refine (Looks.lift _).bind_after (T := (·.files.Hold T)) hfirst fun added _ => ?_
  refine (Looks.lift _).bind_after (T := (·.files.Hold T)) hfirst fun files' hfiles' => ?_
  exact hfirst.appendTarget hlast (lift_ok_iff.1 hfiles').1

end Files.Hold

/-- Each file with the extension of compiled scripts holds one. -/
def Files.HoldScripts (fs : Files) : Prop :=
  ∀ place text, (place, text) ∈ fs.files →
    (∀ name ∈ place.getLast?, ∃ stem, name = stem ++ Library.compiledExtension) →
    ∃ script, Json.read (String.ofList (unifyLines text.toList)) = .ok script ∧ script.isScript = true

theorem Files.holdScripts_iff {fs : Files} :
    fs.HoldScripts ↔ fs.Hold fun read => ∃ script, read = .ok script ∧ script.isScript = true :=
  Iff.rfl

namespace Library

open Session

/-- What the file of a compiled script holds.  A file that does not exist holds an empty table. -/
def stored (s : Session) (filename : String) : Except Fault Value :=
  match s.files.resolve s.root [] (joinPath (s.path scriptFolder) filename) >>=
      s.files.readTarget with
  | .ok text => Json.read text
  | .error .isDirectory => .error .isDirectory
  | .error _ => .ok .emptyTable

theorem stored_congr {t : Session} (hfiles : t.files = s.files) (hroot : t.root = s.root)
    (filename : String) : stored t filename = stored s filename := by
  simp only [stored, Session.path, hfiles, hroot]

theorem load_apply (filename : String) (s : Session) :
    load (.str filename) s =
      (if s.host.failingRead == some ((s.reads + 1 : Nat) : Int) then throw .storageFailure
        else liftM (stored s filename) : Run Value) { s with reads := s.reads + 1 } := by
  unfold load
  rw [bind_of_ok (modify_apply _ _), bind_of_ok (get_apply _)]
  dsimp only
  split
  · rfl
  · have hpath : scriptPath filename { s with reads := s.reads + 1 } =
        .ok (joinPath (s.path scriptFolder) filename) { s with reads := s.reads + 1 } := rfl
    rw [Value.needle, bind_of_ok (lift_ok_apply _ _), bind_of_ok hpath, stored]
    split <;> simp_all

theorem stored_of_load {t : Session} (h : load (.str filename) s = .ok script t) :
    stored s filename = .ok script := by
  rw [load_apply] at h
  split at h
  · cases h
  · exact (lift_ok_iff.1 h).1

theorem load_of_stored (hreads : s.host.failingRead = none) (h : stored s filename = .ok script) :
    load (.str filename) s = .ok script { s with reads := s.reads + 1 } := by
  rw [load_apply, hreads, h]
  rfl

theorem holds_of_stored {T : Except Fault Value → Prop} (h : s.files.Hold T)
    (hstored : stored s (filename ++ compiledExtension) = .ok script) :
    script = .emptyTable ∨ T (.ok script) := by
  unfold stored at hstored
  split at hstored
  · rename_i text hread
    obtain ⟨target, htarget, hread⟩ := except_bind_ok_iff.1 hread
    cases target with
    | above => cases hread
    | inside place =>
      obtain ⟨stored, hcontents, hread⟩ := except_bind_ok_iff.1 hread
      obtain rfl := Except.ok.inj hread
      have hmem : (place, stored) ∈ s.files.files := by
        unfold Files.contentsAt at hcontents
        split at hcontents
        · rename_i found hfound
          obtain ⟨⟨place', _⟩, hfind, rfl⟩ := Option.map_eq_some_iff.1 hfound
          obtain rfl := Except.ok.inj hcontents
          have hplace : place' = place := by simpa using find?_some hfind
          exact hplace ▸ mem_of_find?_eq_some hfind
        · cases hcontents
      have hplace := h place stored hmem (Files.getLast?_resolve (by decide) (by decide) htarget)
      rw [hstored] at hplace
      exact .inr hplace
  · cases hstored
  · exact .inl (Except.ok.inj hstored).symm

theorem isScript_of_stored (h : s.files.HoldScripts)
    (hstored : stored s (filename ++ compiledExtension) = .ok script) :
    script = .emptyTable ∨ script.isScript = true := by
  rcases holds_of_stored (Files.holdScripts_iff.1 h) hstored with hempty | ⟨script', heq, hscript⟩
  · exact .inl hempty
  · obtain rfl := Except.ok.inj heq
    exact .inr hscript

end Library

end Colloquy
