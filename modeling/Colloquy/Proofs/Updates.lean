import Colloquy.Proofs.History
import Colloquy.Proofs.Queries

/-! Keeping the scripts up to date.  An update that fails leaves all files as they are if the folder
of scripts is a repository.  If it is none, the scripts are put aside before they are fetched, and a
failure after that leaves them there. -/

namespace Colloquy.Maintenance

open Session Library

variable {α β : Type} {s t : Session} {m : Run α}

/-- Leaves everything but the events as it was, whether it returns or fails. -/
def Tells (m : Run α) : Prop :=
  ∀ s, ∃ events, (∃ a, m s = .ok a { s with events }) ∨
    ∃ fault, fault ≠ .stepLimit ∧ fault ≠ .notRepository ∧ m s = .error fault { s with events }

namespace Tells

theorem pure (a : α) : Tells (pure a : Run α) :=
  fun s => ⟨s.events, .inl ⟨a, rfl⟩⟩

theorem bind {f : α → Run β} (hm : Tells m) (hf : ∀ a, Tells (f a)) : Tells (m >>= f) := by
  intro s
  obtain ⟨events, ⟨a, hok⟩ | ⟨fault, hlimit, hkind, herror⟩⟩ := hm s
  · rw [bind_of_ok hok]
    exact hf a { s with events }
  · exact ⟨events, .inr ⟨fault, hlimit, hkind, bind_of_error herror⟩⟩

theorem tell (event : Event) : Tells (tell event) :=
  fun s => ⟨event :: s.events, .inl ⟨(), rfl⟩⟩

theorem guarded {fault : Fault} (hlimit : fault ≠ .stepLimit) (hkind : fault ≠ .notRepository)
    (p : Session → Bool) : Tells (do if p (← get) then throw fault : Run Unit) := by
  intro s
  refine ⟨s.events, ?_⟩
  cases hp : p s with
  | true => exact .inr ⟨fault, hlimit, hkind, (bind_of_ok rfl).trans (by rw [hp]; rfl)⟩
  | false => exact .inl ⟨(), (bind_of_ok rfl).trans (by rw [hp]; rfl)⟩

theorem repository (arguments : List Value) : Tells (repository arguments) :=
  bind (tell _) fun _ => guarded (by decide) (by decide) fun s => s.host.refuses s.events

theorem pull (branch : Value) : Tells (pull branch) :=
  bind (repository _) fun _ => guarded (by decide) (by decide) fun s => !s.host.canPull

theorem correctRemotes (remote branch : Value) (urls : List Value) :
    Tells (correctRemotes remote branch urls) := by
  induction urls with
  | nil => exact pure ()
  | cons url rest ih =>
    unfold Maintenance.correctRemotes
    split
    · exact bind (repository _) fun _ => bind (repository _) fun _ => bind (repository _) fun _ =>
        bind (pull branch) fun _ => bind (repository _) fun _ => ih
    · exact ih

end Tells

/-! ### Folders that are moved -/

/-- The scripts of `s` are put aside in `t`: they are in a backup, which is in the one that there was
before if there was one. -/
structure Stowed (s t : Session) : Prop where
  files : t.files.files = (s.files.rename scriptFolder
    (if s.files.isFolder backupFolder then backupFolder ++ scriptFolder else backupFolder)).files
  rest : ∃ files events, t = { s with files, events }

theorem Stowed.absent (h : Stowed s t) (place : Place) :
    t.files.isFile (scriptFolder ++ place) = false := by
  rw [Bool.eq_false_iff]
  intro hfile
  simp only [Files.isFile, h.files, Files.rename, List.any_map, List.any_eq_true] at hfile
  obtain ⟨file, -, hplace⟩ := hfile
  simp only [Function.comp, beq_iff_eq, Files.relocate] at hplace
  split at hplace
  · split at hplace <;> simp [backupFolder, scriptFolder] at hplace
  · rename_i hout
    exact hout (List.isPrefixOf_iff_prefix.2 (hplace ▸ List.prefix_append ..))

/-- What is left of a session if its update fails. -/
inductive Failed (s t : Session) : Prop
  | kept (events : List Event) (h : t = { s with events })
  | stowed (hremotes : s.host.remotes = none) (h : Stowed s t)

namespace Failed

theorem tell (h : Failed s t) (events : List Event) : Failed s { t with events } := by
  cases h with
  | kept events' h =>
    subst h
    exact .kept events rfl
  | stowed hremotes h =>
    obtain ⟨files, events', rfl⟩ := h.rest
    exact .stowed hremotes ⟨h.files, files, events, rfl⟩

end Failed

/-- Whenever it fails, it is not for the step limit, and `P` holds of what is left. -/
def Fails (m : Run α) (s : Session) (P : Session → Prop) : Prop :=
  ∀ fault t, m s = .error fault t → fault ≠ .stepLimit ∧ P t

namespace Fails

variable {f : α → Run β} {P : Session → Prop}

end Fails

end Colloquy.Maintenance
