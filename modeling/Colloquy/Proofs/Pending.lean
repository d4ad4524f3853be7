import Colloquy.Proofs.Laws
import Colloquy.Proofs.Return
import Mathlib.Data.List.Chain

/-! The caller that a called script looks variables up in.  It is set aside when the script is
called, and the caller itself, which stands below on the stack, is not worked on until the called
script is left.  So the two differ in nothing but lists that stand in other places as well: such a
list changes in the caller when it is changed there, and not in what was set aside. -/

namespace Colloquy

open Session Value Entries Conversation Entry List

/-! ### Changes of lists -/

theorem Conversation.changedBy_append (later earlier : List Change) (c : Conversation) :
    c.changedBy (later ++ earlier) = (c.changedBy earlier).changedBy later := by
  simp [changedBy]

theorem Conversation.ListsIn.changedBy_eq {c : Conversation} {changes : List Change}
    (h : c.ListsIn fun n => ∀ change ∈ changes, change.number ≠ n) : c.changedBy changes = c := by
  refine foldr_eq_self fun change hchange => ?_
  have hother : ¬ ∀ other ∈ changes, other.number ≠ change.number :=
    fun hn => hn change hchange rfl
  simp only [changed, ListsIn.changed_eq hother _ h.1, ListsIn.changed_eq hother _ h.2]

/-- What a script knows of the one below it on the stack: nothing, if it was not called by a line of
that script, or else how the caller stood at the call.  Since then some lists may have been changed,
but nothing was done to the caller itself. -/
def Conversation.Recalls (above : Conversation) (below : Entry) : Prop :=
  above.pending = .ofItems [] ∨ ∃ c caller changes, Command.suspended c = .ok caller ∧
    above.pending = .ofItems [caller] ∧ below = .conversation (c.changedBy changes)

/-- An entry of a stack that is a script and recalls the one below it, or no script at all. -/
def Entry.Recalls (above below : Entry) : Prop :=
  ∀ c, above = .conversation c → c.Recalls below

theorem Conversation.Recalls.changedBy {c c' : Conversation} {below : Entry} (h : c.Recalls below)
    (hpending : c'.pending = c.pending) (changes : List Change) :
    c'.Recalls (below.changedBy changes) := by
  unfold Recalls at h ⊢
  rw [hpending]
  rcases h with hnone | ⟨called, caller, earlier, hcaller, hsome, rfl⟩
  · exact .inl hnone
  · exact .inr ⟨called, caller, changes ++ earlier, hcaller, hsome, by
      rw [changedBy_conversation, changedBy_append]⟩

theorem Entry.Recalls.changedBy {above below : Entry} (h : above.Recalls below)
    (changes : List Change) : (above.changedBy changes).Recalls (below.changedBy changes) := by
  intro c hc
  cases above with
  | foreign v => simp at hc
  | conversation c' =>
    rw [changedBy_conversation, conversation.injEq] at hc
    refine (h c' rfl).changedBy ?_ changes
    rw [← hc, changedBy_eq]

section

variable {c c' : Conversation} {rest : List Entry}

end

def Value.sizeOfX (caller : Value) : Option Nat := do
  let bindings ← (caller.item "variables").toOption
  (bindings.item "x" >>= Value.size).toOption

end Colloquy
