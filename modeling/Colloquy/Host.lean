import Colloquy.Event
import Colloquy.Value.Access
import Colloquy.Value.Shared

/-! The host as the program sees it: the messages it sends and the answers that it gives. -/

namespace Colloquy

structure Message where
  kind : String := ""
  data : Entries := []
  context : Entries := []

namespace Message

def user (m : Message) : Value :=
  (Entries.find? "user" m.context).getD "local"

def userOf : Option Message → Value
  | some m => m.user
  | none => "local"

def reply (m : Message) (kind : String) (data context : Entries) : Message :=
  { kind, data, context := Entries.merge m.context context }

def fromMobile (m : Message) : Value :=
  (Entries.find? "mobile" m.context).getD (.bool false)

def isAddressed (m : Message) : Value :=
  (Entries.find? "for_neon" m.context).getD (.bool true)

end Message

/-- The positions of `n` items in the order in which they come by chance. -/
structure Chance where
  order (n : Nat) : List Nat
  perm (n : Nat) : (order n).Perm (List.range n)

namespace Chance

/-- The positions one after the other from a given one on, going round at the end. -/
def turning (start : Int) : Chance where
  order n := (List.range n).drop (start % n).toNat ++ (List.range n).take (start % n).toNat
  perm _ := List.perm_append_comm.trans (.of_eq (List.take_append_drop ..))

def shuffle {α : Type} (chance : Chance) (items : List α) : List α :=
  (chance.order items.length).filterMap (items[·]?)

end Chance

structure Host where
  settings : Value := .emptyTable
  /-- Whether the host is one that allows scripts to be updated. -/
  complete : Value := .bool true
  hasDisplay : Value := .bool false
  preferences : Value := .emptyTable
  random : Int := 0
  chance : Chance := .turning random
  pages : Entries := []
  replies : Entries := []
  skillAnswers : Entries := []
  /-- How often a player is found busy before it is done; negative if there is no player. -/
  busyPolls : Int := 0
  /-- The number of the read of a compiled script that fails, if one does. -/
  failingRead : Option Int := none
  canSpeak : Bool := true
  remotes : Option Value := none
  canPull : Bool := true
  /-- Whether the operation on that repository fails that was asked for last. -/
  refuses : List Event → Bool := fun _ => false

namespace Host

def numbered (host : Host) : Host × Nat :=
  let (preferences, next) := host.preferences.numbered 0
  let (skillAnswers, next) := Value.numberedEntries next host.skillAnswers
  ({ host with preferences, skillAnswers }, next)

def changed (change : Value.Change) (host : Host) : Host :=
  { host with
    preferences := host.preferences.changed change
    skillAnswers := Value.changedEntries change host.skillAnswers }

end Host

end Colloquy
