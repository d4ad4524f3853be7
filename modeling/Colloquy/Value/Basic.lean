/-! The values that scripts work on.  A script's variables, its compiled lines and the messages of
the host all hold values of mixed kinds, so a single type serves them. -/

namespace Colloquy

inductive Value where
  | null
  | bool (b : Bool)
  | int (n : Int)
  | float (x : Float)
  | str (s : String)
  /-- A list.  Its number tells it from lists that hold equal items; a list without a number stands
  in one place only. -/
  | list (items : List Value) (number : Option Nat)
  | tuple (items : List Value)
  | table (entries : List (Value × Value))
  | set (items : List Value)
  | record (fields : List (String × Value))
  deriving Inhabited

namespace Value

instance : Coe String Value := ⟨str⟩
instance : Coe Int Value := ⟨int⟩
instance : Coe Bool Value := ⟨bool⟩

def ofItems (items : List Value) : Value :=
  list items none

def object (fields : List (String × Value)) : Value :=
  table (fields.map fun (name, value) => (str name, value))

def emptyTable : Value :=
  table []

/-- Whether a condition on the value holds: everything but the absent value, falsehood, zero and
what is empty. -/
def truthy : Value → Bool
  | null => false
  | bool b => b
  | int n => n != 0
  | float x => x != 0.0
  | str s => !s.isEmpty
  | list items _ | tuple items | set items => !items.isEmpty
  | table entries => !entries.isEmpty
  | record _ => true

def isList : Value → Bool
  | list .. => true
  | _ => false

def isStr : Value → Bool
  | str _ => true
  | _ => false

def isTable : Value → Bool
  | table _ => true
  | _ => false

def asInt? : Value → Option Int
  | int n => some n
  | bool b => some (if b then 1 else 0)
  | _ => none

end Value

end Colloquy
