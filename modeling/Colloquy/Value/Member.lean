import Colloquy.Text.Search
import Colloquy.Value.Access

/-! Whether a value occurs in another. -/

namespace Colloquy.Value

def member (x container : Value) : Except Fault Bool :=
  match container with
  | str s => return Text.contains s (← x.needle)
  | list items _ | tuple items => .ok (items.any (·.same x))
  | set items => if x.isKey then .ok (items.any (·.same x)) else .error .wrongKind
  | table entries => if x.isKey then .ok (Entries.has entries x) else .error .wrongKind
  | record fields =>
    match x with
    | str name => .ok (field? name fields).isSome
    | _ => .error .wrongKind
  | _ => .error .wrongKind

end Colloquy.Value
