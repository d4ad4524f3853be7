import Colloquy.Library

/-! The command that runs another script.  The calling script is set aside and goes on when the
other one is left. -/

namespace Colloquy.Command

open Session

def fill (script : Value) : Edit Unit := do
  let lines ← script.item (.int 0)
  Edit.update fun c => { c with lines }
  let speaker ← script.item (.int 1)
  Edit.update fun c => { c with speaker }
  let bindings ← script.item (.int 2)
  Edit.update fun c => { c with bindings }
  let loops ← script.item (.int 3)
  Edit.update fun c => { c with loops }
  let tags ← script.item (.int 4)
  Edit.update fun c => { c with tags }
  let timeout ← script.item (.int 5)
  Edit.update fun c => { c with timeout }
  let timeoutAction ← script.item (.int 6)
  Edit.update fun c => { c with timeoutAction }

/-- The caller of a script, to go on with its next line.  What happens to its lists from now on does
not show there. -/
def suspended (c : Conversation) : Except Fault Value := do
  let c := { c with bindings := c.bindings.copied, speaker := c.speaker.copied }
  return { c with index := ← c.index.addInt 1 }.snapshot

def call (user text : Value) : Run Unit := do
  let name := Text.trim (← text.text)
  let filename := Text.replace " " "_" name
  if ← Library.hasScript filename then
    let script ← Library.load (.str (filename ++ Library.compiledExtension))
    let caller ← suspended (← current user)
    begin user (← Library.metaOf script) filename
    edit user do
      fill script
      Edit.update fun c => { c with pending := .ofItems [caller] }
  else
    dialog "NotFound" (.object [("file_to_open", .str (Text.replace "_" " " name))])
    edit user (Edit.step 1)

end Colloquy.Command
