import Colloquy.Session

/-! Leaving a script.  The script that called it goes on with its next line; a user without a
further script is dropped. -/

namespace Colloquy

open Session

def timeoutEvent (user : Value) : String :=
  "CC_" ++ user.display ++ "_conversation"

def exitScript (user : Value) : Run Unit := do
  let current? ← currentOf user
  setDatum "speaker" .null
  let c ← present current?
  dialog "Exiting" (.object [("file_name", .str (Text.replace "_" " " c.filename.display))])
  tell (.cancel (timeoutEvent user))
  let m ← managerOf user
  let (popped, m) := m.pop
  setManager user m
  let some left ← liftM popped | throw .missingOperation
  setManager user (← liftM (m.publish left))
  if m.depth != 0 then edit user (Edit.step 1)
  else
    dropManager user
    if (← get).host.hasDisplay.truthy then tell .clearDisplay

end Colloquy
