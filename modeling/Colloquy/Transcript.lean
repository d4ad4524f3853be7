import Colloquy.Session

/-! Transcripts: what was said while a script ran, in a file for each run. -/

namespace Colloquy

open Session

def nowText : String := "NOW"

def addTranscript (text : Value) (filename startTime : Value) : Run Unit := do
  let s ← get
  let name := filename.display ++ "_" ++ startTime.display ++ ".txt"
  let target ← s.files.resolve s.root [] (joinPath (s.path transcriptFolder) name)
  let files ← s.files.appendTarget "" target
  set { s with files }
  let files ← files.appendTarget (← text.needle) target
  set { s with files }

def noteSaid (c : Conversation) (who : String) (what : Value) : Run Unit :=
  addTranscript (.str (nowText ++ ", " ++ who ++ " said: \"" ++ what.display ++ "\" \n"))
    c.filename (.int c.startTime)

end Colloquy
