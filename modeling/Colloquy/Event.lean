import Colloquy.Value.Basic

/-! What the program asks of its host. -/

namespace Colloquy

/-- A request to the host, with the values as they were when it was made. -/
inductive Event where
  | speak (text voice : Value)
  | dialog (name : String) (data : Value) (discreet : Bool) (voice : Value)
  | email (title body address attachments : Value)
  | recording (text audio voice : Value)
  | makeActive
  | listen (name : String)
  | unlisten (name : String)
  | schedule (name : String) (delay data : Value)
  | cancel (name : String)
  | saveSettings (settings : Value) (everywhere : Bool)
  | clearDisplay
  | emit (kind : String) (data context : Value)
  | ask (kind : String) (data : Value) (reply : String) (seconds : Int)
  | waitForSilence
  | play (path : Value)
  | repository (arguments : List Value)

end Colloquy
