import Colloquy.Command.Call
import Colloquy.Command.Flow
import Colloquy.Command.Rephrase
import Colloquy.Command.Request
import Colloquy.Command.Speech

/-! The commands that a line of a script can give, by name. -/

namespace Colloquy

open Session

inductive Keyword where
  | declare
  | execute
  | loop
  | formula
  | speak
  | neonSpeak
  | nameSpeak
  | case
  | exit
  | branch
  | otherwise
  | goto
  | subValues
  | subKey
  | set
  | reconvey
  | nameReconvey
  | email
  | language
  | run
  deriving DecidableEq, Repr

namespace Keyword

def name : Keyword → String
  | declare => "variable"
  | execute => "execute"
  | loop => "loop"
  | formula => "python"
  | speak => "speak"
  | neonSpeak => "neon speak"
  | nameSpeak => "name speak"
  | case => "case"
  | exit => "exit"
  | branch => "if"
  | otherwise => "else"
  | goto => "goto"
  | subValues => "sub_values"
  | subKey => "sub_key"
  | set => "set"
  | reconvey => "reconvey"
  | nameReconvey => "name reconvey"
  | email => "email"
  | language => "language"
  | run => "run"

def all : List Keyword :=
  [declare, execute, loop, formula, speak, neonSpeak, nameSpeak, case, exit, branch, otherwise,
   goto, subValues, subKey, set, reconvey, nameReconvey, email, language, run]

def ofName? (name : String) : Option Keyword :=
  all.find? (·.name == name)

def known? (command : Value) : Run (Option Keyword) := do
  match command with
  | .str name => return if (← get).initialized then ofName? name else none
  | _ => if command.isKey then return none else throw .wrongKind

def substitutes (k : Keyword) : Bool :=
  k != subKey && k != subValues

def perform (k : Keyword) (user text : Value) : Run Unit :=
  match k with
  | declare => Command.variableLine user text
  | execute => Command.execute user text
  | loop => Command.loop user text
  | formula => Command.compute user text
  | speak | neonSpeak => Command.speak user text
  | nameSpeak => Command.nameSpeak user text
  | case => Command.case user text
  | exit => exitScript user
  | branch => Command.branch user text
  | otherwise => Command.otherwise user
  | goto => Command.goto user text
  | subValues => Command.replaceValues user text
  | subKey => Command.answerPattern user text
  | set => Command.setVariable user text
  | reconvey | nameReconvey => Command.reconvey user text
  | email => Command.email user text
  | language => Command.language user text
  | run => Command.call user text

end Keyword

end Colloquy
