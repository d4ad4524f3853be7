/-! Why an operation fails. -/

namespace Colloquy

inductive Fault where
  | missingEntry
  /-- The value is of a kind that does not have the operation or the field. -/
  | missingOperation
  | wrongKind
  | outOfRange
  /-- The operand is of the right kind, but its content is of no use. -/
  | badValue
  | tooLarge
  | unknownName
  | missingFile
  | isDirectory
  /-- The path goes through something that is no directory, or names it where one is needed. -/
  | notDirectory
  | fileExists
  | malformedJson
  | malformedFormula
  | badIndent
  | tooDeep
  | hostFailure
  | storageFailure
  | notRepository
  | protectedField
  | foreignEntry
  /-- The step has continued a script more often than it may. -/
  | stepLimit
  deriving DecidableEq, Repr, Inhabited

namespace Fault

def message? : Fault → Option String
  | protectedField => some "Cannot set a protected or private attribute"
  | foreignEntry => some "Last item in stack in of the Conversation class"
  | _ => none

end Fault

end Colloquy
