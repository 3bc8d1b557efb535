import Stepwise.Text.Search

/-!
# Faults

What stops a computation. Most faults are recovered where an expression is evaluated, and the
expression then has the unknown value. The others end the whole run.
-/

namespace Stepwise

/-- The most decimal digits an integer may have when it is read from text or written as text. -/
def maxDigits : Nat := 4300

/-- The most items or characters that can be held. -/
def maxLength : Nat := 100000000

/-- Why an operation, or the whole run, gives no result. -/
inductive Fault
  /-- The operation has no value on these operands. -/
  | undefined
  /-- An integer of too many digits was to be read from text or written as text. -/
  | tooManyDigits
  /-- An integer is too large to be a float. -/
  | tooLarge
  /-- An `elif` line has no colon. -/
  | brokenBranch
  /-- A list contains itself. -/
  | bottomless
  /-- A text or a list would be too long to be held. -/
  | outOfMemory
  /-- The kind of a step is not one of the known kinds. -/
  | unknownKind (kind : String)
  /-- More steps than allowed. -/
  | stepBudget (limit : Int)
  /-- A call beyond the allowed depth. -/
  | callDepth (limit : Int) (function : String)
  /-- A call whose body went deeper than can be followed, at this depth. -/
  | nestedCalls (depth : Nat) (function : String)
deriving DecidableEq, Inhabited

namespace Fault

/-- Faults of an expression, which then has the unknown value. -/
def isRecoverable : Fault → Bool
  | undefined | tooManyDigits | tooLarge | brokenBranch => true
  | _ => false

/-- Faults that say that a run was given up because it grew too long or too deep. -/
def isBudget : Fault → Bool
  | stepBudget _ | callDepth _ _ | nestedCalls _ _ => true
  | _ => false

def message : Fault → String
  | undefined => "The expression has no value"
  | tooManyDigits => s!"More than {maxDigits} digits"
  | tooLarge => "Integer too large for a float"
  | brokenBranch => "An elif without a colon"
  | bottomless => "A list contains itself"
  | outOfMemory => "Out of memory"
  | unknownKind kind => s!"Unknown step kind {kind}"
  | stepBudget limit => s!"Max steps exceeded ({limit})"
  | callDepth limit function => s!"Max call depth exceeded ({limit}) calling {function}"
  | nestedCalls depth function =>
    s!"Max call depth exceeded ({depth} nested calls) calling {function}"

end Fault

end Stepwise
