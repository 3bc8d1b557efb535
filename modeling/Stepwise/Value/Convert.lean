import Stepwise.Number.Numeral
import Stepwise.Value.Heap

/-!
# Conversions

Values as integers, floats and sequences of items, as the built-in functions and the output formats
ask for them.
-/

namespace Stepwise

open Number

namespace Value

/-- The value as an integer: numbers are cut toward zero and texts are read. -/
def toInt : Value → Except Fault Int
  | str s =>
    match s.chars? with
    | some text => readInt text
    | Option.none => throw .undefined
  | v => do (← v.num).truncate

/-- The value as a float: texts are read. -/
def toFloat : Value → Except Fault Float
  | str s =>
    match s.chars?.bind readFloat? with
    | some x => pure x
    | Option.none => throw .undefined
  | v => do (← v.num).toFloat

end Value

/-- The code points of a text, each a text of its own. -/
def charValues (s : Text) : List Value :=
  s.map fun p => .str [p]

/-- The items of a list or the characters of a text. -/
def Heap.sequence? (h : Heap) : Value → Option (List Value)
  | .list cell => some (h.items cell)
  | .str s => some (charValues s)
  | _ => none

end Stepwise
