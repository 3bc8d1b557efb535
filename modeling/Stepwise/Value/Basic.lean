import Stepwise.Fault
import Stepwise.Number.Arith
import Stepwise.Text.CodePoint

/-!
# Values

A list is a reference to a cell of the heap, so two variables can share one list and a list can even
contain itself. All other values are immutable. A NaN equals nothing, but a list finds the very same
NaN in it, so every NaN has an identity, and so has a complex number with a NaN in it.
-/

namespace Stepwise

open Number

/-- What a variable can hold and an expression can give. -/
inductive Value
  | none
  /-- The value of an expression that could not be evaluated. -/
  | unknown
  | bool (b : Bool)
  | int (n : Int)
  /-- A float that is not a NaN. -/
  | float (x : Float)
  | nan (identity : Nat)
  /-- A complex number, with an identity if a part of it is a NaN. -/
  | complex (re im : Float) (identity : Option Nat)
  | str (s : Text)
  | list (cell : Nat)
deriving DecidableEq, Inhabited

/-- A value with the contents of its lists: what a heap shows from outside. -/
inductive Datum
  | none
  | unknown
  | bool (b : Bool)
  | int (n : Int)
  | float (x : Float)
  | complex (re im : Float)
  | str (s : Text)
  | list (items : List Datum)
deriving Inhabited

namespace Value

/-- The number that a value is. Truth values are zero and one. -/
def num? : Value → Option Scalar
  | bool b => some (.int (if b then 1 else 0))
  | int n => some (.int n)
  | float x => some (.float x)
  | nan _ => some (.float notANumber)
  | complex re im _ => some (.complex re im)
  | _ => Option.none

/-- The number that a value is. -/
def num (v : Value) : Except Fault Scalar :=
  match v.num? with
  | some n => pure n
  | Option.none => throw .undefined

/-- The integer that a value is. Truth values are zero and one. -/
def int? : Value → Option Int
  | bool b => some (if b then 1 else 0)
  | int n => some n
  | _ => Option.none

/-- A number as a value; a NaN gets its identity from the heap later. -/
def ofNum : Scalar → Value
  | .int n => int n
  | .float x => float x
  | .complex re im => complex re im Option.none

/-- The value is a float, a NaN or another one. -/
def isFloat : Value → Bool
  | float _ | nan _ => true
  | _ => false

/-- The two are one object, so a list takes them for equal without comparing them. -/
def isSame : Value → Value → Bool
  | list r, list s => r == s
  | nan i, nan j => i == j
  | complex _ _ (some i), complex _ _ (some j) => i == j
  | _, _ => false

/-- The name of the type of a value. -/
def typeName : Value → String
  | none => "NoneType"
  | unknown => "_Unknown"
  | bool _ => "bool"
  | int _ => "int"
  | float _ | nan _ => "float"
  | complex _ _ _ => "complex"
  | str _ => "str"
  | list _ => "list"

end Value

end Stepwise
