import Stepwise.Trace
import Stepwise.Value.Show

/-!
# Events as JSON

The text of events in JSON: one line, a blank after commas and colons, and only ASCII characters.
Complex numbers cannot be written, nor integers of too many digits.
-/

namespace Stepwise.Json

open Number Text

/-- Why a value cannot be written. -/
inductive Obstacle
  | tooManyDigits
  | complexNumber
deriving DecidableEq

/-- A code unit of a code point that is not ASCII. -/
def unitEscape (n : Nat) : List Char := '\\' :: 'u' :: hexDigits 4 n

/-- A code point beyond the first plane is written as two code units. -/
def pointEscape (p : CodePoint) : List Char :=
  let n := p.val
  if n < 0x10000 then unitEscape n
  else unitEscape (0xD800 + (n - 0x10000) / 0x400) ++ unitEscape (0xDC00 + (n - 0x10000) % 0x400)

/-- The code point stands for itself in a text. -/
def isPlain (p : CodePoint) : Bool :=
  32 ≤ p.val && p.val < 127 && p != '"' && p != '\\'

/-- A code point inside a string, escaped if it is not plain. -/
def point (p : CodePoint) : List Char :=
  if isPlain p then [Char.ofNat p.val]
  else if p == '"' then ['\\', '"']
  else if p == '\\' then ['\\', '\\']
  else if p == '\n' then ['\\', 'n']
  else if p == '\r' then ['\\', 'r']
  else if p == '\t' then ['\\', 't']
  else if p == '\x08' then ['\\', 'b']
  else if p == '\x0c' then ['\\', 'f']
  else pointEscape p

/-- A text in double quotes. -/
def string (t : Text) : String :=
  (t.foldl (fun written p => (point p).foldl String.push written) "\"").push '"'

/-- Written items in brackets. -/
def array (items : List String) : String :=
  "[" ++ joinWith ", " items ++ "]"

/-- Named fields in braces, in their order. -/
def object (fields : List (String × String)) : String :=
  "\x7b" ++ joinWith ", " (fields.map fun (name, text) => string name ++ ": " ++ text) ++ "\x7d"

/-- A float, where NaN and the infinities have names. -/
def float (x : Float) : String :=
  if x.isNaN then "NaN"
  else if x.isInf then if x > 0 then "Infinity" else "-Infinity"
  else String.ofList (shortestText true x)

/-- An integer, unless it has too many digits to be written. -/
def int (n : Int) : Except Obstacle String :=
  match intText n with
  | .ok text => pure text
  | .error _ => throw .tooManyDigits

mutual

/-- A value of a step. Unknown values are null, and complex numbers cannot be written. -/
def datum : Datum → Except Obstacle String
  | .none | .unknown => pure "null"
  | .bool b => pure (if b then "true" else "false")
  | .int n => int n
  | .float x => pure (float x)
  | .complex _ _ => throw .complexNumber
  | .str s => pure (string s)
  | .list items => do pure (array (← data items))

/-- The values of a list. -/
def data : List Datum → Except Obstacle (List String)
  | [] => pure []
  | d :: rest => do
    let text ← datum d
    pure (text :: (← data rest))

end

/-- Variables with their values, in order. -/
def table (t : Table Datum) : Except Obstacle String := do
  pure (object (← t.entries.mapM fun (name, d) => do pure (name, ← datum d)))

/-- A call under way. -/
def frame (f : Frame) : Except Obstacle String := do
  pure (object [("functionName", string f.function), ("args", ← table f.args)])

/-- A recorded step, its fields in a fixed order. -/
def step (s : Step) : Except Obstacle String := do
  let line ← int s.line
  let bindings ← table s.bindings
  let callStack ← s.callStack.mapM frame
  pure (object
    [("line", line), ("kind", string s.kind.name), ("explanation", string s.explanation),
     ("variables", bindings), ("callStack", array callStack),
     ("output", array (s.output.map string))])

/-- The kind of error that an event reports. -/
def overrunType : String := "StepBudgetExceeded"

/-- A step, or the error that stands for a run that was given up. -/
def event : Event → Except Obstacle String
  | .step s => step s
  | .overrun fault =>
    pure (object
      [("event", string "error"), ("error_type", string overrunType),
       ("error_message", string fault.message)])

/-- The text of all events. -/
def events (all : List Event) : Except Obstacle String := do
  pure (array (← all.mapM event))

end Stepwise.Json
