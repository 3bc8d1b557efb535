import Stepwise.Text.Quoted
import Stepwise.Text.Search
import Stepwise.Value.Heap

/-!
# Texts of values

Each dialect shows a value in two ways: `display` is what a program prints, with texts as they are,
and `describe` is how a step narrates the value, with texts quoted.
-/

namespace Stepwise

open Number Text

/-- The decimal text of an integer that is not too long. -/
def intText (n : Int) : Except Fault String :=
  if n.natAbs < Nat.pow 10 maxDigits then pure (toString n) else throw .tooManyDigits

namespace Indented

/-- The literal of a value. `outer` are the lists around it; one of them is shown as `[...]`. -/
def literal (h : Heap) : Nat → List Nat → Value → Except Fault Text
  | _, _, .none => pure "None"
  | _, _, .unknown => pure "undefined"
  | _, _, .bool b => pure (if b then "True" else "False")
  | _, _, .int n => do pure (← intText n)
  | _, _, .float x => pure (shortest x)
  | _, _, .nan _ => pure "nan"
  | _, _, .complex re im _ => pure (complexText re im)
  | _, _, .str s => pure (quote s)
  | 0, _, .list _ => pure "[...]"
  | fuel + 1, outer, .list cell =>
    if outer.contains cell then pure "[...]"
    else do
      let items ← (h.items cell).mapM (literal h fuel (cell :: outer))
      pure ("[" ++ joined ", " items ++ "]")

/-- The text of a value as an expression would write it. -/
def describe (h : Heap) (v : Value) : Except Fault Text :=
  literal h (h.cells.size + 1) [] v

/-- The text of a value in output, where strings have no quotes. -/
def display (h : Heap) (v : Value) : Except Fault Text :=
  match v with
  | .str s => pure s
  | v => describe h v

end Indented

namespace Braced

/-- A float with one place if it is integral, else by its shortest digits. -/
def floatText (x : Float) : String :=
  match Dyadic.ofFloat? x with
  | some d =>
    if d.isInteger then String.ofList (signText d.neg ++ fixed false 1 d) else shortest x
  | none => shortest x

/-- The text of a value. The fuel bounds how deep lists are inside each other. -/
def describeIn (h : Heap) : Nat → Value → Except Fault Text
  | _, .str s => pure ("\"" ++ s ++ "\"")
  | _, .float x => pure (floatText x)
  | 0, .list _ => throw .bottomless
  | fuel + 1, .list cell => do
    let items ← (h.items cell).mapM (describeIn h fuel)
    pure ("\x7b" ++ joined ", " items ++ "\x7d")
  | _, v => Indented.describe h v

/-- The text of a value as an expression would write it. -/
def describe (h : Heap) (v : Value) : Except Fault Text :=
  describeIn h (h.cells.size + 1) v

/-- The text of a value in output, where strings have no quotes. -/
def display (h : Heap) (v : Value) : Except Fault Text :=
  match v with
  | .str s => pure s
  | v => describe h v

end Braced

end Stepwise
