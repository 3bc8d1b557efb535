import Stepwise.Eval.Operator
import Stepwise.Eval.Sorting
import Stepwise.Recorder.Basic
import Stepwise.Value.Printf

/-!
# Built-in functions

The functions that programs can call without defining them. Only the output functions touch the
recorder.
-/

namespace Stepwise

open Number Text

/-- Longer sequences of numbers, and longer arrays, are refused. -/
def maxSequenceLength : Nat := 100000

namespace Builtin

/-- A function of exactly one argument. -/
def single (f : Value → HeapM Value) (args : List Value) : HeapM Value :=
  match args with
  | [v] => f v
  | _ => throw .undefined

/-- The items of a value that has items. -/
def sequence (v : Value) : HeapM (List Value) := do
  match (← get).sequence? v with
  | some items => pure items
  | none => throw .undefined

/-- How many items a sequence has. -/
def length : Value → HeapM Value
  | .str s => pure (.int s.length)
  | v => do pure (.int (← sequence v).length)

/-- How many numbers an arithmetic progression has before it reaches its end. -/
def rangeLength (start stop step : Int) : Nat :=
  if 0 < step then ((stop - start + step - 1).fdiv step).toNat
  else ((start - stop - step - 1).fdiv (-step)).toNat

/-- The list of the numbers from `start` on that stop before `stop`. -/
def rangeOf (start stop step : Int) : HeapM Value := do
  if step = 0 then throw .undefined
  let n := rangeLength start stop step
  if maxSequenceLength < n then throw .undefined
  HeapM.newList ((List.range n).map fun (i : Nat) => .int (start + step * i))

/-- The numbers up to a bound, from zero or a start on, by ones or a step. -/
def range (args : List Value) : HeapM Value := do
  match args.mapM Value.int? with
  | some [stop] => rangeOf 0 stop 1
  | some [start, stop] => rangeOf start stop 1
  | some [start, stop, step] => rangeOf start stop step
  | _ => throw .undefined

/-- The item that no later item comes before, in the given order. -/
def extreme (op : BinaryOp) (h : Heap) (best : Value) : List Value → Except Fault Value
  | [] => pure best
  | v :: rest => do
    if ← h.ordered op v best then extreme op h v rest else extreme op h best rest

/-- The extreme of several arguments, or of the items of a single one. -/
def extremeOf (op : BinaryOp) (args : List Value) : HeapM Value := do
  let items ← match args with
    | [v] => sequence v
    | args => pure args
  match items with
  | [] => throw .undefined
  | v :: rest => ofExcept (extreme op (← get) v rest)

/-- The value as a float. A float stays the same one. -/
def toFloat (v : Value) : HeapM Value := do
  if v.isFloat then pure v else HeapM.identify (.float (← ofExcept v.toFloat))

/-- Round to an integer, or to a number of places. -/
def round (args : List Value) : HeapM Value := do
  let (v, places) ← match args with
    | [v] => pure (v, none)
    | [v, .none] => pure (v, none)
    | [v, p] =>
      match p.int? with
      | some p => pure (v, some p)
      | none => throw .undefined
    | _ => throw .undefined
  match ← ofExcept v.num, places with
  | .int n, none => pure (.int n)
  | .int n, some p => pure (.int (if 0 ≤ p then n else Scalar.roundInt n p.natAbs))
  | .float x, none =>
    match Dyadic.ofFloat? x with
    | some d => pure (.int d.round)
    | none => throw .undefined
  | .float x, some p => HeapM.identify (.float (← ofExcept (Scalar.roundFloat x p)))
  | .complex _ _, _ => throw .undefined

/-- The order by which values are sorted. -/
def less (h : Heap) : Sorting.Less := h.ordered .lt

/-- A new list of the items in ascending order. -/
def sorted (v : Value) : HeapM Value := do
  let items ← sequence v
  match Sorting.sort (less (← get)) items with
  | (items, none) => HeapM.newList items
  | (_, some fault) => throw fault

/-- The items added up, from zero on. -/
def sum (v : Value) : HeapM Value := do
  (← sequence v).foldlM Operator.add (.int 0)

/-- Built-in functions of the indented dialect, output aside. -/
def indented? : String → Option (List Value → HeapM Value)
  | "len" => some (single length)
  | "range" => some range
  | "abs" => some (single fun v => do HeapM.identify (.ofNum (← ofExcept (← ofExcept v.num).abs)))
  | "min" => some (extremeOf .lt)
  | "max" => some (extremeOf .gt)
  | "str" => some (single fun v => do pure (.str (← ofExcept (Indented.display (← get) v))))
  | "int" => some (single fun v => do pure (.int (← ofExcept v.toInt)))
  | "float" => some (single toFloat)
  | "bool" => some (single fun v => do pure (.bool ((← get).isTrue v)))
  | "round" => some round
  | "sorted" => some (single sorted)
  | "reversed" => some (single fun v => do HeapM.newList (← sequence v).reverse)
  | "sum" => some (single sum)
  | "list" => some (single fun v => do HeapM.newList (← sequence v))
  | "type" => some (single fun v => pure (.str v.typeName))
  | _ => none

/-- The square root of a number that is not negative. -/
def sqrt (v : Value) : HeapM Value := do
  let x ← ofExcept (← ofExcept v.num).toFloat
  if x < 0 then throw .undefined else HeapM.identify (.float x.sqrt)

/-- Powers of floats that stay floats. -/
def realPow (x y : Float) : Except Fault Float :=
  let odd := (Dyadic.ofFloat? y).any (·.isOddInteger)
  if x.isNaN then pure (if y == 0 then 1 else x)
  else if y.isNaN then pure (if x == 1 then 1 else y)
  else if x.isInf then
    if y > 0 then pure (if odd then x else x.abs)
    else if y == 0 then pure 1
    else pure (if odd then copySign 0 x else 0)
  else if y.isInf then
    if x.abs == 1 then pure 1
    else if (y > 0) == (x.abs > 1) then pure infinity
    else pure 0
  else
    let r := Float.pow x y
    if r.isNaN || r.isInf && x == 0 then throw .undefined
    else if r.isInf then throw .tooLarge
    else pure r

/-- The power of two real numbers, always a float. -/
def pow (args : List Value) : HeapM Value := do
  match args with
  | [v, w] =>
    let x ← ofExcept (← ofExcept v.num).toFloat
    let y ← ofExcept (← ofExcept w.num).toFloat
    HeapM.identify (.float (← ofExcept (realPow x y)))
  | _ => throw .undefined

/-- The number of items in front of the first zero. -/
def beforeZero (h : Heap) : List Value → Except Fault Nat
  | [] => pure 0
  | v :: rest => do
    if ← h.eq v (.int 0) then pure 0 else pure (1 + (← beforeZero h rest))

/-- The length of a text, or of an array of characters up to its terminator. -/
def strlen (args : List Value) : HeapM Value := do
  match args.head? with
  | some (.list cell) =>
    let h ← get
    pure (.int (← ofExcept (beforeZero h (h.items cell))))
  | some (.str s) => pure (.int s.length)
  | _ => throw .undefined

/-- Built-in functions of the braced dialect, output aside. -/
def braced? : String → Option (List Value → HeapM Value)
  | "abs" => some (single fun v => do pure (.int (← ofExcept v.toInt).natAbs))
  | "fabs" => some (single fun v => do HeapM.identify (.float (← ofExcept v.toFloat).abs))
  | "sqrt" => some (single sqrt)
  | "pow" => some pow
  | "strlen" => some strlen
  | _ => none

/-- Write the arguments with a blank between them. -/
def print (args : List Value) : Run Value := do
  let texts ← Run.fromHeap fun h => args.mapM (Indented.display h)
  Record.write (joined " " texts)
  pure .none

/-- The text that `puts` writes. -/
def putsText (h : Heap) (args : List Value) : Except Fault Text :=
  match args with
  | v :: _ => Braced.display h v
  | [] => pure ""

/-- Write a text and give its length. -/
def writeCounted (text : Text) : Run Value := do
  Record.write text
  pure (.int text.length)

/-- Write the arguments as a format says, and give the length of the text. -/
def printf (args : List Value) : Run Value := do
  match args with
  | fmt :: rest => writeCounted (← Run.fromHeap fun h => Printf.format h fmt rest)
  | [] => throw .undefined

/-- Write the first argument, or an empty line, and give its length. -/
def puts (args : List Value) : Run Value := do
  writeCounted (← Run.fromHeap fun h => putsText h args)

/-- The built-in function with this name. -/
def find? (dialect : Dialect) (name : String) : Option (List Value → Run Value) :=
  match dialect with
  | .indented =>
    if name = "print" then some print
    else (indented? name).map fun f args => Run.onHeap (f args)
  | .braced =>
    if name = "printf" then some printf
    else if name = "puts" then some puts
    else (braced? name).map fun f args => Run.onHeap (f args)

end Builtin

end Stepwise
