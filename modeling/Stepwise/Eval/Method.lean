import Stepwise.Eval.Builtin
import Stepwise.Text.Blank
import Stepwise.Text.Case
import Stepwise.Text.Occurrence

/-!
# Methods of lists and texts

Most methods of lists change the list in place, which every variable that shares it sees.
-/

namespace Stepwise

open Text

namespace Method

/-- A bound of a slice: negative ones count from the end, and all are brought into the sequence. -/
def clamp (length : Nat) (i : Int) : Nat :=
  if i < 0 then (i + length).toNat else min i.toNat length

/-- Bounds of a slice from optional arguments. Some methods take none for a missing bound. -/
def bounds (length : Nat) (noneAllowed : Bool) (args : List Value) : Except Fault (Nat × Nat) := do
  let bound (v : Value) (missing : Nat) : Except Fault Nat :=
    match v, v.int? with
    | .none, _ => if noneAllowed then pure missing else throw .undefined
    | _, some i => pure (if i < 0 then (i + length).toNat else i.toNat)
    | _, none => throw .undefined
  match args with
  | [] => pure (0, length)
  | [start] => pure (← bound start 0, length)
  | [start, stop] =>
    let start ← bound start 0
    pure (start, min (← bound stop length) length)
  | _ => throw .undefined

/-- Give a list other items. -/
def writeList (cell : Nat) (items : List Value) : HeapM Value := do
  set ((← get).write cell items)
  pure .none

/-- Remove the item at a position and return it. -/
def pop (cell : Nat) (items : List Value) (index : Int) : HeapM Value := do
  match (Operator.position? items.length index).bind fun i => (items[i]?).map (Prod.mk i) with
  | some (i, v) =>
    let _ ← writeList cell (items.eraseIdx i)
    pure v
  | none => throw .undefined

/-- The position of the first equal item between two bounds. -/
def indexOf (h : Heap) (items : List Value) (item : Value) (start stop : Nat) :
    Except Fault Value := do
  match ← h.position? item start ((items.take stop).drop start) with
  | some i => pure (.int i)
  | none => throw .undefined

/-- Sort a list in place. While it is sorted it is empty, which matters if it contains itself. -/
def sort (cell : Nat) (items : List Value) : HeapM Value := do
  let (arranged, fault) := Sorting.sort (Builtin.less ((← get).write cell [])) items
  let result ← writeList cell arranged
  match fault with
  | none => pure result
  | some fault => throw fault

/-- Methods of a list. -/
def ofList (cell : Nat) (name : String) (args : List Value) : HeapM Value := do
  let h ← get
  let items := h.items cell
  match name, args with
  | "append", [v] => writeList cell (items ++ [v])
  | "pop", [] => pop cell items (-1)
  | "pop", [v] =>
    match v.int? with
    | some i => pop cell items i
    | none => throw .undefined
  | "insert", [v, w] =>
    match v.int? with
    | some i =>
      if Operator.fitsWord i then
        let place := clamp items.length i
        writeList cell (items.take place ++ w :: items.drop place)
      else throw .undefined
    | none => throw .undefined
  | "remove", [v] =>
    match ← ofExcept (h.position? v 0 items) with
    | some i => writeList cell (items.eraseIdx i)
    | none => throw .undefined
  | "extend", [v] => do writeList cell (items ++ (← Builtin.sequence v))
  | "index", v :: rest => do
    let (start, stop) ← ofExcept (bounds items.length false rest)
    ofExcept (indexOf h items v start stop)
  | "count", [v] => do pure (.int (← ofExcept (h.countItem v items)))
  | "reverse", _ => writeList cell items.reverse
  | "sort", _ => sort cell items
  | _, _ => throw .undefined

/-- Search in the slice of a text that the bounds give, if there is one. -/
def slice? (text : Text) (args : List Value) : Except Fault (Option (Nat × Text)) := do
  let (start, stop) ← bounds text.length true args
  pure (if start ≤ stop then some (start, (text.take stop).drop start) else none)

/-- Methods of a text. -/
def ofText (s : Text) (name : String) (args : List Value) : Except Fault Value := do
  match name, args with
  | "upper", _ => pure (.str (upper s))
  | "lower", _ => pure (.str (lower s))
  | "strip", [] => pure (.str (strip isBlankPoint s))
  | "strip", [.none] => pure (.str (strip isBlankPoint s))
  | "strip", [.str set] => pure (.str (strip set.contains s))
  | "count", .str t :: rest =>
    match ← slice? s rest with
    | some (_, inside) => pure (.int (occurrences t inside))
    | none => pure (.int 0)
  | "index", .str t :: rest =>
    match (← slice? s rest).bind fun (start, inside) =>
        (find? t inside).map (start + ·) with
    | some i => pure (.int i)
    | none => throw .undefined
  | _, _ => throw .undefined

/-- Call a method of a value. -/
def call (receiver : Value) (name : String) (args : List Value) : HeapM Value := do
  match receiver with
  | .list cell => ofList cell name args
  | .str s => ofExcept (ofText s name args)
  | _ => throw .undefined

end Method

end Stepwise
